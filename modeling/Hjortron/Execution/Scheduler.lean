import Hjortron.Assert
import Hjortron.Misc.FlatMemory

/-!
# `kernel/src/execution/scheduler.c` and `kernel/src/execution/syscall.c`

Process structures are known by their addresses, with `none` for NULL, and the process list is
the sequence of addresses that `list_insert` appends to and `list_delete` removes from. What a
stack pointer points to is left open: `F` is the type of the register frames an interrupt leaves
on the stack of the interrupted context.

`scheduler_switch` does not return to its caller: it loads a stack pointer and jumps to
`isr_restore`. The functions that may end there give back the frame that is resumed; `none` says
that the call returned. Messages written by `info` and `error` are left out, and so are the
fields `id`, `ebp` and `eip` of a process, which only they and `process_destroy` read.
-/

namespace Hjortron

variable {F : Type}

/-- `PROCESS_STATE_*`. -/
inductive ProcessState where
  | waiting
  | running
  | sleeping
  deriving DecidableEq, Repr

/-- `process_t`. -/
structure Process (F : Type) where
  esp : F
  state : ProcessState
  sleep : Word
  deriving DecidableEq, Repr

/-- The static variables of `scheduler.c` and the process structures they lead to. -/
structure Scheduler (F : Type) where
  list : List Word
  process : Word → Process F
  current : Option Word
  enabled : Bool
  esp : Option F

/-! ## The process list -/

/-- `list_find`. A node is the part of the list from it on; `[]` is NULL. -/
def listFind (list : List Word) (value : Word) : List Word :=
  list.dropWhile (· ≠ value)

/-- `list_insert`. -/
def listInsert (list : List Word) (value : Word) : List Word :=
  list ++ [value]

/-- `list_delete`. -/
def listDelete (list : List Word) (value : Word) : Except Halt (List Word) := do
  assert (listFind list value ≠ []) "node"
  return list.erase value

/-! ## `scheduler.c` -/

/-- `PIT_INTERRUPTS_PER_SECOND`. -/
def pitInterruptsPerSecond : Word := 100

/-- `scheduler_init`, on process structures that nothing has been written to yet. The static
`esp` starts out as NULL. -/
def schedulerInit (process : Word → Process F) : Scheduler F :=
  { list := [], process, current := none, enabled := false, esp := none }

/-- The loop of `scheduler_next`, with the number of iterations left. -/
def schedulerNextLoop (s : Scheduler F) : Nat → List Word → Except Halt (Option Word)
  | 0, _ => .ok none
  | _ + 1, [] => .error .nullPointer
  | n + 1, _ :: next =>
    match if next = [] then s.list else next with
    | [] => .error .nullPointer
    | process :: rest =>
      if (s.process process).state = .waiting then .ok (some process)
      else schedulerNextLoop s n (process :: rest)

/-- `scheduler_next`. -/
def schedulerNext (s : Scheduler F) : Except Halt (Option Word) :=
  let node := match s.current with
    | none => s.list
    | some current => listFind s.list current
  schedulerNextLoop s s.list.length node

/-- Overwrites the state of a process. -/
def Scheduler.setState (s : Scheduler F) (process : Word) (state : ProcessState) : Scheduler F :=
  { s with process := Function.update s.process process { s.process process with state } }

/-- Overwrites the saved stack pointer of a process. -/
def Scheduler.setEsp (s : Scheduler F) (process : Word) (esp : F) : Scheduler F :=
  { s with process := Function.update s.process process { s.process process with esp } }

/-- Overwrites the sleep counter of a process. -/
def Scheduler.setSleep (s : Scheduler F) (process sleep : Word) : Scheduler F :=
  { s with process := Function.update s.process process { s.process process with sleep } }

/-- `scheduler_switch`. -/
def schedulerSwitch (s : Scheduler F) : Except Halt (Scheduler F × F) := do
  let current ← schedulerNext s
  match current with
  | none =>
    match s.esp with
    | none => .error (.assertion "esp")
    | some esp => return ({ s with current := none }, esp)
  | some process =>
    let s := { s with current := some process }
    return (s.setState process .running, (s.process process).esp)

/-- What the loop over the sleep counters does to one process. -/
def Process.decrementSleep (process : Process F) : Process F :=
  if process.state = .sleeping then
    if process.sleep = 0 then { process with state := .waiting }
    else { process with sleep := process.sleep - 1 }
  else process

/-- The loop over the sleep counters. -/
def decrementSleepCounters (s : Scheduler F) : List Word → Scheduler F
  | [] => s
  | node :: next =>
    decrementSleepCounters
      { s with process := Function.update s.process node (s.process node).decrementSleep } next

/-- `scheduler_handle_irq`. -/
def schedulerHandleIrq (s : Scheduler F) (r : F) : Except Halt (Scheduler F × Option F) := do
  if !s.enabled then
    return (s, none)
  let s := decrementSleepCounters s s.list
  let s := match s.current with
    | none => { s with esp := some r }
    | some current => (s.setEsp current r).setState current .waiting
  let (s, esp) ← schedulerSwitch s
  return (s, some esp)

/-- `scheduler_enable`. -/
def schedulerEnable (s : Scheduler F) : Scheduler F := { s with enabled := true }

/-- `scheduler_disable`. -/
def schedulerDisable (s : Scheduler F) : Scheduler F := { s with enabled := false }

/-- `scheduler_process`. -/
def schedulerProcess (s : Scheduler F) : Option Word := s.current

/-- `scheduler_start`. -/
def schedulerStart (s : Scheduler F) : Option Word → Except Halt (Scheduler F)
  | none => .error (.assertion "process")
  | some process => return { s with list := listInsert s.list process }

/-- `scheduler_stop`. -/
def schedulerStop (s : Scheduler F) : Option Word → Except Halt (Scheduler F × Option F)
  | none => .error (.assertion "process")
  | some process => do
    let list ← listDelete s.list process
    let s := { s with list }
    if s.current = some process then
      let (s, esp) ← schedulerSwitch { s with current := none }
      return (s, some esp)
    else
      return (s, none)

/-- `scheduler_sleep`. The number of ticks is computed in 32 bits. -/
def schedulerSleep (s : Scheduler F) (ms : Word) (r : F) :
    Option Word → Except Halt (Scheduler F × Option F)
  | none => .error (.assertion "process")
  | some process => do
    let ticks := ms * pitInterruptsPerSecond / 1000
    let s := (s.setState process .sleeping).setSleep process ticks
    if s.current = some process then
      let s := s.setEsp process r
      let (s, esp) ← schedulerSwitch { s with current := none }
      return (s, some esp)
    else
      return (s, none)

/-! ## `syscall.c` -/

/-- The registers of a frame that `syscall_handle_irq` reads. -/
structure Regs where
  irq : Word
  eax : Word
  ebx : Word
  deriving DecidableEq, Repr

/-- `SYSCALL_STOP`. -/
def syscallStop : Word := 0x1

/-- `SYSCALL_SLEEP`. -/
def syscallSleep : Word := 0x23

/-- `SYSCALL_EXIT`. -/
def syscallExit : Word := 0x3C

/-- `SYSCALL_TEST`. -/
def syscallTest : Word := 0xFF

/-- `syscall_handle_irq`. Only `SYSCALL_TEST` writes to the memory of the caller. -/
def syscallHandleIrq (s : Scheduler F) (mem : Mem) (regs : Regs) (r : F) :
    Except Halt (Scheduler F × Mem × Option F) := do
  assert (regs.irq = 0x80) "r->irq == 0x80"
  let process := schedulerProcess s
  if regs.eax = syscallStop ∨ regs.eax = syscallExit then
    let (s, esp) ← schedulerStop s process
    return (s, mem, esp)
  else if regs.eax = syscallSleep then
    let (s, esp) ← schedulerSleep s regs.ebx r process
    return (s, mem, esp)
  else if regs.eax = syscallTest then
    return (s, mem.store32 regs.ebx 0x1234, none)
  else
    return (s, mem, none)

end Hjortron
