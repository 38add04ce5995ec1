import Hjortron.Execution.Scheduler
import Hjortron.Misc.Run

/-!
# The processor around the scheduler

An interrupt pushes the registers of the context on the CPU onto its stack, calls the handler
and ends in `isr_restore`, which pops a frame: the one that was pushed, or the one a switch has
loaded. Every frame is told apart from all others by a serial number, and it remembers the
context whose registers it holds. The machine also keeps what the kernel does not: the frame
every context was last interrupted in, the frames that have been popped, latest first, and the
processes that `scheduler_switch` has selected, latest first.
-/

namespace Hjortron

/-- Whose registers are on the CPU. -/
inductive Context where
  | kernel
  | process (process : Word)
  deriving DecidableEq, Repr

/-- A register frame on a stack. -/
structure Frame where
  owner : Context
  serial : Nat
  deriving DecidableEq, Repr

structure Machine where
  sched : Scheduler Frame
  mem : Mem
  cpu : Context
  /-- The number of frames pushed so far. -/
  clock : Nat
  saved : Context → Option Frame
  resumed : List Frame
  selected : List Word

/-- The machine after `scheduler_init`. -/
def Machine.boot (mem : Mem) (process : Word → Process Frame) : Machine :=
  { sched := schedulerInit process
    mem
    cpu := .kernel
    clock := 0
    saved := fun _ => none
    resumed := []
    selected := [] }

/-- The frame an interrupt pushes. -/
def Machine.frame (m : Machine) : Frame := ⟨m.cpu, m.clock⟩

/-- The end of an interrupt whose handler has left the scheduler as `sched` and the memory as
`mem`, and has switched to the frame `esp`, if any. -/
def Machine.restore (m : Machine) (sched : Scheduler Frame) (mem : Mem) (esp : Option Frame) :
    Machine :=
  let frame := esp.getD m.frame
  { sched
    mem
    cpu := frame.owner
    clock := m.clock + 1
    saved := Function.update m.saved m.cpu (some m.frame)
    resumed := frame :: m.resumed
    selected := if esp.isSome then sched.current.toList ++ m.selected else m.selected }

/-- `process_create` leaves the new process waiting, with its first frame on its stack;
`scheduler_start` puts it into the list. -/
def Machine.start (m : Machine) (process : Word) : Except Halt Machine := do
  let frame : Frame := ⟨.process process, m.clock⟩
  let created := Function.update m.sched.process process ⟨frame, .waiting, 0⟩
  let sched ← schedulerStart { m.sched with process := created } (some process)
  return { m with
    sched
    clock := m.clock + 1
    saved := Function.update m.saved (.process process) (some frame) }

/-- What can happen next. -/
inductive Event where
  | start (process : Word)
  /-- The timer interrupt. -/
  | tick
  /-- An interrupt `0x80` with the registers `eax` and `ebx`. -/
  | syscall (eax ebx : Word)
  /-- A handler calls `scheduler_stop`. -/
  | stop (process : Word)
  /-- A handler calls `scheduler_sleep`. -/
  | sleep (process ms : Word)
  | enable
  | disable
  deriving DecidableEq, Repr

/-- A started process is a fresh one, system calls are made by processes, and the calls of the
scheduler are about processes in its list. -/
def Event.Allowed (m : Machine) : Event → Prop
  | .start process => process ∉ m.sched.list
  | .syscall _ _ => m.cpu ≠ .kernel
  | .stop process | .sleep process _ => process ∈ m.sched.list
  | .tick | .enable | .disable => True

/-- The machine after an event. -/
def Machine.handle (m : Machine) : Event → Except Halt Machine
  | .start process => m.start process
  | .tick => do
    let (sched, esp) ← schedulerHandleIrq m.sched m.frame
    return m.restore sched m.mem esp
  | .syscall eax ebx => do
    let (sched, mem, esp) ← syscallHandleIrq m.sched m.mem ⟨0x80, eax, ebx⟩ m.frame
    return m.restore sched mem esp
  | .stop process => do
    let (sched, esp) ← schedulerStop m.sched (some process)
    return m.restore sched m.mem esp
  | .sleep process ms => do
    let (sched, esp) ← schedulerSleep m.sched ms m.frame (some process)
    return m.restore sched m.mem esp
  | .enable => return { m with sched := schedulerEnable m.sched }
  | .disable => return { m with sched := schedulerDisable m.sched }

/-- One step of the machine. -/
def MachineStep (m : Machine) (e : Event) (m' : Machine) : Prop :=
  e.Allowed m ∧ m.handle e = .ok m'

instance (m : Machine) : (e : Event) → Decidable (e.Allowed m)
  | .start process => inferInstanceAs (Decidable (process ∉ m.sched.list))
  | .syscall _ _ => inferInstanceAs (Decidable (m.cpu ≠ .kernel))
  | .stop process => inferInstanceAs (Decidable (process ∈ m.sched.list))
  | .sleep process _ => inferInstanceAs (Decidable (process ∈ m.sched.list))
  | .tick | .enable | .disable => inferInstanceAs (Decidable True)

/-- The machine after an event, if the event can happen and is handled. -/
def Machine.next (m : Machine) (e : Event) : Option Machine :=
  if e.Allowed m then (m.handle e).toOption else none

theorem machineStep_of_next {m m' : Machine} {e : Event} (h : m.next e = some m') :
    MachineStep m e m' := by
  unfold Machine.next at h
  split_ifs at h with ha
  refine ⟨ha, ?_⟩
  cases hok : m.handle e with
  | error _ => simp [hok, Except.toOption] at h
  | ok m'' => simpa [hok, Except.toOption] using h

end Hjortron
