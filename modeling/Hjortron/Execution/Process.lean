import Hjortron.LinkedList
import Hjortron.Execution.Scheduler

/-!
# `kernel/src/execution/process.c` and `kernel/src/execution/scheduler.c` on flat memory

Process structures and their stacks are heap blocks, and the process list is a list of heap blocks
(`kernel/src/list.c`). The static variables of the two files are the fields of `Kernel`. What the
scheduler does with the processes, without their place in memory, is in
`Hjortron.Execution.Scheduler`; here too, `scheduler_switch` gives back the stack pointer it loads
and `none` says that a call returned. Messages written by `info` are left out; that of
`scheduler_stop` reads the `id` of a process that has been freed.
-/

namespace Hjortron

/-- `sizeof(process_t)`. -/
def sizeofProcess : Word := 24

/-- `PROCESS_STACK_LENGTH`. -/
def processStackLength : Word := 8192

/-- `sizeof(regs)`. -/
def sizeofRegs : Word := 76

/-- `PROCESS_STATE_WAITING`. -/
def processStateWaiting : Byte := 0x0

/-- `PROCESS_STATE_RUNNING`. -/
def processStateRunning : Byte := 0x1

/-- `PROCESS_STATE_SLEEPING`. -/
def processStateSleeping : Byte := 0x2

/-! ## The fields of `process_t` -/

def processEsp (m : Mem) (process : Word) : Word := m.load32 (process + 4)
def processEbp (m : Mem) (process : Word) : Word := m.load32 (process + 8)
def processEip (m : Mem) (process : Word) : Word := m.load32 (process + 12)
def processState (m : Mem) (process : Word) : Byte := m (process + 16)
def processSleep (m : Mem) (process : Word) : Word := m.load32 (process + 20)

def setProcessId (m : Mem) (process v : Word) : Mem := m.store32 process v
def setProcessEsp (m : Mem) (process v : Word) : Mem := m.store32 (process + 4) v
def setProcessEbp (m : Mem) (process v : Word) : Mem := m.store32 (process + 8) v
def setProcessEip (m : Mem) (process v : Word) : Mem := m.store32 (process + 12) v
def setProcessState (m : Mem) (process : Word) (v : Byte) : Mem := m.store8 (process + 16) v
def setProcessSleep (m : Mem) (process v : Word) : Mem := m.store32 (process + 20) v

/-! ## `process.c` -/

/-- Consecutive words from `a` on. -/
def storeWords (m : Mem) (a : Word) : List Word → Mem
  | [] => m
  | v :: vs => storeWords (m.store32 a v) (a + 4) vs

/-- The fields of a new process. -/
def initProcess (m : Mem) (process stack nextId eip : Word) : Mem :=
  let m := setProcessId m process nextId
  let m := setProcessEbp m process (stack + processStackLength)
  let m := setProcessEsp m process (stack + processStackLength - sizeofRegs)
  let m := setProcessEip m process eip
  let m := setProcessState m process processStateWaiting
  setProcessSleep m process 0

/-- The registers that the first switch to a new process pops, from `gs` to `ss`. -/
def initRegs (m : Mem) (process : Word) : Mem :=
  let r := processEsp m process
  -- gs, fs, es, ds, edi, esi
  let m := storeWords m r [0x10, 0x10, 0x10, 0x10, 0, 0]
  -- ebp, esp
  let m := m.store32 (r + 24) (processEbp m process)
  let m := m.store32 (r + 28) (processEsp m process)
  -- ebx, edx, ecx, eax, irq, err
  let m := storeWords m (r + 32) [0, 0, 0, 0, 0x20, 0]
  -- eip
  let m := m.store32 (r + 56) (processEip m process)
  -- cs, eflags, useresp, ss
  storeWords m (r + 60) [0x8, 0x206, 0, 0]

/-- `process_create`. Returns the process and the value of `next_id` afterwards. -/
def processCreate (heap : Heap) (nextId eip : Word) : Except Halt (Word × Word × Heap) := do
  assert (eip != 0) "eip"
  let (process, heap) ← malloc heap sizeofProcess
  assert (process != 0) "process"
  let (stack, heap) ← malloc heap processStackLength
  assert (stack != 0) "stack"
  let mem := initRegs (initProcess heap.mem process stack nextId eip) process
  return (process, nextId + 1, { heap with mem })

/-- `process_destroy`. The address of the stack is computed from `ebp`. -/
def processDestroy (heap : Heap) (process : Word) : Except Halt Heap := do
  assert (process != 0) "process"
  let heap ← free heap (processEbp heap.mem process - processStackLength)
  free heap process

/-! ## `scheduler.c` -/

/-- The heap and the static variables of `scheduler.c` and `process.c`; 0 is NULL. -/
structure Kernel where
  heap : Heap
  nextId : Word
  list : Word
  current : Word
  enabled : Bool
  esp : Word

namespace Kernel

/-- The memory of the kernel after writes of a handler. -/
def setMem (k : Kernel) (mem : Mem) : Kernel := { k with heap := { k.heap with mem } }

/-- `scheduler_init`. -/
def schedulerInit (k : Kernel) : Except Halt Kernel := do
  let (list, heap) ← k.heap.listCreate
  return { k with heap, list, current := 0, enabled := false }

/-- The loop of `scheduler_next`, with the number of iterations left. -/
def nextLoop (m : Mem) (list : Word) : Nat → Word → Word
  | 0, _ => 0
  | n + 1, node =>
    let node := nodeNext m node
    let node := if node = 0 then listHead m list else node
    if processState m (nodeValue m node) = processStateWaiting then
      nodeValue m node
    else
      nextLoop m list n node

/-- `scheduler_next`. -/
def schedulerNext (k : Kernel) : Except Halt Word := do
  let node := listHead k.heap.mem k.list
  let node ← if k.current ≠ 0 then k.heap.listFind k.list k.current else pure node
  return nextLoop k.heap.mem k.list (listLength k.heap.mem k.list).toNat node

/-- `scheduler_switch`. -/
def schedulerSwitch (k : Kernel) : Except Halt (Kernel × Word) := do
  let current ← k.schedulerNext
  let k := { k with current }
  if k.current = 0 then
    assert (k.esp != 0) "esp"
    return (k, k.esp)
  else
    let k := k.setMem (setProcessState k.heap.mem k.current processStateRunning)
    return (k, processEsp k.heap.mem k.current)

/-- What the loop over the sleep counters does to one process. -/
def decrementSleep (m : Mem) (process : Word) : Mem :=
  if processState m process = processStateSleeping then
    if processSleep m process = 0 then
      setProcessState m process processStateWaiting
    else
      setProcessSleep m process (processSleep m process - 1)
  else
    m

/-- The loop over the sleep counters. -/
def decrementSleepCounters (m : Mem) : Nat → Word → Except Halt Mem
  | 0, _ => .error .diverges
  | fuel + 1, node =>
    if node ≠ 0 then
      let m := decrementSleep m (nodeValue m node)
      decrementSleepCounters m fuel (nodeNext m node)
    else
      .ok m

/-- The part of `scheduler_handle_irq` that saves the stack of the interrupted context. -/
def saveStack (k : Kernel) (r : Word) : Kernel :=
  if k.current = 0 then
    { k with esp := r }
  else
    let k := k.setMem (setProcessEsp k.heap.mem k.current r)
    k.setMem (setProcessState k.heap.mem k.current processStateWaiting)

/-- `scheduler_handle_irq`. -/
def schedulerHandleIrq (k : Kernel) (r : Word) : Except Halt (Kernel × Option Word) := do
  assert (r != 0) "r"
  if !k.enabled then
    return (k, none)
  let mem ← decrementSleepCounters k.heap.mem (2 ^ 32) (listHead k.heap.mem k.list)
  let k := (k.setMem mem).saveStack r
  let (k, esp) ← k.schedulerSwitch
  return (k, some esp)

/-- `scheduler_enable`. -/
def schedulerEnable (k : Kernel) : Kernel := { k with enabled := true }

/-- `scheduler_disable`. -/
def schedulerDisable (k : Kernel) : Kernel := { k with enabled := false }

/-- `scheduler_start`. -/
def schedulerStart (k : Kernel) (process : Word) : Except Halt Kernel := do
  assert (process != 0) "process"
  let heap ← k.heap.listInsert k.list process
  return { k with heap }

/-- `scheduler_stop`. -/
def schedulerStop (k : Kernel) (process : Word) : Except Halt (Kernel × Option Word) := do
  assert (process != 0) "process"
  let heap ← k.heap.listDelete k.list process
  let heap ← processDestroy heap process
  let k := { k with heap }
  if k.current = process then
    let (k, esp) ← schedulerSwitch { k with current := 0 }
    return (k, some esp)
  else
    return (k, none)

/-- `scheduler_sleep`. The number of ticks is computed in 32 bits. -/
def schedulerSleep (k : Kernel) (process ms r : Word) : Except Halt (Kernel × Option Word) := do
  assert (process != 0) "process"
  let ticks := ms * pitInterruptsPerSecond / 1000
  let k := k.setMem (setProcessState k.heap.mem process processStateSleeping)
  let k := k.setMem (setProcessSleep k.heap.mem process ticks)
  if k.current = process then
    let k := k.setMem (setProcessEsp k.heap.mem k.current r)
    let (k, esp) ← schedulerSwitch { k with current := 0 }
    return (k, some esp)
  else
    return (k, none)

/-- The kernel's `process_create`. -/
def createProcess (k : Kernel) (eip : Word) : Except Halt (Word × Kernel) := do
  let (process, nextId, heap) ← processCreate k.heap k.nextId eip
  return (process, { k with heap, nextId })

end Kernel

end Hjortron
