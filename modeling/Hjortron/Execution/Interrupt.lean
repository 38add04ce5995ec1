import Hjortron.Cpu.Irq
import Hjortron.Execution.Machine
import Hjortron.Execution.Process

/-!
# Interrupts on flat memory

`syscall_handle_irq` of `kernel/src/execution/syscall.c` on flat memory, the handlers that `main`
of `kernel/src/kernel.c` registers, and the processor that they interrupt: it enters through a gate
and a stub, and `isr_restore` pops the frame at which the handler has left the stack pointer. The
handlers run on the stack of the interrupted context, below the frame.
-/

namespace Hjortron

namespace Kernel

/-- `syscall_handle_irq`. -/
def syscallHandleIrq (k : Kernel) (r : Word) : Except Halt (Kernel × Option Word) := do
  assert (regsIrq k.heap.mem r = 0x80) "r->irq == 0x80"
  let process := k.current
  let eax := regsEax k.heap.mem r
  let ebx := regsEbx k.heap.mem r
  if eax = syscallStop ∨ eax = syscallExit then
    k.schedulerStop process
  else if eax = syscallSleep then
    k.schedulerSleep process ebx r
  else if eax = syscallTest then
    return (k.setMem (k.heap.mem.store32 ebx 0x1234), none)
  else
    return (k, none)

end Kernel

/-- The handlers of the kernel. -/
inductive KernelHandler
  | exceptionsHandleIrq
  | pitHandleIrq
  | keyboardHandleIrq
  | syscallHandleIrq
  deriving DecidableEq, Repr

/-- The handlers after `exceptions_init`, `syscall_init`, `pit_init` and `keyboard_init`. -/
def mainHandlers : Handlers KernelHandler :=
  let handlers := (List.range 32).foldl
    (fun handlers i => irqInitHandler handlers (BitVec.ofNat 8 i) .exceptionsHandleIrq)
    fun _ => none
  let handlers := irqInitHandler handlers 0x80 .syscallHandleIrq
  let handlers := irqInitHandler handlers 0x20 .pitHandleIrq
  irqInitHandler handlers 0x21 .keyboardHandleIrq

namespace Kernel

/-- What a handler does to the memory and to the scheduler. An exception ends in `hlt` with
interrupts off; the keyboard and the tick counter have static variables of their own. -/
def runHandler (k : Kernel) (r : Word) : KernelHandler → Except Halt (Kernel × Option Word)
  | .exceptionsHandleIrq => .error .diverges
  | .pitHandleIrq => k.schedulerHandleIrq r
  | .keyboardHandleIrq => return (k, none)
  | .syscallHandleIrq => k.syscallHandleIrq r

/-- `irq_handler`, on the memory and the scheduler. -/
def irqHandler (k : Kernel) (r : Word) : Except Halt (Kernel × Option Word) :=
  match (Hjortron.irqHandler mainHandlers k.heap.mem r).2 with
  | none => return (k, none)
  | some handler => k.runHandler r handler

/-- The context on the CPU. -/
def context (k : Kernel) : Context := if k.current = 0 then .kernel else .process k.current

end Kernel

/-- From the end of a handler on: it has returned, or it has switched to a stack pointer. -/
def X86.leave (s : X86) : Option Word → X86
  | none => s.exec isrReturn
  | some esp => ({ s with cpu.esp := esp } : X86).exec isrRestore

/-- The stubs, the stack that the kernel has been started on, and the bytes of stack that an
interrupt takes: the frame, the argument, the return address of the call in `isr_common`, and what
the handlers and the functions they call use. -/
structure Platform where
  code : Word → List Instruction
  isr : Nat → Word
  ignore : Word
  stack : Word
  stackLength : Nat
  room : Word

/-- The kernel with the registers of the processor. The processes in `created` have been created
and not stopped, those in `started` are in the list, and `saved` is what every context is to find
again since it was interrupted last. -/
structure Computer where
  kernel : Kernel
  created : List Word
  started : List Word
  cpu : Processor
  saved : Context → X86

namespace Computer

def mem (c : Computer) : Mem := c.kernel.heap.mem

def x86 (c : Computer) : X86 := ⟨c.cpu, c.mem⟩

def context (c : Computer) : Context := c.kernel.context

end Computer

/-- The byte belongs to the stack of a context. -/
def Platform.OnStack (P : Platform) (m : Mem) : Context → Word → Prop
  | .kernel, x => InRange P.stack P.stackLength x
  | .process p, x => InRange (processEbp m p - processStackLength) 8192 x

/-- The byte is one of those below `esp` that an interrupt takes. -/
def Platform.Below (P : Platform) (esp x : Word) : Prop := InRange (esp - P.room) P.room.toNat x

/-- The stack of a context has room for an interrupt below `esp`. -/
def Platform.Room (P : Platform) (m : Mem) (c : Context) (esp : Word) : Prop :=
  ∀ x, P.Below esp x → P.OnStack m c x

/-- The bytes that the code on the CPU may write: its own stack, the heap blocks `base`, and what
lies beside the heap and is not the stack of the kernel. -/
def Computer.MayWrite (P : Platform) (lo hi : Nat) (base : List (Word × Word)) (c : Computer)
    (x : Word) : Prop :=
  P.OnStack c.mem c.context x ∨ (∃ e ∈ base, InRange e.1 e.2.toNat x) ∨
    (x.toNat < lo ∨ hi ≤ x.toNat) ∧ ¬ P.OnStack c.mem .kernel x

/-- The bytes that a handler may write besides the data of the scheduler: its stack, which lies
below the frame of 68 bytes, and what lies beside the heap and is not the stack of the kernel. -/
def Computer.Scratch (P : Platform) (lo hi : Nat) (c : Computer) (x : Word) : Prop :=
  InRange (c.cpu.esp - P.room) (P.room.toNat - 68) x ∨
    (x.toNat < lo ∨ hi ≤ x.toNat) ∧ ¬ P.OnStack c.mem .kernel x

/-- The registers with which a new process starts. -/
def freshProcessor (top eip : Word) : Processor where
  eax := 0
  ecx := 0
  edx := 0
  ebx := 0
  esp := top - 8
  ebp := top
  esi := 0
  edi := 0
  eip := eip
  eflags := 0x206
  cs := 0x8
  ds := 0x10
  es := 0x10
  fs := 0x10
  gs := 0x10

/-- What can happen next. -/
inductive ComputerEvent where
  | create (eip : Word)
  | start (process : Word)
  | enable
  | disable
  /-- The code on the CPU runs for a while. -/
  | execute (cpu : Processor) (mem : Mem)
  | interrupt (n : Nat)

/-- Interrupts that do not end in `hlt`: no exceptions, system calls by processes only, and
`SYSCALL_TEST` with a pointer to memory that the caller may write. -/
def Computer.Interruptible (P : Platform) (lo hi : Nat) (base : List (Word × Word)) (c : Computer)
    (n : Nat) : Prop :=
  32 ≤ n ∧ n < 255 ∧
    (n = 0x80 → c.kernel.current ≠ 0 ∧ (c.cpu.eax = syscallTest → ∀ x, InRange c.cpu.ebx 4 x →
      c.MayWrite P lo hi base x ∧ ¬ P.Below c.cpu.esp x))

/-- An interrupt gets to the handler, and whatever the handlers leave on their stack, none of their
assertions fails. -/
def Computer.Handles (P : Platform) (lo hi : Nat) (c : Computer) (n : Nat) : Prop :=
  ∃ t, c.x86.takeInterrupt (irqInit P.isr P.ignore) P.code n none = some t ∧
    (HasStub n → ∀ m, (∀ x, ¬ c.Scratch P lo hi x → m x = t.mem x) →
      ∃ r, (c.kernel.setMem m).irqHandler (t.stackWord 0) = .ok r)

/-- The system call that a context makes with interrupt `n` stops it. -/
def Computer.stops (c : Computer) (n : Nat) : Bool :=
  n = 0x80 && (c.cpu.eax = syscallStop || c.cpu.eax = syscallExit)

/-- What the interrupted context is to find again: its registers, and its memory with what
`SYSCALL_TEST` writes. -/
def Computer.interruption (c : Computer) (n : Nat) : X86 :=
  if n = 0x80 ∧ c.cpu.eax = syscallTest then ⟨c.cpu, c.mem.store32 c.cpu.ebx 0x1234⟩ else c.x86

/-- The computer with everything as an interrupt has left it. -/
def Computer.interrupted (c : Computer) (n : Nat) (kernel : Kernel) (cpu : Processor) : Computer
    where
  kernel := kernel
  created := if c.stops n then c.created.erase c.kernel.current else c.created
  started := if c.stops n then c.started.erase c.kernel.current else c.started
  cpu := cpu
  saved := Function.update c.saved c.context (c.interruption n)

/-- One step of the computer. An interrupt comes between two steps. A handler finds the memory with
what has been put on its stack, leaves it with other bytes there, and returns with the stack pointer
as it was; `isr_restore` pops the other registers. -/
inductive ComputerStep (P : Platform) (lo hi : Nat) (base : List (Word × Word)) (c : Computer) :
    ComputerEvent → Computer → Prop
  | create {eip process : Word} {kernel : Kernel} :
    c.kernel.createProcess eip = .ok (process, kernel) →
    ComputerStep P lo hi base c (.create eip)
      { c with
        kernel
        created := process :: c.created
        saved := Function.update c.saved (.process process)
          ⟨freshProcessor (processEbp kernel.heap.mem process) eip, kernel.heap.mem⟩ }
  | start {process : Word} {kernel : Kernel} : process ∈ c.created → process ∉ c.started →
    c.kernel.schedulerStart process = .ok kernel →
    ComputerStep P lo hi base c (.start process)
      { c with kernel, started := c.started ++ [process] }
  | enable : ComputerStep P lo hi base c .enable { c with kernel := c.kernel.schedulerEnable }
  | disable : ComputerStep P lo hi base c .disable { c with kernel := c.kernel.schedulerDisable }
  | execute {cpu : Processor} {mem : Mem} :
    (∀ x, ¬ c.MayWrite P lo hi base x → mem x = c.mem x) → P.Room c.mem c.context cpu.esp →
    ComputerStep P lo hi base c (.execute cpu mem) { c with kernel := c.kernel.setMem mem, cpu }
  | ignored {n : Nat} {t : X86} : c.Interruptible P lo hi base n → ¬ HasStub n →
    c.x86.takeInterrupt (irqInit P.isr P.ignore) P.code n none = some t →
    ComputerStep P lo hi base c (.interrupt n) (c.interrupted n (c.kernel.setMem t.mem) t.cpu)
  | handled {n : Nat} {t : X86} {mem mem' : Mem} {kernel : Kernel} {esp : Option Word}
    {cpu : Processor} : c.Interruptible P lo hi base n → HasStub n →
    c.x86.takeInterrupt (irqInit P.isr P.ignore) P.code n none = some t →
    (∀ x, ¬ c.Scratch P lo hi x → mem x = t.mem x) →
    (c.kernel.setMem mem).irqHandler (t.stackWord 0) = .ok (kernel, esp) →
    (∀ x, ¬ c.Scratch P lo hi x → mem' x = kernel.heap.mem x) → cpu.esp = t.cpu.esp →
    ComputerStep P lo hi base c (.interrupt n)
      (c.interrupted n (kernel.setMem mem') (X86.leave ⟨cpu, mem'⟩ esp).cpu)

end Hjortron
