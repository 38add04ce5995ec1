import Hjortron.Cpu.Isr

/-!
# `kernel/src/cpu/irq.c` and `pic_eoi` of `kernel/src/cpu/pic.c`

The interrupt descriptor table and the table of handlers. The addresses of the stubs are symbols of
`isr.s` and parameters here, and `H` is the type of handlers. Messages written by `info` are left
out.
-/

namespace Hjortron

/-- `IDT_SIZE`. -/
def idtSize : Nat := 0xFF

/-- `IDT_GATE_TYPE_INTERRUPT_32`. -/
def idtGateTypeInterrupt32 : Byte := 0xE

/-- `idt_entry`. -/
structure IdtEntry where
  offset0_15 : Half
  selector : Half
  reserved : Byte
  flags : Byte
  offset16_31 : Half
  deriving DecidableEq, Repr

/-- `irq_init_idt`. -/
def irqInitIdt (selector : Byte) (handler : Word) (access type : Byte) : IdtEntry where
  offset0_15 := (handler &&& 0xFFFF).setWidth 16
  selector := selector.setWidth 16
  reserved := 0
  flags := 0x80 ||| type ||| (access &&& 3) <<< 5
  offset16_31 := (handler >>> 16 &&& 0xFFFF).setWidth 16

/-- The table that `irq_init` loads, for stubs at the addresses `isr` and `ignore`. -/
def irqInit (isr : Nat → Word) (ignore : Word) : List IdtEntry :=
  let gate := fun handler => irqInitIdt 0x08 handler 0 idtGateTypeInterrupt32
  let entries := List.replicate idtSize (gate ignore)
  let entries := (List.range 48).foldl (fun entries n => entries.set n (gate (isr n))) entries
  entries.set 128 (gate (isr 128))

/-! ## The processor on the table -/

/-- The gate of an entry, if it is a present 32-bit interrupt gate. -/
def IdtEntry.gate? (entry : IdtEntry) : Option Gate :=
  if entry.flags &&& 0x9F = 0x8E then
    some ⟨entry.selector, entry.offset16_31 ++ entry.offset0_15⟩
  else
    none

/-- Interrupt `n`, up to where the stub calls out or ends; `code` is what lies at an address. An
interrupt without a gate has no result. -/
def X86.takeInterrupt (idt : List IdtEntry) (code : Word → List Instruction) (n : Nat)
    (errorCode : Option Word) (s : X86) : Option X86 := do
  let entry ← idt[n]?
  let gate ← entry.gate?
  return (s.interrupt gate errorCode).exec (code gate.offset)

/-! ## Handlers -/

variable {H : Type}

/-- The static table `handlers`, with `NULL` or a handler at every index. -/
abbrev Handlers (H : Type) := Word → Option H

/-- `irq_init_handler`. -/
def irqInitHandler (handlers : Handlers H) (irq : Byte) (handler : H) : Handlers H :=
  Function.update handlers (irq.setWidth 32) (some handler)

/-- `irq_terminate_handler`. -/
def irqTerminateHandler (handlers : Handlers H) (irq : Byte) : Handlers H :=
  Function.update handlers (irq.setWidth 32) none

/-- The ports and bytes that `pic_eoi` writes. -/
def picEoi (irq : Byte) : List (Half × Byte) :=
  if 0x20 ≤ irq ∧ irq ≤ 0x28 + 7 then
    (0x20, 0x20) :: if 0x28 ≤ irq then [(0xA0, 0x20)] else []
  else
    []

/-- `irq_handler`: what it writes to the interrupt controllers, and the handler that it calls. -/
def irqHandler (handlers : Handlers H) (m : Mem) (r : Word) : List (Half × Byte) × Option H :=
  (picEoi ((regsIrq m r).setWidth 8), handlers (regsIrq m r))

end Hjortron
