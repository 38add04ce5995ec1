import Hjortron.Misc.X86

/-!
# `kernel/src/cpu/isr.s`

The stubs that the gates of the interrupt descriptor table lead to. `isr_common` saves the
registers as the structure `regs` and calls `irq_handler` with its address; what follows the call
is `isr_return`, and `isr_restore` is where `scheduler_switch` jumps to with another stack.
-/

namespace Hjortron

/-- `ISR_DEFAULT`. -/
def isrDefault (n : Word) : List Instruction := [.cli, .pushImm 0, .pushImm n]

/-- `ISR_ERROR_CODE`. -/
def isrErrorCode (n : Word) : List Instruction := [.cli, .pushImm n]

/-- The exceptions with `ISR_ERROR_CODE`. -/
def hasErrorCode (n : Nat) : Bool := n = 8 || 10 ≤ n && n ≤ 14 || n = 17 || n = 30

/-- The vectors that have a stub. -/
def HasStub (n : Nat) : Prop := n < 48 ∨ n = 128

instance (n : Nat) : Decidable (HasStub n) := inferInstanceAs (Decidable (_ ∨ _))

/-- The stub of a vector, up to the jump to `isr_common`. -/
def isrStub (n : Nat) : List Instruction :=
  if hasErrorCode n then isrErrorCode (BitVec.ofNat 32 n) else isrDefault (BitVec.ofNat 32 n)

/-- `isr_common` up to the call of `irq_handler`. -/
def isrCommon : List Instruction :=
  [.pushad, .pushSegment .ds, .pushSegment .es, .pushSegment .fs, .pushSegment .gs, .movEaxEsp,
    .pushEax]

/-- `isr_restore`, with `isr_ignore` at its end. -/
def isrRestore : List Instruction :=
  [.popSegment .gs, .popSegment .fs, .popSegment .es, .popSegment .ds, .popad, .addEsp 8, .iret]

/-- What follows the call of `irq_handler`. -/
def isrReturn : List Instruction := .popEax :: isrRestore

/-- `isr_ignore`. -/
def isrIgnore : List Instruction := [.iret]

/-! ## The members of `regs` that the handlers read -/

def regsEbx (m : Mem) (r : Word) : Word := m.load32 (r + 32)
def regsEax (m : Mem) (r : Word) : Word := m.load32 (r + 44)
def regsIrq (m : Mem) (r : Word) : Word := m.load32 (r + 48)
def regsErr (m : Mem) (r : Word) : Word := m.load32 (r + 52)

end Hjortron
