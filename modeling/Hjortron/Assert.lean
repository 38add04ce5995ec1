import Mathlib.Init

/-!
# `kernel/src/assert.c`

A failed `assert` prints the expression and executes `hlt`. Functions that can stop there, or
whose loops can run forever, return in `Except Halt`; a value is returned exactly when the
call returns to its caller.
-/

namespace Hjortron

/-- Why a call does not return. -/
inductive Halt where
  /-- `assert(expression)` failed. -/
  | assertion (expression : String)
  /-- A loop of the call never ends. -/
  | diverges
  /-- A member of a structure is read through NULL. -/
  | nullPointer
  /-- A division by zero raises an exception. -/
  | divideError
  deriving DecidableEq, Repr

/-- `assert(expression)`. -/
def assert (holds : Bool) (expression : String) : Except Halt Unit :=
  if holds then .ok () else .error (.assertion expression)

@[simp] theorem assert_true (expression : String) : assert true expression = .ok () := rfl

@[simp] theorem assert_false (expression : String) :
    assert false expression = .error (.assertion expression) := rfl

theorem assert_eq_ok {holds : Bool} {expression : String} {u : Unit} :
    assert holds expression = .ok u ↔ holds = true := by
  cases holds <;> simp

/-- A sequence returns when its first part returns and the rest returns with the result. -/
theorem bind_eq_ok {ε α β : Type} {x : Except ε α} {f : α → Except ε β} {b : β} :
    (x >>= f) = .ok b ↔ ∃ a, x = .ok a ∧ f a = .ok b := by
  cases x with
  | error e =>
    constructor
    · intro h
      cases h
    · rintro ⟨a, h, -⟩
      cases h
  | ok a => exact ⟨fun h => ⟨a, rfl, h⟩, fun ⟨_, ha, h⟩ => Except.ok.inj ha ▸ h⟩

end Hjortron
