import Hjortron.Misc.Run
import Mathlib.Data.List.Basic
import Mathlib.Logic.Function.Basic

/-!
# Stores of arrays

What the clients of an allocator rely on: names stand for arrays, an array is made with a name
that no other array has, and writing to one array leaves the others alone. A new array has
arbitrary contents. `learn` collects what a client knows of the contents from the events alone,
and `Knows` says that the store agrees with it.
-/

namespace Hjortron

/-- The arrays of a store by name. -/
abbrev ArrayStore (ι β : Type*) := ι → Option (List β)

/-- What a client does to a store, with the results that it gets. -/
inductive StoreEvent (ι β : Type*)
  | malloc (len : Nat) (ptr : ι)
  | realloc (ptr : ι) (len : Nat) (next : ι)
  | free (ptr : ι)
  | store (ptr : ι) (i : Nat) (value : β)
  | load (ptr : ι) (i : Nat) (value : β)
  deriving DecidableEq, Repr

variable {ι β : Type*} [DecidableEq ι] {s t : ArrayStore ι β} {e : StoreEvent ι β}
  {es : List (StoreEvent ι β)} {p : ι} {i : Nat} {v w : β}

namespace ArrayStore

/-- The store without arrays. -/
def empty : ArrayStore ι β := fun _ => none

/-- The steps of a store. -/
inductive Step : ArrayStore ι β → StoreEvent ι β → ArrayStore ι β → Prop
  | malloc {s : ArrayStore ι β} {p : ι} {xs : List β} : s p = none →
      Step s (.malloc xs.length p) (Function.update s p (some xs))
  | realloc {s : ArrayStore ι β} {p q : ι} {xs ys : List β} : s p = some xs →
      (q = p ∨ s q = none) → (∀ i < ys.length, i < xs.length → ys[i]? = xs[i]?) →
      Step s (.realloc p ys.length q) (Function.update (Function.update s p none) q (some ys))
  | free {s : ArrayStore ι β} {p : ι} {xs : List β} : s p = some xs →
      Step s (.free p) (Function.update s p none)
  | store {s : ArrayStore ι β} {p : ι} {xs : List β} {i : Nat} {v : β} : s p = some xs →
      i < xs.length → Step s (.store p i v) (Function.update s p (some (xs.set i v)))
  | load {s : ArrayStore ι β} {p : ι} {xs : List β} {i : Nat} {v : β} : s p = some xs →
      xs[i]? = some v → Step s (.load p i v) s

end ArrayStore

/-- A new array is as long as was asked for. -/
theorem ArrayStore.Step.allocated {n : Nat} (h : ArrayStore.Step s (.malloc n p) t) :
    ∃ xs, t p = some xs ∧ xs.length = n := by
  cases h with
  | malloc hp => exact ⟨_, Function.update_self .., rfl⟩

/-! ## What a client knows -/

/-- The elements whose values follow from the events. -/
abbrev Knowledge (ι β : Type*) := ι → Nat → Option β

/-- What an event adds to the knowledge, and what it makes void. -/
def learn (k : Knowledge ι β) : StoreEvent ι β → Knowledge ι β
  | .malloc _ p => Function.update k p fun _ => none
  | .realloc p n q =>
    Function.update (Function.update k p fun _ => none) q fun i => if i < n then k p i else none
  | .free p => Function.update k p fun _ => none
  | .store p i v | .load p i v => Function.update k p (Function.update (k p) i (some v))

/-- What is known after events, from nothing. -/
def learned (es : List (StoreEvent ι β)) : Knowledge ι β := es.foldl learn fun _ _ => none

/-- The store has the values that are known. -/
def ArrayStore.Knows (s : ArrayStore ι β) (k : Knowledge ι β) : Prop :=
  ∀ p i v, k p i = some v → ∃ xs, s p = some xs ∧ xs[i]? = some v

namespace ArrayStore

omit [DecidableEq ι] in
theorem knows_nothing : s.Knows fun _ _ => none := by
  intro p i v h
  cases h

/-- Knowledge of the other arrays survives a change of one. -/
theorem Knows.update {k : Knowledge ι β} (h : s.Knows k) (x : Option (List β))
    (f : Nat → Option β) (hf : ∀ i v, f i = some v → ∃ xs, x = some xs ∧ xs[i]? = some v) :
    Knows (Function.update s p x) (Function.update k p f) := by
  intro q i v hv
  by_cases hq : q = p
  · subst hq
    rw [Function.update_self] at hv ⊢
    exact hf i v hv
  · rw [Function.update_of_ne hq] at hv ⊢
    exact h q i v hv

/-- One element of an array gets known. -/
theorem Knows.set {k : Knowledge ι β} {xs ys : List β} (h : s.Knows k) (hp : s p = some xs)
    (hi : ys[i]? = some v) (hother : ∀ j, j ≠ i → ys[j]? = xs[j]?) :
    Knows (Function.update s p (some ys))
      (Function.update k p (Function.update (k p) i (some v))) := by
  apply h.update
  intro j w hw
  refine ⟨ys, rfl, ?_⟩
  by_cases hj : j = i
  · subst hj
    rwa [Function.update_self, ← hi] at hw
  · rw [Function.update_of_ne hj] at hw
    obtain ⟨xs', hxs', hget⟩ := h p j w hw
    obtain rfl := Option.some.inj (hp.symm.trans hxs')
    rw [hother j hj, hget]

/-- Every step keeps the knowledge true. -/
theorem Step.knows {k : Knowledge ι β} (hstep : Step s e t) (h : s.Knows k) :
    t.Knows (learn k e) := by
  cases hstep with
  | malloc hp =>
    apply h.update
    intro i v hv
    cases hv
  | realloc hp hq hcopy =>
    apply (h.update none (fun _ => none) ?_).update
    · intro i v hv
      split_ifs at hv with hi
      obtain ⟨xs', hxs', hget⟩ := h _ i v hv
      obtain rfl := Option.some.inj (hp.symm.trans hxs')
      have hlt := (List.getElem?_eq_some_iff.mp hget).1
      exact ⟨_, rfl, (hcopy i hi hlt).trans hget⟩
    · intro i v hv
      cases hv
  | free hp =>
    apply h.update
    intro i v hv
    cases hv
  | store hp hi =>
    apply h.set hp (List.getElem?_set_self hi)
    intro j hj
    exact List.getElem?_set_ne (Ne.symm hj)
  | load hp hget =>
    have hknows := h.set hp hget fun j _ => rfl
    rwa [← hp, Function.update_eq_self] at hknows

theorem knows_of_run {k : Knowledge ι β} (hrun : Run Step s es t) (h : s.Knows k) :
    t.Knows (es.foldl learn k) := by
  induction hrun generalizing k with
  | nil => exact h
  | cons hstep _ ih => exact ih (hstep.knows h)

/-- A load returns the value that is known. -/
theorem load_eq_learned {u : ArrayStore ι β} (hrun : Run Step empty es t)
    (hload : Step t (.load p i v) u) (hw : learned es p i = some w) : v = w := by
  obtain ⟨xs, hxs, hget⟩ := knows_of_run hrun knows_nothing p i w hw
  cases hload with
  | load hp hv =>
    obtain rfl := Option.some.inj (hp.symm.trans hxs)
    exact Option.some.inj (hv.symm.trans hget)

end ArrayStore

end Hjortron
