import Mathlib.Data.Option.Basic

/-!
# Labelled runs

`Run step s as t`: from `s` the labels `as` lead to `t`, one `step` each.
-/

namespace Hjortron

variable {σ α : Type*} {step step' : σ → α → σ → Prop} {s t u : σ} {as bs : List α}

/-- A finite run of a labelled step relation. -/
inductive Run (step : σ → α → σ → Prop) : σ → List α → σ → Prop
  | nil (s : σ) : Run step s [] s
  | cons {s t u : σ} {a : α} {as : List α} : step s a t → Run step t as u → Run step s (a :: as) u

namespace Run

/-- A run and one more step. -/
theorem snoc {a : α} (hrun : Run step s as t) (h : step t a u) : Run step s (as ++ [a]) u := by
  induction hrun with
  | nil => exact cons h (nil u)
  | cons h' _ ih => exact cons h' (ih h)

/-- What every step preserves, a run preserves. -/
theorem invariant {I : σ → Prop} (hstep : ∀ s a t, I s → step s a t → I t)
    (hrun : Run step s as t) (hs : I s) : I t := by
  induction hrun with
  | nil => exact hs
  | cons h _ ih => exact ih (hstep _ _ _ hs h)

/-- Weakening the step relation. -/
theorem mono (hstep : ∀ s a t, step s a t → step' s a t) (hrun : Run step s as t) :
    Run step' s as t := by
  induction hrun with
  | nil s => exact nil s
  | cons h _ ih => exact cons (hstep _ _ _ h) ih

/-- What every step has kept, a run has kept. -/
theorem start_of_end {I : σ → Prop} (hstep : ∀ s a t, step s a t → I t → I s)
    (hrun : Run step s as t) (ht : I t) : I s := by
  induction hrun with
  | nil => exact ht
  | cons h _ ih => exact hstep _ _ _ h (ih ht)

/-- A run is matched step by step by a run of a system that simulates it. -/
theorem simulation {τ : Type*} {step₂ : τ → α → τ → Prop} {R : σ → τ → Prop} {u : τ}
    (hstep : ∀ s a t u, R s u → step s a t → ∃ v, step₂ u a v ∧ R t v) (hrun : Run step s as t)
    (hs : R s u) : ∃ v, Run step₂ u as v ∧ R t v := by
  induction hrun generalizing u with
  | nil => exact ⟨u, nil u, hs⟩
  | cons h _ ih =>
    obtain ⟨v, hv, hR⟩ := hstep _ _ _ _ hs h
    obtain ⟨w, hw, hR'⟩ := ih hR
    exact ⟨w, cons hv hw, hR'⟩

end Run

/-- The state a sequence of labels leads to under a partial step function. -/
def execute (next : σ → α → Option σ) (s : σ) : List α → Option σ
  | [] => some s
  | a :: as => (next s a).bind fun t => execute next t as

/-- A computed sequence of steps is a run. -/
theorem run_of_execute {next : σ → α → Option σ}
    (hnext : ∀ s a t, next s a = some t → step s a t) (h : execute next s as = some t) :
    Run step s as t := by
  induction as generalizing s with
  | nil =>
    obtain rfl := Option.some.inj h
    exact .nil s
  | cons a as ih =>
    obtain ⟨u, hu, h⟩ := Option.bind_eq_some_iff.mp h
    exact .cons (hnext _ _ _ hu) (ih h)

/-- A loop that counts passes through the states `S`. -/
theorem foldl_range {f : σ → Nat → σ} {S : Nat → σ} {n : Nat}
    (hstep : ∀ i < n, f (S i) i = S (i + 1)) : (List.range n).foldl f (S 0) = S n := by
  induction n with
  | zero => rfl
  | succ n ih =>
    rw [List.range_succ, List.foldl_append, ih fun i hi => hstep i (Nat.lt_succ_of_lt hi)]
    exact hstep n (Nat.lt_succ_self n)

/-- The last pass of a loop that may fail. -/
theorem foldlM_range_succ (f : σ → Nat → Option σ) (s : σ) (n : Nat) :
    (List.range (n + 1)).foldlM f s = ((List.range n).foldlM f s).bind fun t => f t n := by
  rw [List.range_succ, List.foldlM_append]
  simp only [List.foldlM_cons, List.foldlM_nil, bind_pure, Option.bind_eq_bind]

/-- A loop of passes none of which fails. -/
theorem foldlM_range {f : σ → Nat → Option σ} {S : Nat → σ} {n : Nat}
    (hstep : ∀ i < n, f (S i) i = some (S (i + 1))) :
    (List.range n).foldlM f (S 0) = some (S n) := by
  induction n with
  | zero => rfl
  | succ n ih =>
    rw [foldlM_range_succ, ih fun i hi => hstep i (Nat.lt_succ_of_lt hi), Option.bind_some]
    exact hstep n (Nat.lt_succ_self n)

/-- A loop that fails in pass `n`, if not before, fails however many follow. -/
theorem foldlM_range_eq_none {f : σ → Nat → Option σ} {S : Nat → σ} {n k : Nat}
    (hstep : ∀ i < n, f (S i) i = some (S (i + 1)) ∨ f (S i) i = none)
    (hfail : f (S n) n = none) (hlt : n < k) : (List.range k).foldlM f (S 0) = none := by
  have hrun (i : Nat) (hi : i ≤ n) : (List.range i).foldlM f (S 0) = some (S i) ∨
      (List.range i).foldlM f (S 0) = none := by
    induction i with
    | zero => exact .inl rfl
    | succ i ih =>
      rw [foldlM_range_succ]
      rcases ih (Nat.le_of_succ_le hi) with h | h
      · rw [h]
        exact hstep i hi
      · rw [h]
        exact .inr rfl
  induction hlt with
  | refl =>
    rw [foldlM_range_succ]
    rcases hrun n (Nat.le_refl n) with h | h
    · rw [h]
      exact hfail
    · rw [h]
      rfl
  | step _ ih =>
    rw [foldlM_range_succ, ih]
    rfl

/-- A loop whose iterations collect `g x` for each `x`, as long as no more than `n` elements are
collected: then it collects all of them in order. -/
theorem foldlM_collect {ε β : Type*} {f : σ → α → Except ε σ} {g : α → List β}
    {I : σ → List β → Prop} {n : Nat} {done : List β}
    (hstep : ∀ a ∈ as, ∀ s done, I s done → (done ++ g a).length ≤ n →
      ∃ t, f s a = .ok t ∧ I t (done ++ g a))
    (hs : I s done) (hn : (done ++ as.flatMap g).length ≤ n) :
    ∃ t, as.foldlM f s = .ok t ∧ I t (done ++ as.flatMap g) := by
  induction as generalizing s done with
  | nil => exact ⟨s, rfl, by rwa [List.flatMap_nil, List.append_nil]⟩
  | cons a as ih =>
    rw [List.flatMap_cons, ← List.append_assoc] at hn ⊢
    have hfirst : (done ++ g a).length ≤ n := by
      rw [List.length_append] at hn
      exact Nat.le_trans (Nat.le_add_right _ _) hn
    obtain ⟨u, hu, hIu⟩ := hstep a (List.mem_cons_self ..) s done hs hfirst
    obtain ⟨t, ht, hIt⟩ := ih (fun a ha => hstep a (List.mem_cons_of_mem _ ha)) hIu hn
    refine ⟨t, ?_, hIt⟩
    rw [List.foldlM_cons, hu]
    exact ht

end Hjortron
