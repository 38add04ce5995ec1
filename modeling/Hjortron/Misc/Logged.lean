import Mathlib.Init

/-!
# Computations that keep a log

A `Logged σ ε ω α` runs on a state, may stop with an error, and appends events to a log as it
goes. What a program does besides computing its result (which addresses it touches, which
resources it takes and returns) is read off the log; `forget` is the same program without it.
-/

namespace Hjortron

/-- A computation on the state `σ` that stops with an `ε` or logs events `ω`. -/
def Logged (σ ε ω α : Type) : Type := σ → Except ε (α × σ × List ω)

namespace Logged

variable {σ ε ω α β : Type} {x : Logged σ ε ω α} {f : α → Logged σ ε ω β} {s t : σ} {a : α} {b : β}
  {l : List ω} {e : ω}

instance : Monad (Logged σ ε ω) where
  pure a := fun s => .ok (a, s, [])
  bind x f := fun s =>
    match x s with
    | .error e => .error e
    | .ok (a, t, l) =>
      match f a t with
      | .error e => .error e
      | .ok (b, u, l') => .ok (b, u, l ++ l')

/-- A value that depends on the state. -/
def read (f : σ → α) : Logged σ ε ω α := fun s => .ok (f s, s, [])

/-- A change of the state. -/
def modify (f : σ → σ) : Logged σ ε ω Unit := fun s => .ok ((), f s, [])

/-- Appends an event to the log. -/
def emit (e : ω) : Logged σ ε ω Unit := fun s => .ok ((), s, [e])

/-- Stops with an error. -/
def fail (e : ε) : Logged σ ε ω α := fun _ => .error e

/-- A computation that logs nothing. -/
def call (f : σ → Except ε (α × σ)) : Logged σ ε ω α := fun s => (f s).map fun r => (r.1, r.2, [])

/-- The computation without its log. -/
def forget (x : Logged σ ε ω α) (s : σ) : Except ε (α × σ) := (x s).map fun r => (r.1, r.2.1)

/-- Started in `s`, the computation ends with `a` in `t` and logs `l`. -/
def Runs (x : Logged σ ε ω α) (s : σ) (a : α) (t : σ) (l : List ω) : Prop := x s = .ok (a, t, l)

/-! ## How a computation runs -/

theorem runs_pure_iff {c : α} :
    (pure c : Logged σ ε ω α).Runs s a t l ↔ a = c ∧ s = t ∧ l = [] := by
  constructor
  · intro h
    cases h
    exact ⟨rfl, rfl, rfl⟩
  · rintro ⟨rfl, rfl, rfl⟩
    rfl

theorem bind_apply : (x >>= f) s =
    match x s with
    | .error e => .error e
    | .ok (a, t, l) =>
      match f a t with
      | .error e => .error e
      | .ok (b, u, l') => .ok (b, u, l ++ l') := rfl

theorem runs_bind_iff : (x >>= f).Runs s b t l ↔
    ∃ a u l₁ l₂, x.Runs s a u l₁ ∧ (f a).Runs u b t l₂ ∧ l = l₁ ++ l₂ := by
  unfold Runs
  rw [bind_apply]
  constructor
  · intro h
    cases hx : x s with
    | error e =>
      rw [hx] at h
      cases h
    | ok r =>
      obtain ⟨a, u, l₁⟩ := r
      rw [hx] at h
      dsimp only at h
      cases hf : f a u with
      | error e =>
        rw [hf] at h
        cases h
      | ok r =>
        obtain ⟨b', t', l₂⟩ := r
        rw [hf] at h
        cases h
        exact ⟨a, u, l₁, l₂, rfl, hf, rfl⟩
  · rintro ⟨a, u, l₁, l₂, hx, hf, rfl⟩
    rw [hx]
    dsimp only
    rw [hf]

/-- Two computations that run one after the other. -/
theorem Runs.bind {u : σ} {l' : List ω} (hx : x.Runs s a t l) (hf : (f a).Runs t b u l') :
    (x >>= f).Runs s b u (l ++ l') := runs_bind_iff.mpr ⟨a, t, l, l', hx, hf, rfl⟩

/-- A computation that returns when its second part does. -/
theorem Runs.exists_bind (hx : x.Runs s a t l) (hf : ∃ b u l', (f a).Runs t b u l') :
    ∃ b u l', (x >>= f).Runs s b u l' := by
  rcases hf with ⟨b, u, l', hf⟩
  exact ⟨b, u, l ++ l', hx.bind hf⟩

/-- A computation runs in one way only. -/
theorem Runs.unique {b : α} {u : σ} {l' : List ω} (h : x.Runs s a t l) (h' : x.Runs s b u l') :
    a = b ∧ t = u ∧ l = l' := by
  have heq := Except.ok.inj (h.symm.trans h')
  obtain ⟨ha, hrest⟩ := Prod.mk.inj heq
  obtain ⟨ht, hl⟩ := Prod.mk.inj hrest
  exact ⟨ha, ht, hl⟩

theorem runs_read (g : σ → α) (s : σ) : (read g : Logged σ ε ω α).Runs s (g s) s [] := rfl

theorem runs_read_iff {g : σ → α} :
    (read g : Logged σ ε ω α).Runs s a t l ↔ a = g s ∧ s = t ∧ l = [] := by
  constructor
  · intro h
    cases h
    exact ⟨rfl, rfl, rfl⟩
  · rintro ⟨rfl, rfl, rfl⟩
    rfl

theorem runs_modify_iff {g : σ → σ} {u : Unit} :
    (modify g : Logged σ ε ω Unit).Runs s u t l ↔ t = g s ∧ l = [] := by
  constructor
  · intro h
    cases h
    exact ⟨rfl, rfl⟩
  · rintro ⟨rfl, rfl⟩
    rfl

theorem runs_emit_iff {u : Unit} :
    (emit e : Logged σ ε ω Unit).Runs s u t l ↔ s = t ∧ l = [e] := by
  constructor
  · intro h
    cases h
    exact ⟨rfl, rfl⟩
  · rintro ⟨rfl, rfl⟩
    rfl

theorem not_runs_fail {err : ε} : ¬ (fail err : Logged σ ε ω α).Runs s a t l := by
  intro h
  cases h

theorem runs_call_iff {g : σ → Except ε (α × σ)} :
    (call g : Logged σ ε ω α).Runs s a t l ↔ g s = .ok (a, t) ∧ l = [] := by
  unfold Runs call
  cases hg : g s with
  | error e => simp [Except.map]
  | ok r =>
    constructor
    · intro h
      cases h
      exact ⟨rfl, rfl⟩
    · rintro ⟨h, rfl⟩
      cases h
      rfl

/-! ## Without the log -/

theorem forget_bind :
    (x >>= f).forget s = (x.forget s).bind fun r => (f r.1).forget r.2 := by
  unfold forget
  rw [bind_apply]
  cases x s with
  | error e => rfl
  | ok r =>
    obtain ⟨a, t, l⟩ := r
    simp only [Except.map, Except.bind]
    cases f a t <;> rfl

theorem forget_bind_ok (h : x.forget s = .ok (a, t)) :
    (x >>= f).forget s = (f a).forget t := by
  rw [forget_bind, h]
  rfl

theorem forget_bind_read {g : σ → α} :
    ((read g : Logged σ ε ω α) >>= f).forget s = (f (g s)).forget s := forget_bind_ok rfl

theorem forget_bind_modify {g : σ → σ} {f : Unit → Logged σ ε ω β} :
    ((modify g : Logged σ ε ω Unit) >>= f).forget s = (f ()).forget (g s) := forget_bind_ok rfl

theorem forget_call {g : σ → Except ε (α × σ)} :
    (call g : Logged σ ε ω α).forget s = g s := by
  unfold forget call
  cases g s <;> rfl

/-- A computation that returns without the log has a run. -/
theorem exists_runs (h : x.forget s = .ok (a, t)) : ∃ l, x.Runs s a t l := by
  unfold forget at h
  cases hx : x s with
  | error e =>
    rw [hx] at h
    cases h
  | ok r =>
    rw [hx] at h
    cases h
    exact ⟨r.2.2, hx⟩

/-- A run ends where the computation without the log does. -/
theorem Runs.forget_eq (h : x.Runs s a t l) : x.forget s = .ok (a, t) := by
  unfold forget
  rw [h]
  rfl

end Logged

end Hjortron
