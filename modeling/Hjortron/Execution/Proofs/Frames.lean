import Hjortron.Execution.Machine
import Hjortron.Execution.Proofs.SchedulerSpec

/-!
# Where the scheduler keeps the frames of contexts

`At c r` says that the context `c` can be resumed from `r`, whatever that means to the machine
around the scheduler. As long as every context that is not on the CPU can be resumed from where the
scheduler has saved it, a handler that gets the frame of the interrupted context ends on a frame of
the context that it makes the current one.
-/

namespace Hjortron

/-- The context that a value of `current` stands for. -/
def contextOf (current : Option Word) : Context := current.elim .kernel .process

theorem contextOf_eq_process {current : Option Word} {p : Word} :
    contextOf current = .process p ↔ current = some p := by
  cases current <;> simp [contextOf]

theorem contextOf_eq_kernel {current : Option Word} :
    contextOf current = .kernel ↔ current = none := by
  cases current <;> simp [contextOf]

/-- The contexts that are not on the CPU can be resumed. -/
structure FramesHeld {F : Type} (At : Context → F → Prop) (s : Scheduler F)
    (created : List Word) : Prop where
  nodup : s.list.Nodup
  subset : ∀ p ∈ s.list, p ∈ created
  current_mem : ∀ p, s.current = some p → p ∈ s.list
  parked : ∀ p ∈ created, s.current ≠ some p → At (.process p) (s.process p).esp
  kernel : s.current ≠ none → ∃ f, s.esp = some f ∧ At .kernel f

/-- All contexts can be resumed. -/
structure FramesReady {F : Type} (At : Context → F → Prop) (s : Scheduler F)
    (created : List Word) : Prop where
  nodup : s.list.Nodup
  subset : ∀ p ∈ s.list, p ∈ created
  current_mem : ∀ p, s.current = some p → p ∈ s.list
  parked : ∀ p ∈ created, At (.process p) (s.process p).esp
  kernel : ∃ f, s.esp = some f ∧ At .kernel f

variable {F : Type} {At At' : Context → F → Prop} {s s' : Scheduler F} {created : List Word}
  {r f : F} {esp : Option F} {p ms : Word}

/-- What resumes the contexts may change, except for the one on the CPU. -/
theorem FramesHeld.mono (h : FramesHeld At s created)
    (hp : ∀ p ∈ created, s.current ≠ some p → ∀ f, At (.process p) f → At' (.process p) f)
    (hk : s.current ≠ none → ∀ f, At .kernel f → At' .kernel f) : FramesHeld At' s created where
  nodup := h.nodup
  subset := h.subset
  current_mem := h.current_mem
  parked p hmem hc := hp p hmem hc _ (h.parked p hmem hc)
  kernel hc := by
    rcases h.kernel hc with ⟨f, hf, hat⟩
    exact ⟨f, hf, hk hc f hat⟩

/-- A switch ends on a frame of the context that it makes the current one. -/
theorem FramesReady.switch (h : FramesReady At s created) :
    ∃ s' f, switchFrom s = .ok (s', some f) ∧ FramesHeld At s' created ∧
      At (contextOf s'.current) f := by
  rcases h.kernel with ⟨k, hk, hkernel⟩
  rcases schedulerNext_spec h.nodup h.current_mem with ⟨q, hq, -, hnext⟩ | ⟨-, hnext⟩
  · have hswitch := schedulerSwitch_some hnext
    refine ⟨({ s with current := some q } : Scheduler F).setState q .running, (s.process q).esp,
      by rw [switchFrom, hswitch]; rfl, ?_, h.parked q (h.subset q hq)⟩
    exact {
      nodup := h.nodup
      subset := h.subset
      current_mem := by
        intro p hp
        rcases Option.some.inj hp
        exact hq
      parked := by
        intro p hp hne
        have hpq : p ≠ q := by
          intro hpq
          exact hne (hpq ▸ rfl)
        have hsame : (({ s with current := some q } : Scheduler F).setState q .running).process p =
            s.process p := Function.update_of_ne hpq ..
        rw [hsame]
        exact h.parked p hp
      kernel := fun _ => ⟨k, hk, hkernel⟩ }
  · have hswitch := schedulerSwitch_none hnext hk
    refine ⟨{ s with current := none }, k, by rw [switchFrom, hswitch]; rfl, ?_, hkernel⟩
    exact {
      nodup := h.nodup
      subset := h.subset
      current_mem := by
        intro p hp
        cases hp
      parked := fun p hp _ => h.parked p hp
      kernel := fun hc => absurd rfl hc }

/-- The same, from what the handler has returned. -/
theorem FramesReady.of_switchFrom (h : FramesReady At s created)
    (hswitch : switchFrom s = .ok (s', esp)) :
    FramesHeld At s' created ∧ At (contextOf s'.current) (esp.getD r) := by
  rcases h.switch with ⟨t, f, ht, hheld, hat⟩
  rw [hswitch] at ht
  cases ht
  exact ⟨hheld, hat⟩

/-! ## The states in which the handlers switch -/

namespace FramesHeld

/-- The interrupted context is saved. -/
theorem preempted (h : FramesHeld At s created) (hr : At (contextOf s.current) r) :
    FramesReady At (s.preempted r) created := by
  have hesp : ∀ p, s.current ≠ some p →
      ((s.preempted r).process p).esp = (s.process p).esp := by
    intro p hp
    have hcount := decrementSleepCounters_process (s := s) h.nodup p
    have hkept : ((decrementSleepCounters s s.list).process p).esp = (s.process p).esp := by
      rw [hcount]
      split
      · exact Process.decrementSleep_esp _
      · rfl
    cases hc : s.current with
    | none => rw [Scheduler.preempted_none hc, hkept]
    | some q =>
      have hpq : p ≠ q := by
        intro hpq
        exact hp (hpq ▸ hc)
      rw [Scheduler.preempted_some hc, ← hkept]
      simp [Scheduler.setState, Scheduler.setEsp, hpq]
  exact {
    nodup := by
      rw [Scheduler.preempted_list]
      exact h.nodup
    subset := by
      rw [Scheduler.preempted_list]
      exact h.subset
    current_mem := by
      rw [Scheduler.preempted_list, Scheduler.preempted_current]
      exact h.current_mem
    parked := by
      intro p hp
      by_cases hc : s.current = some p
      · rw [(Scheduler.preempted_self hc).1]
        rw [hc] at hr
        exact hr
      · rw [hesp p hc]
        exact h.parked p hp hc
    kernel := by
      cases hc : s.current with
      | none =>
        rw [hc] at hr
        rw [Scheduler.preempted_none hc]
        exact ⟨r, rfl, hr⟩
      | some q =>
        rw [Scheduler.preempted_some hc]
        rcases h.kernel (hc ▸ Option.some_ne_none q) with ⟨f, hf, hat⟩
        refine ⟨f, ?_, hat⟩
        rw [← hf]
        exact (decrementSleepCounters_fields s.list).2.2.2 }

/-- The current context goes to sleep. -/
theorem slept (h : FramesHeld At s created) (hc : s.current = some p)
    (hr : At (.process p) r) : FramesReady At (s.slept p ms r) created where
  nodup := h.nodup
  subset := h.subset
  current_mem := by
    intro q hq
    cases hq
  parked := by
    intro q hq
    by_cases hqp : q = p
    · rw [hqp, Scheduler.slept_self]
      exact hr
    · rw [Scheduler.slept_of_ne hqp]
      apply h.parked q hq
      rw [hc]
      exact fun heq => hqp (Option.some.inj heq).symm
  kernel := h.kernel (hc ▸ Option.some_ne_none p)

/-- The current context is stopped. -/
theorem stopped (h : FramesHeld At s created) (hc : s.current = some p) (hnd : created.Nodup) :
    FramesReady At (s.stopped p) (created.erase p) where
  nodup := h.nodup.erase p
  subset := by
    intro q hq
    rcases h.nodup.mem_erase_iff.mp hq with ⟨hne, hq⟩
    exact (List.mem_erase_of_ne hne).mpr (h.subset q hq)
  current_mem := by
    intro q hq
    cases hq
  parked := by
    intro q hq
    rcases hnd.mem_erase_iff.mp hq with ⟨hne, hq⟩
    apply h.parked q hq
    rw [hc]
    exact fun heq => hne (Option.some.inj heq).symm
  kernel := h.kernel (hc ▸ Option.some_ne_none p)

/-! ## Handlers -/

theorem schedulerHandleIrq (h : FramesHeld At s created) (hr : At (contextOf s.current) r)
    (hirq : Hjortron.schedulerHandleIrq s r = .ok (s', esp)) :
    FramesHeld At s' created ∧ At (contextOf s'.current) (esp.getD r) := by
  cases henabled : s.enabled with
  | false =>
    rw [schedulerHandleIrq_disabled henabled] at hirq
    cases hirq
    exact ⟨h, hr⟩
  | true =>
    rw [schedulerHandleIrq_enabled henabled] at hirq
    exact (h.preempted hr).of_switchFrom hirq

theorem schedulerSleep (h : FramesHeld At s created) (hc : s.current = some p)
    (hr : At (.process p) r) (hsleep : Hjortron.schedulerSleep s ms r (some p) = .ok (s', esp)) :
    FramesHeld At s' created ∧ At (contextOf s'.current) (esp.getD r) := by
  rw [schedulerSleep_current hc] at hsleep
  exact (h.slept hc hr).of_switchFrom hsleep

theorem schedulerStop (h : FramesHeld At s created) (hc : s.current = some p)
    (hnd : created.Nodup) (hstop : Hjortron.schedulerStop s (some p) = .ok (s', esp)) :
    FramesHeld At s' (created.erase p) ∧ At (contextOf s'.current) (esp.getD r) := by
  rw [schedulerStop_current (h.current_mem p hc) hc] at hstop
  exact (h.stopped hc hnd).of_switchFrom hstop

/-! ## Other functions -/

/-- A process is put into the list. -/
theorem listInsert (h : FramesHeld At s created) (hp : p ∈ created) (hnew : p ∉ s.list) :
    FramesHeld At { s with list := Hjortron.listInsert s.list p } created where
  nodup := by
    apply List.nodup_append.mpr
    refine ⟨h.nodup, List.nodup_singleton p, ?_⟩
    intro q hq b hb heq
    rw [heq, List.mem_singleton.mp hb] at hq
    exact hnew hq
  subset := by
    intro q hq
    rcases List.mem_append.mp hq with hq | hq
    · exact h.subset q hq
    · rw [List.mem_singleton.mp hq]
      exact hp
  current_mem p hp := List.mem_append_left _ (h.current_mem p hp)
  parked := h.parked
  kernel := h.kernel

/-- A process is created with a frame. -/
theorem create {process : Process F} (h : FramesHeld At s created)
    (hat : At (.process p) process.esp) :
    FramesHeld At { s with process := Function.update s.process p process } (p :: created) where
  nodup := h.nodup
  subset q hq := List.mem_cons_of_mem p (h.subset q hq)
  current_mem := h.current_mem
  parked := by
    intro q hq hc
    by_cases hqp : q = p
    · rw [hqp]
      simp only [Function.update_self]
      exact hat
    · simp only [Function.update_of_ne hqp]
      exact h.parked q (List.mem_of_ne_of_mem hqp hq) hc
  kernel := h.kernel

end FramesHeld

end Hjortron
