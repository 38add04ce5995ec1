import Hjortron.Execution.Scheduler
import Hjortron.Misc.CyclicOrder
import Mathlib.Data.List.TakeWhile

/-!
# What the functions of the scheduler compute

`scheduler_next` is a search for a waiting process once round the list, from the process after
the current one, or from the second process of the list when there is no current one.
-/

namespace Hjortron

variable {F : Type} {s s' : Scheduler F} {p q : Word} {r f : F}

/-- The test of `scheduler_next`. -/
def Scheduler.isWaiting (s : Scheduler F) (p : Word) : Bool :=
  (s.process p).state = .waiting

theorem Scheduler.isWaiting_iff : s.isWaiting p ↔ (s.process p).state = .waiting :=
  decide_eq_true_iff

/-! ## `scheduler_next` -/

/-- As long as the list does not end, the loop looks at the nodes that follow. -/
theorem schedulerNextLoop_take (x : Word) (nodes : List Word) (n : Nat) (hn : n ≤ nodes.length) :
    schedulerNextLoop s n (x :: nodes) = .ok ((nodes.take n).find? s.isWaiting) := by
  induction n generalizing x nodes with
  | zero => simp [schedulerNextLoop]
  | succ n ih =>
    cases nodes with
    | nil => simp at hn
    | cons y rest =>
      have hrest := ih y rest (by simpa using hn)
      by_cases hy : (s.process y).state = .waiting
      · simp [schedulerNextLoop, Scheduler.isWaiting, hy]
      · simp [schedulerNextLoop, Scheduler.isWaiting, hy, hrest]

/-- At the end of the list the loop goes on as if its head followed. -/
theorem schedulerNextLoop_wrap (x : Word) (nodes : List Word) (n : Nat) (hl : s.list ≠ []) :
    schedulerNextLoop s (nodes.length + (n + 1)) (x :: nodes) =
      match nodes.find? s.isWaiting with
      | some q => .ok (some q)
      | none => schedulerNextLoop s (n + 1) (x :: s.list) := by
  induction nodes generalizing x with
  | nil => simp [schedulerNextLoop, hl]
  | cons y rest ih =>
    rw [List.length_cons, show rest.length + 1 + (n + 1) = (rest.length + (n + 1)) + 1 by omega]
    by_cases hy : (s.process y).state = .waiting
    · simp [schedulerNextLoop, Scheduler.isWaiting, hy]
    · have hfind : (y :: rest).find? s.isWaiting = rest.find? s.isWaiting := by
        simp [Scheduler.isWaiting, hy]
      rw [hfind, schedulerNextLoop, if_neg (List.cons_ne_nil y rest)]
      simp only [hy, ↓reduceIte, ih y]
      -- the first node of the remaining scan does not matter
      simp [schedulerNextLoop, hl]

/-- The whole loop goes once round the list. -/
theorem schedulerNextLoop_round {pre post : List Word} (h : s.list = pre ++ p :: post) :
    schedulerNextLoop s s.list.length (p :: post) =
      .ok ((post ++ pre ++ [p]).find? s.isWaiting) := by
  have hlen : s.list.length = post.length + (pre.length + 1) := by
    simp [h]
    omega
  have htake : s.list.take (pre.length + 1) = pre ++ [p] := by
    rw [h, List.take_append]
    simp
  rw [hlen, schedulerNextLoop_wrap p post pre.length (by simp [h]), List.append_assoc,
    List.find?_append]
  cases post.find? s.isWaiting with
  | some q => rfl
  | none =>
    rw [schedulerNextLoop_take p s.list (pre.length + 1) (by rw [hlen]; omega), htake]
    rfl

theorem schedulerNext_current (hl : s.list.Nodup) (hc : s.current = some p) (hp : p ∈ s.list) :
    schedulerNext s = .ok ((rotation s.list p ++ [p]).find? s.isWaiting) := by
  obtain ⟨pre, post, h, hpre, -, -⟩ := exists_split hl hp
  have hfind : listFind s.list p = p :: post := by
    rw [listFind, h, dropWhile_ne_append_cons hpre]
  rw [schedulerNext, hc]
  simp only [hfind]
  rw [schedulerNextLoop_round h, h, rotation_append_cons hpre]

theorem schedulerNext_head {nodes : List Word} (hc : s.current = none)
    (hlist : s.list = p :: nodes) :
    schedulerNext s = .ok ((nodes ++ [p]).find? s.isWaiting) := by
  have hround := schedulerNextLoop_round (show s.list = [] ++ p :: nodes from hlist)
  rw [List.append_nil, ← hlist] at hround
  rw [schedulerNext, hc]
  exact hround

theorem schedulerNext_empty (hc : s.current = none) (hlist : s.list = []) :
    schedulerNext s = .ok none := by
  rw [schedulerNext, hc, hlist]
  rfl

/-- `scheduler_next` finds a waiting process of the list if there is one. -/
theorem schedulerNext_spec (hl : s.list.Nodup) (hc : ∀ p, s.current = some p → p ∈ s.list) :
    (∃ q ∈ s.list, s.isWaiting q ∧ schedulerNext s = .ok (some q)) ∨
      (∀ q ∈ s.list, ¬ s.isWaiting q) ∧ schedulerNext s = .ok none := by
  obtain ⟨order, hperm, hnext⟩ : ∃ order : List Word, order.Perm s.list ∧
      schedulerNext s = .ok (order.find? s.isWaiting) := by
    cases hcur : s.current with
    | none =>
      cases hlist : s.list with
      | nil => exact ⟨[], .nil, schedulerNext_empty hcur hlist⟩
      | cons p nodes =>
        exact ⟨nodes ++ [p], List.perm_append_singleton p nodes, schedulerNext_head hcur hlist⟩
    | some p =>
      refine ⟨rotation s.list p ++ [p], ?_, schedulerNext_current hl hcur (hc p hcur)⟩
      obtain ⟨pre, post, h, hpre, -, -⟩ := exists_split hl (hc p hcur)
      rw [h, rotation_append_cons hpre, List.append_assoc]
      exact List.perm_append_comm.trans (by simp)
  cases hf : order.find? s.isWaiting with
  | none =>
    refine .inr ⟨fun q hq => ?_, by rw [hnext, hf]⟩
    exact List.find?_eq_none.mp hf q (hperm.mem_iff.mpr hq)
  | some q =>
    refine .inl ⟨q, hperm.mem_iff.mp (List.mem_of_find?_eq_some hf), ?_, by rw [hnext, hf]⟩
    exact List.find?_some hf

/-! ## `scheduler_switch` -/

/-- `scheduler_switch` when a process is waiting. -/
theorem schedulerSwitch_some (h : schedulerNext s = .ok (some q)) :
    schedulerSwitch s =
      .ok (({ s with current := some q } : Scheduler F).setState q .running,
        (s.process q).esp) := by
  simp [schedulerSwitch, h, bind, Except.bind, pure, Except.pure]

/-- `scheduler_switch` when none is. -/
theorem schedulerSwitch_none (h : schedulerNext s = .ok none) (he : s.esp = some f) :
    schedulerSwitch s = .ok ({ s with current := none }, f) := by
  simp [schedulerSwitch, h, he, bind, Except.bind, pure, Except.pure]

/-! ## The sleep counters -/

theorem decrementSleepCounters_fields (nodes : List Word) :
    (decrementSleepCounters s nodes).list = s.list ∧
      (decrementSleepCounters s nodes).current = s.current ∧
      (decrementSleepCounters s nodes).enabled = s.enabled ∧
      (decrementSleepCounters s nodes).esp = s.esp := by
  induction nodes generalizing s with
  | nil => exact ⟨rfl, rfl, rfl, rfl⟩
  | cons p nodes ih => exact ih

theorem decrementSleepCounters_process {nodes : List Word} (hnd : nodes.Nodup) (q : Word) :
    (decrementSleepCounters s nodes).process q =
      if q ∈ nodes then (s.process q).decrementSleep else s.process q := by
  induction nodes generalizing s with
  | nil => rfl
  | cons p nodes ih =>
    obtain ⟨hp, hnodes⟩ := List.nodup_cons.mp hnd
    rw [decrementSleepCounters, ih hnodes]
    by_cases hq : q = p
    · subst hq
      simp [hp]
    · simp [hq]

@[simp] theorem Process.decrementSleep_esp (p : Process F) : p.decrementSleep.esp = p.esp := by
  unfold decrementSleep
  split_ifs <;> rfl

theorem Process.decrementSleep_running {p : Process F} :
    p.decrementSleep.state = .running ↔ p.state = .running := by
  unfold decrementSleep
  split_ifs with h <;> simp [h]

theorem Process.decrementSleep_of_ne {p : Process F} (h : p.state ≠ .sleeping) :
    p.decrementSleep = p := by
  rw [decrementSleep, if_neg h]

/-! ## The states in which the handlers switch -/

/-- The state in which `scheduler_handle_irq` switches. -/
def Scheduler.preempted (s : Scheduler F) (r : F) : Scheduler F :=
  let s := decrementSleepCounters s s.list
  match s.current with
  | none => { s with esp := some r }
  | some current => (s.setEsp current r).setState current .waiting

/-- The state in which `scheduler_stop` switches when the current process is stopped. -/
def Scheduler.stopped (s : Scheduler F) (p : Word) : Scheduler F :=
  { s with list := s.list.erase p, current := none }

/-- The state of a process that has been sent to sleep. -/
def Scheduler.asleep (s : Scheduler F) (p ms : Word) : Scheduler F :=
  (s.setState p .sleeping).setSleep p (ms * pitInterruptsPerSecond / 1000)

/-- The state in which `scheduler_sleep` switches when the current process is sent to sleep. -/
def Scheduler.slept (s : Scheduler F) (p ms : Word) (r : F) : Scheduler F :=
  { (s.asleep p ms).setEsp p r with current := none }

theorem Scheduler.preempted_none (hc : s.current = none) :
    s.preempted r = { decrementSleepCounters s s.list with esp := some r } := by
  have hc' : (decrementSleepCounters s s.list).current = none := by
    rw [(decrementSleepCounters_fields s.list).2.1, hc]
  simp only [preempted, hc']

theorem Scheduler.preempted_some (hc : s.current = some p) :
    s.preempted r =
      ((decrementSleepCounters s s.list).setEsp p r).setState p .waiting := by
  have hc' : (decrementSleepCounters s s.list).current = some p := by
    rw [(decrementSleepCounters_fields s.list).2.1, hc]
  simp only [preempted, hc']

@[simp] theorem Scheduler.preempted_list : (s.preempted r).list = s.list := by
  have h := (decrementSleepCounters_fields (s := s) s.list).1
  cases hc : s.current with
  | none => rw [preempted_none hc, h]
  | some p => rw [preempted_some hc, setState, setEsp, h]

@[simp] theorem Scheduler.preempted_current : (s.preempted r).current = s.current := by
  have h := (decrementSleepCounters_fields (s := s) s.list).2.1
  cases hc : s.current with
  | none => rw [preempted_none hc, h, hc]
  | some p => rw [preempted_some hc, setState, setEsp, h, hc]

theorem Scheduler.preempted_self (hc : s.current = some p) :
    ((s.preempted r).process p).esp = r ∧ ((s.preempted r).process p).state = .waiting := by
  simp [preempted_some hc, setState, setEsp]

theorem Scheduler.preempted_of_ne (hl : s.list.Nodup) (hq : q ∈ s.list) (hc : s.current ≠ some q) :
    (s.preempted r).process q = (s.process q).decrementSleep := by
  have h := decrementSleepCounters_process (s := s) hl q
  rw [if_pos hq] at h
  cases hcur : s.current with
  | none => rw [preempted_none hcur, h]
  | some p =>
    have hqp : q ≠ p := by
      rintro rfl
      exact hc hcur
    simp [preempted_some hcur, setState, setEsp, hqp, h]

section Sleep

variable {ms : Word}

theorem Scheduler.asleep_self :
    (s.asleep p ms).process p =
      ⟨(s.process p).esp, .sleeping, ms * pitInterruptsPerSecond / 1000⟩ := by
  simp [asleep, setState, setSleep]

theorem Scheduler.asleep_of_ne (h : q ≠ p) : (s.asleep p ms).process q = s.process q := by
  simp [asleep, setState, setSleep, h]

theorem Scheduler.slept_self :
    (s.slept p ms r).process p = ⟨r, .sleeping, ms * pitInterruptsPerSecond / 1000⟩ := by
  simp [slept, setEsp, asleep_self]

theorem Scheduler.slept_of_ne (h : q ≠ p) : (s.slept p ms r).process q = s.process q := by
  simp [slept, setEsp, h, asleep_of_ne h]

end Sleep

/-- The result of a handler that ends in `scheduler_switch`. -/
def switchFrom (s : Scheduler F) : Except Halt (Scheduler F × Option F) := do
  let (s, esp) ← schedulerSwitch s
  return (s, some esp)

theorem schedulerHandleIrq_disabled (h : s.enabled = false) :
    schedulerHandleIrq s r = .ok (s, none) := by
  simp [schedulerHandleIrq, h, pure, Except.pure]

theorem schedulerHandleIrq_enabled (h : s.enabled = true) :
    schedulerHandleIrq s r = switchFrom (s.preempted r) := by
  simp only [schedulerHandleIrq, h, switchFrom, Scheduler.preempted]
  rfl

theorem listFind_eq_nil {nodes : List Word} : listFind nodes p = [] ↔ p ∉ nodes := by
  rw [listFind, List.dropWhile_eq_nil_iff]
  grind

theorem listDelete_of_mem {nodes : List Word} (hp : p ∈ nodes) :
    listDelete nodes p = .ok (nodes.erase p) := by
  have hfind : listFind nodes p ≠ [] := fun h => listFind_eq_nil.mp h hp
  simp [listDelete, hfind, bind, Except.bind, pure, Except.pure]

theorem schedulerStop_current (hp : p ∈ s.list) (hc : s.current = some p) :
    schedulerStop s (some p) = switchFrom (s.stopped p) := by
  simp [schedulerStop, listDelete_of_mem hp, hc, bind, Except.bind, switchFrom, Scheduler.stopped]

theorem schedulerStop_other (hp : p ∈ s.list) (hc : s.current ≠ some p) :
    schedulerStop s (some p) = .ok ({ s with list := s.list.erase p }, none) := by
  simp [schedulerStop, listDelete_of_mem hp, hc, bind, Except.bind, pure, Except.pure]

theorem schedulerSleep_current {ms : Word} (hc : s.current = some p) :
    schedulerSleep s ms r (some p) = switchFrom (s.slept p ms r) := by
  have hc' : (s.asleep p ms).current = some p := hc
  exact if_pos hc'

theorem schedulerSleep_other {ms : Word} (hc : s.current ≠ some p) :
    schedulerSleep s ms r (some p) = .ok (s.asleep p ms, none) := by
  have hc' : (s.asleep p ms).current ≠ some p := hc
  exact if_neg hc'

end Hjortron
