import Hjortron.Execution.Proofs.ContextSwitch

/-!
# Round-robin scheduling

The scan of `scheduler_next` goes on where the last one stopped only through `current`. A tick
keeps it, so that the process selected next is ahead of every other process that is ready. A
process that sleeps or stops sets it to NULL first, and the scan starts over after the head of
the list: processes between the head and the caller are then taken before those that follow the
caller, although they have just been served.
-/

namespace Hjortron

variable {m m' : Machine} {s s' : Scheduler Frame} {e : Event} {p q x y : Word}
  {base : List Word}

/-- The process `q` waits for its turn. -/
def Ready (m : Machine) (q : Word) : Prop :=
  q ∈ m.sched.list ∧ (m.sched.process q).state = .waiting

instance (m : Machine) (q : Word) : Decidable (Ready m q) :=
  inferInstanceAs (Decidable (_ ∧ _))

instance : (e : Event) → Decidable e.IsInterrupt
  | .tick | .syscall _ _ | .stop _ | .sleep _ _ => .isTrue trivial
  | .start _ | .enable | .disable => .isFalse id

/-- A step of an interval in which the scheduler is enabled, no process is started and `q`
stays ready. -/
def IntervalStep (q : Word) (m : Machine) (e : Event) (m' : Machine) : Prop :=
  MachineStep m e m' ∧ e.IsInterrupt ∧ m.sched.enabled = true ∧ Ready m q ∧ Ready m' q

/-- The processes between the head of the list and `p`. -/
def Scheduler.between (s : Scheduler Frame) (p : Word) : List Word :=
  (s.list.takeWhile (· ≠ p)).tail

/-- None of the processes waits. -/
def Scheduler.NoneWaiting (s : Scheduler Frame) (nodes : List Word) : Prop :=
  ∀ p ∈ nodes, (s.process p).state ≠ .waiting

instance (s : Scheduler Frame) (nodes : List Word) : Decidable (s.NoneWaiting nodes) :=
  List.decidableBAll _ nodes

/-- Starting over at the head of the list does not pass over `q`. When the current process
sleeps or stops, `q` itself or no waiting process at all stands between the head of the list and
it; when it stops at the head, `q` does not come next, or is the only process that waits. -/
def KeepsTurn (m : Machine) (q : Word) (e : Event) : Prop :=
  ∀ p ∈ m.sched.current,
    (e.Stops m p ∨ e.sleepTime m p ≠ none → q ∉ m.sched.between p →
      m.sched.NoneWaiting (m.sched.between p)) ∧
    (e.Stops m p → m.sched.list.take 2 = [p, q] → m.sched.NoneWaiting (m.sched.list.drop 2))

instance (m : Machine) (q : Word) (e : Event) : Decidable (KeepsTurn m q e) :=
  Option.decidableForallMem m.sched.current

/-! ## What a switch selects -/

theorem SchedulerInv.ready_ne (hm : SchedulerInv m) (hq : Ready m q)
    (hc : m.sched.current = some x) : q ≠ x := by
  rintro rfl
  have hstate := hq.2
  rw [hm.current_running q hc] at hstate
  cases hstate

/-- A ready process stays ready until the switch. -/
theorem SwitchPoint.ready (hm : SchedulerInv m) (hq : Ready m q) (h : SwitchPoint m e s) :
    q ∈ s.list ∧ s.process q = m.sched.process q := by
  cases h with
  | preempted _ _ =>
    have hc : m.sched.current ≠ some q := fun hc => hm.ready_ne hq hc rfl
    refine ⟨by simpa using hq.1, ?_⟩
    rw [Scheduler.preempted_of_ne hm.nodup hq.1 hc]
    exact Process.decrementSleep_of_ne (by simp [hq.2])
  | stopped hc _ => exact ⟨(List.mem_erase_of_ne (hm.ready_ne hq hc)).mpr hq.1, rfl⟩
  | slept hc _ => exact ⟨hq.1, Scheduler.slept_of_ne (hm.ready_ne hq hc)⟩

/-- The process selected after a tick. -/
theorem select_preempted (hm : SchedulerInv m) (hq : Ready m q) (hc : m.sched.current = some x)
    (hs : SwitchPoint m .tick (m.sched.preempted m.frame)) :
    ∃ y, schedulerNext (m.sched.preempted m.frame) = .ok (some y) ∧
      (y = q ∨ y ∈ ahead m.sched.list x q) := by
  have hx := hm.current_mem x hc
  have hw : (m.sched.preempted m.frame).isWaiting q := by
    rw [Scheduler.isWaiting_iff, (hs.ready hm hq).2, hq.2]
  obtain ⟨y, hfind, hy⟩ := find_rotation hm.nodup hx hq.1 (hm.ready_ne hq hc) hw
  refine ⟨y, ?_, hy⟩
  rw [schedulerNext_current (by simpa using hm.nodup) (by simpa using hc) (by simpa using hx),
    Scheduler.preempted_list, List.find?_append, hfind]
  rfl

theorem Scheduler.between_cons {s : Scheduler Frame} {head : Word} {pre post : List Word}
    (hlist : s.list = head :: pre ++ x :: post) (hpre : x ∉ head :: pre) : s.between x = pre := by
  rw [Scheduler.between, hlist, takeWhile_ne_append_cons hpre, List.tail_cons]

theorem mem_of_mem_split {head : Word} {pre post : List Word}
    (hq : q ∈ head :: (pre ++ x :: post)) (hqx : q ≠ x) : q ∈ head :: (pre ++ post) := by
  simp only [List.mem_cons, List.mem_append] at hq ⊢
  exact hq.imp_right fun h => h.imp_right fun h => h.resolve_left hqx

/-- The process selected when the current one is sent to sleep. -/
theorem select_slept {ms : Word} (hm : SchedulerInv m) (hq : Ready m q)
    (hc : m.sched.current = some x) (hk : KeepsTurn m q e) (he : e.sleepTime m x = some ms) :
    ∃ y, schedulerNext (m.sched.slept x ms m.frame) = .ok (some y) ∧
      (y = q ∨ y ∈ ahead m.sched.list x q) := by
  have hqx := hm.ready_ne hq hc
  have hx := hm.current_mem x hc
  have hw : (m.sched.slept x ms m.frame).isWaiting q := by
    rw [Scheduler.isWaiting_iff, Scheduler.slept_of_ne hqx, hq.2]
  have hwx : ¬ (m.sched.slept x ms m.frame).isWaiting x := by
    simp [Scheduler.isWaiting_iff, Scheduler.slept_self]
  obtain ⟨pre, post, hlist, hpre, -, -⟩ := exists_split hm.nodup hx
  cases pre with
  | nil =>
    obtain ⟨y, hfind, hy⟩ := find_rotation hm.nodup hx hq.1 hqx hw
    have hround : rotation m.sched.list x = post := by
      rw [hlist, rotation_append_cons hpre, List.append_nil]
    refine ⟨y, ?_, hy⟩
    have hhead : (m.sched.slept x ms m.frame).list = x :: post := hlist
    rw [schedulerNext_head rfl hhead, List.find?_append, ← hround, hfind]
    rfl
  | cons head pre =>
    have hlist' : m.sched.list = head :: (pre ++ x :: post) := hlist
    have hbetween : m.sched.between x = pre := Scheduler.between_cons hlist hpre
    have hnone : q ∉ pre → ∀ z ∈ pre, ¬ (m.sched.slept x ms m.frame).isWaiting z := by
      intro hqpre z hz
      have hzx : z ≠ x := by
        rintro rfl
        exact hpre (List.mem_cons_of_mem head hz)
      rw [Scheduler.isWaiting_iff, Scheduler.slept_of_ne hzx]
      exact (hk x hc).1 (.inr (by simp [he])) (hbetween ▸ hqpre) z (hbetween ▸ hz)
    have hq' : q ∈ head :: (pre ++ post) := mem_of_mem_split (hlist' ▸ hq.1) hqx
    obtain ⟨y, hfind, hy⟩ := find_restart [x] (hlist' ▸ hm.nodup) hq' hw hnone
      (by simpa using hwx)
    rw [← hlist'] at hy
    refine ⟨y, ?_, hy⟩
    have hhead : (m.sched.slept x ms m.frame).list = head :: (pre ++ x :: post) := hlist
    rw [schedulerNext_head rfl hhead]
    simpa using hfind

/-- The process selected when the current one is stopped. -/
theorem select_stopped (hm : SchedulerInv m) (hq : Ready m q)
    (hc : m.sched.current = some x) (hk : KeepsTurn m q e) (he : e.Stops m x) :
    ∃ y, schedulerNext (m.sched.stopped x) = .ok (some y) ∧
      (y = q ∨ y ∈ ahead m.sched.list x q) := by
  have hqx := hm.ready_ne hq hc
  have hx := hm.current_mem x hc
  have hw : (m.sched.stopped x).isWaiting q := Scheduler.isWaiting_iff.mpr hq.2
  obtain ⟨pre, post, hlist, hpre, -, -⟩ := exists_split hm.nodup hx
  cases pre with
  | nil =>
    have hlist' : m.sched.list = x :: post := hlist
    have hqpost : q ∈ post := List.mem_of_ne_of_mem hqx (hlist' ▸ hq.1)
    cases post with
    | nil => cases hqpost
    | cons head post =>
      have hnone : q = head → ∀ z ∈ post, ¬ (m.sched.stopped x).isWaiting z := by
        rintro rfl z hz
        rw [Scheduler.isWaiting_iff]
        exact (hk x hc).2 he (by simp [hlist']) z (by simpa [hlist'] using hz)
      obtain ⟨y, hfind, hy⟩ := find_restart_head (hlist' ▸ hm.nodup) hqpost hw hnone
      rw [← hlist'] at hy
      refine ⟨y, ?_, hy⟩
      have herase : (m.sched.stopped x).list = head :: post := by
        simp [Scheduler.stopped, hlist']
      rw [schedulerNext_head rfl herase, hfind]
  | cons head pre =>
    have hlist' : m.sched.list = head :: (pre ++ x :: post) := hlist
    have hbetween : m.sched.between x = pre := Scheduler.between_cons hlist hpre
    have hnone : q ∉ pre → ∀ z ∈ pre, ¬ (m.sched.stopped x).isWaiting z := by
      intro hqpre z hz
      rw [Scheduler.isWaiting_iff]
      exact (hk x hc).1 (.inl he) (hbetween ▸ hqpre) z (hbetween ▸ hz)
    have hq' : q ∈ head :: (pre ++ post) := mem_of_mem_split (hlist' ▸ hq.1) hqx
    obtain ⟨y, hfind, hy⟩ := find_restart [] (hlist' ▸ hm.nodup) hq' hw hnone (by simp)
    rw [← hlist'] at hy
    refine ⟨y, ?_, hy⟩
    have herase : (m.sched.stopped x).list = head :: (pre ++ post) := by
      rw [Scheduler.stopped, hlist, List.erase_append_right _ hpre, List.erase_cons_head]
      rfl
    rw [schedulerNext_head rfl herase]
    simpa using hfind

/-- A switch selects a process ahead of `q`, or `q` itself. -/
theorem SwitchPoint.select (hm : SchedulerInv m) (hq : Ready m q) (hk : KeepsTurn m q e)
    (hs : SwitchPoint m e s) :
    ∃ y, schedulerNext s = .ok (some y) ∧
      ∀ x, m.sched.current = some x → y = q ∨ y ∈ ahead m.sched.list x q := by
  cases hc : m.sched.current with
  | none =>
    have hswitchable := hs.switchable hm
    obtain ⟨hqs, hproc⟩ := hs.ready hm hq
    rcases schedulerNext_spec hswitchable.nodup hswitchable.current_mem with
      ⟨y, -, -, hnext⟩ | ⟨hnone, -⟩
    · exact ⟨y, hnext, by simp⟩
    · exact absurd (Scheduler.isWaiting_iff.mpr (hproc ▸ hq.2)) (hnone q hqs)
  | some x =>
    obtain ⟨y, hnext, hy⟩ : ∃ y, schedulerNext s = .ok (some y) ∧
        (y = q ∨ y ∈ ahead m.sched.list x q) := by
      cases hs with
      | preempted he hen =>
        subst he
        exact select_preempted hm hq hc (.preempted rfl hen)
      | stopped hc' he =>
        obtain rfl := Option.some.inj (hc.symm.trans hc')
        exact select_stopped hm hq hc hk he
      | slept hc' he =>
        obtain rfl := Option.some.inj (hc.symm.trans hc')
        exact select_slept hm hq hc hk he
    refine ⟨y, hnext, ?_⟩
    rintro _ ⟨⟩
    exact hy

/-- From the selected process on, fewer processes are ahead of `q`. -/
theorem SwitchPoint.ahead_subset (hm : SchedulerInv m) (hq : Ready m q) (hs : SwitchPoint m e s)
    (hc : m.sched.current = some x) (hy : y ∈ ahead m.sched.list x q) :
    ∀ z ∈ ahead s.list y q, z ∈ ahead m.sched.list x q ∧ z ≠ y := by
  have hx := hm.current_mem x hc
  have hqx := hm.ready_ne hq hc
  intro z hz
  refine ahead_of_mem_ahead hm.nodup hx hq.1 hqx hy ?_
  cases hs with
  | preempted _ _ => simpa using hz
  | slept _ _ => exact hz
  | stopped hc' _ =>
    obtain rfl := Option.some.inj (hc.symm.trans hc')
    obtain ⟨hyl, hyx⟩ := mem_of_mem_ahead hm.nodup hx hy
    have hqy : q ≠ y := by
      rintro rfl
      simpa using List.mem_takeWhile_imp hy
    exact ahead_erase_subset hm.nodup hyl hq.1 hqy hyx hqx hz

/-! ## Intervals -/

/-- The invariant of an interval that has started with the selections `base`: no process
selected since then is ahead of `q`. -/
structure Turn (q : Word) (base : List Word) (m : Machine) : Prop where
  inv : SchedulerInv m
  log : ∃ log, m.selected = log ++ base ∧ log.Nodup ∧ (m.sched.current = none → log = []) ∧
    ∀ x, m.sched.current = some x → ∀ y ∈ log, y ∉ ahead m.sched.list x q

theorem Turn.step_switch {mem : Mem} {f : Frame} (ht : Turn q base m) (hq : Ready m q)
    (hk : KeepsTurn m q e) (hs : SwitchPoint m e s) (hswitch : switchFrom s = .ok (s', some f))
    (hm' : SchedulerInv (m.restore s' mem (some f))) (hq' : Ready (m.restore s' mem (some f)) q) :
    Turn q base (m.restore s' mem (some f)) := by
  obtain ⟨log, hlog, hnodup, hidle, hahead⟩ := ht.log
  obtain ⟨y, hnext, hy⟩ := hs.select ht.inv hq hk
  rw [switchFrom, schedulerSwitch_some hnext] at hswitch
  obtain ⟨rfl, rfl⟩ : _ = s' ∧ _ = f := by
    simpa [bind, Except.bind, pure, Except.pure] using hswitch
  have hyq : y ≠ q := fun h => hm'.ready_ne hq' rfl h.symm
  refine ⟨hm', y :: log, by simp [Machine.restore, Scheduler.setState, hlog], ?_, ?_, ?_⟩
  · refine List.nodup_cons.mpr ⟨fun hyl => ?_, hnodup⟩
    cases hc : m.sched.current with
    | none =>
      rw [hidle hc] at hyl
      cases hyl
    | some x => exact hahead x hc y hyl ((hy x hc).resolve_left hyq)
  · rintro ⟨⟩
  · rintro _ ⟨⟩ z hz hza
    have hza' : z ∈ ahead s.list y q := hza
    cases hc : m.sched.current with
    | none =>
      -- the first selection of the interval
      rw [hidle hc] at hz
      obtain rfl := List.mem_singleton.mp hz
      have hzl := hm'.current_mem z rfl
      exact (mem_of_mem_ahead hm'.nodup hzl hza).2 rfl
    | some x =>
      have hsub := hs.ahead_subset ht.inv hq hc ((hy x hc).resolve_left hyq) z hza'
      rcases List.mem_cons.mp hz with rfl | hz
      · exact hsub.2 rfl
      · exact hahead x hc z hz hsub.1

theorem Turn.step_return {mem : Mem} (ht : Turn q base m) (hq : Ready m q)
    (hs : ReturnPoint m s) (hm' : SchedulerInv (m.restore s mem none))
    (hq' : Ready (m.restore s mem none) q) : Turn q base (m.restore s mem none) := by
  obtain ⟨log, hlog, hnodup, hidle, hahead⟩ := ht.log
  refine ⟨hm', log, by simpa [Machine.restore] using hlog, hnodup, ?_, ?_⟩
  · intro hc
    exact hidle ((hs.returns ht.inv).current.symm.trans hc)
  · intro x hx z hz hza
    have hc : m.sched.current = some x := (hs.returns ht.inv).current.symm.trans hx
    refine hahead x hc z hz ?_
    cases hs with
    | same => exact hza
    | slept _ => exact hza
    | @stopped p hp =>
      have hqp : q ≠ p := ((ht.inv.nodup.mem_erase_iff).mp hq'.1).1
      have hxp : x ≠ p := by
        rintro rfl
        exact hp hc
      exact ahead_erase_subset ht.inv.nodup (ht.inv.current_mem x hc) hq.1
        (ht.inv.ready_ne hq hc) hxp hqp hza

theorem Turn.step (ht : Turn q base m) (h : IntervalStep q m e m') (hk : KeepsTurn m q e) :
    Turn q base m' := by
  obtain ⟨hstep, hi, -, hq, hq'⟩ := h
  have hm' := hstep.schedulerInv ht.inv
  have hok := hstep.2
  cases handled ht.inv hi hstep.1 with
  | switches s hs hsw =>
    obtain ⟨s', f, hswitch, -, -⟩ := (hs.switchable ht.inv).switch ht.inv m.mem
    rw [hsw s' f hswitch] at hok
    cases hok
    exact ht.step_switch hq hk hs hswitch hm' hq'
  | returns s mem hs hret =>
    rw [hret] at hok
    cases hok
    exact ht.step_return hq hs hm' hq'

/-- **Bounded overtaking.** In an interval of a run in which `q` stays ready, and in which the
processes that sleep or stop meet `KeepsTurn`, no process is selected twice. -/
theorem round_robin_run {mem : Mem} {process : Word → Process Frame} {es₀ es : List Event}
    (hreach : Run MachineStep (.boot mem process) es₀ m)
    (hrun : Run (fun m e m' => IntervalStep q m e m' ∧ KeepsTurn m q e) m es m') :
    ∃ log, m'.selected = log ++ m.selected ∧ log.Nodup := by
  have hm : Turn q m.selected m :=
    ⟨schedulerInv_of_run hreach, [], rfl, List.nodup_nil, fun _ => rfl, fun _ _ _ h => by cases h⟩
  obtain ⟨-, log, hlog, hnodup, -⟩ := hrun.invariant (I := Turn q m.selected)
    (fun _ _ _ ht h => ht.step h.1 h.2) hm
  exact ⟨log, hlog, hnodup⟩

/-- `IntervalStep`, computed. -/
def Machine.nextInterval (q : Word) (m : Machine) (e : Event) : Option Machine :=
  if e.IsInterrupt ∧ m.sched.enabled = true ∧ Ready m q then
    (m.next e).filter fun m' => Ready m' q
  else none

theorem intervalStep_of_next (h : m.nextInterval q e = some m') : IntervalStep q m e m' := by
  unfold Machine.nextInterval at h
  split_ifs at h with hi
  obtain ⟨hnext, hq'⟩ := Option.filter_eq_some_iff.mp h
  exact ⟨machineStep_of_next hnext, hi.1, hi.2.1, hi.2.2, of_decide_eq_true hq'⟩

/-- Four processes; the second one is selected, sleeps, and the third one is selected while the
fourth one waits. -/
theorem round_robin_run_four_processes :
    ∃ m m', Run MachineStep (.boot (fun _ => 0) fun _ => ⟨⟨.kernel, 0⟩, .waiting, 0⟩)
        [.start 0x1000, .start 0x2000, .start 0x3000, .start 0x4000, .enable] m ∧
      Run (fun m e m' => IntervalStep 0x4000 m e m' ∧ KeepsTurn m 0x4000 e) m
        [.tick, .syscall 0x23 1000] m' ∧
      (m.selected, m'.selected) = ([], [0x3000, 0x2000]) ∧
      ∃ log, m'.selected = log ++ m.selected ∧ log.Nodup := by
  have h : ((execute Machine.next (.boot (fun _ => 0) fun _ => ⟨⟨.kernel, 0⟩, .waiting, 0⟩)
      [.start 0x1000, .start 0x2000, .start 0x3000, .start 0x4000, .enable]).bind fun m =>
        (execute (fun m e => if KeepsTurn m 0x4000 e then m.nextInterval 0x4000 e else none) m
          [.tick, .syscall 0x23 1000]).map fun m' => (m.selected, m'.selected)) =
      some ([], [0x3000, 0x2000]) := by decide +kernel
  obtain ⟨m, hm, h⟩ := Option.bind_eq_some_iff.mp h
  obtain ⟨m', hm', hselected⟩ := Option.map_eq_some_iff.mp h
  have hreach := run_of_execute (fun _ _ _ => machineStep_of_next) hm
  have hrun : Run (fun m e m' => IntervalStep 0x4000 m e m' ∧ KeepsTurn m 0x4000 e) m
      [.tick, .syscall 0x23 1000] m' := by
    refine run_of_execute (fun m e m' hnext => ?_) hm'
    split_ifs at hnext with hk
    exact ⟨intervalStep_of_next hnext, hk⟩
  exact ⟨m, m', hreach, hrun, hselected, round_robin_run hreach hrun⟩

/-- Without the condition a process can be selected twice while another one waits: the third of
four processes sleeps, the scan starts over, and the second one runs again before the fourth. -/
theorem round_robin_run_overtakes :
    ¬ ∀ (mem : Mem) (process : Word → Process Frame) (es₀ es : List Event) (m m' : Machine)
        (q : Word) (log : List Word), Run MachineStep (.boot mem process) es₀ m →
      Run (IntervalStep q) m es m' → m'.selected = log ++ m.selected → log.Nodup := by
  intro hclaim
  have h : ((execute Machine.next (.boot (fun _ => 0) fun _ => ⟨⟨.kernel, 0⟩, .waiting, 0⟩)
      [.start 0x1000, .start 0x2000, .start 0x3000, .start 0x4000, .enable]).bind fun m =>
        (execute (Machine.nextInterval 0x4000) m [.tick, .tick, .syscall 0x23 1000]).map
          fun m' => (m.selected, m'.selected)) =
      some ([], [0x2000, 0x3000, 0x2000]) := by decide +kernel
  obtain ⟨m, hm, h⟩ := Option.bind_eq_some_iff.mp h
  obtain ⟨m', hm', hselected⟩ := Option.map_eq_some_iff.mp h
  obtain ⟨hsel, hsel'⟩ := Prod.mk.inj hselected
  have hreach := run_of_execute (fun _ _ _ => machineStep_of_next) hm
  have hrun := run_of_execute (fun _ _ _ => intervalStep_of_next) hm'
  have hnodup := hclaim _ _ _ _ m m' 0x4000 [0x2000, 0x3000, 0x2000] hreach hrun
    (by rw [hsel, hsel', List.append_nil])
  exact absurd hnodup (by decide)

end Hjortron
