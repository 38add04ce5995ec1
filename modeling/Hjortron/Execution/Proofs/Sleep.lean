import Hjortron.Execution.Proofs.ContextSwitch

/-!
# Sleeping processes

`scheduler_sleep` computes a number of ticks once; every timer interrupt that is handled while the
scheduler is enabled takes one off, and the one that finds none left wakes the process up. Nothing
else touches the counter of a process that is neither stopped nor sent to sleep again.
-/

namespace Hjortron

/-- A step that neither stops the process `p` nor sends it to sleep again. -/
def Undisturbed (p : Word) (m : Machine) (e : Event) (m' : Machine) : Prop :=
  MachineStep m e m' ∧ ¬ e.Stops m p ∧ e.sleepTime m p = none

/-- Whether the scheduler is enabled after an event. -/
def Event.enabledAfter (enabled : Bool) : Event → Bool
  | .enable => true
  | .disable => false
  | .start _ | .tick | .syscall _ _ | .stop _ | .sleep _ _ => enabled

/-- The number of timer ticks that are handled with the scheduler enabled. -/
def enabledTicks : Bool → List Event → Nat
  | _, [] => 0
  | enabled, e :: es =>
    (if e = .tick ∧ enabled = true then 1 else 0) + enabledTicks (e.enabledAfter enabled) es

/-- Until the tick number `ticks` the process `p` sleeps and is not selected; that tick makes it
wait. -/
def SleepsFor (p : Word) (ticks : Nat) (m : Machine) : Prop :=
  ∀ es n, Run (Undisturbed p) m es n →
    (enabledTicks m.sched.enabled es < ticks →
      (n.sched.process p).state = .sleeping ∧ n.selected.count p = m.selected.count p) ∧
    (enabledTicks m.sched.enabled es + 1 = ticks → n.sched.enabled = true →
      ((n.sched.preempted n.frame).process p).state = .waiting)

/-- The process `p` sleeps, and `count` ticks are left. -/
structure Sleeper (p : Word) (count : Nat) (m : Machine) : Prop where
  inv : SchedulerInv m
  mem : p ∈ m.sched.list
  state : (m.sched.process p).state = .sleeping
  sleep : (m.sched.process p).sleep.toNat = count

section

variable {m m' : Machine} {s s' : Scheduler Frame} {e : Event} {p q ms : Word} {c c' : Nat}
  {es : List Event} {mem : Mem} {f : Frame}

theorem Sleeper.current_ne (h : Sleeper p c m) : m.sched.current ≠ some p := by
  intro hc
  have hrunning := h.inv.current_running p hc
  rw [h.state] at hrunning
  cases hrunning

/-! ## One step -/

/-- A switch selects a waiting process, or none. -/
theorem Switchable.switched (hs : Switchable m s) (hswitch : switchFrom s = .ok (s', some f)) :
    (∃ q, s.isWaiting q ∧
      s' = ({ s with current := some q } : Scheduler Frame).setState q .running) ∨
    s' = { s with current := none } := by
  obtain ⟨k, hk, -⟩ := hs.kernel
  rcases schedulerNext_spec hs.nodup hs.current_mem with ⟨q, -, hw, hnext⟩ | ⟨-, hnext⟩
  · rw [switchFrom, schedulerSwitch_some hnext] at hswitch
    cases hswitch
    exact .inl ⟨q, hw, rfl⟩
  · rw [switchFrom, schedulerSwitch_none hnext hk] at hswitch
    cases hswitch
    exact .inr rfl

/-- A switch does not select a sleeping process. -/
theorem Switchable.switched_sleeping (hs : Switchable m s)
    (hstate : (s.process p).state = .sleeping) (hswitch : switchFrom s = .ok (s', some f)) :
    s'.list = s.list ∧ s'.process p = s.process p ∧ s'.current ≠ some p := by
  rcases hs.switched hswitch with ⟨q, hw, rfl⟩ | rfl
  · have hqp : p ≠ q := by
      rintro rfl
      rw [Scheduler.isWaiting_iff, hstate] at hw
      cases hw
    refine ⟨rfl, Function.update_of_ne hqp _ _, ?_⟩
    intro hc
    exact hqp (Option.some.inj hc).symm
  · exact ⟨rfl, rfl, by simp⟩

/-- `p` still sleeps, for `count` ticks, and has not been selected. -/
def StillSleeps (p : Word) (count : Nat) (m m' : Machine) : Prop :=
  Sleeper p count m' ∧ m'.selected.count p = m.selected.count p

/-- A handler that ends in a switch from `s`, where `p` sleeps. -/
theorem stillSleeps_switch (hm : SchedulerInv m) (hs : Switchable m s) (hmem : p ∈ s.list)
    (hstate : (s.process p).state = .sleeping) (hsleep : (s.process p).sleep.toNat = c)
    (hok : m.handle e = .ok m')
    (hswitch : ∀ s' f, switchFrom s = .ok (s', some f) →
      m.handle e = .ok (m.restore s' m.mem (some f))) :
    StillSleeps p c m m' := by
  obtain ⟨s', f, hfrom, hinv, -⟩ := hs.switch hm m.mem
  rw [hswitch s' f hfrom] at hok
  cases hok
  obtain ⟨hlist, hproc, hcurrent⟩ := hs.switched_sleeping hstate hfrom
  refine ⟨⟨hinv, ?_, ?_, ?_⟩, ?_⟩
  · exact hlist ▸ hmem
  · exact (congrArg Process.state hproc).trans hstate
  · exact (congrArg (·.sleep.toNat) hproc).trans hsleep
  · have hnot : p ∉ s'.current.toList := by simpa using hcurrent
    simp [Machine.restore, List.count_eq_zero_of_not_mem hnot]

/-- A handler that leaves the list without `p`'s process structure being touched and selects
nothing. -/
theorem Sleeper.stillSleeps (h : Sleeper p c m) (hinv : SchedulerInv m')
    (hmem : p ∈ m'.sched.list) (hproc : m'.sched.process p = m.sched.process p)
    (hselected : m'.selected = m.selected) : StillSleeps p c m m' := by
  refine ⟨⟨hinv, hmem, ?_, ?_⟩, by rw [hselected]⟩
  · rw [hproc, h.state]
  · rw [hproc, h.sleep]

theorem Sleeper.switch_stopped (h : Sleeper p c m) (hqp : p ≠ q) (hc : m.sched.current = some q)
    (hok : m.handle e = .ok m')
    (hswitch : ∀ s' f, switchFrom (m.sched.stopped q) = .ok (s', some f) →
      m.handle e = .ok (m.restore s' m.mem (some f))) : StillSleeps p c m m' :=
  stillSleeps_switch h.inv (switchable_stopped h.inv hc) ((List.mem_erase_of_ne hqp).mpr h.mem)
    h.state h.sleep hok hswitch

theorem Sleeper.switch_slept (h : Sleeper p c m) (hqp : p ≠ q) (hc : m.sched.current = some q)
    (hok : m.handle e = .ok m')
    (hswitch : ∀ s' f, switchFrom (m.sched.slept q ms m.frame) = .ok (s', some f) →
      m.handle e = .ok (m.restore s' m.mem (some f))) : StillSleeps p c m m' := by
  have hproc : (m.sched.slept q ms m.frame).process p = m.sched.process p :=
    Scheduler.slept_of_ne hqp
  apply stillSleeps_switch h.inv (switchable_slept h.inv hc ms) h.mem _ _ hok hswitch
  · rw [hproc, h.state]
  · rw [hproc, h.sleep]

/-- Another process makes a system call. -/
theorem Sleeper.step_syscall {eax ebx : Word} (h : Sleeper p c m) (hinv : SchedulerInv m')
    (hc : m.sched.current = some q) (hok : m.handle (.syscall eax ebx) = .ok m') :
    StillSleeps p c m m' := by
  have hqp : p ≠ q := by
    rintro rfl
    exact h.current_ne hc
  by_cases h1 : eax = syscallStop ∨ eax = syscallExit
  · exact h.switch_stopped hqp hc hok fun _ _ =>
      handle_syscall_stop h1 (h.inv.current_mem q hc) hc
  by_cases h2 : eax = syscallSleep
  · exact h.switch_slept hqp hc hok fun _ _ => handle_syscall_sleep h2 hc
  · obtain ⟨mem, hreturn⟩ := handle_syscall_other h1 h2
    rw [hreturn] at hok
    cases hok
    exact h.stillSleeps hinv h.mem rfl rfl

/-- `p` keeps its counter when something else happens than a tick of the enabled scheduler. -/
theorem Sleeper.step_other (h : Sleeper p c m) (hstep : Undisturbed p m e m')
    (he : ¬ (e = .tick ∧ m.sched.enabled = true)) : StillSleeps p c m m' := by
  obtain ⟨hmachine, hstops, hsleeps⟩ := hstep
  have hinv := hmachine.schedulerInv h.inv
  obtain ⟨ha, hok⟩ := hmachine
  cases e with
  | start q =>
    have hqp : p ≠ q := by
      rintro rfl
      exact ha h.mem
    cases hok
    exact h.stillSleeps hinv (List.mem_append_left _ h.mem) (Function.update_of_ne hqp _ _) rfl
  | tick =>
    have henabled : m.sched.enabled = false := by simpa using he
    rw [handle_tick_disabled henabled] at hok
    cases hok
    exact h.stillSleeps hinv h.mem rfl rfl
  | stop q =>
    have hqp : p ≠ q := fun heq => hstops heq.symm
    by_cases hc : m.sched.current = some q
    · exact h.switch_stopped hqp hc hok fun _ _ => handle_stop_current ha hc
    · rw [handle_stop_other ha hc] at hok
      cases hok
      exact h.stillSleeps hinv ((List.mem_erase_of_ne hqp).mpr h.mem) rfl rfl
  | sleep q ms =>
    have hqp : p ≠ q := by
      rintro rfl
      simp [Event.sleepTime] at hsleeps
    by_cases hc : m.sched.current = some q
    · exact h.switch_slept hqp hc hok fun _ _ => handle_sleep_current hc
    · rw [handle_sleep_other hc] at hok
      cases hok
      exact h.stillSleeps hinv h.mem (Scheduler.asleep_of_ne hqp) rfl
  | syscall eax ebx =>
    obtain ⟨q, hc⟩ := Option.ne_none_iff_exists'.mp fun hnone => ha (h.inv.cpu_kernel.mpr hnone)
    exact h.step_syscall hinv hc hok
  | enable | disable =>
    cases hok
    exact h.stillSleeps hinv h.mem rfl rfl

/-- The state in which the handler of a tick switches. -/
theorem Sleeper.preempted (h : Sleeper p c m) :
    (m.sched.preempted m.frame).process p = (m.sched.process p).decrementSleep :=
  Scheduler.preempted_of_ne h.inv.nodup h.mem h.current_ne

/-- A tick of the enabled scheduler takes one off the counter. -/
theorem Sleeper.step_tick (h : Sleeper p (c + 1) m) (hstep : MachineStep m .tick m')
    (henabled : m.sched.enabled = true) : StillSleeps p c m m' := by
  have hpos : (m.sched.process p).sleep ≠ 0 := by
    intro hzero
    have hsleep := h.sleep
    simp [hzero] at hsleep
  have hproc : (m.sched.preempted m.frame).process p =
      { m.sched.process p with sleep := (m.sched.process p).sleep - 1 } := by
    rw [h.preempted, Process.decrementSleep, if_pos h.state, if_neg hpos]
  apply stillSleeps_switch h.inv (switchable_preempted h.inv) _ _ _ hstep.2
  · exact fun _ _ => handle_tick_enabled henabled
  · rw [Scheduler.preempted_list]
    exact h.mem
  · rw [hproc]
    exact h.state
  · have hsleep := h.sleep
    rw [hproc]
    show ((m.sched.process p).sleep - 1).toNat = c
    bv_omega

/-- The tick that finds the counter at zero. -/
theorem Sleeper.wakes (h : Sleeper p 0 m) :
    ((m.sched.preempted m.frame).process p).state = .waiting := by
  have hzero : (m.sched.process p).sleep = 0 := BitVec.eq_of_toNat_eq h.sleep
  rw [h.preempted, Process.decrementSleep, if_pos h.state, if_pos hzero]

/-! ## Whether the scheduler is enabled -/

theorem Scheduler.preempted_enabled : (s.preempted f).enabled = s.enabled := by
  have h := (decrementSleepCounters_fields (s := s) s.list).2.2.1
  cases hc : s.current with
  | none => rw [preempted_none hc, h]
  | some p => rw [preempted_some hc, setState, setEsp, h]

theorem SwitchPoint.enabled (h : SwitchPoint m e s) : s.enabled = m.sched.enabled := by
  cases h with
  | preempted _ _ => exact Scheduler.preempted_enabled
  | stopped _ _ | slept _ _ => rfl

theorem ReturnPoint.enabled (h : ReturnPoint m s) : s.enabled = m.sched.enabled := by
  cases h with
  | same | stopped _ | slept _ => rfl

theorem Switchable.switched_enabled (hs : Switchable m s)
    (hswitch : switchFrom s = .ok (s', some f)) : s'.enabled = s.enabled := by
  rcases hs.switched hswitch with ⟨q, -, rfl⟩ | rfl <;> rfl

theorem MachineStep.enabled (hm : SchedulerInv m) (h : MachineStep m e m') :
    m'.sched.enabled = e.enabledAfter m.sched.enabled := by
  have hint (hi : e.IsInterrupt) : m'.sched.enabled = m.sched.enabled := by
    cases handled hm hi h.1 with
    | switches s hs hok =>
      obtain ⟨s', f, hswitch, -, -⟩ := (hs.switchable hm).switch hm m.mem
      have heq := h.2.symm.trans (hok s' f hswitch)
      cases heq
      exact ((hs.switchable hm).switched_enabled hswitch).trans hs.enabled
    | returns s mem hs hok =>
      have heq := h.2.symm.trans hok
      cases heq
      exact hs.enabled
  cases e with
  | tick | syscall _ _ | stop _ | sleep _ _ => exact hint trivial
  | start _ | enable | disable =>
    cases h.2
    rfl

/-! ## Whole runs -/

/-- `p` sleeps through the next `c` ticks and wakes up on the one after. -/
theorem Sleeper.sleepsFor (h : Sleeper p c m) : SleepsFor p (c + 1) m := by
  intro es n hrun
  induction hrun generalizing c with
  | nil m =>
    refine ⟨fun _ => ⟨h.state, rfl⟩, fun hc _ => ?_⟩
    have hzero : c = 0 := by simpa [enabledTicks] using hc.symm
    subst hzero
    exact h.wakes
  | @cons m m₁ n e es hstep hrun ih =>
    have henabled := hstep.1.enabled h.inv
    by_cases he : e = .tick ∧ m.sched.enabled = true
    · obtain ⟨rfl, htrue⟩ := he
      cases c with
      | zero =>
        -- the first tick is already the one that wakes `p` up
        constructor <;> intro hticks <;> simp [enabledTicks, htrue] at hticks
      | succ c =>
        obtain ⟨hnext, hcount⟩ := h.step_tick hstep.1 htrue
        obtain ⟨hbefore, hlast⟩ := ih hnext
        rw [henabled] at hbefore hlast
        simp only [enabledTicks, htrue, and_self, if_true]
        rw [← hcount]
        exact ⟨fun hlt => hbefore (by rw [htrue]; omega), fun heq => hlast (by rw [htrue]; omega)⟩
    · obtain ⟨hnext, hcount⟩ := h.step_other hstep he
      obtain ⟨hbefore, hlast⟩ := ih hnext
      rw [henabled] at hbefore hlast
      simp only [enabledTicks, if_neg he, Nat.zero_add]
      rw [← hcount]
      exact ⟨hbefore, hlast⟩

/-- A process that is sent to sleep. -/
theorem sleeper_of_sleep (hm : SchedulerInv m) (hmem : p ∈ m.sched.list)
    (hstep : MachineStep m e m') (he : e.sleepTime m p = some ms) :
    StillSleeps p (ms.toNat * 100 % 2 ^ 32 / 1000) m m' := by
  have hinv := hstep.schedulerInv hm
  obtain ⟨ha, hok⟩ := hstep
  have hticks : (ms * pitInterruptsPerSecond / 1000).toNat = ms.toNat * 100 % 2 ^ 32 / 1000 := by
    simp [pitInterruptsPerSecond, BitVec.toNat_udiv, BitVec.toNat_mul]
  have hswitch (hc : m.sched.current = some p)
      (hswitch : ∀ s' f, switchFrom (m.sched.slept p ms m.frame) = .ok (s', some f) →
        m.handle e = .ok (m.restore s' m.mem (some f))) :
      StillSleeps p (ms.toNat * 100 % 2 ^ 32 / 1000) m m' := by
    apply stillSleeps_switch hm (switchable_slept hm hc ms) hmem _ _ hok hswitch
    · rw [Scheduler.slept_self]
    · rw [Scheduler.slept_self]
      exact hticks
  cases e with
  | sleep q ms' =>
    obtain ⟨rfl, rfl⟩ : q = p ∧ ms' = ms := by simpa [Event.sleepTime] using he
    by_cases hc : m.sched.current = some q
    · exact hswitch hc fun _ _ => handle_sleep_current hc
    · rw [handle_sleep_other hc] at hok
      cases hok
      refine ⟨⟨hinv, hmem, ?_, ?_⟩, rfl⟩
      · show ((m.sched.asleep q ms').process q).state = .sleeping
        rw [Scheduler.asleep_self]
      · show ((m.sched.asleep q ms').process q).sleep.toNat = _
        rw [Scheduler.asleep_self]
        exact hticks
  | syscall eax ebx =>
    obtain ⟨⟨rfl, hc⟩, rfl⟩ : (eax = syscallSleep ∧ m.sched.current = some p) ∧ ebx = ms := by
      simpa [Event.sleepTime] using he
    exact hswitch hc fun _ _ => handle_syscall_sleep rfl hc
  | start _ | tick | stop _ | enable | disable => simp [Event.sleepTime] at he

/-! ## The number of ticks -/

/-- The scheduler can be left to handle tick after tick. -/
theorem exists_ticks (p : Word) (hm : SchedulerInv m) (k : Nat) :
    ∃ n, Run (Undisturbed p) m (.enable :: List.replicate k .tick) n ∧ SchedulerInv n ∧
      n.sched.enabled = true := by
  induction k with
  | zero =>
    have hstep : MachineStep m .enable { m with sched := schedulerEnable m.sched } :=
      ⟨trivial, rfl⟩
    exact ⟨_, .cons ⟨hstep, id, rfl⟩ (.nil _), hstep.schedulerInv hm, rfl⟩
  | succ k ih =>
    obtain ⟨n, hrun, hn, henabled⟩ := ih
    obtain ⟨n', hok, hn', -⟩ := hn.handle (e := .tick) trivial
    have hstep : MachineStep n .tick n' := ⟨trivial, hok⟩
    refine ⟨n', ?_, hn', (hstep.enabled hn).trans henabled⟩
    rw [List.replicate_succ', ← List.cons_append]
    exact hrun.snoc ⟨hstep, id, rfl⟩

theorem enabledTicks_replicate (k : Nat) :
    enabledTicks true (List.replicate k .tick) = k := by
  induction k with
  | zero => rfl
  | succ k ih =>
    rw [List.replicate_succ, enabledTicks, Event.enabledAfter, ih, if_pos ⟨rfl, rfl⟩, Nat.add_comm]

theorem enabledTicks_enable (enabled : Bool) (k : Nat) :
    enabledTicks enabled (.enable :: List.replicate k .tick) = k := by
  rw [enabledTicks, Event.enabledAfter, enabledTicks_replicate, if_neg (by simp), Nat.zero_add]

/-- After the tick that makes it wait, `p` does not sleep. -/
theorem SchedulerInv.tick_wakes (hm : SchedulerInv m) (henabled : m.sched.enabled = true)
    (hstep : MachineStep m .tick m')
    (hwaiting : ((m.sched.preempted m.frame).process p).state = .waiting) :
    (m'.sched.process p).state ≠ .sleeping := by
  have hs := switchable_preempted hm
  obtain ⟨s', f, hswitch, -, -⟩ := hs.switch hm m.mem
  have heq := hstep.2.symm.trans (handle_tick_enabled henabled hswitch)
  cases heq
  show (s'.process p).state ≠ .sleeping
  rcases hs.switched hswitch with ⟨q, -, rfl⟩ | rfl
  · by_cases hpq : p = q
    · simp [Scheduler.setState, hpq]
    · simp [Scheduler.setState, Function.update_of_ne hpq, hwaiting]
  · simp [hwaiting]

theorem SleepsFor.not_lt {a b : Nat} (hm : SchedulerInv m) (ha : SleepsFor p (a + 1) m)
    (hb : SleepsFor p (b + 1) m) : ¬ a < b := by
  intro hab
  obtain ⟨n, hrun, hn, henabled⟩ := exists_ticks p hm a
  have hwaiting := (ha _ n hrun).2 (by rw [enabledTicks_enable]) henabled
  obtain ⟨n', hok, -⟩ := hn.handle (e := .tick) trivial
  have hstep : MachineStep n .tick n' := ⟨trivial, hok⟩
  have hawake := hn.tick_wakes henabled hstep hwaiting
  have hrun' := hrun.snoc ⟨hstep, id, rfl⟩
  rw [List.cons_append, ← List.replicate_succ'] at hrun'
  have hsleeping := (hb _ n' hrun').1 (by rw [enabledTicks_enable]; omega)
  exact hawake hsleeping.1

/-- A process sleeps for one number of ticks only. -/
theorem SleepsFor.unique {a b : Nat} (hm : SchedulerInv m) (ha : SleepsFor p (a + 1) m)
    (hb : SleepsFor p (b + 1) m) : a = b := by
  have hlt := ha.not_lt hm hb
  have hgt := hb.not_lt hm ha
  omega

theorem SchedulerInv.mem_of_sleepTime (hm : SchedulerInv m) (ha : e.Allowed m)
    (he : e.sleepTime m p = some ms) : p ∈ m.sched.list := by
  cases e with
  | sleep q ms' =>
    obtain ⟨rfl, -⟩ : q = p ∧ ms' = ms := by simpa [Event.sleepTime] using he
    exact ha
  | syscall eax ebx =>
    obtain ⟨⟨-, hc⟩, -⟩ : (eax = syscallSleep ∧ m.sched.current = some p) ∧ ebx = ms := by
      simpa [Event.sleepTime] using he
    exact hm.current_mem p hc
  | start _ | tick | stop _ | enable | disable => simp [Event.sleepTime] at he

/-- **Sleeping.** Whatever happens next, a process that is sent to sleep for `ms` milliseconds
sleeps until the scheduler has handled the ticks that the unbounded product asks for, and wakes up
on the one after, exactly if the product fits into 32 bits. -/
theorem sleepsFor_requested_iff {process : Word → Process Frame}
    (hrun : Run MachineStep (.boot mem process) es m) (hstep : MachineStep m e m')
    (he : e.sleepTime m p = some ms) :
    m'.selected.count p = m.selected.count p ∧ SleepsFor p (ms.toNat * 100 / 1000 + 1) m' ↔
      ms.toNat ≤ 42949672 := by
  have hm := schedulerInv_of_run hrun
  obtain ⟨hsleeper, hcount⟩ := sleeper_of_sleep hm (hm.mem_of_sleepTime hstep.1 he) hstep he
  have hcode := hsleeper.sleepsFor
  constructor
  · rintro ⟨-, hasked⟩
    have heq := hcode.unique hsleeper.inv hasked
    omega
  · intro hms
    rw [Nat.mod_eq_of_lt (by omega)] at hcode
    exact ⟨hcount, hcode⟩

/-- The second of two processes sleeps for 25 milliseconds. -/
theorem sleepsFor_requested_iff_two_processes :
    ∃ m m', Run MachineStep (.boot (fun _ => 0) fun _ => ⟨⟨.kernel, 0⟩, .waiting, 0⟩)
        [.start 0x1000, .start 0x2000, .enable, .tick] m ∧
      MachineStep m (.syscall 0x23 25) m' ∧ SleepsFor 0x2000 3 m' := by
  have h : (execute Machine.next (.boot (fun _ => 0) fun _ => ⟨⟨.kernel, 0⟩, .waiting, 0⟩)
      [.start 0x1000, .start 0x2000, .enable, .tick]).map
        (fun m =>
          ((m.next (.syscall 0x23 25)).isSome, (Event.syscall 0x23 25).sleepTime m 0x2000)) =
        some (true, some 25) := by decide +kernel
  obtain ⟨m, hexec, hm⟩ := Option.map_eq_some_iff.mp h
  obtain ⟨hsome, htime⟩ := Prod.mk.inj hm
  obtain ⟨m', hnext⟩ := Option.isSome_iff_exists.mp hsome
  have hrun := run_of_execute (fun _ _ _ => machineStep_of_next) hexec
  have hstep := machineStep_of_next hnext
  exact ⟨m, m', hrun, hstep, ((sleepsFor_requested_iff hrun hstep htime).mpr (by decide)).2⟩

/-- A process asks for twelve hours and is selected again by the next tick. -/
theorem sleep_overflow_wakes_early :
    ∃ m m' n, Run MachineStep (.boot (fun _ => 0) fun _ => ⟨⟨.kernel, 0⟩, .waiting, 0⟩)
        [.start 0x1000, .enable, .tick] m ∧
      MachineStep m (.syscall 0x23 42949673) m' ∧ Run (Undisturbed 0x1000) m' [.tick] n ∧
      (n.sched.process 0x1000).state = .running ∧
      n.selected.count 0x1000 = m'.selected.count 0x1000 + 1 ∧
      ¬ SleepsFor 0x1000 (42949673 * 100 / 1000 + 1) m' := by
  have h : (execute Machine.next (.boot (fun _ => 0) fun _ => ⟨⟨.kernel, 0⟩, .waiting, 0⟩)
      [.start 0x1000, .enable, .tick]).bind
        (fun m => (m.next (.syscall 0x23 42949673)).bind fun m' => (m'.next .tick).map fun n =>
          ((n.sched.process 0x1000).state, n.selected.count 0x1000, m'.selected.count 0x1000,
            m'.sched.enabled)) =
        some (.running, 2, 1, true) := by decide +kernel
  obtain ⟨m, hexec, hm⟩ := Option.bind_eq_some_iff.mp h
  obtain ⟨m', hsleep, hm'⟩ := Option.bind_eq_some_iff.mp hm
  obtain ⟨n, htick, hn⟩ := Option.map_eq_some_iff.mp hm'
  simp only [Prod.mk.injEq] at hn
  obtain ⟨hstate, hcount, hcount', henabled⟩ := hn
  have hrun := run_of_execute (fun _ _ _ => machineStep_of_next) hexec
  have hrun' : Run (Undisturbed 0x1000) m' [.tick] n :=
    .cons ⟨machineStep_of_next htick, id, rfl⟩ (.nil n)
  refine ⟨m, m', n, hrun, machineStep_of_next hsleep, hrun', hstate, by omega, fun hsleeps => ?_⟩
  have hsleeping := ((hsleeps _ n hrun').1 (by rw [henabled]; decide)).1
  rw [hstate] at hsleeping
  cases hsleeping

end

end Hjortron
