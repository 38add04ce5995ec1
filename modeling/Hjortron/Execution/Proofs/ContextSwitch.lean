import Hjortron.Execution.Machine
import Hjortron.Execution.Proofs.SchedulerSpec

/-!
# Context switches

In every reachable state the context on the CPU is the one the scheduler takes for the current
one, and every other context is *parked*: the frame the scheduler would resume it from is the
one it was last interrupted in, and has not been popped since. Each event either returns to the
interrupted context or goes through `scheduler_switch` in a state in which all contexts are
parked, and that state is all a switch needs.
-/

namespace Hjortron

variable {m m' : Machine} {s s' : Scheduler Frame} {mem : Mem} {c : Context} {f g : Frame}
  {p q : Word} {e : Event}

/-- The context the scheduler takes for the one on the CPU. -/
def Scheduler.context (s : Scheduler Frame) : Context :=
  s.current.elim .kernel .process

/-- The context `c` can be resumed from the frame `f`. -/
structure Parked (m : Machine) (c : Context) (f : Frame) : Prop where
  saved : m.saved c = some f
  owner : f.owner = c
  pending : f ∉ m.resumed
  serial : f.serial < m.clock

/-- What holds between two events. -/
structure SchedulerInv (m : Machine) : Prop where
  nodup : m.sched.list.Nodup
  current_mem : ∀ p, m.sched.current = some p → p ∈ m.sched.list
  current_running : ∀ p, m.sched.current = some p → (m.sched.process p).state = .running
  running : ∀ p ∈ m.sched.list, (m.sched.process p).state = .running → m.sched.current = some p
  cpu : m.cpu = m.sched.context
  parked : ∀ p ∈ m.sched.list, m.sched.current ≠ some p →
    Parked m (.process p) (m.sched.process p).esp
  kernel : m.sched.current ≠ none → ∃ f, m.sched.esp = some f ∧ Parked m .kernel f
  serial : ∀ f ∈ m.resumed, f.serial < m.clock
  resumed : m.resumed.Nodup

/-- The machine when the handler of an interrupt starts. -/
def Machine.pushed (m : Machine) : Machine :=
  { m with clock := m.clock + 1, saved := Function.update m.saved m.cpu (some m.frame) }

/-- The scheduler may switch: no process runs, and all contexts are parked. -/
structure Switchable (m : Machine) (s : Scheduler Frame) : Prop where
  nodup : s.list.Nodup
  current_mem : ∀ p, s.current = some p → p ∈ s.list
  not_running : ∀ p ∈ s.list, (s.process p).state ≠ .running
  parked : ∀ p ∈ s.list, Parked m.pushed (.process p) (s.process p).esp
  kernel : ∃ f, s.esp = some f ∧ Parked m.pushed .kernel f

theorem schedulerInv_boot (mem : Mem) (process : Word → Process Frame) :
    SchedulerInv (.boot mem process) where
  nodup := List.nodup_nil
  current_mem p h := by simp [Machine.boot, schedulerInit] at h
  current_running p h := by simp [Machine.boot, schedulerInit] at h
  running p h := by simp [Machine.boot, schedulerInit] at h
  cpu := rfl
  parked p h := by simp [Machine.boot, schedulerInit] at h
  kernel h := by simp [Machine.boot, schedulerInit] at h
  serial f h := by simp [Machine.boot] at h
  resumed := List.nodup_nil

/-! ## Frames -/

theorem Parked.pushed (h : Parked m c f) (hc : c ≠ m.cpu) : Parked m.pushed c f where
  saved := by simp [Machine.pushed, hc, h.saved]
  owner := h.owner
  pending := h.pending
  serial := Nat.lt_succ_of_lt h.serial

/-- The frame that an interrupt has just pushed. -/
theorem parked_frame (hs : ∀ f ∈ m.resumed, f.serial < m.clock) :
    Parked m.pushed m.cpu m.frame where
  saved := by simp [Machine.pushed]
  owner := rfl
  pending hf := Nat.lt_irrefl _ (hs _ hf)
  serial := Nat.lt_succ_self _

/-- A context stays parked when another one is resumed. -/
theorem Parked.restore {esp : Option Frame} (h : Parked m.pushed c f)
    (hne : (esp.getD m.frame).owner ≠ c) : Parked (m.restore s mem esp) c f where
  saved := h.saved
  owner := h.owner
  pending hf := by
    rcases List.mem_cons.mp hf with rfl | hf
    · exact hne h.owner
    · exact h.pending hf
  serial := h.serial

/-- Popping a parked frame. -/
theorem restore_frames (s : Scheduler Frame) (mem : Mem) {esp : Option Frame}
    (hm : SchedulerInv m) (h : Parked m.pushed c (esp.getD m.frame)) :
    (∀ f ∈ (m.restore s mem esp).resumed, f.serial < (m.restore s mem esp).clock) ∧
      (m.restore s mem esp).resumed.Nodup := by
  refine ⟨fun f hf => ?_, List.nodup_cons.mpr ⟨h.pending, hm.resumed⟩⟩
  rcases List.mem_cons.mp hf with rfl | hf
  · exact h.serial
  · exact Nat.lt_succ_of_lt (hm.serial f hf)

/-- The machine has popped the frame in which the context now on the CPU was interrupted last. -/
def Resumes (m m' : Machine) : Prop :=
  ∃ f, m'.resumed = f :: m.resumed ∧ f.owner = m'.cpu ∧ m'.saved m'.cpu = some f

theorem resumes_restore {esp : Option Frame} (h : Parked m.pushed c (esp.getD m.frame)) :
    Resumes m (m.restore s mem esp) := by
  refine ⟨esp.getD m.frame, rfl, rfl, ?_⟩
  have hc : (m.restore s mem esp).cpu = c := h.owner
  rw [hc]
  exact h.saved

/-! ## Switching -/

/-- A switch succeeds, and leaves the invariant with the resumed context on the CPU. -/
theorem Switchable.switch (hm : SchedulerInv m) (hs : Switchable m s) (mem : Mem) :
    ∃ s' f, switchFrom s = .ok (s', some f) ∧ SchedulerInv (m.restore s' mem (some f)) ∧
      Resumes m (m.restore s' mem (some f)) := by
  obtain ⟨k, hk, hkernel⟩ := hs.kernel
  rcases schedulerNext_spec hs.nodup hs.current_mem with ⟨q, hq, hw, hnext⟩ | ⟨hw, hnext⟩
  · have hsw := schedulerSwitch_some hnext
    have hparked : Parked m.pushed (.process q) ((some (s.process q).esp).getD m.frame) :=
      hs.parked q hq
    refine ⟨_, _, by rw [switchFrom, hsw]; rfl, ?_, resumes_restore hparked⟩
    obtain ⟨hserial, hres⟩ := restore_frames _ mem hm hparked
    exact {
      nodup := hs.nodup
      current_mem := by
        rintro p ⟨⟩
        exact hq
      current_running := by
        rintro p ⟨⟩
        simp [Machine.restore, Scheduler.setState]
      running := by
        intro p hp hrun
        by_cases hpq : p = q
        · rw [hpq]
          rfl
        · refine absurd ?_ (hs.not_running p hp)
          simpa [Machine.restore, Scheduler.setState, hpq] using hrun
      cpu := hparked.owner
      parked := by
        intro p hp hne
        have hpq : p ≠ q := by
          rintro rfl
          exact hne rfl
        have hp' : Parked m.pushed (.process p) (s.process p).esp := hs.parked p hp
        simp only [Machine.restore, Scheduler.setState, Function.update_of_ne hpq]
        exact hp'.restore (by rw [hparked.owner]; simpa using Ne.symm hpq)
      kernel := fun _ => ⟨k, hk, hkernel.restore (by rw [hparked.owner]; simp)⟩
      serial := hserial
      resumed := hres }
  · have hsw := schedulerSwitch_none hnext hk
    have hresume : Parked m.pushed .kernel ((some k).getD m.frame) := hkernel
    refine ⟨_, _, by rw [switchFrom, hsw]; rfl, ?_, resumes_restore hresume⟩
    obtain ⟨hserial, hres⟩ := restore_frames _ mem hm hresume
    exact {
      nodup := hs.nodup
      current_mem := by
        rintro p ⟨⟩
      current_running := by
        rintro p ⟨⟩
      running := fun p hp hrun => absurd hrun (hs.not_running p hp)
      cpu := hkernel.owner
      parked := fun p hp _ => (hs.parked p hp).restore (by simp [hkernel.owner])
      kernel := fun h => absurd rfl h
      serial := hserial
      resumed := hres }

theorem SchedulerInv.cpu_process (hm : SchedulerInv m) :
    m.cpu = .process p ↔ m.sched.current = some p := by
  rw [hm.cpu, Scheduler.context]
  cases m.sched.current <;> simp

theorem SchedulerInv.cpu_kernel (hm : SchedulerInv m) :
    m.cpu = .kernel ↔ m.sched.current = none := by
  rw [hm.cpu, Scheduler.context]
  cases m.sched.current <;> simp

/-- The contexts that are not on the CPU when an interrupt comes. -/
theorem SchedulerInv.parked_pushed (hm : SchedulerInv m) (hp : p ∈ m.sched.list)
    (hc : m.sched.current ≠ some p) :
    Parked m.pushed (.process p) (m.sched.process p).esp :=
  (hm.parked p hp hc).pushed fun h => hc (hm.cpu_process.mp h.symm)

theorem SchedulerInv.kernel_pushed (hm : SchedulerInv m) (hc : m.sched.current = some p) :
    ∃ f, m.sched.esp = some f ∧ Parked m.pushed .kernel f := by
  obtain ⟨f, hf, hparked⟩ := hm.kernel (by simp [hc])
  exact ⟨f, hf, hparked.pushed (by simp [hm.cpu_process.mpr hc])⟩

/-- The frame pushed when the process `p` is interrupted. -/
theorem SchedulerInv.frame_pushed (hm : SchedulerInv m) (hc : m.sched.current = some p) :
    Parked m.pushed (.process p) m.frame := by
  rw [← hm.cpu_process.mpr hc]
  exact parked_frame hm.serial

theorem switchable_preempted (hm : SchedulerInv m) :
    Switchable m (m.sched.preempted m.frame) where
  nodup := by simpa using hm.nodup
  current_mem := by simpa using hm.current_mem
  not_running := by
    intro p hp
    rw [Scheduler.preempted_list] at hp
    by_cases hc : m.sched.current = some p
    · simp [(Scheduler.preempted_self hc).2]
    · rw [Scheduler.preempted_of_ne hm.nodup hp hc, Ne, Process.decrementSleep_running]
      exact fun hrun => hc (hm.running p hp hrun)
  parked := by
    intro p hp
    rw [Scheduler.preempted_list] at hp
    by_cases hc : m.sched.current = some p
    · rw [(Scheduler.preempted_self hc).1]
      exact hm.frame_pushed hc
    · rw [Scheduler.preempted_of_ne hm.nodup hp hc, Process.decrementSleep_esp]
      exact hm.parked_pushed hp hc
  kernel := by
    cases hc : m.sched.current with
    | none =>
      refine ⟨m.frame, by rw [Scheduler.preempted_none hc], ?_⟩
      rw [← hm.cpu_kernel.mpr hc]
      exact parked_frame hm.serial
    | some p =>
      obtain ⟨f, hf, hparked⟩ := hm.kernel_pushed hc
      refine ⟨f, ?_, hparked⟩
      rw [Scheduler.preempted_some hc]
      exact (decrementSleepCounters_fields m.sched.list).2.2.2.trans hf

theorem switchable_stopped (hm : SchedulerInv m) (hc : m.sched.current = some p) :
    Switchable m (m.sched.stopped p) where
  nodup := hm.nodup.erase p
  current_mem := by
    rintro q ⟨⟩
  not_running := by
    intro q hq hrun
    obtain ⟨hne, hq⟩ := (hm.nodup.mem_erase_iff).mp hq
    have hcur := hm.running q hq hrun
    exact hne (Option.some.inj (hcur.symm.trans hc))
  parked := by
    intro q hq
    obtain ⟨hne, hq⟩ := (hm.nodup.mem_erase_iff).mp hq
    exact hm.parked_pushed hq (by simpa [hc] using Ne.symm hne)
  kernel := hm.kernel_pushed hc

theorem switchable_slept (hm : SchedulerInv m) (hc : m.sched.current = some p) (ms : Word) :
    Switchable m (m.sched.slept p ms m.frame) where
  nodup := hm.nodup
  current_mem := by
    rintro q ⟨⟩
  not_running := by
    intro q hq hrun
    by_cases hqp : q = p
    · rw [hqp, Scheduler.slept_self] at hrun
      cases hrun
    · rw [Scheduler.slept_of_ne hqp] at hrun
      exact hqp (Option.some.inj ((hm.running q hq hrun).symm.trans hc))
  parked := by
    intro q hq
    by_cases hqp : q = p
    · rw [hqp, Scheduler.slept_self]
      exact hm.frame_pushed hc
    · rw [Scheduler.slept_of_ne hqp]
      exact hm.parked_pushed hq (by simpa [hc] using Ne.symm hqp)
  kernel := hm.kernel_pushed hc

/-! ## Returning -/

/-- What a call that returns may do to the scheduler: take other processes out of the list, and
send them to sleep. -/
structure Returns (s s' : Scheduler Frame) : Prop where
  nodup : s'.list.Nodup
  current : s'.current = s.current
  esp : s'.esp = s.esp
  mem_list : ∀ p ∈ s'.list, p ∈ s.list
  current_mem : ∀ p, s.current = some p → p ∈ s'.list
  process_current : ∀ p, s.current = some p → s'.process p = s.process p
  process_esp : ∀ p ∈ s'.list, (s'.process p).esp = (s.process p).esp
  running : ∀ p ∈ s'.list, (s'.process p).state = .running → (s.process p).state = .running

theorem SchedulerInv.returned (hm : SchedulerInv m) (hs : Returns m.sched s) (mem : Mem) :
    SchedulerInv (m.restore s mem none) ∧ Resumes m (m.restore s mem none) := by
  have hframe : Parked m.pushed m.cpu ((none : Option Frame).getD m.frame) :=
    parked_frame hm.serial
  obtain ⟨hserial, hres⟩ := restore_frames s mem hm hframe
  have hcontext : s.context = m.cpu := by rw [hm.cpu, Scheduler.context, hs.current]; rfl
  refine ⟨?_, resumes_restore hframe⟩
  exact {
    nodup := hs.nodup
    current_mem := fun p hp => hs.current_mem p (hs.current.symm.trans hp)
    current_running := by
      intro p hp
      have hp' : m.sched.current = some p := hs.current.symm.trans hp
      exact (congrArg Process.state (hs.process_current p hp')).trans (hm.current_running p hp')
    running := by
      intro p hp hrun
      exact hs.current.trans (hm.running p (hs.mem_list p hp) (hs.running p hp hrun))
    cpu := hcontext.symm
    parked := by
      intro p hp hne
      have hne' : m.sched.current ≠ some p := fun h => hne (hs.current.trans h)
      have hparked := hm.parked_pushed (hs.mem_list p hp) hne'
      rw [← hs.process_esp p hp] at hparked
      exact hparked.restore fun h => hne' (hm.cpu_process.mp h)
    kernel := by
      intro hne
      obtain ⟨p, hp⟩ := Option.ne_none_iff_exists'.mp hne
      have hp' : m.sched.current = some p := hs.current.symm.trans hp
      obtain ⟨f, hf, hparked⟩ := hm.kernel_pushed hp'
      refine ⟨f, hs.esp.trans hf, hparked.restore fun h => ?_⟩
      simp [hm.cpu_kernel.mp h] at hp'
    serial := hserial
    resumed := hres }

theorem Returns.refl (hm : SchedulerInv m) : Returns m.sched m.sched where
  nodup := hm.nodup
  current := rfl
  esp := rfl
  mem_list _ h := h
  current_mem := hm.current_mem
  process_current _ _ := rfl
  process_esp _ _ := rfl
  running _ _ h := h

theorem returns_stop (hm : SchedulerInv m) (hc : m.sched.current ≠ some p) :
    Returns m.sched { m.sched with list := m.sched.list.erase p } where
  nodup := hm.nodup.erase p
  current := rfl
  esp := rfl
  mem_list _ h := List.mem_of_mem_erase h
  current_mem := by
    intro q hq
    refine (hm.nodup.mem_erase_iff).mpr ⟨?_, hm.current_mem q hq⟩
    rintro rfl
    exact hc hq
  process_current _ _ := rfl
  process_esp _ _ := rfl
  running _ _ h := h

theorem returns_sleep (hm : SchedulerInv m) (hc : m.sched.current ≠ some p) (ms : Word) :
    Returns m.sched (m.sched.asleep p ms) where
  nodup := hm.nodup
  current := rfl
  esp := rfl
  mem_list _ h := h
  current_mem := hm.current_mem
  process_current := by
    intro q hq
    have hqp : q ≠ p := by
      rintro rfl
      exact hc hq
    exact Scheduler.asleep_of_ne hqp
  process_esp := by
    intro q _
    by_cases hqp : q = p
    · rw [hqp, Scheduler.asleep_self]
    · rw [Scheduler.asleep_of_ne hqp]
  running := by
    intro q _ hrun
    by_cases hqp : q = p
    · rw [hqp, Scheduler.asleep_self] at hrun
      cases hrun
    · rwa [Scheduler.asleep_of_ne hqp] at hrun

/-! ## Interrupts -/

/-- The event makes `scheduler_stop` stop the process `p`. -/
def Event.Stops (m : Machine) (p : Word) : Event → Prop
  | .stop p' => p' = p
  | .syscall eax _ => (eax = syscallStop ∨ eax = syscallExit) ∧ m.sched.current = some p
  | _ => False

instance (m : Machine) (p : Word) : (e : Event) → Decidable (e.Stops m p)
  | .stop _ => inferInstanceAs (Decidable (_ = _))
  | .syscall _ _ => inferInstanceAs (Decidable (_ ∧ _))
  | .start _ | .tick | .sleep _ _ | .enable | .disable => .isFalse id

/-- For how long the event makes `scheduler_sleep` send the process `p` to sleep. -/
def Event.sleepTime (m : Machine) (p : Word) : Event → Option Word
  | .sleep p' ms => if p' = p then some ms else none
  | .syscall eax ebx =>
    if eax = syscallSleep ∧ m.sched.current = some p then some ebx else none
  | _ => none

/-- The states in which the handler of an event calls `scheduler_switch`. -/
inductive SwitchPoint (m : Machine) (e : Event) : Scheduler Frame → Prop
  | preempted : e = .tick → m.sched.enabled = true → SwitchPoint m e (m.sched.preempted m.frame)
  | stopped {p : Word} : m.sched.current = some p → e.Stops m p →
      SwitchPoint m e (m.sched.stopped p)
  | slept {p ms : Word} : m.sched.current = some p → e.sleepTime m p = some ms →
      SwitchPoint m e (m.sched.slept p ms m.frame)

/-- The states in which the handler of an event returns. -/
inductive ReturnPoint (m : Machine) : Scheduler Frame → Prop
  | same : ReturnPoint m m.sched
  | stopped {p : Word} : m.sched.current ≠ some p →
      ReturnPoint m { m.sched with list := m.sched.list.erase p }
  | slept {p ms : Word} : m.sched.current ≠ some p → ReturnPoint m (m.sched.asleep p ms)

theorem SwitchPoint.switchable (hm : SchedulerInv m) (h : SwitchPoint m e s) :
    Switchable m s := by
  cases h with
  | preempted _ _ => exact switchable_preempted hm
  | stopped hc _ => exact switchable_stopped hm hc
  | slept hc _ => exact switchable_slept hm hc _

theorem ReturnPoint.returns (hm : SchedulerInv m) (h : ReturnPoint m s) :
    Returns m.sched s := by
  cases h with
  | same => exact .refl hm
  | stopped hc => exact returns_stop hm hc
  | slept hc => exact returns_sleep hm hc _

/-- What the handler of an interrupt does: it ends in `scheduler_switch`, or it returns. -/
inductive Handled (m : Machine) (e : Event) : Prop
  | switches (s : Scheduler Frame) : SwitchPoint m e s →
      (∀ s' f, switchFrom s = .ok (s', some f) →
        m.handle e = .ok (m.restore s' m.mem (some f))) → Handled m e
  | returns (s : Scheduler Frame) (mem : Mem) : ReturnPoint m s →
      m.handle e = .ok (m.restore s mem none) → Handled m e

section Handle

variable {ms eax ebx : Word}

theorem handle_tick_disabled (he : m.sched.enabled = false) :
    m.handle .tick = .ok (m.restore m.sched m.mem none) := by
  simp [Machine.handle, schedulerHandleIrq_disabled he, bind, Except.bind, pure, Except.pure]

theorem handle_tick_enabled (he : m.sched.enabled = true)
    (hswitch : switchFrom (m.sched.preempted m.frame) = .ok (s', some f)) :
    m.handle .tick = .ok (m.restore s' m.mem (some f)) := by
  simp [Machine.handle, schedulerHandleIrq_enabled he, hswitch, bind, Except.bind, pure,
    Except.pure]

theorem handle_stop_current (hp : p ∈ m.sched.list) (hc : m.sched.current = some p)
    (hswitch : switchFrom (m.sched.stopped p) = .ok (s', some f)) :
    m.handle (.stop p) = .ok (m.restore s' m.mem (some f)) := by
  simp [Machine.handle, schedulerStop_current hp hc, hswitch, bind, Except.bind, pure,
    Except.pure]

theorem handle_stop_other (hp : p ∈ m.sched.list) (hc : m.sched.current ≠ some p) :
    m.handle (.stop p) =
      .ok (m.restore { m.sched with list := m.sched.list.erase p } m.mem none) := by
  simp [Machine.handle, schedulerStop_other hp hc, bind, Except.bind, pure, Except.pure]

theorem handle_sleep_current (hc : m.sched.current = some p)
    (hswitch : switchFrom (m.sched.slept p ms m.frame) = .ok (s', some f)) :
    m.handle (.sleep p ms) = .ok (m.restore s' m.mem (some f)) := by
  simp [Machine.handle, schedulerSleep_current hc, hswitch, bind, Except.bind, pure, Except.pure]

theorem handle_sleep_other (hc : m.sched.current ≠ some p) :
    m.handle (.sleep p ms) = .ok (m.restore (m.sched.asleep p ms) m.mem none) := by
  simp [Machine.handle, schedulerSleep_other hc, bind, Except.bind, pure, Except.pure]

theorem handle_syscall_stop (h : eax = syscallStop ∨ eax = syscallExit) (hp : p ∈ m.sched.list)
    (hc : m.sched.current = some p)
    (hswitch : switchFrom (m.sched.stopped p) = .ok (s', some f)) :
    m.handle (.syscall eax ebx) = .ok (m.restore s' m.mem (some f)) := by
  simp only [Machine.handle, syscallHandleIrq, schedulerProcess, hc, if_pos h,
    schedulerStop_current hp hc, hswitch]
  rfl

theorem handle_syscall_sleep (h : eax = syscallSleep) (hc : m.sched.current = some p)
    (hswitch : switchFrom (m.sched.slept p ebx m.frame) = .ok (s', some f)) :
    m.handle (.syscall eax ebx) = .ok (m.restore s' m.mem (some f)) := by
  have hstop : ¬ (eax = syscallStop ∨ eax = syscallExit) := by
    rw [h]
    decide
  simp only [Machine.handle, syscallHandleIrq, schedulerProcess, hc, if_neg hstop, if_pos h,
    schedulerSleep_current hc, hswitch]
  rfl

/-- The other system calls return without having touched the scheduler. -/
theorem handle_syscall_other (h : ¬ (eax = syscallStop ∨ eax = syscallExit))
    (h' : eax ≠ syscallSleep) :
    ∃ mem, m.handle (.syscall eax ebx) = .ok (m.restore m.sched mem none) := by
  by_cases htest : eax = syscallTest
  · refine ⟨m.mem.store32 ebx 0x1234, ?_⟩
    simp only [Machine.handle, syscallHandleIrq, if_neg h, if_neg h', if_pos htest]
    rfl
  · refine ⟨m.mem, ?_⟩
    simp only [Machine.handle, syscallHandleIrq, if_neg h, if_neg h', if_neg htest]
    rfl

end Handle

theorem handled_tick (m : Machine) : Handled m .tick := by
  cases he : m.sched.enabled with
  | false => exact .returns m.sched m.mem .same (handle_tick_disabled he)
  | true => exact .switches _ (.preempted rfl he) fun _ _ => handle_tick_enabled he

theorem handled_stop (hp : p ∈ m.sched.list) : Handled m (.stop p) := by
  by_cases hc : m.sched.current = some p
  · exact .switches _ (.stopped hc rfl) fun _ _ => handle_stop_current hp hc
  · exact .returns _ m.mem (.stopped hc) (handle_stop_other hp hc)

theorem handled_sleep (m : Machine) (p ms : Word) : Handled m (.sleep p ms) := by
  by_cases hc : m.sched.current = some p
  · exact .switches _ (.slept hc (if_pos rfl)) fun _ _ => handle_sleep_current hc
  · exact .returns (m.sched.asleep p ms) m.mem (.slept hc) (handle_sleep_other hc)

/-- A system call stops its caller, sends it to sleep, or returns. -/
theorem handled_syscall (hm : SchedulerInv m) (hc : m.sched.current = some p) (eax ebx : Word) :
    Handled m (.syscall eax ebx) := by
  by_cases h1 : eax = syscallStop ∨ eax = syscallExit
  · exact .switches _ (.stopped hc ⟨h1, hc⟩) fun _ _ =>
      handle_syscall_stop h1 (hm.current_mem p hc) hc
  by_cases h2 : eax = syscallSleep
  · exact .switches _ (.slept hc (if_pos ⟨h2, hc⟩)) fun _ _ => handle_syscall_sleep h2 hc
  · obtain ⟨mem, hok⟩ := handle_syscall_other h1 h2
    exact .returns m.sched mem .same hok

/-- The events that are interrupts. -/
def Event.IsInterrupt : Event → Prop
  | .tick | .syscall _ _ | .stop _ | .sleep _ _ => True
  | .start _ | .enable | .disable => False

theorem handled (hm : SchedulerInv m) (hi : e.IsInterrupt) (ha : e.Allowed m) : Handled m e := by
  cases e with
  | tick => exact handled_tick m
  | syscall eax ebx =>
    obtain ⟨p, hc⟩ := Option.ne_none_iff_exists'.mp fun h => ha (hm.cpu_kernel.mpr h)
    exact handled_syscall hm hc eax ebx
  | stop p => exact handled_stop ha
  | sleep p ms => exact handled_sleep m p ms
  | start _ | enable | disable => exact hi.elim

/-- Every interrupt is handled, and some context is resumed where it was interrupted. -/
theorem SchedulerInv.handle_interrupt (hm : SchedulerInv m) (hi : e.IsInterrupt)
    (ha : e.Allowed m) :
    ∃ m', m.handle e = .ok m' ∧ SchedulerInv m' ∧ Resumes m m' := by
  cases handled hm hi ha with
  | switches s hs hok =>
    obtain ⟨s', f, hswitch, hinv, hres⟩ := (hs.switchable hm).switch hm m.mem
    exact ⟨_, hok s' f hswitch, hinv, hres⟩
  | returns s mem hs hok => exact ⟨_, hok, hm.returned (hs.returns hm) mem⟩

/-! ## Events -/

theorem handle_start (hm : SchedulerInv m) (hp : p ∉ m.sched.list) :
    ∃ m', m.handle (.start p) = .ok m' ∧ SchedulerInv m' ∧ m'.cpu = m.cpu ∧
      m'.resumed = m.resumed := by
  have hc : m.sched.current ≠ some p := fun h => hp (hm.current_mem p h)
  refine ⟨_, rfl, ?_, rfl, rfl⟩
  have hparked {c f} (h : Parked m c f) (hne : c ≠ .process p) (s : Scheduler Frame) :
      Parked { m with
        sched := s
        clock := m.clock + 1
        saved := Function.update m.saved (.process p) (some ⟨.process p, m.clock⟩) } c f :=
    ⟨by simp [hne, h.saved], h.owner, h.pending, Nat.lt_succ_of_lt h.serial⟩
  have hmem {q} (hq : q ∈ m.sched.list ++ [p]) : q = p ∨ q ≠ p ∧ q ∈ m.sched.list := by
    by_cases hqp : q = p
    · exact .inl hqp
    · exact .inr ⟨hqp, by simpa [hqp] using hq⟩
  exact {
    nodup := List.nodup_append.mpr ⟨hm.nodup, List.nodup_singleton p, by
      rintro q hq _ hp' rfl
      rw [List.mem_singleton.mp hp'] at hq
      exact hp hq⟩
    current_mem := fun q hq => List.mem_append_left _ (hm.current_mem q hq)
    current_running := by
      intro q hq
      have hqp : q ≠ p := by
        rintro rfl
        exact hc hq
      simpa [hqp] using hm.current_running q hq
    running := by
      intro q hq hrun
      rcases hmem hq with rfl | ⟨hqp, hq⟩
      · simp at hrun
      · exact hm.running q hq (by simpa [hqp] using hrun)
    cpu := hm.cpu
    parked := by
      intro q hq hne
      rcases hmem hq with rfl | ⟨hqp, hq⟩
      · simp only [Function.update_self]
        exact ⟨by simp, rfl, fun h => Nat.lt_irrefl _ (hm.serial _ h), Nat.lt_succ_self _⟩
      · simp only [Function.update_of_ne hqp]
        exact hparked (hm.parked q hq hne) (by simpa using hqp) _
    kernel := by
      intro hne
      obtain ⟨f, hf, h⟩ := hm.kernel hne
      exact ⟨f, hf, hparked h (by simp) _⟩
    serial := fun f hf => Nat.lt_succ_of_lt (hm.serial f hf)
    resumed := hm.resumed }

/-- Switching the scheduler on or off leaves everything else as it is. -/
theorem SchedulerInv.setEnabled (hm : SchedulerInv m) (enabled : Bool) :
    SchedulerInv { m with sched := { m.sched with enabled } } where
  nodup := hm.nodup
  current_mem := hm.current_mem
  current_running := hm.current_running
  running := hm.running
  cpu := hm.cpu
  parked p hp hc := ⟨(hm.parked p hp hc).saved, (hm.parked p hp hc).owner,
    (hm.parked p hp hc).pending, (hm.parked p hp hc).serial⟩
  kernel := by
    intro hc
    obtain ⟨f, hf, h⟩ := hm.kernel hc
    exact ⟨f, hf, h.saved, h.owner, h.pending, h.serial⟩
  serial := hm.serial
  resumed := hm.resumed

/-- Every event that can happen is handled: no assertion fails and nothing is read through
NULL. -/
theorem SchedulerInv.handle (hm : SchedulerInv m) (ha : e.Allowed m) :
    ∃ m', m.handle e = .ok m' ∧ SchedulerInv m' ∧
      (m'.cpu = m.cpu ∧ m'.resumed = m.resumed ∨ Resumes m m') := by
  have hint (hi : e.IsInterrupt) : ∃ m', m.handle e = .ok m' ∧ SchedulerInv m' ∧
      (m'.cpu = m.cpu ∧ m'.resumed = m.resumed ∨ Resumes m m') := by
    obtain ⟨m', h, hinv, hres⟩ := hm.handle_interrupt hi ha
    exact ⟨m', h, hinv, .inr hres⟩
  cases e with
  | start p =>
    obtain ⟨m', h, hinv, hrest⟩ := handle_start hm ha
    exact ⟨m', h, hinv, .inl hrest⟩
  | tick | syscall eax ebx | stop p | sleep p ms => exact hint trivial
  | enable => exact ⟨_, rfl, hm.setEnabled true, .inl ⟨rfl, rfl⟩⟩
  | disable => exact ⟨_, rfl, hm.setEnabled false, .inl ⟨rfl, rfl⟩⟩

theorem MachineStep.schedulerInv (hm : SchedulerInv m) (h : MachineStep m e m') :
    SchedulerInv m' := by
  obtain ⟨m'', hok, hinv, -⟩ := hm.handle h.1
  rw [h.2] at hok
  cases hok
  exact hinv

/-- The invariant holds in every reachable state. -/
theorem schedulerInv_of_run {process : Word → Process Frame} {es : List Event}
    (hrun : Run MachineStep (.boot mem process) es m) : SchedulerInv m :=
  hrun.invariant (I := SchedulerInv) (fun _ _ _ hm h => h.schedulerInv hm)
    (schedulerInv_boot mem process)

/-- **Context switches.** In every state reached from `scheduler_init`, the current process, if
there is one, is in the list, where `list_find` finds it, and is the only one that is running;
without a current process none is running; the context on the CPU is the current one; and no
frame has been popped twice. Whatever happens next is handled without a failing assertion, and
it either leaves the CPU alone or resumes a context from the frame in which that very context
was interrupted last. -/
theorem scheduler_run_consistent {process : Word → Process Frame} {es : List Event}
    (hrun : Run MachineStep (.boot mem process) es m) :
    (∀ p, m.sched.current = some p →
      p ∈ m.sched.list ∧ listFind m.sched.list p ≠ [] ∧ (m.sched.process p).state = .running ∧
        ∀ q ∈ m.sched.list, (m.sched.process q).state = .running → q = p) ∧
    (m.sched.current = none → ∀ q ∈ m.sched.list, (m.sched.process q).state ≠ .running) ∧
    m.cpu = m.sched.context ∧
    m.resumed.Nodup ∧
    ∀ e : Event, e.Allowed m → ∃ m', m.handle e = .ok m' ∧
      (m'.cpu = m.cpu ∧ m'.resumed = m.resumed ∨ Resumes m m') := by
  have hm := schedulerInv_of_run hrun
  refine ⟨fun p hp => ⟨hm.current_mem p hp, ?_, hm.current_running p hp, ?_⟩, ?_, hm.cpu,
    hm.resumed, fun e ha => ?_⟩
  · exact fun h => listFind_eq_nil.mp h (hm.current_mem p hp)
  · intro q hq hrunning
    exact Option.some.inj ((hm.running q hq hrunning).symm.trans hp)
  · intro hc q hq hrunning
    rw [hm.running q hq hrunning] at hc
    cases hc
  · obtain ⟨m', hok, -, hres⟩ := hm.handle ha
    exact ⟨m', hok, hres⟩

/-- Two processes are started; the second one sleeps for a tick, the first exits, and the kernel
is resumed in between. -/
theorem scheduler_run_consistent_two_processes :
    ∃ m, Run MachineStep (.boot (fun _ => 0) fun _ => ⟨⟨.kernel, 0⟩, .waiting, 0⟩)
        [.start 0x1000, .start 0x2000, .enable, .tick, .syscall 0x23 10, .tick,
          .syscall 0x3C 0, .tick, .tick] m ∧
      m.resumed.map Frame.serial = [7, 3, 2, 4, 0, 1] ∧ m.cpu = m.sched.context ∧
        m.resumed.Nodup := by
  have h : (execute Machine.next (.boot (fun _ => 0) fun _ => ⟨⟨.kernel, 0⟩, .waiting, 0⟩)
      [.start 0x1000, .start 0x2000, .enable, .tick, .syscall 0x23 10, .tick,
        .syscall 0x3C 0, .tick, .tick]).map (fun m => m.resumed.map Frame.serial) =
        some [7, 3, 2, 4, 0, 1] := by decide +kernel
  obtain ⟨m, hexec, hm⟩ := Option.map_eq_some_iff.mp h
  have hrun := run_of_execute (fun _ _ _ => machineStep_of_next) hexec
  obtain ⟨-, -, hcpu, hnodup, -⟩ := scheduler_run_consistent hrun
  exact ⟨m, hrun, hm, hcpu, hnodup⟩

end Hjortron
