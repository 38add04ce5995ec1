import Hjortron.Execution.Proofs.NextScan
import Hjortron.Execution.Proofs.ProcessRun

/-!
# The scheduler on flat memory refines the scheduler

`Abstracts` relates the kernel, whose processes and list are heap blocks, to the scheduler of
`Hjortron.Execution.Scheduler`, which knows processes by their addresses and the list as a
sequence. Each function of `scheduler.c` on flat memory gives what its counterpart gives.
-/

namespace Hjortron

/-- The byte that stands for a state. -/
def ProcessState.code : ProcessState → Byte
  | .waiting => processStateWaiting
  | .running => processStateRunning
  | .sleeping => processStateSleeping

/-- The members of a `process_t` are those of a process. -/
structure ProcessMatches (f : ProcessFields) (p : Process Word) : Prop where
  esp : f.esp = p.esp
  state : f.state = p.state.code
  sleep : f.sleep = p.sleep

/-- The scheduler `s` is what the kernel holds of it. -/
structure Abstracts (k : Kernel) (created started : List Word) (s : Scheduler Word) : Prop where
  list : s.list = started
  process : ∀ p ∈ created, ProcessMatches (processAt k.heap.mem p) (s.process p)
  current : s.current = pointer k.current
  enabled : s.enabled = k.enabled
  esp : s.esp = pointer k.esp

/-- An event as the scheduler sees it. A new process gets a structure that is not in the list;
what other code does is not seen. -/
inductive SchedulerStep (s : Scheduler Word) : LifeEvent → Scheduler Word → Prop
  | create {eip process esp : Word} : process ∉ s.list →
    SchedulerStep s (.create eip)
      { s with process := Function.update s.process process ⟨esp, .waiting, 0⟩ }
  | start {process : Word} {t : Scheduler Word} : schedulerStart s (some process) = .ok t →
    SchedulerStep s (.start process) t
  | tick {r : Word} {t : Scheduler Word} {esp : Option Word} :
    schedulerHandleIrq s r = .ok (t, esp) → SchedulerStep s (.tick r) t
  | sleep {process ms r : Word} {t : Scheduler Word} {esp : Option Word} :
    schedulerSleep s ms r (some process) = .ok (t, esp) →
    SchedulerStep s (.sleep process ms r) t
  | stop {process : Word} {t : Scheduler Word} {esp : Option Word} :
    schedulerStop s (some process) = .ok (t, esp) → SchedulerStep s (.stop process) t
  | enable : SchedulerStep s .enable (schedulerEnable s)
  | disable : SchedulerStep s .disable (schedulerDisable s)
  | execute {mem : Mem} : SchedulerStep s (.execute mem) s

/-- The simulation: the kernel keeps its invariant and holds the scheduler. -/
def LifeState.Refines (lo hi : Nat) (base : List (Word × Word)) (header : Word) (x : LifeState)
    (s : Scheduler Word) : Prop :=
  x.Inv lo hi base header ∧ Abstracts x.kernel x.created x.started s

section

variable {lo hi : Nat} {base : List (Word × Word)} {k k' : Kernel} {m : Mem} {s : Scheduler Word}
  {created started nodes pre post : List Word} {header p q a r v ms : Word} {st st' : ProcessState}
  {proc : Process Word}

theorem ProcessState.code_inj : st.code = st'.code ↔ st = st' := by
  cases st <;> cases st' <;> decide

namespace Abstracts

/-! ## Writes to a process -/

theorem update (h : Abstracts k created started s)
    (hinv : KernelInv lo hi base header k created started nodes) (hp : p ∈ created)
    (hm : ∀ x, ¬ InRange p 24 x → m x = k.heap.mem x)
    (hmatch : ProcessMatches (processAt m p) proc) :
    Abstracts (k.setMem m) created started
      { s with process := Function.update s.process p proc } := by
  refine ⟨h.list, fun q hq => ?_, h.current, h.enabled, h.esp⟩
  change ProcessMatches (processAt m q) (Function.update s.process p proc q)
  by_cases hne : q = p
  · rw [hne, Function.update_self]
    exact hmatch
  · have hapart := (hinv.process_apart hp).2.2 q hq (Ne.symm hne)
    have hkeep : processAt m q = processAt k.heap.mem q :=
      processAt_congr fun y hy => hm y (hapart.not_inRange hy)
    rw [Function.update_of_ne hne, hkeep]
    exact h.process q hq

theorem setState (h : Abstracts k created started s)
    (hinv : KernelInv lo hi base header k created started nodes) (hp : p ∈ created)
    (st : ProcessState) :
    Abstracts (k.setMem (setProcessState k.heap.mem p st.code)) created started
      (s.setState p st) := by
  have hmatch := h.process p hp
  apply h.update hinv hp fun _ => setProcessState_frame
  rw [processAt_setProcessState]
  exact ⟨hmatch.esp, rfl, hmatch.sleep⟩

theorem setEsp (h : Abstracts k created started s)
    (hinv : KernelInv lo hi base header k created started nodes) (hp : p ∈ created) (r : Word) :
    Abstracts (k.setMem (setProcessEsp k.heap.mem p r)) created started (s.setEsp p r) := by
  have hmatch := h.process p hp
  apply h.update hinv hp fun _ => setProcessEsp_frame
  rw [processAt_setProcessEsp]
  exact ⟨rfl, hmatch.state, hmatch.sleep⟩

theorem setSleep (h : Abstracts k created started s)
    (hinv : KernelInv lo hi base header k created started nodes) (hp : p ∈ created) (v : Word) :
    Abstracts (k.setMem (setProcessSleep k.heap.mem p v)) created started (s.setSleep p v) := by
  have hmatch := h.process p hp
  apply h.update hinv hp fun _ => setProcessSleep_frame
  rw [processAt_setProcessSleep]
  exact ⟨hmatch.esp, hmatch.state, rfl⟩

/-- No process is current. -/
theorem idle (h : Abstracts k created started s) :
    Abstracts { k with current := 0 } created started { s with current := none } :=
  ⟨h.list, h.process, rfl, h.enabled, h.esp⟩

theorem state_eq_iff (h : Abstracts k created started s) (hp : p ∈ created) (st : ProcessState) :
    processState k.heap.mem p = st.code ↔ (s.process p).state = st := by
  have hstate : processState k.heap.mem p = (s.process p).state.code := (h.process p hp).state
  rw [hstate, ProcessState.code_inj]

theorem current_eq_iff (h : Abstracts k created started s) (hp : p ≠ 0) :
    s.current = some p ↔ k.current = p := by
  rw [h.current]
  by_cases hc : k.current = 0
  · rw [hc, pointer, if_pos rfl]
    exact iff_of_false (Option.some_ne_none p).symm hp.symm
  · rw [pointer_of_ne hc, Option.some_inj]

theorem decrementSleep (h : Abstracts k created started s)
    (hinv : KernelInv lo hi base header k created started nodes) (hp : p ∈ created) :
    Abstracts (k.setMem (Kernel.decrementSleep k.heap.mem p)) created started
      { s with process := Function.update s.process p (s.process p).decrementSleep } := by
  have hsleep : processSleep k.heap.mem p = (s.process p).sleep := (h.process p hp).sleep
  have hstate : processState k.heap.mem p = processStateSleeping ↔
      (s.process p).state = .sleeping := h.state_eq_iff hp .sleeping
  unfold Kernel.decrementSleep Process.decrementSleep
  by_cases hs : (s.process p).state = .sleeping
  · rw [if_pos (hstate.mpr hs), if_pos hs, hsleep]
    by_cases hz : (s.process p).sleep = 0
    · rw [if_pos hz, if_pos hz]
      exact h.setState hinv hp .waiting
    · rw [if_neg hz, if_neg hz]
      exact h.setSleep hinv hp _
  · rw [if_neg (mt hstate.mp hs), if_neg hs, Function.update_eq_self]
    exact h

/-- The loop over the sleep counters, from the nodes `post` on. -/
theorem decrementSleepCounters {fuel : Nat} (h : Abstracts k created started s)
    (hinv : KernelInv lo hi base header k created started (pre ++ post))
    (hfuel : post.length < fuel) :
    ∃ m, Kernel.decrementSleepCounters k.heap.mem fuel (post.headD 0) = .ok m ∧
      KernelInv lo hi base header (k.setMem m) created started (pre ++ post) ∧
      Abstracts (k.setMem m) created started
        (Hjortron.decrementSleepCounters s (nodeValues k.heap.mem post)) := by
  induction post generalizing pre k s fuel with
  | nil =>
    obtain ⟨fuel, rfl⟩ := Nat.exists_eq_succ_of_ne_zero (by omega : fuel ≠ 0)
    refine ⟨k.heap.mem, ?_, hinv, h⟩
    rw [Kernel.decrementSleepCounters, List.headD_nil, if_neg (not_not.mpr rfl)]
  | cons a post ih =>
    obtain ⟨fuel, rfl⟩ := Nat.exists_eq_succ_of_ne_zero (by omega : fuel ≠ 0)
    have ha : a ∈ pre ++ a :: post := by simp
    have hne : a ≠ 0 := hinv.ledger.ne_zero (hinv.list.blocks a ha)
    have hp := hinv.subset _ (hinv.value_mem ha)
    have hinv₁ := hinv.decrementSleep hp
    have h₁ := h.decrementSleep hinv hp
    have hnext : nodeNext (Kernel.decrementSleep k.heap.mem (nodeValue k.heap.mem a)) a =
        post.headD 0 := hinv₁.list.links.chain.at.2
    have hvalues :
        nodeValues (k.setMem (Kernel.decrementSleep k.heap.mem (nodeValue k.heap.mem a))).heap.mem
          post = nodeValues k.heap.mem post := by
      have heq := hinv₁.values.trans hinv.values.symm
      rw [nodeValues, nodeValues, List.map_append, List.map_append] at heq
      exact (List.cons.inj (List.append_inj heq (by simp)).2).2
    rw [List.append_cons] at hinv₁ ⊢
    obtain ⟨m, hm, hinv₂, h₂⟩ := ih h₁ hinv₁ (by simpa using hfuel)
    refine ⟨m, ?_, hinv₂, ?_⟩
    · rw [Kernel.decrementSleepCounters, List.headD_cons, if_pos hne]
      simp only [hnext]
      exact hm
    · rw [hvalues] at h₂
      exact h₂

/-! ## `scheduler_next` -/

theorem scansList (h : Abstracts k created started s)
    (hinv : KernelInv lo hi base header k created started nodes) :
    ScansList k.heap.mem k.list nodes s := by
  have hlist : s.list = nodeValues k.heap.mem nodes := h.list.trans hinv.values.symm
  refine ⟨hinv.list.links, (List.nodup_cons.mp hinv.list.separate.nodup).1, hlist, ?_, ?_⟩
  · intro hzero
    exact hinv.ne_zero (hinv.subset _ (h.list ▸ hzero)) rfl
  · intro p hp
    exact h.state_eq_iff (hinv.subset _ (h.list ▸ hp)) .waiting

theorem schedulerNext (h : Abstracts k created started s)
    (hinv : KernelInv lo hi base header k created started nodes) (hnext : k.schedulerNext = .ok q) :
    Hjortron.schedulerNext s = .ok (pointer q) := by
  have hcurrent : k.current = 0 ∨ k.current ∈ s.list := by
    rw [h.list]
    exact hinv.current.imp id And.left
  obtain ⟨q', hnext', hsearch⟩ := (h.scansList hinv).schedulerNext hinv.list.length_lt
    hinv.list.list_ne_zero h.current hcurrent
  obtain rfl : q = q' := Except.ok.inj (hnext.symm.trans hnext')
  exact hsearch

/-! ## `scheduler_switch` and its callers -/

theorem schedulerSwitch {esp : Word} (h : Abstracts k created started s)
    (hinv : KernelInv lo hi base header k created started nodes)
    (hswitch : k.schedulerSwitch = .ok (k', esp)) :
    ∃ s', Hjortron.schedulerSwitch s = .ok (s', esp) ∧ Abstracts k' created started s' := by
  obtain ⟨q, hnext, hswitch⟩ := bind_eq_ok.mp hswitch
  obtain ⟨q', hnext', hq⟩ := hinv.schedulerNext
  obtain rfl : q = q' := Except.ok.inj (hnext.symm.trans hnext')
  have hchoice := h.schedulerNext hinv hnext
  by_cases hz : q = 0
  · simp only [hz, if_true] at hswitch
    obtain ⟨_, hesp, hswitch⟩ := bind_eq_ok.mp hswitch
    obtain ⟨rfl, rfl⟩ := Prod.mk.inj (Except.ok.inj hswitch)
    rw [assert_eq_ok, bne_iff_ne] at hesp
    have hnone : Hjortron.schedulerNext s = .ok none := by rw [hchoice, hz]; rfl
    have hsome : s.esp = some k.esp := by rw [h.esp, pointer_of_ne hesp]
    refine ⟨_, schedulerSwitch_none hnone hsome, ?_⟩
    exact ⟨h.list, h.process, rfl, h.enabled, h.esp⟩
  · have hp := hinv.subset q (hq.resolve_left hz)
    simp only [hz, if_false] at hswitch
    obtain ⟨rfl, rfl⟩ := Prod.mk.inj (Except.ok.inj hswitch)
    rw [pointer_of_ne hz] at hchoice
    have h₁ := h.setState hinv hp .running
    have hesp : (s.process q).esp =
        processEsp (setProcessState k.heap.mem q processStateRunning) q := by
      have hfields : (processAt (setProcessState k.heap.mem q processStateRunning) q).esp =
          (processAt k.heap.mem q).esp := by rw [processAt_setProcessState]
      exact (hfields.trans (h.process q hp).esp).symm
    refine ⟨({ s with current := some q } : Scheduler Word).setState q .running, ?_, h₁.list,
      h₁.process, (pointer_of_ne hz).symm, h₁.enabled, h₁.esp⟩
    rw [schedulerSwitch_some hchoice, hesp]
    rfl

/-- Saving the stack of the interrupted context, in the state after the loop over the counters. -/
theorem saveStack (h : Abstracts k created started s)
    (h₁ : Abstracts (k.setMem m) created started (Hjortron.decrementSleepCounters s s.list))
    (hinv₁ : KernelInv lo hi base header (k.setMem m) created started nodes) (hr : r ≠ 0) :
    Abstracts ((k.setMem m).saveStack r) created started (s.preempted r) := by
  unfold Kernel.saveStack
  by_cases hc : (k.setMem m).current = 0
  · have hcur : s.current = none := by rw [h.current, show k.current = 0 from hc]; rfl
    rw [if_pos hc, Scheduler.preempted_none hcur]
    exact ⟨h₁.list, h₁.process, h₁.current, h₁.enabled, (pointer_of_ne hr).symm⟩
  · have hp := hinv₁.subset _ (hinv₁.current.resolve_left hc).1
    rw [if_neg hc, Scheduler.preempted_some (h.current.trans (pointer_of_ne hc))]
    exact (h₁.setEsp hinv₁ hp r).setState (hinv₁.setProcessEsp hp r) hp .waiting

theorem schedulerHandleIrq {esp : Option Word} (h : Abstracts k created started s)
    (hinv : KernelInv lo hi base header k created started nodes)
    (hirq : k.schedulerHandleIrq r = .ok (k', esp)) :
    ∃ s', Hjortron.schedulerHandleIrq s r = .ok (s', esp) ∧ Abstracts k' created started s' := by
  obtain ⟨_, hr, hirq⟩ := bind_eq_ok.mp hirq
  rw [assert_eq_ok, bne_iff_ne] at hr
  cases henabled : k.enabled with
  | false =>
    rw [henabled] at hirq
    obtain ⟨rfl, rfl⟩ := Prod.mk.inj (Except.ok.inj hirq)
    exact ⟨s, schedulerHandleIrq_disabled (h.enabled.trans henabled), h⟩
  | true =>
    rw [henabled] at hirq
    obtain ⟨m, hm, hirq⟩ := bind_eq_ok.mp hirq
    obtain ⟨⟨k₁, esp₁⟩, hswitch, hirq⟩ := bind_eq_ok.mp hirq
    obtain ⟨rfl, rfl⟩ := Prod.mk.inj (Except.ok.inj hirq)
    obtain ⟨m', hm', hinv₁, h₁⟩ := h.decrementSleepCounters
      (show KernelInv lo hi base header k created started ([] ++ nodes) from hinv)
      hinv.list.length_lt
    rw [hinv.list.links.head] at hm
    obtain rfl : m = m' := Except.ok.inj (hm.symm.trans hm')
    rw [show nodeValues k.heap.mem nodes = s.list from hinv.values.trans h.list.symm] at h₁
    have h₂ := h.saveStack h₁ hinv₁ hr
    obtain ⟨s', hs', habs⟩ := h₂.schedulerSwitch (hinv₁.saveStack hr).1 hswitch
    refine ⟨s', ?_, habs⟩
    rw [schedulerHandleIrq_enabled (h.enabled.trans henabled), switchFrom]
    exact bind_eq_ok.mpr ⟨_, hs', rfl⟩

theorem schedulerSleep {esp : Option Word} (h : Abstracts k created started s)
    (hinv : KernelInv lo hi base header k created started nodes) (hp : p ∈ created)
    (hsleep : k.schedulerSleep p ms r = .ok (k', esp)) :
    ∃ s', Hjortron.schedulerSleep s ms r (some p) = .ok (s', esp) ∧
      Abstracts k' created started s' := by
  have hne := hinv.ne_zero hp
  have hinv₁ := hinv.setProcessState hp processStateSleeping
  have h₁ := (h.setState hinv hp .sleeping).setSleep hinv₁ hp (ms * pitInterruptsPerSecond / 1000)
  have hinv₂ := hinv₁.setProcessSleep hp (ms * pitInterruptsPerSecond / 1000)
  obtain ⟨_, -, hsleep⟩ := bind_eq_ok.mp hsleep
  by_cases hc : k.current = p
  · have hcur := (h.current_eq_iff hne).mpr hc
    have h₂ := h₁.setEsp hinv₂ hp r
    have hinv₃ := (hinv₂.setProcessEsp hp r).idle
    simp only [Kernel.setMem, hc, if_true] at hsleep
    obtain ⟨⟨k₁, esp₁⟩, hswitch, hsleep⟩ := bind_eq_ok.mp hsleep
    obtain ⟨rfl, rfl⟩ := Prod.mk.inj (Except.ok.inj hsleep)
    obtain ⟨s', hs', habs⟩ := h₂.idle.schedulerSwitch hinv₃ hswitch
    refine ⟨s', ?_, habs⟩
    rw [schedulerSleep_current hcur, switchFrom]
    exact bind_eq_ok.mpr ⟨_, hs', rfl⟩
  · have hcur := mt (h.current_eq_iff hne).mp hc
    simp only [Kernel.setMem, hc, if_false] at hsleep
    obtain ⟨rfl, rfl⟩ := Prod.mk.inj (Except.ok.inj hsleep)
    exact ⟨_, schedulerSleep_other hcur, h₁⟩

/-! ## Starting, stopping and creating -/

theorem schedulerStart (h : Abstracts k created started s)
    (hinv : KernelInv lo hi base header k created started nodes) (hp : p ∈ created)
    (hnew : p ∉ started) (hstart : k.schedulerStart p = .ok k') :
    ∃ s', Hjortron.schedulerStart s (some p) = .ok s' ∧
      Abstracts k' created (started ++ [p]) s' := by
  obtain ⟨-, hk, hkept⟩ := hinv.schedulerStart hp hnew hstart
  refine ⟨{ s with list := Hjortron.listInsert s.list p }, rfl, ?_, fun q hq => ?_, ?_, ?_, ?_⟩
  · exact congrArg (· ++ [p]) h.list
  · rw [hkept q hq]
    exact h.process q hq
  · rw [hk]
    exact h.current
  · rw [hk]
    exact h.enabled
  · rw [hk]
    exact h.esp

/-- The process leaves the list, and its structure no longer counts. -/
theorem destroyed {heap : Heap} (h : Abstracts k created started s)
    (hkept : ∀ q ∈ created.erase p, processAt heap.mem q = processAt k.heap.mem q) :
    Abstracts { k with heap } (created.erase p) (started.erase p)
      { s with list := s.list.erase p } := by
  refine ⟨congrArg (List.erase · p) h.list, fun q hq => ?_, h.current, h.enabled, h.esp⟩
  change ProcessMatches (processAt heap.mem q) (s.process q)
  rw [hkept q hq]
  exact h.process q (List.mem_of_mem_erase hq)

theorem schedulerStop {esp : Option Word} (h : Abstracts k created started s)
    (hinv : KernelInv lo hi base header k created started nodes) (hp : p ∈ started)
    (hstop : k.schedulerStop p = .ok (k', esp)) :
    ∃ s', Hjortron.schedulerStop s (some p) = .ok (s', esp) ∧
      Abstracts k' (created.erase p) (started.erase p) s' := by
  have hne := hinv.ne_zero (hinv.subset p hp)
  have hlist : p ∈ s.list := h.list ▸ hp
  obtain ⟨heap₁, heap₂, nodes', hdelete, hdestroy, hkernel, hkept, -⟩ := hinv.destroy hp
  have h₁ := h.destroyed hkept
  obtain ⟨_, -, hstop⟩ := bind_eq_ok.mp hstop
  obtain ⟨_, hdelete', hstop⟩ := bind_eq_ok.mp hstop
  obtain ⟨_, hdestroy', hstop⟩ := bind_eq_ok.mp hstop
  obtain rfl := Except.ok.inj (hdelete.symm.trans hdelete')
  obtain rfl := Except.ok.inj (hdestroy.symm.trans hdestroy')
  by_cases hc : k.current = p
  · simp only [hc, if_true] at hstop
    obtain ⟨⟨k₁, esp₁⟩, hswitch, hstop⟩ := bind_eq_ok.mp hstop
    obtain ⟨rfl, rfl⟩ := Prod.mk.inj (Except.ok.inj hstop)
    obtain ⟨s', hs', habs⟩ := h₁.idle.schedulerSwitch hkernel hswitch
    refine ⟨s', ?_, habs⟩
    rw [schedulerStop_current hlist ((h.current_eq_iff hne).mpr hc), switchFrom]
    exact bind_eq_ok.mpr ⟨_, hs', rfl⟩
  · simp only [hc, if_false] at hstop
    obtain ⟨rfl, rfl⟩ := Prod.mk.inj (Except.ok.inj hstop)
    exact ⟨_, schedulerStop_other hlist (mt (h.current_eq_iff hne).mp hc), h₁⟩

theorem createProcess {eip : Word} (h : Abstracts k created started s)
    (hinv : KernelInv lo hi base header k created started nodes)
    (hcreate : k.createProcess eip = .ok (p, k')) :
    ∃ esp, Abstracts k' (p :: created) started
      { s with process := Function.update s.process p ⟨esp, .waiting, 0⟩ } := by
  obtain ⟨-, hk, ⟨stack, hfields⟩, hkept⟩ := hinv.createProcess hcreate
  refine ⟨stack + processStackLength - sizeofRegs, h.list, ?_, ?_, ?_, ?_⟩
  · intro q hq
    change ProcessMatches _ (Function.update s.process p _ q)
    by_cases hne : q = p
    · rw [hne, Function.update_self, hfields]
      exact ⟨rfl, rfl, rfl⟩
    · have hold := List.mem_of_ne_of_mem hne hq
      rw [Function.update_of_ne hne, hkept q hold]
      exact h.process q hold
  · rw [hk]
    exact h.current
  · rw [hk]
    exact h.enabled
  · rw [hk]
    exact h.esp

/-- Other code leaves the structures of the processes alone. -/
theorem execute {x : LifeState} (h : Abstracts x.kernel x.created x.started s)
    (hinv : KernelInv lo hi base header x.kernel x.created x.started nodes)
    (hmem : ∀ y, m y ≠ x.kernel.heap.mem y → x.Spare lo hi base y) :
    Abstracts (x.kernel.setMem m) x.created x.started s := by
  refine ⟨h.list, fun q hq => ?_, h.current, h.enabled, h.esp⟩
  have hkept : processAt m q = processAt x.kernel.heap.mem q := by
    apply processAt_congr
    intro y hy
    by_contra hne
    exact hinv.spare_apart (hmem y hne) (mem_ownedBlocks_process hq) (by decide) hy
  change ProcessMatches (processAt m q) (s.process q)
  rw [hkept]
  exact h.process q hq

end Abstracts

/-! ## Runs -/

/-- Every event is matched by the scheduler. -/
theorem LifeStep.refines {x y : LifeState} {e : LifeEvent} (hstep : LifeStep lo hi base x e y)
    (hx : x.Refines lo hi base header s) :
    ∃ t, SchedulerStep s e t ∧ y.Refines lo hi base header t := by
  obtain ⟨hx, h⟩ := hx
  have hy := hstep.inv hx
  obtain ⟨nodes, hinv⟩ := hx
  cases hstep with
  | create hcreate =>
    obtain ⟨esp, habs⟩ := h.createProcess hinv hcreate
    have hnew := hinv.create_new hcreate
    rw [← h.list] at hnew
    exact ⟨_, .create hnew, hy, habs⟩
  | start hp hnew hstart =>
    obtain ⟨t, ht, habs⟩ := h.schedulerStart hinv hp hnew hstart
    exact ⟨t, .start ht, hy, habs⟩
  | tick htick =>
    obtain ⟨t, ht, habs⟩ := h.schedulerHandleIrq hinv htick
    exact ⟨t, .tick ht, hy, habs⟩
  | sleep hp hsleep =>
    obtain ⟨t, ht, habs⟩ := h.schedulerSleep hinv hp hsleep
    exact ⟨t, .sleep ht, hy, habs⟩
  | stop hp hstop =>
    obtain ⟨t, ht, habs⟩ := h.schedulerStop hinv hp hstop
    exact ⟨t, .stop ht, hy, habs⟩
  | enable => exact ⟨_, .enable, hy, h.list, h.process, h.current, rfl, h.esp⟩
  | disable => exact ⟨_, .disable, hy, h.list, h.process, h.current, rfl, h.esp⟩
  | execute hmem => exact ⟨s, .execute, hy, h.execute hinv (LifeState.spare_of_writable hmem)⟩

/-- After `scheduler_init`, if the block of the list was all zeros. -/
theorem refines_schedulerInit {process : Word → Process Word} (hledger : Ledger lo hi k.heap base)
    (hnull : 12 ≤ lo) (hesp : k.esp = 0) (hinit : k.schedulerInit = .ok k')
    (hhead : listHead k'.heap.mem k'.list = 0) (hlength : listLength k'.heap.mem k'.list = 0) :
    LifeState.Refines lo hi base k'.list ⟨k', [], []⟩ (schedulerInit process) := by
  obtain ⟨⟨list, heap⟩, hcreate, hinit⟩ := bind_eq_ok.mp hinit
  obtain rfl := Except.ok.inj hinit
  obtain ⟨⟨list', heap'⟩, hmalloc, hcreate⟩ := bind_eq_ok.mp hcreate
  obtain ⟨_, -, hcreate⟩ := bind_eq_ok.mp hcreate
  obtain ⟨rfl, rfl⟩ := Prod.mk.inj (Except.ok.inj hcreate)
  have halloc := hledger.malloc hmalloc
  refine ⟨⟨[], kernelInv_init halloc.ledger hnull hhead hlength rfl⟩, rfl, by simp, rfl, rfl, ?_⟩
  change none = pointer k.esp
  rw [hesp]
  rfl

/-- From `scheduler_init` on, every run of the kernel on flat memory is a run of the scheduler. -/
theorem life_run_refines {events : List LifeEvent} {x : LifeState} {process : Word → Process Word}
    (hledger : Ledger lo hi k.heap base) (hnull : 12 ≤ lo) (hesp : k.esp = 0)
    (hinit : k.schedulerInit = .ok k') (hhead : listHead k'.heap.mem k'.list = 0)
    (hlength : listLength k'.heap.mem k'.list = 0)
    (hrun : Run (LifeStep lo hi base) ⟨k', [], []⟩ events x) :
    ∃ s, Run SchedulerStep (schedulerInit process) events s ∧
      x.Refines lo hi base k'.list s := by
  have hstart : LifeState.Refines lo hi base k'.list ⟨k', [], []⟩ (schedulerInit process) :=
    refines_schedulerInit hledger hnull hesp hinit hhead hlength
  exact hrun.simulation (fun _ _ _ _ hx hstep => hstep.refines hx) hstart

end

end Hjortron
