import Hjortron.Execution.Proofs.ProcessLife

/-!
# What the scheduler does not write

A stack is written by the code that runs on it, and by `process_create`. The functions of
`scheduler.c` write the processes, the list and the allocator: `Quiet` bytes they leave as they
are.
-/

namespace Hjortron

section

variable {lo hi : Nat} {base : List (Word × Word)} {k k' : Kernel} {m : Mem}
  {created started nodes pre post : List Word} {header p q x r ms eip : Word} {esp : Option Word}

/-- The bytes of the process `p` that the scheduler writes: `esp`, `state` and `sleep`. -/
def Scheduled (p x : Word) : Prop := InRange (p + 4) 4 x ∨ InRange (p + 16) 8 x

theorem Scheduled.inRange (h : Scheduled p x) : InRange p 24 x := by
  rcases h with h | h
  · exact inRange_member (by decide) h
  · exact inRange_member (by decide) h

theorem setProcessEsp_scheduled {v : Word} (h : ¬ Scheduled p x) : setProcessEsp m p v x = m x :=
  Mem.store32_of_not_inRange fun hx => h (Or.inl hx)

theorem setProcessState_scheduled {c : Byte} (h : ¬ Scheduled p x) :
    setProcessState m p c x = m x := by
  apply Mem.store8_of_ne
  intro hx
  apply h
  right
  unfold InRange
  bv_omega

theorem setProcessSleep_scheduled {v : Word} (h : ¬ Scheduled p x) :
    setProcessSleep m p v x = m x := by
  apply Mem.store32_of_not_inRange
  intro hx
  apply h
  right
  unfold InRange at hx ⊢
  bv_omega

/-! ## Ticks and switches -/

theorem decrementSleep_frame (h : ¬ Scheduled p x) : Kernel.decrementSleep m p x = m x := by
  unfold Kernel.decrementSleep
  split_ifs
  · exact setProcessState_scheduled h
  · exact setProcessSleep_scheduled h
  · rfl

theorem KernelInv.decrementSleepCounters_frame {fuel : Nat}
    (h : KernelInv lo hi base header k created started (pre ++ post))
    (hx : ∀ p ∈ created, ¬ Scheduled p x)
    (hm : Kernel.decrementSleepCounters k.heap.mem fuel (post.headD 0) = .ok m) :
    m x = k.heap.mem x := by
  induction post generalizing pre k fuel with
  | nil =>
    cases fuel with
    | zero => cases hm
    | succ fuel =>
      rw [Kernel.decrementSleepCounters, List.headD_nil, if_neg (not_not.mpr rfl)] at hm
      rw [← Except.ok.inj hm]
  | cons a post ih =>
    have ha : a ∈ pre ++ a :: post := by simp
    have hne : a ≠ 0 := h.ledger.ne_zero (h.list.blocks a ha)
    have hp := h.subset _ (h.value_mem ha)
    have h₁ := h.decrementSleep hp
    have hnext : nodeNext (Kernel.decrementSleep k.heap.mem (nodeValue k.heap.mem a)) a =
        post.headD 0 := h₁.list.links.chain.at.2
    rw [List.append_cons] at h₁
    cases fuel with
    | zero => cases hm
    | succ fuel =>
      rw [Kernel.decrementSleepCounters, List.headD_cons, if_pos hne] at hm
      simp only [hnext] at hm
      rw [ih h₁ hm]
      exact decrementSleep_frame (hx _ hp)

theorem schedulerSwitch_frame {esp : Word} (hswitch : k.schedulerSwitch = .ok (k', esp))
    (hx : k'.current ≠ 0 → ¬ Scheduled k'.current x) : k'.heap.mem x = k.heap.mem x := by
  rcases bind_eq_ok.mp hswitch with ⟨q, -, hswitch⟩
  by_cases hz : q = 0
  · simp only [hz, if_true] at hswitch
    rcases bind_eq_ok.mp hswitch with ⟨_, -, hswitch⟩
    cases hswitch
    rfl
  · simp only [hz, if_false] at hswitch
    cases hswitch
    exact setProcessState_scheduled (hx hz)

theorem saveStack_frame (hx : k.current ≠ 0 → ¬ Scheduled k.current x) :
    (k.saveStack r).heap.mem x = k.heap.mem x := by
  unfold Kernel.saveStack
  by_cases hc : k.current = 0
  · rw [if_pos hc]
  · rw [if_neg hc]
    exact (setProcessState_scheduled (hx hc)).trans (setProcessEsp_scheduled (hx hc))

namespace KernelInv

/-- The current process, if there is one, is one of the processes. -/
theorem current_created (h : KernelInv lo hi base header k created started nodes)
    (hc : k.current ≠ 0) : k.current ∈ created := h.subset _ (h.current.resolve_left hc).1

theorem schedulerSwitch_frame {esp : Word} (h : KernelInv lo hi base header k created started nodes)
    (hesp : k.esp ≠ 0) (hswitch : k.schedulerSwitch = .ok (k', esp))
    (hx : ∀ p ∈ created, ¬ Scheduled p x) : k'.heap.mem x = k.heap.mem x := by
  rcases h.schedulerSwitch hesp with ⟨k₁, esp₁, hswitch₁, h₁⟩
  cases hswitch.symm.trans hswitch₁
  exact Hjortron.schedulerSwitch_frame hswitch fun hc => hx _ (h₁.current_created hc)

/-! ## Handlers -/

theorem schedulerHandleIrq_frame (h : KernelInv lo hi base header k created started nodes)
    (hirq : k.schedulerHandleIrq r = .ok (k', esp)) (hx : ∀ p ∈ created, ¬ Scheduled p x) :
    k'.heap.mem x = k.heap.mem x := by
  rcases bind_eq_ok.mp hirq with ⟨_, hr, hirq⟩
  rw [assert_eq_ok, bne_iff_ne] at hr
  cases henabled : k.enabled with
  | false =>
    rw [henabled] at hirq
    cases hirq
    rfl
  | true =>
    rw [henabled] at hirq
    rcases bind_eq_ok.mp hirq with ⟨m, hm, hirq⟩
    rcases bind_eq_ok.mp hirq with ⟨⟨k₁, esp₁⟩, hswitch, hirq⟩
    cases hirq
    have h₀ : KernelInv lo hi base header k created started ([] ++ nodes) := h
    rcases h₀.decrementSleepCounters h.list.length_lt with ⟨m', hm', h₁⟩
    rw [h.list.links.head] at hm
    cases hm.symm.trans hm'
    rcases h₁.saveStack hr with ⟨h₂, hesp⟩
    have hkept : (k.setMem m).heap.mem x = k.heap.mem x := h₀.decrementSleepCounters_frame hx hm
    rw [h₂.schedulerSwitch_frame hesp hswitch hx, ← hkept]
    exact saveStack_frame fun hc => hx _ (h₁.current_created hc)

theorem schedulerSleep_frame (h : KernelInv lo hi base header k created started nodes)
    (hp : p ∈ created) (hsleep : k.schedulerSleep p ms r = .ok (k', esp))
    (hx : ∀ p ∈ created, ¬ Scheduled p x) : k'.heap.mem x = k.heap.mem x := by
  have hne := h.ne_zero hp
  have h₁ := (h.setProcessState hp processStateSleeping).setProcessSleep hp
    (ms * pitInterruptsPerSecond / 1000)
  have hkept : Hjortron.setProcessSleep (Hjortron.setProcessState k.heap.mem p
      processStateSleeping) p (ms * pitInterruptsPerSecond / 1000) x = k.heap.mem x :=
    (setProcessSleep_scheduled (hx p hp)).trans (setProcessState_scheduled (hx p hp))
  rcases bind_eq_ok.mp hsleep with ⟨_, -, hsleep⟩
  by_cases hc : k.current = p
  · have hesp := (h.current.resolve_left (hc ▸ hne)).2
    simp only [Kernel.setMem, hc, if_true] at hsleep
    rcases bind_eq_ok.mp hsleep with ⟨⟨k₁, esp₁⟩, hswitch, hsleep⟩
    cases hsleep
    rw [((h₁.setProcessEsp hp r).idle).schedulerSwitch_frame hesp hswitch hx, ← hkept]
    exact setProcessEsp_scheduled (hx p hp)
  · simp only [Kernel.setMem, hc, if_false] at hsleep
    cases hsleep
    exact hkept

theorem schedulerStop_frame (h : KernelInv lo hi base header k created started nodes)
    (hp : p ∈ started) (hstop : k.schedulerStop p = .ok (k', esp))
    (hx : Quiet lo hi k.heap.mem (created.erase p) x) : k'.heap.mem x = k.heap.mem x := by
  have hne := h.ne_zero (h.subset p hp)
  rcases h.destroy hp with ⟨heap₁, heap₂, nodes', hdelete, hdestroy, h₁, -, hframe, -⟩
  rcases bind_eq_ok.mp hstop with ⟨_, -, hstop⟩
  rcases bind_eq_ok.mp hstop with ⟨_, hdelete', hstop⟩
  rcases bind_eq_ok.mp hstop with ⟨_, hdestroy', hstop⟩
  cases hdelete.symm.trans hdelete'
  cases hdestroy.symm.trans hdestroy'
  by_cases hc : k.current = p
  · have hesp := (h.current.resolve_left (hc ▸ hne)).2
    simp only [hc, if_true] at hstop
    rcases bind_eq_ok.mp hstop with ⟨⟨k₁, esp₁⟩, hswitch, hstop⟩
    cases hstop
    have hbytes := h.quiet (hx.mono (fun _ => List.mem_of_mem_erase) fun _ _ => rfl)
    rw [h₁.schedulerSwitch_frame hesp hswitch fun q hq hs =>
      hbytes.2.2.2 q (List.mem_of_mem_erase hq) hs.inRange]
    exact hframe x hx
  · simp only [hc, if_false] at hstop
    cases hstop
    exact hframe x hx

/-- Idle bytes stay idle through a switch. -/
theorem schedulerSwitch_idle {esp : Word} (h : KernelInv lo hi base header k created started nodes)
    (hswitch : k.schedulerSwitch = .ok (k', esp)) (hx : k.heap.Idle x) : k'.heap.Idle x := by
  rcases h.schedulerNext with ⟨q, hnext, hq⟩
  rcases bind_eq_ok.mp hswitch with ⟨q', hnext', hswitch⟩
  cases hnext.symm.trans hnext'
  by_cases hz : q = 0
  · simp only [hz, if_true] at hswitch
    rcases bind_eq_ok.mp hswitch with ⟨_, -, hswitch⟩
    cases hswitch
    exact hx
  · simp only [hz, if_false] at hswitch
    cases hswitch
    apply h.ledger.idle_write hx
    intro y hy
    apply setProcessState_frame
    intro hin
    have hcreated := h.subset q (hq.resolve_left hz)
    exact hy (Or.inr (Or.inr ⟨_, List.mem_append_left _ (mem_ownedBlocks_process hcreated), hin⟩))

/-- The stack of a process that has been stopped is idle. -/
theorem schedulerStop_idle (h : KernelInv lo hi base header k created started nodes)
    (hp : p ∈ started) (hstop : k.schedulerStop p = .ok (k', esp))
    (hx : InRange (processStack k.heap.mem p) 8192 x) : k'.heap.Idle x := by
  rcases h.destroy hp with ⟨heap₁, heap₂, nodes', hdelete, hdestroy, h₁, -, -, hidle⟩
  rcases bind_eq_ok.mp hstop with ⟨_, -, hstop⟩
  rcases bind_eq_ok.mp hstop with ⟨_, hdelete', hstop⟩
  rcases bind_eq_ok.mp hstop with ⟨_, hdestroy', hstop⟩
  cases hdelete.symm.trans hdelete'
  cases hdestroy.symm.trans hdestroy'
  by_cases hc : k.current = p
  · simp only [hc, if_true] at hstop
    rcases bind_eq_ok.mp hstop with ⟨⟨k₁, esp₁⟩, hswitch, hstop⟩
    cases hstop
    exact h₁.schedulerSwitch_idle hswitch (hidle x hx)
  · simp only [hc, if_false] at hstop
    cases hstop
    exact hidle x hx

/-- Stacks stay where they are as long as only bytes of processes are written that the scheduler
writes. -/
theorem processStack_of_scheduled (h : KernelInv lo hi base header k created started nodes)
    (hm : ∀ x, (∀ p ∈ created, ¬ Scheduled p x) → m x = k.heap.mem x) (hq : q ∈ created) :
    processStack m q = processStack k.heap.mem q := by
  have hebp : processEbp m q = processEbp k.heap.mem q := by
    apply Mem.load32_congr
    intro y hy
    apply hm y
    intro p hp hs
    by_cases hpq : p = q
    · rw [hpq] at hs
      unfold Scheduled at hs
      unfold InRange at hs hy
      bv_omega
    · have hmember : InRange q 24 y := inRange_member (by decide) hy
      exact ((h.process_apart hp).2.2 q hq hpq).not_inRange hmember hs.inRange
  rw [processStack, processStack, hebp]

/-- The same after `scheduler_stop`. -/
theorem processStack_stop (h : KernelInv lo hi base header k created started nodes)
    (hp : p ∈ started) (hstop : k.schedulerStop p = .ok (k', esp)) (hq : q ∈ created.erase p) :
    processStack k'.heap.mem q = processStack k.heap.mem q := by
  have hne := h.ne_zero (h.subset p hp)
  rcases h.destroy hp with ⟨heap₁, heap₂, nodes', hdelete, hdestroy, h₁, hkept, -⟩
  have hdestroyed : processStack heap₂.mem q = processStack k.heap.mem q :=
    processStack_congr (hkept q hq)
  rcases bind_eq_ok.mp hstop with ⟨_, -, hstop⟩
  rcases bind_eq_ok.mp hstop with ⟨_, hdelete', hstop⟩
  rcases bind_eq_ok.mp hstop with ⟨_, hdestroy', hstop⟩
  cases hdelete.symm.trans hdelete'
  cases hdestroy.symm.trans hdestroy'
  by_cases hc : k.current = p
  · have hesp := (h.current.resolve_left (hc ▸ hne)).2
    simp only [hc, if_true] at hstop
    rcases bind_eq_ok.mp hstop with ⟨⟨k₁, esp₁⟩, hswitch, hstop⟩
    cases hstop
    rw [← hdestroyed]
    exact h₁.processStack_of_scheduled (fun x hx => h₁.schedulerSwitch_frame hesp hswitch hx) hq
  · simp only [hc, if_false] at hstop
    cases hstop
    exact hdestroyed

/-! ## Starting and creating -/

theorem schedulerStart_frame (h : KernelInv lo hi base header k created started nodes)
    (hstart : k.schedulerStart p = .ok k') (hx : Quiet lo hi k.heap.mem created x) :
    k'.heap.mem x = k.heap.mem x := by
  rcases bind_eq_ok.mp hstart with ⟨_, -, hstart⟩
  rcases bind_eq_ok.mp hstart with ⟨heap, hinsert, hstart⟩
  cases hstart
  rcases h.list.insert hinsert with ⟨new, hinserted⟩
  rcases h.quiet hx with ⟨hstable, hlist, hnodes, -⟩
  exact hinserted.frame x hstable hlist hnodes

theorem createProcess_frame (h : KernelInv lo hi base header k created started nodes)
    (hcreate : k.createProcess eip = .ok (p, k')) (hx : Quiet lo hi k.heap.mem created x) :
    k'.heap.mem x = k.heap.mem x := by
  rcases bind_eq_ok.mp hcreate with ⟨⟨process, nextId, heap⟩, hheap, hrest⟩
  cases hrest
  exact (processCreate_spec h.ledger hheap).2.2 x (h.quiet hx).1

end KernelInv

end

end Hjortron
