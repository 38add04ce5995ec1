import Hjortron.Execution.Proofs.ProcessLedger
import Hjortron.Misc.Run

/-!
# The life of a process

One lemma for each function of `scheduler.c` and `process.c` says that it returns and keeps
`KernelInv`; `process_create`, `scheduler_start` and `scheduler_stop` with the blocks that they
allocate and free. Over every sequence of calls, no block is leaked and none is freed twice.
-/

namespace Hjortron

section

variable {lo hi : Nat} {base : List (Word × Word)} {k k' : Kernel} {m : Mem}
  {created started nodes pre post : List Word} {header p q x v a r list ms eip : Word}

/-! ## Ticks -/

namespace KernelInv

theorem value_mem (h : KernelInv lo hi base header k created started nodes) (ha : a ∈ nodes) :
    nodeValue k.heap.mem a ∈ started := by
  rw [← h.values]
  exact List.mem_map_of_mem ha

theorem ne_zero (h : KernelInv lo hi base header k created started nodes) (hp : p ∈ created) :
    p ≠ 0 :=
  h.ledger.ne_zero (List.mem_append_left _ (mem_ownedBlocks_process hp))

/-- No process is current. -/
theorem idle (h : KernelInv lo hi base header k created started nodes) :
    KernelInv lo hi base header { k with current := 0 } created started nodes :=
  ⟨h.header_eq, h.list, h.values, h.nodup, h.subset, Or.inl rfl⟩

theorem decrementSleep (h : KernelInv lo hi base header k created started nodes)
    (hp : p ∈ created) :
    KernelInv lo hi base header (k.setMem (Kernel.decrementSleep k.heap.mem p)) created started
      nodes := by
  unfold Kernel.decrementSleep
  split_ifs
  · exact h.setProcessState hp _
  · exact h.setProcessSleep hp _
  · exact h

/-- The loop over the sleep counters, from the nodes `post` on. -/
theorem decrementSleepCounters {fuel : Nat}
    (h : KernelInv lo hi base header k created started (pre ++ post)) (hfuel : post.length < fuel) :
    ∃ m, Kernel.decrementSleepCounters k.heap.mem fuel (post.headD 0) = .ok m ∧
      KernelInv lo hi base header (k.setMem m) created started (pre ++ post) := by
  induction post generalizing pre k fuel with
  | nil =>
    obtain ⟨fuel, rfl⟩ := Nat.exists_eq_succ_of_ne_zero (by omega : fuel ≠ 0)
    refine ⟨k.heap.mem, ?_, h⟩
    rw [Kernel.decrementSleepCounters, List.headD_nil, if_neg (not_not.mpr rfl)]
  | cons a post ih =>
    obtain ⟨fuel, rfl⟩ := Nat.exists_eq_succ_of_ne_zero (by omega : fuel ≠ 0)
    have ha : a ∈ pre ++ a :: post := by simp
    have hne : a ≠ 0 := h.ledger.ne_zero (h.list.blocks a ha)
    have h₁ := h.decrementSleep (h.subset _ (h.value_mem ha))
    have hnext : nodeNext (Kernel.decrementSleep k.heap.mem (nodeValue k.heap.mem a)) a =
        post.headD 0 := h₁.list.links.chain.at.2
    rw [List.append_cons] at h₁ ⊢
    obtain ⟨m, hm, hinv⟩ := ih h₁ (by simpa using hfuel)
    refine ⟨m, ?_, hinv⟩
    rw [Kernel.decrementSleepCounters, List.headD_cons, if_pos hne]
    simp only [hnext]
    exact hm

end KernelInv

/-! ## Switches -/

/-- The loop of `scheduler_next` finds a value of the list, or nothing. -/
theorem nextLoop_mem (h : ListAt m list nodes) (ha : a ∈ nodes) (n : Nat) :
    Kernel.nextLoop m list n a = 0 ∨ Kernel.nextLoop m list n a ∈ nodeValues m nodes := by
  induction n generalizing a with
  | zero => exact Or.inl rfl
  | succ n ih =>
    have hnode := h.next_mem ha
    rw [Kernel.nextLoop]
    generalize (if nodeNext m a = 0 then listHead m list else nodeNext m a) = node at hnode ⊢
    split
    · exact Or.inr (List.mem_map_of_mem hnode)
    · exact ih hnode

namespace KernelInv

theorem schedulerNext (h : KernelInv lo hi base header k created started nodes) :
    ∃ q, k.schedulerNext = .ok q ∧ (q = 0 ∨ q ∈ started) := by
  have hlinks := h.list.links
  unfold Kernel.schedulerNext
  by_cases hc : k.current = 0
  · rw [if_neg (not_not.mpr hc)]
    refine ⟨_, rfl, ?_⟩
    cases nodes with
    | nil =>
      rw [hlinks.length]
      exact Or.inl rfl
    | cons a nodes =>
      rw [hlinks.head, ← h.values]
      exact nextLoop_mem hlinks List.mem_cons_self _
  · rw [if_pos hc]
    have hcur := (h.current.resolve_left hc).1
    have hfind := h.list.find hc
    rw [← h.values] at hcur
    obtain ⟨pre, a, post, rfl, -, -, hfirst⟩ := exists_firstNode hcur
    rw [hfind, hfirst, ← h.values]
    exact ⟨_, rfl, nextLoop_mem hlinks (by simp) _⟩

theorem schedulerSwitch (h : KernelInv lo hi base header k created started nodes)
    (hesp : k.esp ≠ 0) :
    ∃ k' esp, k.schedulerSwitch = .ok (k', esp) ∧
      KernelInv lo hi base header k' created started nodes := by
  obtain ⟨q, hnext, hq⟩ := h.schedulerNext
  have h₁ : KernelInv lo hi base header { k with current := q } created started nodes :=
    ⟨h.header_eq, h.list, h.values, h.nodup, h.subset, hq.imp_right fun hq => ⟨hq, hesp⟩⟩
  unfold Kernel.schedulerSwitch
  rw [hnext]
  by_cases hz : q = 0
  · refine ⟨{ k with current := q }, k.esp, ?_, h₁⟩
    simp only [bind, Except.bind, hz, if_true, bne_iff_ne.mpr hesp, assert_true]
    rfl
  · have hp := h.subset q (hq.resolve_left hz)
    refine ⟨_, processEsp (Hjortron.setProcessState k.heap.mem q processStateRunning) q, ?_,
      h₁.setProcessState hp processStateRunning⟩
    simp only [bind, Except.bind, hz, if_false]
    rfl

theorem saveStack (h : KernelInv lo hi base header k created started nodes) (hr : r ≠ 0) :
    KernelInv lo hi base header (k.saveStack r) created started nodes ∧
      (k.saveStack r).esp ≠ 0 := by
  unfold Kernel.saveStack
  by_cases hc : k.current = 0
  · rw [if_pos hc]
    exact ⟨⟨h.header_eq, h.list, h.values, h.nodup, h.subset, Or.inl hc⟩, hr⟩
  · rw [if_neg hc]
    obtain ⟨hcur, hesp⟩ := h.current.resolve_left hc
    have hp := h.subset _ hcur
    exact ⟨(h.setProcessEsp hp r).setProcessState hp processStateWaiting, hesp⟩

theorem schedulerHandleIrq (h : KernelInv lo hi base header k created started nodes)
    (hr : r ≠ 0) :
    ∃ k' esp, k.schedulerHandleIrq r = .ok (k', esp) ∧
      KernelInv lo hi base header k' created started nodes := by
  unfold Kernel.schedulerHandleIrq
  rw [bne_iff_ne.mpr hr, assert_true]
  cases henabled : k.enabled with
  | false => exact ⟨k, none, rfl, h⟩
  | true =>
    obtain ⟨m, hm, h₁⟩ := KernelInv.decrementSleepCounters
      (show KernelInv lo hi base header k created started ([] ++ nodes) from h) h.list.length_lt
    obtain ⟨h₂, hesp⟩ := h₁.saveStack hr
    obtain ⟨k', esp, hswitch, hk'⟩ := h₂.schedulerSwitch hesp
    refine ⟨k', some esp, ?_, hk'⟩
    rw [h.list.links.head, hm]
    simp only [bind, Except.bind, Bool.not_true, Bool.false_eq_true, if_false, hswitch]
    rfl

/-! ## Sleeping -/

theorem schedulerSleep (h : KernelInv lo hi base header k created started nodes)
    (hp : p ∈ created) :
    ∃ k' esp, k.schedulerSleep p ms r = .ok (k', esp) ∧
      KernelInv lo hi base header k' created started nodes := by
  have hne := h.ne_zero hp
  have h₁ := (h.setProcessState hp processStateSleeping).setProcessSleep hp
    (ms * pitInterruptsPerSecond / 1000)
  unfold Kernel.schedulerSleep
  rw [bne_iff_ne.mpr hne, assert_true]
  by_cases hc : k.current = p
  · have hesp := (h.current.resolve_left (hc ▸ hne)).2
    obtain ⟨k', esp, hswitch, hk'⟩ := (h₁.setProcessEsp hp r).idle.schedulerSwitch hesp
    refine ⟨k', some esp, ?_, hk'⟩
    simp only [Kernel.setMem] at hswitch
    simp only [bind, Except.bind, Kernel.setMem, hc, if_true, hswitch]
    rfl
  · refine ⟨_, none, ?_, h₁⟩
    simp only [bind, Except.bind, Kernel.setMem, hc, if_false]
    rfl

/-! ## Starting -/

/-- The bytes of the processes are not those of the list. -/
theorem process_bytes (h : KernelInv lo hi base header k created started nodes) (hp : p ∈ created)
    (hx : InRange p 24 x) :
    Stable lo hi (ownedBlocks k.heap.mem k.list nodes created ++ base) x ∧ ¬ InRange 0 12 x ∧
      ¬ InRange k.list 8 x ∧ ∀ a ∈ nodes, ¬ InRange a 12 x := by
  have hmem : (p, sizeofProcess) ∈ ownedBlocks k.heap.mem k.list nodes created ++ base :=
    List.mem_append_left _ (mem_ownedBlocks_process hp)
  obtain ⟨hlist, hnodes, -⟩ := h.process_apart hp
  refine ⟨Or.inr (Or.inr ⟨_, hmem, hx⟩), ?_, hlist.symm.not_inRange hx,
    fun a ha => (hnodes a ha).symm.not_inRange hx⟩
  exact (h.ledger.null_apart h.list.null hmem).not_inRange hx

theorem schedulerStart (h : KernelInv lo hi base header k created started nodes) (hp : p ∈ created)
    (hnew : p ∉ started) (hstart : k.schedulerStart p = .ok k') :
    (∃ new, KernelInv lo hi base header k' created (started ++ [p]) (nodes ++ [new])) ∧
      k' = { k with heap := k'.heap } ∧
      ∀ q ∈ created, processAt k'.heap.mem q = processAt k.heap.mem q := by
  obtain ⟨_, -, hstart⟩ := bind_eq_ok.mp hstart
  obtain ⟨heap, hinsert, hstart⟩ := bind_eq_ok.mp hstart
  obtain rfl := Except.ok.inj hstart
  obtain ⟨new, hinserted⟩ := h.list.insert hinsert
  have hbytes : ∀ q ∈ created, processAt heap.mem q = processAt k.heap.mem q := by
    intro q hq
    apply processAt_congr
    intro y hy
    obtain ⟨hstable, -, hlist, hnodes⟩ := h.process_bytes hq hy
    exact hinserted.frame y hstable hlist hnodes
  have hinv := hinserted.inv.perm ownedBlocks_insert
  rw [← ownedBlocks_congr fun q hq => processStack_congr (hbytes q hq)] at hinv
  refine ⟨⟨new, h.header_eq, hinv, hinserted.values.trans (by rw [h.values]), ?_, ?_, ?_⟩, rfl,
    hbytes⟩
  · refine List.nodup_append.mpr ⟨h.nodup, List.nodup_singleton _, fun q hq b hb => ?_⟩
    rw [List.mem_singleton.mp hb]
    rintro rfl
    exact hnew hq
  · rw [List.forall_mem_append, List.forall_mem_singleton]
    exact ⟨h.subset, hp⟩
  · exact h.current.imp_right fun hc => ⟨List.mem_append_left _ hc.1, hc.2⟩

/-! ## Stopping -/

/-- `process_destroy` frees the two blocks of a process. -/
theorem processDestroy {heap : Heap}
    (h : ListInv lo hi heap (ownedBlocks heap.mem list nodes (pre ++ p :: post) ++ base) list
      nodes) :
    ∃ heap', Hjortron.processDestroy heap p = .ok heap' ∧
      ListInv lo hi heap' (ownedBlocks heap'.mem list nodes (pre ++ post) ++ base) list nodes ∧
      nodeValues heap'.mem nodes = nodeValues heap.mem nodes ∧
      (∀ q ∈ pre ++ post, processAt heap'.mem q = processAt heap.mem q) ∧
      (∀ x, Stable lo hi (ownedBlocks heap.mem list nodes (pre ++ post) ++ base) x →
        heap'.mem x = heap.mem x) ∧
      ∀ x, InRange (processStack heap.mem p) 8192 x → heap'.Idle x := by
  have hledger := h.ledger
  rw [ownedBlocks_process] at hledger
  obtain ⟨heap₁, heap₂, hfree₁, hfree₂, hledger₂, hframe, hidle⟩ := hledger.free_two
  rw [← ownedBlocks_processes] at hledger₂ hframe
  have hne : p ≠ 0 := hledger.ne_zero (List.mem_append_right _ List.mem_cons_self)
  have hkept : ∀ q ∈ pre ++ post, processAt heap₂.mem q = processAt heap.mem q := by
    intro q hq
    apply processAt_congr
    intro y hy
    exact hframe y (Or.inr (Or.inr ⟨_, List.mem_append_left _ (mem_ownedBlocks_process hq), hy⟩))
  have hnodes : ∀ a ∈ nodes, (a, sizeofNode) ∈
      ownedBlocks heap.mem list nodes (pre ++ post) ++ base :=
    fun a ha => List.mem_append_left _ (mem_ownedBlocks_node ha)
  have hheader : (list, sizeofList) ∈ ownedBlocks heap.mem list nodes (pre ++ post) ++ base :=
    List.mem_append_left _ mem_ownedBlocks_list
  have hbytes : ∀ x, InRange list 8 x ∨ (∃ a ∈ nodes, InRange a 12 x) →
      heap₂.mem x = heap.mem x := by
    rintro x (hx | ⟨a, ha, hx⟩)
    · exact hframe x (Or.inr (Or.inr ⟨_, hheader, hx⟩))
    · exact hframe x (Or.inr (Or.inr ⟨_, hnodes a ha, hx⟩))
  obtain ⟨hlist, hvalues⟩ := h.transfer hledger₂ hheader hnodes hbytes
  rw [← ownedBlocks_congr fun q hq => processStack_congr (hkept q hq)] at hlist
  refine ⟨heap₂, ?_, hlist, hvalues, hkept, hframe, hidle⟩
  unfold Hjortron.processDestroy
  rw [bne_iff_ne.mpr hne, assert_true]
  simp only [bind, Except.bind]
  rw [← processStack, hfree₁]
  exact hfree₂

/-- The kernel after `list_delete` and `process_destroy` of a process in the list, with no process
current. -/
theorem destroy (h : KernelInv lo hi base header k created started nodes) (hp : p ∈ started) :
    ∃ heap₁ heap₂ nodes', k.heap.listDelete k.list p = .ok heap₁ ∧
      Hjortron.processDestroy heap₁ p = .ok heap₂ ∧
      KernelInv lo hi base header { k with heap := heap₂, current := 0 } (created.erase p)
        (started.erase p) nodes' ∧
      (∀ q ∈ created.erase p, processAt heap₂.mem q = processAt k.heap.mem q) ∧
      (∀ x, Quiet lo hi k.heap.mem (created.erase p) x → heap₂.mem x = k.heap.mem x) ∧
      ∀ x, InRange (processStack k.heap.mem p) 8192 x → heap₂.Idle x := by
  have hne := h.ne_zero (h.subset p hp)
  have hmem := hp
  rw [← h.values] at hmem
  obtain ⟨pre, node, post, heap₁, rfl, hnode, hpre, hdelete, hdeleted⟩ := h.list.delete hne hmem
  have hbytes : ∀ q ∈ created, processAt heap₁.mem q = processAt k.heap.mem q := by
    intro q hq
    apply processAt_congr
    intro y hy
    obtain ⟨hstable, hnull, hlist, hnodes⟩ := h.process_bytes hq hy
    exact hdeleted.frame y hstable hnull hlist hnodes
  obtain ⟨pre', post', -, hcreated, herase⟩ := List.exists_erase_eq (h.subset p hp)
  have hledger := h.ledger
  have hinv := hdeleted.inv
  rw [ownedBlocks_node] at hledger hinv
  rw [hledger.forgetPtr_append_cons, ← ownedBlocks_nodes,
    ← ownedBlocks_congr fun q hq => processStack_congr (hbytes q hq), hcreated] at hinv
  obtain ⟨heap₂, hdestroy, hinv₂, hvalues₂, hkept, hframe, hidle⟩ := processDestroy hinv
  rw [processStack_congr (hbytes p (h.subset p hp))] at hidle
  refine ⟨heap₁, heap₂, pre ++ post, hdelete, hdestroy, ⟨h.header_eq, herase ▸ hinv₂, ?_,
    h.nodup.erase p, fun q hq => ?_, Or.inl rfl⟩, fun q hq => ?_, fun x hx => ?_, hidle⟩
  · rw [hvalues₂, hdeleted.values, ← nodeValues_erase hnode hpre, h.values]
  · rw [h.nodup.mem_erase_iff] at hq
    exact (List.mem_erase_of_ne hq.1).mpr (h.subset q hq.2)
  · rw [hkept q (herase ▸ hq), hbytes q (List.mem_of_mem_erase hq)]
  · have hx' : Quiet lo hi k.heap.mem created x :=
      hx.mono (fun _ => List.mem_of_mem_erase) fun _ _ => rfl
    obtain ⟨hstable, hlist, hnodes, -⟩ := h.quiet hx'
    rw [hframe x, hdeleted.frame x hstable hx.1 hlist hnodes]
    rcases hx.2 with hlo | hhi | ⟨q, hq, hin⟩
    · exact Or.inl hlo
    · exact Or.inr (Or.inl hhi)
    · rw [← processStack_congr (hbytes q (List.mem_of_mem_erase hq))] at hin
      rw [herase] at hq
      exact Or.inr (Or.inr ⟨_, List.mem_append_left _ (mem_ownedBlocks_stack hq), hin⟩)

theorem schedulerStop (h : KernelInv lo hi base header k created started nodes) (hp : p ∈ started) :
    ∃ k' esp nodes', k.schedulerStop p = .ok (k', esp) ∧
      KernelInv lo hi base header k' (created.erase p) (started.erase p) nodes' := by
  have hne := h.ne_zero (h.subset p hp)
  obtain ⟨heap₁, heap₂, nodes', hdelete, hdestroy, h₁, -⟩ := h.destroy hp
  unfold Kernel.schedulerStop
  rw [bne_iff_ne.mpr hne, assert_true, hdelete]
  simp only [bind, Except.bind, hdestroy]
  by_cases hc : k.current = p
  · have hesp := (h.current.resolve_left (hc ▸ hne)).2
    obtain ⟨k', esp, hswitch, hk'⟩ := h₁.schedulerSwitch hesp
    refine ⟨k', some esp, nodes', ?_, hk'⟩
    rw [if_pos hc, hswitch]
    rfl
  · refine ⟨{ k with heap := heap₂ }, none, nodes', by rw [if_neg hc]; rfl, h₁.header_eq, h₁.list,
      h₁.values, h₁.nodup, h₁.subset, ?_⟩
    exact h.current.imp_right fun hcur => ⟨(List.mem_erase_of_ne hc).mpr hcur.1, hcur.2⟩

/-! ## Creating -/

/-- `process_create` writes the two new blocks only. -/
theorem initRegs_initProcess {stack nextId : Word} (hstack : ¬ InRange stack 8192 x)
    (hp : ¬ InRange p 24 x) :
    initRegs (initProcess m p stack nextId eip) p x = m x := by
  have hesp : processEsp (initProcess m p stack nextId eip) p =
      stack + processStackLength - sizeofRegs := congrArg ProcessFields.esp processAt_initProcess
  rw [initRegs_frame, initProcess_frame hp]
  rw [hesp, processStackLength, sizeofRegs]
  unfold InRange at hstack ⊢
  bv_omega

/-- The new process owns two new blocks, and the bytes of the others are as before. -/
theorem processCreate_spec {heap heap' : Heap} {live : List (Word × Word)} {nextId nextId' : Word}
    (h : Ledger lo hi heap live)
    (hcreate : processCreate heap nextId eip = .ok (p, nextId', heap')) :
    Ledger lo hi heap' ((processStack heap'.mem p, processStackLength) :: (p, sizeofProcess) ::
      live) ∧
      (∃ stack, processAt heap'.mem p = ⟨stack + processStackLength - sizeofRegs,
        stack + processStackLength, processStateWaiting, 0⟩) ∧
      ∀ x, Stable lo hi live x → heap'.mem x = heap.mem x := by
  obtain ⟨_, -, hcreate⟩ := bind_eq_ok.mp hcreate
  obtain ⟨⟨process, heap₁⟩, hm₁, hcreate⟩ := bind_eq_ok.mp hcreate
  obtain ⟨_, -, hcreate⟩ := bind_eq_ok.mp hcreate
  obtain ⟨⟨stack, heap₂⟩, hm₂, hcreate⟩ := bind_eq_ok.mp hcreate
  obtain ⟨_, -, hcreate⟩ := bind_eq_ok.mp hcreate
  obtain ⟨rfl, hrest⟩ := Prod.mk.inj (Except.ok.inj hcreate)
  obtain ⟨-, rfl⟩ := Prod.mk.inj hrest
  have h₁ := h.malloc hm₁
  have h₂ := h₁.ledger.malloc hm₂
  have hapart : Apart stack 8192 process 24 :=
    h₂.ledger.apart_of_size List.mem_cons_self (List.mem_cons_of_mem _ List.mem_cons_self)
      (by decide)
  have hbytes : ∀ x, ¬ InRange stack 8192 x → ¬ InRange process 24 x →
      initRegs (initProcess heap₂.mem process stack nextId eip) process x = heap₂.mem x :=
    fun x => initRegs_initProcess
  obtain ⟨m₁, hm⟩ : ∃ m₁, m₁ = initProcess heap₂.mem process stack nextId eip := ⟨_, rfl⟩
  have hfields : processAt m₁ process = ⟨stack + processStackLength - sizeofRegs,
      stack + processStackLength, processStateWaiting, 0⟩ := by
    rw [hm]
    exact processAt_initProcess
  simp only [← hm] at hbytes ⊢
  have hesp : processEsp m₁ process = stack + processStackLength - sizeofRegs :=
    congrArg ProcessFields.esp hfields
  have hkeep : processAt (initRegs m₁ process) process = processAt m₁ process := by
    apply processAt_congr
    intro y hy
    apply initRegs_frame
    have hout := hapart.not_inRange hy
    rw [hesp, processStackLength, sizeofRegs]
    unfold InRange at hout ⊢
    bv_omega
  have hstack : processStack (initRegs m₁ process) process = stack := by
    have hebp : processEbp (initRegs m₁ process) process = stack + processStackLength :=
      congrArg ProcessFields.ebp (hkeep.trans hfields)
    rw [processStack, hebp, BitVec.add_sub_cancel]
  rw [hstack]
  refine ⟨h₂.ledger.write fun x hx => hbytes x ?_ ?_, ⟨stack, hkeep.trans hfields⟩, fun x hx => ?_⟩
  · exact fun hin => hx (Or.inr (Or.inr ⟨_, List.mem_cons_self, hin⟩))
  · exact fun hin => hx (Or.inr (Or.inr ⟨_, List.mem_cons_of_mem _ List.mem_cons_self, hin⟩))
  · have hprocess : ¬ InRange process 24 x := h₁.ledger.not_inRange hx
    have hstack' : ¬ InRange stack 8192 x := h₂.ledger.not_inRange (hx.cons _)
    rw [← h₁.frame x hx, ← h₂.frame x (hx.cons _)]
    exact hbytes x hstack' hprocess

/-- With room for the structure, the stack and their headers, `process_create` returns. -/
theorem processCreate_ok {heap : Heap} {live : List (Word × Word)} {nextId : Word} {size : Nat}
    (h : Roomy lo hi heap live (8248 + size)) (hsize : 0 < size) (heip : eip ≠ 0) :
    ∃ p nextId' heap', processCreate heap nextId eip = .ok (p, nextId', heap') ∧
      HasRoom heap' size := by
  have hboth : Roomy lo hi heap live
      (sizeofProcess.toNat + 16 + (processStackLength.toNat + 16 + size)) := by
    apply h.mono
    change 24 + 16 + (8192 + 16 + size) ≤ _
    omega
  obtain ⟨process, heap₁, hm₁, hroom₁⟩ := hboth.malloc_rest (by decide) (by omega)
  obtain ⟨stack, heap₂, hm₂, hroom₂⟩ := hroom₁.malloc_rest (by decide) hsize
  have hprocess : process ≠ 0 := hroom₁.ledger.ne_zero List.mem_cons_self
  have hstack : stack ≠ 0 := hroom₂.ledger.ne_zero List.mem_cons_self
  refine ⟨process, nextId + 1, { heap₂ with
    mem := initRegs (initProcess heap₂.mem process stack nextId eip) process }, ?_, ?_⟩
  · unfold processCreate
    rw [bne_iff_ne.mpr heip, hm₁]
    simp only [assert_true, bind, Except.bind, bne_iff_ne.mpr hprocess, hm₂, bne_iff_ne.mpr hstack]
    rfl
  · refine (hroom₂.write fun x hx => initRegs_initProcess ?_ ?_).hasRoom
    · exact fun hin => hx (Or.inr (Or.inr ⟨_, List.mem_cons_self, hin⟩))
    · exact fun hin => hx (Or.inr (Or.inr ⟨_, List.mem_cons_of_mem _ List.mem_cons_self, hin⟩))

theorem createProcess (h : KernelInv lo hi base header k created started nodes)
    (hcreate : k.createProcess eip = .ok (p, k')) :
    KernelInv lo hi base header k' (p :: created) started nodes ∧
      k' = { k with heap := k'.heap, nextId := k'.nextId } ∧
      (∃ stack, processAt k'.heap.mem p = ⟨stack + processStackLength - sizeofRegs,
        stack + processStackLength, processStateWaiting, 0⟩) ∧
      ∀ q ∈ created, processAt k'.heap.mem q = processAt k.heap.mem q := by
  obtain ⟨⟨process, nextId, heap⟩, hheap, hrest⟩ := bind_eq_ok.mp hcreate
  obtain ⟨rfl, rfl⟩ := Prod.mk.inj (Except.ok.inj hrest)
  obtain ⟨hledger, hfields, hframe⟩ := processCreate_spec h.ledger hheap
  have hbytes : ∀ q ∈ created, processAt heap.mem q = processAt k.heap.mem q := by
    intro q hq
    apply processAt_congr
    intro y hy
    exact hframe y (h.process_bytes hq hy).1
  rw [← ownedBlocks_congr fun q hq => processStack_congr (hbytes q hq)] at hledger
  obtain ⟨hinv, hvalues⟩ := h.list.transfer (hledger.perm ownedBlocks_create)
    (List.mem_append_left _ mem_ownedBlocks_list)
    (fun a ha => List.mem_append_left _ (mem_ownedBlocks_node ha))
    fun x hx => hframe x (h.list.stable hx)
  exact ⟨⟨h.header_eq, hinv, hvalues.trans h.values, h.nodup,
    fun q hq => List.mem_cons_of_mem _ (h.subset q hq), h.current⟩, rfl, hfields, hbytes⟩

theorem createProcess_ok {size : Nat} (h : KernelInv lo hi base header k created started nodes)
    (hroom : HasRoom k.heap (8248 + size)) (hsize : 0 < size) (heip : eip ≠ 0) :
    ∃ p k', k.createProcess eip = .ok (p, k') ∧ HasRoom k'.heap size := by
  obtain ⟨p, nextId, heap, hcreate, hrest⟩ : ∃ p nextId heap,
      processCreate k.heap k.nextId eip = .ok (p, nextId, heap) ∧ HasRoom heap size :=
    processCreate_ok (h.ledger.roomy hroom) hsize heip
  refine ⟨p, { k with heap, nextId }, ?_, hrest⟩
  rw [Kernel.createProcess, hcreate]
  rfl

/-- With room for a node, a process can be started. -/
theorem schedulerStart_ok {size : Nat} (h : KernelInv lo hi base header k created started nodes)
    (hroom : HasRoom k.heap (28 + size)) (hsize : 0 < size) (hp : p ∈ created) :
    ∃ k', k.schedulerStart p = .ok k' ∧ HasRoom k'.heap size := by
  obtain ⟨heap, new, hinsert, -, hrest⟩ :=
    h.list.insert_roomy (h.ledger.roomy hroom) hsize (h.ne_zero hp)
  refine ⟨{ k with heap }, ?_, hrest.hasRoom⟩
  rw [Kernel.schedulerStart, bne_iff_ne.mpr (h.ne_zero hp), assert_true, hinsert]
  rfl

/-- A new process is not one of the started ones. -/
theorem create_new (h : KernelInv lo hi base header k created started nodes)
    (hcreate : k.createProcess eip = .ok (p, k')) : p ∉ started := by
  intro hp
  have hnodup := (h.createProcess hcreate).1.ledger.nodup
  rw [← (ownedBlocks_create.map Prod.fst).nodup_iff, List.map_cons, List.map_cons,
    List.nodup_cons, List.nodup_cons] at hnodup
  have hblock : (p, sizeofProcess) ∈ ownedBlocks k'.heap.mem k'.list nodes created :=
    mem_ownedBlocks_process (h.subset p hp)
  exact hnodup.2.1 (List.mem_map_of_mem (List.mem_append_left base hblock))

end KernelInv

end

end Hjortron
