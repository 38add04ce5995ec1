import Hjortron.Execution.Process
import Hjortron.Proofs.ListLedger

/-!
# Who owns which heap block

The scheduler owns the list header and a node for each process that has been started; a process
that has been created owns its structure and the stack whose address is computed from its `ebp`.
`KernelInv` says that the live blocks of the heap are exactly these and those of other clients.
The functions of `process.c` and `scheduler.c` keep it.
-/

namespace Hjortron

/-- The fields of a `process_t` that change hands; `id` and `eip` are only read for messages and
for the first frame. -/
structure ProcessFields where
  esp : Word
  ebp : Word
  state : Byte
  sleep : Word
  deriving DecidableEq, Repr

/-- The process structure stored at `p`. -/
def processAt (m : Mem) (p : Word) : ProcessFields :=
  ⟨processEsp m p, processEbp m p, processState m p, processSleep m p⟩

/-- The address that `process_destroy` computes for the stack of a process. -/
def processStack (m : Mem) (p : Word) : Word := processEbp m p - processStackLength

/-- The blocks of a process. -/
def processBlocks (m : Mem) (p : Word) : List (Word × Word) :=
  [(p, sizeofProcess), (processStack m p, processStackLength)]

/-- The blocks of the scheduler and of the processes. -/
def ownedBlocks (m : Mem) (list : Word) (nodes created : List Word) : List (Word × Word) :=
  (list, sizeofList) :: (nodes.map (fun a => (a, sizeofNode)) ++ created.flatMap (processBlocks m))

/-- The byte belongs to the stack of a process, or lies below or above all chunks and is not a
member of NULL. -/
def Quiet (lo hi : Nat) (m : Mem) (created : List Word) (x : Word) : Prop :=
  ¬ InRange 0 12 x ∧
    (x.toNat < lo ∨ hi ≤ x.toNat ∨ ∃ p ∈ created, InRange (processStack m p) 8192 x)

/-- The processes in `created` have been created and not stopped, those in `started` are in the
list, and `base` are the blocks of others. -/
structure KernelInv (lo hi : Nat) (base : List (Word × Word)) (header : Word) (k : Kernel)
    (created started nodes : List Word) : Prop where
  header_eq : k.list = header
  list : ListInv lo hi k.heap (ownedBlocks k.heap.mem k.list nodes created ++ base) k.list nodes
  values : nodeValues k.heap.mem nodes = started
  nodup : started.Nodup
  subset : ∀ p ∈ started, p ∈ created
  current : k.current = 0 ∨ k.current ∈ started ∧ k.esp ≠ 0

section

variable {m m' : Mem} {p q x v list : Word} {c : Byte}

/-! ## Writes to process structures -/

theorem setProcessId_frame (h : ¬ InRange p 24 x) : setProcessId m p v x = m x :=
  Mem.store32_of_not_inRange (by unfold InRange at h ⊢; omega)

theorem setProcessEsp_frame (h : ¬ InRange p 24 x) : setProcessEsp m p v x = m x :=
  Mem.store32_member (by decide) h

theorem setProcessEbp_frame (h : ¬ InRange p 24 x) : setProcessEbp m p v x = m x :=
  Mem.store32_member (by decide) h

theorem setProcessEip_frame (h : ¬ InRange p 24 x) : setProcessEip m p v x = m x :=
  Mem.store32_member (by decide) h

theorem setProcessState_frame (h : ¬ InRange p 24 x) : setProcessState m p c x = m x :=
  Mem.store8_of_ne (by rintro rfl; exact h (by unfold InRange; bv_omega))

theorem setProcessSleep_frame (h : ¬ InRange p 24 x) : setProcessSleep m p v x = m x :=
  Mem.store32_member (by decide) h

/-- The fields are determined by the bytes of the structure. -/
theorem processAt_congr (h : ∀ y, InRange p 24 y → m y = m' y) :
    processAt m p = processAt m' p := by
  have hword : ∀ i : Word, i.toNat + 4 ≤ 24 → m.load32 (p + i) = m'.load32 (p + i) :=
    fun i hi => Mem.load32_member_congr hi h
  have hstate : m (p + 16) = m' (p + 16) := h _ (by unfold InRange; bv_omega)
  simp only [processAt, processEsp, processEbp, processState, processSleep, hstate,
    hword 4 (by simp), hword 8 (by simp), hword 20 (by simp)]

theorem processStack_congr (h : processAt m p = processAt m' p) :
    processStack m p = processStack m' p := by
  have hebp : processEbp m p = processEbp m' p := congrArg ProcessFields.ebp h
  rw [processStack, processStack, hebp]

/-- A word before or behind `state`. -/
theorem processState_store32 {i : Word} (hi : i.toNat + 4 ≤ 16 ∨ 17 ≤ i.toNat) :
    (m.store32 (p + i) v) (p + 16) = m (p + 16) :=
  Mem.store32_of_not_inRange (by unfold InRange; bv_omega)

@[simp] theorem processAt_setProcessEsp :
    processAt (setProcessEsp m p v) p = { processAt m p with esp := v } := by
  simp (disch := decide) only [processAt, processEsp, processEbp, processState, processSleep,
    setProcessEsp, Mem.load32_store32_self, Mem.load32_store32_member, processState_store32]

@[simp] theorem processAt_setProcessEbp :
    processAt (setProcessEbp m p v) p = { processAt m p with ebp := v } := by
  simp (disch := decide) only [processAt, processEsp, processEbp, processState, processSleep,
    setProcessEbp, Mem.load32_store32_self, Mem.load32_store32_member, processState_store32]

@[simp] theorem processAt_setProcessEip : processAt (setProcessEip m p v) p = processAt m p := by
  simp (disch := decide) only [processAt, processEsp, processEbp, processState, processSleep,
    setProcessEip, Mem.load32_store32_member, processState_store32]

@[simp] theorem processAt_setProcessState :
    processAt (setProcessState m p c) p = { processAt m p with state := c } := by
  have hword : ∀ i : Word, i = 4 ∨ i = 8 ∨ i = 20 →
      (m.store8 (p + 16) c).load32 (p + i) = m.load32 (p + i) := by
    intro i hi
    refine Mem.load32_congr fun y hy => Mem.store8_of_ne ?_
    rintro rfl
    unfold InRange at hy
    rcases hi with rfl | rfl | rfl <;> bv_omega
  simp only [processAt, processEsp, processEbp, processState, processSleep, setProcessState,
    Mem.store8_self, hword 4 (by simp), hword 8 (by simp), hword 20 (by simp)]

@[simp] theorem processAt_setProcessSleep :
    processAt (setProcessSleep m p v) p = { processAt m p with sleep := v } := by
  simp (disch := decide) only [processAt, processEsp, processEbp, processState, processSleep,
    setProcessSleep, Mem.load32_store32_self, Mem.load32_store32_member, processState_store32]

/-! ## The first frame -/

theorem storeWords_frame {a : Word} {vs : List Word} {n : Nat} (hn : vs.length * 4 ≤ n)
    (hmax : n ≤ 2 ^ 32) (h : ¬ InRange a n x) : storeWords m a vs x = m x := by
  induction vs generalizing m a n with
  | nil => rfl
  | cons v vs ih =>
    rw [List.length_cons] at hn
    have hrest : ¬ InRange (a + 4) (n - 4) x := by unfold InRange at h ⊢; bv_omega
    have hword : ¬ InRange a 4 x := by unfold InRange at h ⊢; omega
    rw [storeWords, ih (by omega) (by omega) hrest, Mem.store32_of_not_inRange hword]

theorem initRegs_frame (h : ¬ InRange (processEsp m p) 76 x) : initRegs m p x = m x := by
  have hsub : ∀ (i : Word) (n : Nat), i.toNat + n ≤ 76 → ¬ InRange (processEsp m p + i) n x := by
    intro i n hi
    unfold InRange at h ⊢
    bv_omega
  unfold initRegs
  rw [storeWords_frame (n := 16) (by decide) (by decide) (hsub 60 16 (by decide)),
    Mem.store32_of_not_inRange (hsub 56 4 (by decide)),
    storeWords_frame (n := 24) (by decide) (by decide) (hsub 32 24 (by decide)),
    Mem.store32_of_not_inRange (hsub 28 4 (by decide)),
    Mem.store32_of_not_inRange (hsub 24 4 (by decide)),
    storeWords_frame (n := 24) (by decide) (by decide)
      (by simpa using hsub 0 24 (by decide))]

theorem initProcess_frame {stack nextId eip : Word} (h : ¬ InRange p 24 x) :
    initProcess m p stack nextId eip x = m x := by
  unfold initProcess
  rw [setProcessSleep_frame h, setProcessState_frame h, setProcessEip_frame h,
    setProcessEsp_frame h, setProcessEbp_frame h, setProcessId_frame h]

/-- The fields of a new process. -/
theorem processAt_initProcess {stack nextId eip : Word} :
    processAt (initProcess m p stack nextId eip) p =
      ⟨stack + processStackLength - sizeofRegs, stack + processStackLength, processStateWaiting,
        0⟩ := by
  simp [initProcess]

/-! ## Owned blocks -/

theorem Quiet.mono {lo hi : Nat} {created created' : List Word}
    (hsub : ∀ p ∈ created, p ∈ created')
    (hstack : ∀ p ∈ created, processStack m p = processStack m' p)
    (hx : Quiet lo hi m created x) : Quiet lo hi m' created' x := by
  refine ⟨hx.1, hx.2.imp_right (Or.imp_right ?_)⟩
  intro hex
  rcases hex with ⟨p, hp, hin⟩
  exact ⟨p, hsub p hp, hstack p hp ▸ hin⟩

theorem ownedBlocks_congr {nodes created : List Word}
    (h : ∀ p ∈ created, processStack m' p = processStack m p) :
    ownedBlocks m' list nodes created = ownedBlocks m list nodes created := by
  have hblocks : created.flatMap (processBlocks m') = created.flatMap (processBlocks m) := by
    refine List.flatMap_congr fun p hp => ?_
    rw [processBlocks, processBlocks, h p hp]
  rw [ownedBlocks, ownedBlocks, hblocks]

/-- The block of a node among the others. -/
theorem ownedBlocks_node {pre post created : List Word} {base : List (Word × Word)} {a : Word} :
    ownedBlocks m list (pre ++ a :: post) created ++ base =
      ((list, sizeofList) :: pre.map fun a => (a, sizeofNode)) ++ (a, sizeofNode) ::
        (post.map (fun a => (a, sizeofNode)) ++ created.flatMap (processBlocks m) ++ base) := by
  simp [ownedBlocks]

theorem ownedBlocks_nodes {pre post created : List Word} {base : List (Word × Word)} :
    ownedBlocks m list (pre ++ post) created ++ base =
      ((list, sizeofList) :: pre.map fun a => (a, sizeofNode)) ++
        (post.map (fun a => (a, sizeofNode)) ++ created.flatMap (processBlocks m) ++ base) := by
  simp [ownedBlocks]

/-- The blocks with one more node. -/
theorem ownedBlocks_insert {nodes created : List Word} {base : List (Word × Word)} {a : Word} :
    ((a, sizeofNode) :: (ownedBlocks m list nodes created ++ base)).Perm
      (ownedBlocks m list (nodes ++ [a]) created ++ base) := by
  rw [ownedBlocks_node, ← List.append_nil nodes, ownedBlocks_nodes, List.append_nil]
  exact List.perm_middle.symm

/-- The blocks of a process among the others. -/
theorem ownedBlocks_process {nodes pre post : List Word} {base : List (Word × Word)} :
    ownedBlocks m list nodes (pre ++ p :: post) ++ base =
      ownedBlocks m list nodes pre ++ (p, sizeofProcess) ::
        (processStack m p, processStackLength) :: (post.flatMap (processBlocks m) ++ base) := by
  simp [ownedBlocks, processBlocks]

theorem ownedBlocks_processes {nodes pre post : List Word} {base : List (Word × Word)} :
    ownedBlocks m list nodes (pre ++ post) ++ base =
      ownedBlocks m list nodes pre ++ (post.flatMap (processBlocks m) ++ base) := by
  simp [ownedBlocks]

/-- The blocks with one more process. -/
theorem ownedBlocks_create {nodes created : List Word} {base : List (Word × Word)} :
    ((processStack m p, processStackLength) :: (p, sizeofProcess) ::
      (ownedBlocks m list nodes created ++ base)).Perm
      (ownedBlocks m list nodes (p :: created) ++ base) := by
  rw [← List.nil_append created, ← List.nil_append (p :: ([] ++ created)), ownedBlocks_process,
    ownedBlocks_processes]
  refine (List.Perm.swap _ _ _).trans ?_
  exact (List.perm_middle.symm.cons _).trans List.perm_middle.symm

theorem mem_ownedBlocks_list {nodes created : List Word} :
    (list, sizeofList) ∈ ownedBlocks m list nodes created := List.mem_cons_self

theorem mem_ownedBlocks_node {nodes created : List Word} {a : Word} (ha : a ∈ nodes) :
    (a, sizeofNode) ∈ ownedBlocks m list nodes created :=
  List.mem_cons_of_mem _ (List.mem_append_left _ (List.mem_map_of_mem ha))

theorem mem_ownedBlocks_process {nodes created : List Word} (hp : p ∈ created) :
    (p, sizeofProcess) ∈ ownedBlocks m list nodes created := by
  refine List.mem_cons_of_mem _ (List.mem_append_right _ (List.mem_flatMap.mpr ⟨p, hp, ?_⟩))
  exact List.mem_cons_self

theorem mem_ownedBlocks_stack {nodes created : List Word} (hp : p ∈ created) :
    (processStack m p, processStackLength) ∈ ownedBlocks m list nodes created := by
  refine List.mem_cons_of_mem _ (List.mem_append_right _ (List.mem_flatMap.mpr ⟨p, hp, ?_⟩))
  exact List.mem_cons_of_mem _ List.mem_cons_self

end

section

variable {lo hi : Nat} {base : List (Word × Word)} {k k' : Kernel} {m : Mem}
  {created started nodes : List Word} {header p q x v a : Word}

namespace KernelInv

theorem ledger (h : KernelInv lo hi base header k created started nodes) :
    Ledger lo hi k.heap (ownedBlocks k.heap.mem k.list nodes created ++ base) := h.list.ledger

/-- The members of a process lie in a block of their own. -/
theorem process_apart (h : KernelInv lo hi base header k created started nodes) (hp : p ∈ created) :
    Apart p 24 k.list 8 ∧ (∀ a ∈ nodes, Apart p 24 a 12) ∧
      ∀ q ∈ created, p ≠ q → Apart p 24 q 24 := by
  have hmem : ∀ {q}, q ∈ created → (q, sizeofProcess) ∈
      ownedBlocks k.heap.mem k.list nodes created ++ base :=
    fun hq => List.mem_append_left _ (mem_ownedBlocks_process hq)
  refine ⟨h.ledger.apart_of_size (hmem hp) h.list.header (by decide), fun a ha => ?_,
    fun q hq hne => h.ledger.apart (hmem hp) (hmem hq) hne⟩
  exact h.ledger.apart_of_size (hmem hp) (h.list.blocks a ha) (by decide)

/-- Quiet bytes are stable, and not bytes of the list or of a process. -/
theorem quiet (h : KernelInv lo hi base header k created started nodes)
    (hx : Quiet lo hi k.heap.mem created x) :
    Stable lo hi (ownedBlocks k.heap.mem k.list nodes created ++ base) x ∧
      ¬ InRange k.list 8 x ∧ (∀ a ∈ nodes, ¬ InRange a 12 x) ∧
      ∀ p ∈ created, ¬ InRange p 24 x := by
  have hstable : Stable lo hi (ownedBlocks k.heap.mem k.list nodes created ++ base) x := by
    rcases hx.2 with hlo | hhi | ⟨p, hp, hin⟩
    · exact Or.inl hlo
    · exact Or.inr (Or.inl hhi)
    · exact Or.inr (Or.inr ⟨_, List.mem_append_left _ (mem_ownedBlocks_stack hp), hin⟩)
  have hother : ∀ {a n : Word}, (a, n) ∈ ownedBlocks k.heap.mem k.list nodes created →
      n ≠ processStackLength → ¬ InRange a n.toNat x := by
    intro a n ha hn
    have hlive := List.mem_append_left base ha
    rcases hx.2 with hlo | hhi | ⟨p, hp, hin⟩
    · exact h.ledger.not_inRange_outside hlive (Or.inl hlo)
    · exact h.ledger.not_inRange_outside hlive (Or.inr hhi)
    · exact (h.ledger.apart_of_size hlive
        (List.mem_append_left _ (mem_ownedBlocks_stack hp)) hn).not_inRange hin
  exact ⟨hstable, hother mem_ownedBlocks_list (by decide),
    fun a ha => hother (mem_ownedBlocks_node ha) (by decide),
    fun p hp => hother (mem_ownedBlocks_process hp) (by decide)⟩

/-- Writes that leave the allocator, the list and the addresses of the stacks alone. -/
theorem write (h : KernelInv lo hi base header k created started nodes)
    (hm : ∀ x, m x ≠ k.heap.mem x →
      Stable lo hi (ownedBlocks k.heap.mem k.list nodes created ++ base) x ∨ k.heap.Idle x)
    (hlist : ∀ x, InRange k.list 8 x ∨ (∃ a ∈ nodes, InRange a 12 x) → m x = k.heap.mem x)
    (hstack : ∀ p ∈ created, processStack m p = processStack k.heap.mem p) :
    KernelInv lo hi base header (k.setMem m) created started nodes := by
  obtain ⟨h', hvalues⟩ := h.list.transfer (h.ledger.write_idle hm) h.list.header h.list.blocks hlist
  refine ⟨h.header_eq, ?_, hvalues.trans h.values, h.nodup, h.subset, h.current⟩
  rw [← ownedBlocks_congr hstack] at h'
  exact h'

/-- Writes to the members of one process, but not to its `ebp`. -/
theorem write_process (h : KernelInv lo hi base header k created started nodes) (hp : p ∈ created)
    (hm : ∀ x, ¬ InRange p 24 x → m x = k.heap.mem x)
    (hebp : (processAt m p).ebp = (processAt k.heap.mem p).ebp) :
    KernelInv lo hi base header (k.setMem m) created started nodes := by
  obtain ⟨hlist, hnodes, hothers⟩ := h.process_apart hp
  apply h.write
  · intro x hne
    have hin : InRange p 24 x := by
      by_contra hout
      exact hne (hm x hout)
    exact Or.inl (Or.inr (Or.inr
      ⟨_, List.mem_append_left _ (mem_ownedBlocks_process hp), hin⟩))
  · rintro x (hx | ⟨a, ha, hx⟩)
    · exact hm x (hlist.not_inRange hx)
    · exact hm x ((hnodes a ha).not_inRange hx)
  · intro q hq
    by_cases hne : p = q
    · rw [← hne, processStack, processStack]
      exact congrArg (· - processStackLength) hebp
    · apply processStack_congr
      exact processAt_congr fun y hy => hm y ((hothers q hq hne).not_inRange hy)

theorem setProcessState (h : KernelInv lo hi base header k created started nodes) (hp : p ∈ created)
    (c : Byte) :
    KernelInv lo hi base header (k.setMem (setProcessState k.heap.mem p c)) created started nodes :=
  h.write_process hp (fun _ => setProcessState_frame) (by simp)

theorem setProcessEsp (h : KernelInv lo hi base header k created started nodes) (hp : p ∈ created)
    (v : Word) :
    KernelInv lo hi base header (k.setMem (setProcessEsp k.heap.mem p v)) created started nodes :=
  h.write_process hp (fun _ => setProcessEsp_frame) (by simp)

theorem setProcessSleep (h : KernelInv lo hi base header k created started nodes) (hp : p ∈ created)
    (v : Word) :
    KernelInv lo hi base header (k.setMem (setProcessSleep k.heap.mem p v)) created started nodes :=
  h.write_process hp (fun _ => setProcessSleep_frame) (by simp)

end KernelInv

end

end Hjortron
