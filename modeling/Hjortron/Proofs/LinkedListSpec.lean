import Hjortron.LinkedList
import Hjortron.Misc.DoublyLinked
import Hjortron.Misc.Run
import Hjortron.Memory.Proofs.Ledger

/-!
# The list as a sequence

The nodes in memory are a store of doubly linked nodes, in which NULL is one more node: the
twelve bytes from address 0 on, which no block of the heap covers. The writes of `list_insert` and
`list_delete` are those of `linkLast` and `unlink` on this store. With the ledger of the heap, the
operations refine appending to a sequence and erasing the first occurrence from it.
-/

namespace Hjortron

/-- The node stored at `a`. -/
def nodeAt (m : Mem) (a : Word) : Node Word Word :=
  ⟨nodePrevious m a, nodeNext m a, nodeValue m a⟩

/-- The list at `list` consists of `nodes`. -/
structure ListAt (m : Mem) (list : Word) (nodes : List Word) : Prop where
  head : listHead m list = nodes.headD 0
  length : listLength m list = BitVec.ofNat 32 nodes.length
  chain : Node.Chain (nodeAt m) 0 nodes 0

/-- The list, its nodes and the members of NULL do not overlap. -/
structure Separate (list : Word) (nodes : List Word) : Prop where
  nodup : (0 :: nodes).Nodup
  apart : ∀ a ∈ 0 :: nodes, ∀ b ∈ 0 :: nodes, a ≠ b → Apart a 12 b 12
  header : ∀ a ∈ 0 :: nodes, Apart a 12 list 8

section

variable {m m' : Mem} {a b x v list new value : Word} {nodes pre post : List Word}

/-! ## Writes to nodes -/

theorem setNodePrevious_frame (h : ¬ InRange a 12 x) : setNodePrevious m a v x = m x :=
  Mem.store32_of_not_inRange (by unfold InRange at h ⊢; omega)

theorem setNodeNext_frame (h : ¬ InRange a 12 x) : setNodeNext m a v x = m x :=
  Mem.store32_member (by decide) h

theorem setNodeValue_frame (h : ¬ InRange a 12 x) : setNodeValue m a v x = m x :=
  Mem.store32_member (by decide) h

theorem setListHead_frame (h : ¬ InRange list 8 x) : setListHead m list v x = m x :=
  Mem.store32_of_not_inRange (by unfold InRange at h ⊢; omega)

theorem setListLength_frame (h : ¬ InRange list 8 x) : setListLength m list v x = m x :=
  Mem.store32_member (by decide) h

/-- A node is determined by its twelve bytes. -/
theorem nodeAt_congr (h : ∀ y, InRange a 12 y → m y = m' y) : nodeAt m a = nodeAt m' a := by
  have hword : ∀ i : Word, i.toNat + 4 ≤ 12 → m.load32 (a + i) = m'.load32 (a + i) :=
    fun i hi => Mem.load32_member_congr hi h
  have h0 : m.load32 a = m'.load32 a := by simpa using hword 0 (by simp)
  simp only [nodeAt, nodePrevious, nodeNext, nodeValue, h0, hword 4 (by simp), hword 8 (by simp)]

theorem nodeAt_apart (h : Apart a 12 b 12) (hframe : ∀ y, ¬ InRange a 12 y → m' y = m y) :
    nodeAt m' b = nodeAt m b :=
  nodeAt_congr fun y hy => hframe y (h.not_inRange hy)

theorem nodeAt_setNodePrevious (h : b ≠ a → Apart a 12 b 12) :
    nodeAt (setNodePrevious m a v) b = Node.setPrevious (nodeAt m) a v b := by
  by_cases hb : b = a
  · have h4 : Apart a 4 (a + 4) 4 := by unfold Apart; bv_omega
    have h8 : Apart a 4 (a + 8) 4 := by unfold Apart; bv_omega
    rw [hb, Node.setPrevious, Function.update_self]
    simp only [nodeAt, nodePrevious, nodeNext, nodeValue, setNodePrevious, Mem.load32_store32_self,
      Mem.load32_store32_apart h4, Mem.load32_store32_apart h8]
  · rw [Node.setPrevious, Function.update_of_ne hb]
    exact nodeAt_apart (h hb) fun _ => setNodePrevious_frame

theorem nodeAt_setNodeNext (h : b ≠ a → Apart a 12 b 12) :
    nodeAt (setNodeNext m a v) b = Node.setNext (nodeAt m) a v b := by
  by_cases hb : b = a
  · have h0 : Apart (a + 4) 4 a 4 := by unfold Apart; bv_omega
    rw [hb, Node.setNext, Function.update_self]
    simp (disch := decide) only [nodeAt, nodePrevious, nodeNext, nodeValue, setNodeNext,
      Mem.load32_store32_self, Mem.load32_store32_apart h0, Mem.load32_store32_member]
  · rw [Node.setNext, Function.update_of_ne hb]
    exact nodeAt_apart (h hb) fun _ => setNodeNext_frame

/-- The header of a list is determined by its eight bytes. -/
theorem listHeader_congr (h : ∀ y, InRange list 8 y → m y = m' y) :
    listHead m list = listHead m' list ∧ listLength m list = listLength m' list := by
  refine ⟨?_, Mem.load32_member_congr (by decide) h⟩
  apply Mem.load32_congr
  intro y hy
  apply h
  unfold InRange at hy ⊢
  omega

/-- A list depends on the bytes of its header and of its nodes only. -/
theorem ListAt.frame (h : ListAt m list nodes) (hheader : ∀ y, InRange list 8 y → m' y = m y)
    (hnodes : ∀ a ∈ nodes, ∀ y, InRange a 12 y → m' y = m y) : ListAt m' list nodes := by
  obtain ⟨hhead, hlength⟩ := listHeader_congr hheader
  refine ⟨hhead.trans h.head, hlength.trans h.length, h.chain.congr fun a ha => ?_⟩
  rw [nodeAt_congr (hnodes a ha)]
  exact ⟨rfl, rfl⟩

/-! ## Writes to the header -/

theorem nodeAt_setListHead (h : Apart a 12 list 8) :
    nodeAt (setListHead m list v) a = nodeAt m a :=
  nodeAt_congr fun _ hy => setListHead_frame (h.symm.not_inRange hy)

theorem nodeAt_setListLength (h : Apart a 12 list 8) :
    nodeAt (setListLength m list v) a = nodeAt m a :=
  nodeAt_congr fun _ hy => setListLength_frame (h.symm.not_inRange hy)

theorem listHead_setListHead : listHead (setListHead m list v) list = v :=
  Mem.load32_store32_self

theorem listHead_setListLength : listHead (setListLength m list v) list = listHead m list :=
  Mem.load32_store32_apart (by unfold Apart; bv_omega)

theorem listLength_setListHead : listLength (setListHead m list v) list = listLength m list :=
  Mem.load32_store32_apart (by unfold Apart; bv_omega)

theorem listLength_setListLength : listLength (setListLength m list v) list = v :=
  Mem.load32_store32_self

/-! ## `list_delete` -/

theorem Separate.of_ne (h : Separate list nodes) (ha : a ∈ 0 :: nodes) (hb : b ∈ 0 :: nodes) :
    b ≠ a → Apart a 12 b 12 :=
  fun hne => h.apart a ha b hb hne.symm

/-- The neighbours of a node are nodes of the list or NULL. -/
theorem ListAt.neighbours (h : ListAt m list (pre ++ a :: post)) :
    nodePrevious m a ∈ 0 :: (pre ++ a :: post) ∧ nodeNext m a ∈ 0 :: (pre ++ a :: post) := by
  obtain ⟨hprevious, hnext⟩ : nodePrevious m a = pre.getLastD 0 ∧ nodeNext m a = post.headD 0 :=
    h.chain.at
  have hlast : pre.getLastD 0 ∈ 0 :: pre := List.getLastD_mem_cons
  have hhead : post.headD 0 ∈ 0 :: post := by cases post <;> simp
  rw [hprevious, hnext]
  constructor
  · rcases List.mem_cons.mp hlast with h | h
    · rw [h]
      exact List.mem_cons_self
    · exact List.mem_cons_of_mem _ (List.mem_append_left _ h)
  · rcases List.mem_cons.mp hhead with h | h
    · rw [h]
      exact List.mem_cons_self
    · exact List.mem_cons_of_mem _ (List.mem_append_right _ (List.mem_cons_of_mem _ h))

/-- The node after one of the list, with the first behind the last, is one of the list. -/
theorem ListAt.next_mem (h : ListAt m list nodes) (ha : a ∈ nodes) :
    (if nodeNext m a = 0 then listHead m list else nodeNext m a) ∈ nodes := by
  by_cases hnext : nodeNext m a = 0
  · rw [if_pos hnext, h.head]
    cases nodes with
    | nil => cases ha
    | cons b nodes => exact List.mem_cons_self
  · rw [if_neg hnext]
    obtain ⟨pre, post, rfl⟩ := List.append_of_mem ha
    exact (List.mem_cons.mp h.neighbours.2).resolve_left hnext

/-- On the nodes of the list and NULL, the writes of `list_delete` unlink the node. -/
theorem nodeAt_unlinkNode (h : ListAt m list (pre ++ a :: post))
    (hsep : Separate list (pre ++ a :: post)) (hb : b ∈ 0 :: (pre ++ a :: post)) :
    nodeAt (unlinkNode m list a) b = Node.unlink (nodeAt m) a b := by
  obtain ⟨hprevious, hnext⟩ := h.neighbours
  have hheader := hsep.header b hb
  have hlinks : nodeAt (setNodePrevious (setNodeNext m (nodePrevious m a) (nodeNext m a))
      (nodeNext m a) (nodePrevious m a)) b = Node.unlink (nodeAt m) a b := by
    rw [nodeAt_setNodePrevious (hsep.of_ne hnext hb), Node.unlink]
    exact Node.setPrevious_congr (nodeAt_setNodeNext (hsep.of_ne hprevious hnext))
      (nodeAt_setNodeNext (hsep.of_ne hprevious hb))
  unfold unlinkNode
  rw [nodeAt_setListLength hheader]
  split
  · rw [nodeAt_setListHead hheader, hlinks]
  · exact hlinks

/-- The bytes that `list_delete` may write before it frees the node. -/
theorem unlinkNode_frame (h : ListAt m list (pre ++ a :: post)) (hlist : ¬ InRange list 8 x)
    (hx : ∀ b ∈ 0 :: (pre ++ a :: post), ¬ InRange b 12 x) : unlinkNode m list a x = m x := by
  obtain ⟨hprevious, hnext⟩ := h.neighbours
  unfold unlinkNode
  rw [setListLength_frame hlist]
  split
  · rw [setListHead_frame hlist, setNodePrevious_frame (hx _ hnext),
      setNodeNext_frame (hx _ hprevious)]
  · rw [setNodePrevious_frame (hx _ hnext), setNodeNext_frame (hx _ hprevious)]

theorem listHeader_links (hsep : Separate list nodes) (ha : a ∈ 0 :: nodes) (hb : b ∈ 0 :: nodes)
    {v w : Word} :
    listHead (setNodePrevious (setNodeNext m a v) b w) list = listHead m list ∧
      listLength (setNodePrevious (setNodeNext m a v) b w) list = listLength m list := by
  apply listHeader_congr
  intro y hy
  rw [setNodePrevious_frame ((hsep.header b hb).not_inRange hy),
    setNodeNext_frame ((hsep.header a ha).not_inRange hy)]

/-- The list without the node. -/
theorem ListAt.unlinkNode (h : ListAt m list (pre ++ a :: post))
    (hsep : Separate list (pre ++ a :: post)) :
    ListAt (unlinkNode m list a) list (pre ++ post) := by
  obtain ⟨hprevious, hnext⟩ := h.neighbours
  obtain ⟨hhead, hlength⟩ := listHeader_links (m := m) hsep hprevious hnext
    (v := nodeNext m a) (w := nodePrevious m a)
  have hafter : nodeNext m a = post.headD 0 := h.chain.at.2
  constructor
  · unfold Hjortron.unlinkNode
    rw [listHead_setListLength, hhead, h.head]
    cases pre with
    | nil => rw [List.nil_append, List.headD_cons, if_pos rfl, listHead_setListHead, hafter]; rfl
    | cons c pre =>
      have hne : c ≠ a := by
        rintro rfl
        simpa using hsep.nodup
      rw [List.cons_append, List.headD_cons, if_neg hne, hhead, h.head]
      rfl
  · unfold Hjortron.unlinkNode
    rw [listLength_setListLength]
    split
    · rw [listLength_setListHead, hlength, h.length]
      simp only [List.length_append, List.length_cons]
      bv_omega
    · rw [hlength, h.length]
      simp only [List.length_append, List.length_cons]
      bv_omega
  · apply (h.chain.unlink hsep.nodup).congr
    intro b hb
    have hmem : b ∈ 0 :: (pre ++ a :: post) := by
      rcases List.mem_append.mp hb with hb | hb
      · exact List.mem_cons_of_mem _ (List.mem_append_left _ hb)
      · exact List.mem_cons_of_mem _ (List.mem_append_right _ (List.mem_cons_of_mem _ hb))
    rw [nodeAt_unlinkNode h hsep hmem]
    exact ⟨rfl, rfl⟩

/-! ## `list_find` and `list_insert` -/

/-- The first node with the value, or NULL. -/
def firstNode (m : Mem) (value : Word) (nodes : List Word) : Word :=
  (nodes.find? fun a => nodeValue m a = value).getD 0

theorem findNode_chain {p : Word} {fuel : Nat} (hc : Node.Chain (nodeAt m) p nodes 0)
    (hnull : 0 ∉ nodes) (hfuel : nodes.length < fuel) :
    findNode m value fuel (nodes.headD 0) = .ok (firstNode m value nodes) := by
  induction nodes generalizing p fuel with
  | nil =>
    obtain ⟨fuel, rfl⟩ := Nat.exists_eq_succ_of_ne_zero (by omega : fuel ≠ 0)
    rw [findNode, List.headD_nil, if_pos rfl]
    rfl
  | cons a nodes ih =>
    obtain ⟨fuel, rfl⟩ := Nat.exists_eq_succ_of_ne_zero (by omega : fuel ≠ 0)
    obtain ⟨-, hnext, hrest⟩ := hc
    rw [List.mem_cons, not_or] at hnull
    rw [findNode, List.headD_cons, if_neg (Ne.symm hnull.1)]
    by_cases hvalue : nodeValue m a = value
    · rw [if_pos hvalue, firstNode, List.find?_cons_of_pos (by simpa using hvalue)]
      rfl
    · have hstep : nodeNext m a = nodes.headD 0 := hnext
      rw [if_neg hvalue, hstep, ih hrest hnull.2 (by simpa using hfuel), firstNode, firstNode,
        List.find?_cons_of_neg (by simpa using hvalue)]

theorem ListAt.find {heap : Heap} (h : ListAt heap.mem list nodes) (hnull : 0 ∉ nodes)
    (hlength : nodes.length < 2 ^ 32) (hlist : list ≠ 0) (hvalue : value ≠ 0) :
    heap.listFind list value = .ok (firstNode heap.mem value nodes) := by
  unfold Heap.listFind
  rw [bne_iff_ne.mpr hlist, bne_iff_ne.mpr hvalue, h.head]
  exact findNode_chain h.chain hnull hlength

theorem lastNode_chain {p : Word} {fuel : Nat} (hc : Node.Chain (nodeAt m) p (a :: nodes) 0)
    (hnull : 0 ∉ nodes) (hfuel : nodes.length < fuel) :
    lastNode m fuel a = .ok (nodes.getLastD a) := by
  induction nodes generalizing p a fuel with
  | nil =>
    obtain ⟨fuel, rfl⟩ := Nat.exists_eq_succ_of_ne_zero (by omega : fuel ≠ 0)
    have hend : nodeNext m a = 0 := hc.2.1
    rw [lastNode, if_neg (not_not.mpr hend)]
    rfl
  | cons b nodes ih =>
    obtain ⟨fuel, rfl⟩ := Nat.exists_eq_succ_of_ne_zero (by omega : fuel ≠ 0)
    obtain ⟨-, hnext, hrest⟩ := hc
    have hstep : nodeNext m a = b := hnext
    rw [List.mem_cons, not_or] at hnull
    rw [lastNode, hstep, if_pos (Ne.symm hnull.1), ih hrest hnull.2 (by simpa using hfuel),
      List.getLastD_cons]

/-- What `list_insert` does to the memory with the new node at `new`. -/
structure Appended (m : Mem) (list : Word) (nodes : List Word) (new value : Word) (m' : Mem) :
    Prop where
  links : ListAt m' list (nodes ++ [new])
  value : nodeValue m' new = value
  values : ∀ b ∈ nodes, nodeValue m' b = nodeValue m b
  frame : ∀ x, ¬ InRange list 8 x → (∀ b ∈ nodes ++ [new], ¬ InRange b 12 x) → m' x = m x

theorem initNode_frame (h : ¬ InRange new 12 x) : initNode m new value x = m x := by
  rw [initNode, setNodeValue_frame h, setNodeNext_frame h, setNodePrevious_frame h]

theorem nodeAt_initNode : nodeAt (initNode m new value) new = ⟨0, 0, value⟩ := by
  have h0 : Apart (new + 8) 4 new 4 := by unfold Apart; bv_omega
  have h4 : Apart (new + 8) 4 (new + 4) 4 := by unfold Apart; bv_omega
  have h04 : Apart (new + 4) 4 new 4 := by unfold Apart; bv_omega
  simp only [initNode, nodeAt, nodePrevious, nodeNext, nodeValue, setNodePrevious, setNodeNext,
    setNodeValue, Mem.load32_store32_self, Mem.load32_store32_apart h0,
    Mem.load32_store32_apart h4, Mem.load32_store32_apart h04]

theorem Separate.new_apart (hsep : Separate list (nodes ++ [new])) (hb : b ∈ 0 :: nodes) :
    Apart new 12 b 12 := by
  have hmem : b ∈ 0 :: (nodes ++ [new]) := List.mem_append_left _ hb
  have hnd := hsep.nodup
  rw [← List.cons_append, List.nodup_append] at hnd
  exact hsep.of_ne (by simp) hmem (hnd.2.2 b hb new (List.mem_singleton_self _))

/-- Setting the fields of the new node leaves the list alone. -/
theorem ListAt.initNode (h : ListAt m list nodes) (hsep : Separate list (nodes ++ [new])) :
    ListAt (initNode m new value) list nodes := by
  apply h.frame
  · intro y hy
    exact initNode_frame ((hsep.header new (by simp)).not_inRange hy)
  · intro a ha y hy
    exact initNode_frame ((hsep.new_apart (List.mem_cons_of_mem _ ha)).not_inRange hy)

/-- The branch of `list_insert` for the empty list. -/
theorem appendNode_nil (h : ListAt m list []) (hsep : Separate list [new]) :
    ∃ m', appendNode m list new value = .ok m' ∧ Appended m list [] new value m' := by
  have h₁ : ListAt (initNode m new value) list [] := h.initNode hsep
  have hkeep : nodeAt (setListLength (setListHead (initNode m new value) list new) list
      (listLength (setListHead (initNode m new value) list new) list + 1)) new = ⟨0, 0, value⟩ := by
    rw [nodeAt_setListLength (hsep.header new (by simp)),
      nodeAt_setListHead (hsep.header new (by simp)), nodeAt_initNode]
  unfold appendNode
  simp only
  rw [if_pos (by rw [h₁.head]; rfl)]
  refine ⟨_, rfl, ⟨?_, ?_, ?_, ?_, trivial⟩, ?_, by simp, fun x hx hb => ?_⟩
  · rw [listHead_setListLength, listHead_setListHead]
    rfl
  · rw [listLength_setListLength, listLength_setListHead, h₁.length]
    rfl
  · rw [hkeep]
  · rw [hkeep]
    rfl
  · exact congrArg Node.value hkeep
  · rw [setListLength_frame hx, setListHead_frame hx, initNode_frame (hb new (by simp))]

/-- The branch of `list_insert` that walks to the last node. -/
theorem appendNode_cons (h : ListAt m list (a :: nodes))
    (hsep : Separate list (a :: nodes ++ [new])) (hlen : nodes.length < 2 ^ 32) :
    ∃ m', appendNode m list new value = .ok m' ∧ Appended m list (a :: nodes) new value m' := by
  have h₁ : ListAt (initNode m new value) list (a :: nodes) := h.initNode hsep
  have hnull : 0 ∉ a :: nodes := by
    have hnd := hsep.nodup
    rw [← List.cons_append, List.nodup_append] at hnd
    exact (List.nodup_cons.mp hnd.1).1
  obtain ⟨hhead, hnullNodes⟩ := not_or.mp (mt List.mem_cons.mpr hnull)
  have hlast := lastNode_chain h₁.chain hnullNodes hlen
  have hmem : new ∈ 0 :: (a :: nodes ++ [new]) := by simp
  have hlastMem : nodes.getLastD a ∈ 0 :: (a :: nodes ++ [new]) :=
    List.mem_cons_of_mem _ (List.mem_append_left _ List.getLastD_mem_cons)
  obtain ⟨hheader, hlength⟩ := listHeader_links (m := initNode m new value) hsep hlastMem hmem
    (v := new) (w := nodes.getLastD a)
  have hlinked : ∀ b ∈ 0 :: (a :: nodes ++ [new]), ∀ v,
      nodeAt (setListLength (setNodePrevious (setNodeNext (initNode m new value)
        (nodes.getLastD a) new) new (nodes.getLastD a)) list v) b =
      Node.linkLast (nodeAt (initNode m new value)) (nodes.getLastD a) new b := by
    intro b hb v
    rw [nodeAt_setListLength (hsep.header b hb), nodeAt_setNodePrevious (hsep.of_ne hmem hb),
      Node.linkLast]
    exact Node.setPrevious_congr (nodeAt_setNodeNext (hsep.of_ne hlastMem hmem))
      (nodeAt_setNodeNext (hsep.of_ne hlastMem hb))
  unfold appendNode
  simp only
  rw [h₁.head, List.headD_cons, if_neg (Ne.symm hhead), hlast]
  refine ⟨_, rfl, ⟨?_, ?_, ?_⟩, ?_, fun b hb => ?_, fun x hx hb => ?_⟩
  · rw [listHead_setListLength, hheader, h₁.head]
    rfl
  · rw [listLength_setListLength, hlength, h₁.length]
    simp only [List.length_append, List.length_cons, List.length_nil]
    bv_omega
  · have hchain := h₁.chain.linkLast hsep.nodup (congrArg Node.next nodeAt_initNode)
    rw [List.getLastD_cons] at hchain
    apply hchain.congr
    intro b hb
    rw [hlinked b (List.mem_cons_of_mem _ hb)]
    exact ⟨rfl, rfl⟩
  · refine (congrArg Node.value (hlinked new hmem _)).trans ?_
    rw [Node.linkLast_value, nodeAt_initNode]
  · have hmemb : b ∈ 0 :: (a :: nodes ++ [new]) :=
      List.mem_cons_of_mem _ (List.mem_append_left _ hb)
    refine (congrArg Node.value (hlinked b hmemb _)).trans ?_
    rw [Node.linkLast_value, nodeAt_apart (hsep.new_apart (List.mem_cons_of_mem _ hb))
      fun _ => initNode_frame]
    rfl
  · have hlastIn : nodes.getLastD a ∈ a :: nodes ++ [new] :=
      List.mem_append_left _ List.getLastD_mem_cons
    rw [setListLength_frame hx, setNodePrevious_frame (hb new (by simp)),
      setNodeNext_frame (hb _ hlastIn), initNode_frame (hb new (by simp))]

theorem appendNode_spec (h : ListAt m list nodes) (hsep : Separate list (nodes ++ [new]))
    (hlen : nodes.length ≤ 2 ^ 32) :
    ∃ m', appendNode m list new value = .ok m' ∧ Appended m list nodes new value m' := by
  cases nodes with
  | nil => exact appendNode_nil h hsep
  | cons a nodes => exact appendNode_cons h hsep hlen

end

end Hjortron
