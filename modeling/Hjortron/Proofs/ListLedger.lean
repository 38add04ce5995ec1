import Hjortron.Proofs.LinkedListSpec

/-!
# The list on the heap

`ListInv` joins a list to the ledger of the heap: the header and the nodes are live blocks. One
lemma for each operation says what becomes of the list, of the live blocks and of the other bytes.
-/

namespace Hjortron

/-- The list at `list` consists of `nodes`, all of them live blocks of a heap above the members of
NULL. -/
structure ListInv (lo hi : Nat) (heap : Heap) (live : List (Word × Word)) (list : Word)
    (nodes : List Word) : Prop where
  ledger : Ledger lo hi heap live
  null : 12 ≤ lo
  header : (list, sizeofList) ∈ live
  blocks : ∀ a ∈ nodes, (a, sizeofNode) ∈ live
  nodup : nodes.Nodup
  links : ListAt heap.mem list nodes

/-- The values of the nodes. -/
def nodeValues (m : Mem) (nodes : List Word) : List Word := nodes.map (nodeValue m)

section

variable {lo hi : Nat} {heap heap' : Heap} {live : List (Word × Word)} {p q n k x : Word}
  {list value new node : Word} {nodes pre post : List Word} {m : Mem}

/-! ## Separation -/

theorem Ledger.separate (h : Ledger lo hi heap live) (hnull : 12 ≤ lo)
    (hheader : (list, sizeofList) ∈ live) (hblocks : ∀ a ∈ nodes, (a, sizeofNode) ∈ live)
    (hnd : nodes.Nodup) : Separate list nodes := by
  refine ⟨List.nodup_cons.mpr ⟨fun h0 => h.ne_zero (hblocks 0 h0) rfl, hnd⟩, ?_, ?_⟩
  · intro a ha b hb hne
    rcases List.mem_cons.mp ha with rfl | ha
    · rcases List.mem_cons.mp hb with rfl | hb
      · exact absurd rfl hne
      · exact h.null_apart hnull (hblocks b hb)
    · rcases List.mem_cons.mp hb with rfl | hb
      · exact (h.null_apart hnull (hblocks a ha)).symm
      · exact h.apart (hblocks a ha) (hblocks b hb) hne
  · intro a ha
    rcases List.mem_cons.mp ha with rfl | ha
    · exact h.null_apart hnull hheader
    · exact h.apart_of_size (hblocks a ha) hheader (by decide)

theorem ListInv.separate (h : ListInv lo hi heap live list nodes) : Separate list nodes :=
  h.ledger.separate h.null h.header h.blocks h.nodup

theorem ListInv.list_ne_zero (h : ListInv lo hi heap live list nodes) : list ≠ 0 :=
  h.ledger.ne_zero h.header

/-- There are fewer pointers than addresses. -/
theorem length_lt_of_nodup (hnd : (0 :: nodes).Nodup) : nodes.length < 2 ^ 32 := by
  have hnd' : ((0 :: nodes).map BitVec.toNat).Nodup := hnd.map fun _ _ => BitVec.eq_of_toNat_eq
  have hsub : (0 :: nodes).map BitVec.toNat ⊆ List.range (2 ^ 32) := by
    intro i hi
    obtain ⟨a, -, rfl⟩ := List.mem_map.mp hi
    exact List.mem_range.mpr a.isLt
  have hle := (hnd'.subperm hsub).length_le
  rw [List.length_map, List.length_cons, List.length_range] at hle
  omega

theorem ListInv.length_lt (h : ListInv lo hi heap live list nodes) : nodes.length < 2 ^ 32 :=
  length_lt_of_nodup h.separate.nodup

/-- The bytes of the header and of the nodes are not the allocator's. -/
theorem ListInv.stable (h : ListInv lo hi heap live list nodes)
    (hx : InRange list 8 x ∨ ∃ a ∈ nodes, InRange a 12 x) : Stable lo hi live x := by
  rcases hx with hx | ⟨a, ha, hx⟩
  · exact Or.inr (Or.inr ⟨_, h.header, hx⟩)
  · exact Or.inr (Or.inr ⟨_, h.blocks a ha, hx⟩)

/-- The list in another state of the heap, with the same bytes. -/
theorem ListInv.transfer {live' : List (Word × Word)} (h : ListInv lo hi heap live list nodes)
    (hledger : Ledger lo hi heap' live') (hheader : (list, sizeofList) ∈ live')
    (hblocks : ∀ a ∈ nodes, (a, sizeofNode) ∈ live')
    (hmem : ∀ x, InRange list 8 x ∨ (∃ a ∈ nodes, InRange a 12 x) → heap'.mem x = heap.mem x) :
    ListInv lo hi heap' live' list nodes ∧
      nodeValues heap'.mem nodes = nodeValues heap.mem nodes := by
  have hnodes : ∀ a ∈ nodes, ∀ y, InRange a 12 y → heap'.mem y = heap.mem y :=
    fun a ha y hy => hmem y (Or.inr ⟨a, ha, hy⟩)
  refine ⟨⟨hledger, h.null, hheader, hblocks, h.nodup, ?_⟩, List.map_congr_left fun a ha => ?_⟩
  · exact h.links.frame (fun y hy => hmem y (Or.inl hy)) hnodes
  · exact congrArg Node.value (nodeAt_congr (hnodes a ha))

theorem ListInv.perm {live' : List (Word × Word)} (h : ListInv lo hi heap live list nodes)
    (hperm : live.Perm live') : ListInv lo hi heap live' list nodes :=
  ⟨h.ledger.perm hperm, h.null, hperm.mem_iff.mp h.header,
    fun a ha => hperm.mem_iff.mp (h.blocks a ha), h.nodup, h.links⟩

/-! ## `list_find` -/

theorem ListInv.find (h : ListInv lo hi heap live list nodes) (hvalue : value ≠ 0) :
    heap.listFind list value = .ok (firstNode heap.mem value nodes) := by
  have hnull := (List.nodup_cons.mp h.separate.nodup).1
  exact h.links.find hnull h.length_lt h.list_ne_zero hvalue

/-- The first node with a value of the list. -/
theorem exists_firstNode (hmem : value ∈ nodeValues m nodes) :
    ∃ pre node post, nodes = pre ++ node :: post ∧ nodeValue m node = value ∧
      value ∉ nodeValues m pre ∧ firstNode m value nodes = node := by
  cases hfind : nodes.find? fun a => nodeValue m a = value with
  | none =>
    obtain ⟨a, ha, hav⟩ := List.mem_map.mp hmem
    exact absurd hav (by simpa using List.find?_eq_none.mp hfind a ha)
  | some node =>
    obtain ⟨hnode, pre, post, rfl, hpre⟩ := List.find?_eq_some_iff_append.mp hfind
    refine ⟨pre, node, post, rfl, by simpa using hnode, fun hin => ?_, ?_⟩
    · obtain ⟨a, ha, hav⟩ := List.mem_map.mp hin
      exact absurd hav (by simpa using hpre a ha)
    · rw [firstNode, hfind]
      rfl

/-- Without the first node with a value, the first occurrence of the value is gone. -/
theorem nodeValues_erase (hnode : nodeValue m node = value) (hpre : value ∉ nodeValues m pre) :
    (nodeValues m (pre ++ node :: post)).erase value = nodeValues m (pre ++ post) := by
  simp only [nodeValues, List.map_append, List.map_cons] at hpre ⊢
  rw [hnode, List.erase_append_right _ hpre, List.erase_cons_head]

/-! ## `list_insert` -/

/-- What a client knows after `list_insert`. -/
structure Inserted (lo hi : Nat) (heap : Heap) (live : List (Word × Word)) (list : Word)
    (nodes : List Word) (value new : Word) (heap' : Heap) : Prop where
  inv : ListInv lo hi heap' ((new, sizeofNode) :: live) list (nodes ++ [new])
  values : nodeValues heap'.mem (nodes ++ [new]) = nodeValues heap.mem nodes ++ [value]
  frame : ∀ x, Stable lo hi live x → ¬ InRange list 8 x → (∀ a ∈ nodes, ¬ InRange a 12 x) →
    heap'.mem x = heap.mem x

/-- The list after `malloc` of a node, with the nodes that it is to have. -/
theorem ListInv.malloc (h : ListInv lo hi heap live list nodes)
    (hm : malloc heap sizeofNode = .ok (new, heap')) :
    ListInv lo hi heap' ((new, sizeofNode) :: live) list nodes ∧
      Separate list (nodes ++ [new]) ∧ nodeValues heap'.mem nodes = nodeValues heap.mem nodes ∧
      ∀ x, Stable lo hi live x → heap'.mem x = heap.mem x := by
  have halloc := h.ledger.malloc hm
  have hheader := List.mem_cons_of_mem (new, sizeofNode) h.header
  have hblocks : ∀ a ∈ nodes, (a, sizeofNode) ∈ (new, sizeofNode) :: live :=
    fun a ha => List.mem_cons_of_mem _ (h.blocks a ha)
  obtain ⟨h', hvalues⟩ :=
    h.transfer halloc.ledger hheader hblocks fun x hx => halloc.frame x (h.stable hx)
  refine ⟨h', halloc.ledger.separate h.null hheader ?_ ?_, hvalues, halloc.frame⟩
  · rw [List.forall_mem_append]
    exact ⟨hblocks, by simp⟩
  · refine List.nodup_append.mpr ⟨h.nodup, List.nodup_singleton _, fun a ha b hb => ?_⟩
    rw [List.mem_singleton.mp hb]
    exact halloc.ledger.fresh _ (h.blocks a ha)

/-- `list_insert` once `malloc` has returned a node. -/
theorem ListInv.append {heap₁ : Heap} (h : ListInv lo hi heap live list nodes)
    (hm : Hjortron.malloc heap sizeofNode = .ok (new, heap₁)) (value : Word) :
    ∃ m, appendNode heap₁.mem list new value = .ok m ∧
      Inserted lo hi heap live list nodes value new { heap₁ with mem := m } ∧
      ∀ x, ¬ Stable lo hi ((new, sizeofNode) :: live) x → m x = heap₁.mem x := by
  obtain ⟨h₁, hsep, hvalues, hframe⟩ := h.malloc hm
  obtain ⟨m, happend, hspec⟩ : ∃ m, appendNode heap₁.mem list new value = .ok m ∧ _ :=
    appendNode_spec h₁.links hsep h₁.length_lt.le
  have hblocks : ∀ a ∈ nodes ++ [new], (a, sizeofNode) ∈ (new, sizeofNode) :: live := by
    rw [List.forall_mem_append]
    exact ⟨h₁.blocks, by simp⟩
  have hwrite : ∀ x, ¬ Stable lo hi ((new, sizeofNode) :: live) x → m x = heap₁.mem x := by
    intro x hx
    refine hspec.frame x (fun hlist => hx (h₁.stable (Or.inl hlist))) fun a ha hin => ?_
    exact hx (Or.inr (Or.inr ⟨_, hblocks a ha, hin⟩))
  refine ⟨m, happend, ⟨⟨h₁.ledger.write hwrite, h.null, h₁.header, hblocks, ?_, hspec.links⟩, ?_,
    fun x hx hlist hnodes => ?_⟩, hwrite⟩
  · exact (List.nodup_cons.mp hsep.nodup).2
  · rw [nodeValues, List.map_append, List.map_singleton, hspec.value, ← hvalues, nodeValues]
    rw [List.map_congr_left hspec.values]
  · rw [← hframe x hx]
    apply hspec.frame x hlist
    rw [List.forall_mem_append, List.forall_mem_singleton]
    exact ⟨hnodes, h₁.ledger.not_inRange hx⟩

theorem ListInv.insert (h : ListInv lo hi heap live list nodes)
    (hinsert : heap.listInsert list value = .ok heap') :
    ∃ new, Inserted lo hi heap live list nodes value new heap' := by
  obtain ⟨_, -, hinsert⟩ := bind_eq_ok.mp hinsert
  obtain ⟨_, -, hinsert⟩ := bind_eq_ok.mp hinsert
  obtain ⟨⟨new, heap₁⟩, hm, hinsert⟩ := bind_eq_ok.mp hinsert
  obtain ⟨_, -, hinsert⟩ := bind_eq_ok.mp hinsert
  obtain ⟨m, happend, hinsert⟩ := bind_eq_ok.mp hinsert
  obtain rfl := Except.ok.inj hinsert
  obtain ⟨m', happend', hinserted, -⟩ := h.append hm value
  obtain rfl : m = m' := Except.ok.inj (happend.symm.trans happend')
  exact ⟨new, hinserted⟩

/-- `list_insert` returns when `malloc` does. -/
theorem ListInv.insert_of_malloc {heap₁ : Heap} (h : ListInv lo hi heap live list nodes)
    (hvalue : value ≠ 0) (hm : Hjortron.malloc heap sizeofNode = .ok (new, heap₁)) {m : Mem}
    (happend : appendNode heap₁.mem list new value = .ok m) :
    heap.listInsert list value = .ok { heap₁ with mem := m } := by
  obtain ⟨h₁, -⟩ := h.malloc hm
  have hnew : new ≠ 0 := h₁.ledger.ne_zero List.mem_cons_self
  unfold Heap.listInsert
  rw [bne_iff_ne.mpr h.list_ne_zero, bne_iff_ne.mpr hvalue, hm]
  simp only [assert_true, bind, Except.bind, bne_iff_ne.mpr hnew, happend]
  rfl

theorem ListInv.insert_ok (h : ListInv lo hi heap live list nodes) (hvalue : value ≠ 0)
    (hm : ∃ r, Hjortron.malloc heap sizeofNode = .ok r) :
    ∃ heap', heap.listInsert list value = .ok heap' := by
  obtain ⟨⟨new, heap₁⟩, hm⟩ := hm
  obtain ⟨m, happend, -⟩ := h.append hm value
  exact ⟨_, h.insert_of_malloc hvalue hm happend⟩

/-- `list_insert` uses up the room for one node and its header. -/
theorem ListInv.insert_roomy {size : Nat} (h : ListInv lo hi heap live list nodes)
    (hroom : Roomy lo hi heap live (28 + size)) (hsize : 0 < size) (hvalue : value ≠ 0) :
    ∃ heap' new, heap.listInsert list value = .ok heap' ∧
      Inserted lo hi heap live list nodes value new heap' ∧
      Roomy lo hi heap' ((new, sizeofNode) :: live) size := by
  have hpos : 0 < sizeofNode.toNat := by decide
  obtain ⟨new, heap₁, hm, hroom₁⟩ := Roomy.malloc_rest hroom hpos hsize
  obtain ⟨m, happend, hinserted, hwrite⟩ := h.append hm value
  exact ⟨_, new, h.insert_of_malloc hvalue hm happend, hinserted, hroom₁.write hwrite⟩

/-! ## `list_delete` -/

/-- What a client knows after `list_delete` of the node between `pre` and `post`. -/
structure Deleted (lo hi : Nat) (heap : Heap) (live : List (Word × Word)) (list : Word)
    (pre : List Word) (node : Word) (post : List Word) (heap' : Heap) : Prop where
  inv : ListInv lo hi heap' (forgetPtr live node) list (pre ++ post)
  values : nodeValues heap'.mem (pre ++ post) = nodeValues heap.mem (pre ++ post)
  frame : ∀ x, Stable lo hi live x → ¬ InRange 0 12 x → ¬ InRange list 8 x →
    (∀ a ∈ pre ++ node :: post, ¬ InRange a 12 x) → heap'.mem x = heap.mem x

/-- `list_delete` once the node has been found. -/
theorem ListInv.unlink (h : ListInv lo hi heap live list (pre ++ node :: post)) :
    ∃ heap', free { heap with mem := unlinkNode heap.mem list node } node = .ok heap' ∧
      Deleted lo hi heap live list pre node post heap' := by
  have hsep := h.separate
  have hnode : (node, sizeofNode) ∈ live := h.blocks node (by simp)
  have hmem : ∀ a ∈ pre ++ post, a ∈ pre ++ node :: post ∧ a ≠ node := by
    intro a ha
    have hnd := h.nodup
    rw [List.nodup_append, List.nodup_cons] at hnd
    rcases List.mem_append.mp ha with ha | ha
    · exact ⟨List.mem_append_left _ ha, hnd.2.2 a ha node List.mem_cons_self⟩
    · refine ⟨List.mem_append_right _ (List.mem_cons_of_mem _ ha), ?_⟩
      rintro rfl
      exact hnd.2.1.1 ha
  have hwrite : Ledger lo hi { heap with mem := unlinkNode heap.mem list node } live := by
    refine h.ledger.write fun x hx => unlinkNode_frame h.links ?_ ?_
    · exact fun hlist => hx (h.stable (Or.inl hlist))
    · intro b hb hin
      rcases List.mem_cons.mp hb with rfl | hb
      · have hnull := h.null
        refine hx (Or.inl ?_)
        unfold InRange at hin
        bv_omega
      · exact hx (h.stable (Or.inr ⟨b, hb, hin⟩))
  obtain ⟨heap', hfree, hledger, hframe, -⟩ := hwrite.free hnode
  have hnodes : ∀ a ∈ pre ++ post, nodeAt heap'.mem a = nodeAt (unlinkNode heap.mem list node) a :=
    fun a ha => nodeAt_congr fun y hy => hframe y (h.stable (Or.inr ⟨a, (hmem a ha).1, hy⟩))
  have hne : list ≠ node := by
    rintro rfl
    exact absurd (h.ledger.size_unique h.header hnode) (by decide)
  refine ⟨heap', hfree, ⟨hledger, h.null, mem_forgetPtr.mpr ⟨h.header, hne⟩, fun a ha => ?_, ?_,
    ?_⟩, ?_, fun x hx hnull hlist hb => ?_⟩
  · exact mem_forgetPtr.mpr ⟨h.blocks a (hmem a ha).1, (hmem a ha).2⟩
  · have hnd := h.nodup
    rw [List.nodup_append, List.nodup_cons] at hnd
    exact List.nodup_append.mpr ⟨hnd.1, hnd.2.1.2,
      fun a ha b hb => hnd.2.2 a ha b (List.mem_cons_of_mem _ hb)⟩
  · apply (h.links.unlinkNode hsep).frame
    · exact fun y hy => hframe y (h.stable (Or.inl hy))
    · exact fun a ha y hy => hframe y (h.stable (Or.inr ⟨a, (hmem a ha).1, hy⟩))
  · refine List.map_congr_left fun a ha => ?_
    refine (congrArg Node.value (hnodes a ha)).trans ?_
    rw [nodeAt_unlinkNode h.links hsep (List.mem_cons_of_mem _ (hmem a ha).1), Node.unlink_value]
    rfl
  · rw [hframe x hx]
    refine unlinkNode_frame h.links hlist fun b hb' => ?_
    rcases List.mem_cons.mp hb' with rfl | hb'
    · exact hnull
    · exact hb b hb'

/-- `list_delete` of a value in the list returns, and removes its first node. -/
theorem ListInv.delete (h : ListInv lo hi heap live list nodes) (hvalue : value ≠ 0)
    (hmem : value ∈ nodeValues heap.mem nodes) :
    ∃ pre node post heap', nodes = pre ++ node :: post ∧ nodeValue heap.mem node = value ∧
      value ∉ nodeValues heap.mem pre ∧ heap.listDelete list value = .ok heap' ∧
      Deleted lo hi heap live list pre node post heap' := by
  obtain ⟨pre, node, post, rfl, hnode, hpre, hfirst⟩ := exists_firstNode hmem
  obtain ⟨heap', hfree, hdeleted⟩ := h.unlink
  have hne : node ≠ 0 := h.ledger.ne_zero (h.blocks node (by simp))
  refine ⟨pre, node, post, heap', rfl, hnode, hpre, ?_, hdeleted⟩
  unfold Heap.listDelete
  rw [bne_iff_ne.mpr h.list_ne_zero, bne_iff_ne.mpr hvalue, h.find hvalue, hfirst]
  simp only [assert_true, bind, Except.bind, bne_iff_ne.mpr hne]
  exact hfree

end

end Hjortron
