import Hjortron.Proofs.ListLedger

/-!
# The list over whole sequences of calls

Next to the heap runs the sequence that the list stands for: `list_insert` appends a value to it
and `list_delete` erases the first occurrence of one. After every sequence of calls the list
represents this sequence.
-/

namespace Hjortron

/-- A call of one of the operations, with its value. -/
inductive ListCall
  | insert (value : Word)
  | find (value : Word)
  | delete (value : Word)
  deriving DecidableEq, Repr

/-- The heap and the reference sequence. -/
structure ListState where
  heap : Heap
  values : List Word

/-- A call that returns; `list_delete` is called for values of the list only. -/
inductive ListStep (list : Word) (s : ListState) : ListCall → ListState → Prop
  | insert {value : Word} {heap : Heap} : s.heap.listInsert list value = .ok heap →
    ListStep list s (.insert value) ⟨heap, s.values ++ [value]⟩
  | find {value node : Word} : s.heap.listFind list value = .ok node →
    ListStep list s (.find value) s
  | delete {value : Word} {heap : Heap} : value ∈ s.values →
    s.heap.listDelete list value = .ok heap →
    ListStep list s (.delete value) ⟨heap, s.values.erase value⟩

/-- The list represents `values`: following `next` from the head visits `nodes`, which hold the
values, and ends at NULL; `previous` is the inverse of `next`; `length` counts the nodes; and
`list_find` gives the node of the first occurrence, or NULL. -/
structure RepresentsList (heap : Heap) (list : Word) (nodes values : List Word) : Prop where
  head : listHead heap.mem list = nodes.headD 0
  next : ∀ pre a post, nodes = pre ++ a :: post → nodeNext heap.mem a = post.headD 0
  distinct : (0 :: nodes).Nodup
  contents : nodes.map (nodeValue heap.mem) = values
  previous : ∀ a, nodes.head? = some a → nodePrevious heap.mem a = 0
  inverse : ∀ a ∈ nodes, ∀ b ∈ nodes, nodeNext heap.mem a = b ↔ nodePrevious heap.mem b = a
  length : (listLength heap.mem list).toNat = nodes.length
  find : ∀ value, value ≠ 0 →
    heap.listFind list value = .ok (nodes.getD (values.idxOf value) 0)

/-- The invariant of a run. -/
def ListState.Inv (lo hi : Nat) (list : Word) (s : ListState) : Prop :=
  ∃ live nodes, ListInv lo hi s.heap live list nodes ∧ nodeValues s.heap.mem nodes = s.values ∧
    0 ∉ s.values

section

variable {lo hi : Nat} {heap : Heap} {live : List (Word × Word)} {list value : Word}
  {nodes : List Word} {m : Mem} {s t : ListState} {c : ListCall}

/-! ## One call -/

theorem listInsert_value_ne_zero {heap' : Heap} (h : heap.listInsert list value = .ok heap') :
    value ≠ 0 := by
  obtain ⟨_, -, h⟩ := bind_eq_ok.mp h
  obtain ⟨_, hvalue, -⟩ := bind_eq_ok.mp h
  rwa [assert_eq_ok, bne_iff_ne] at hvalue

theorem ListStep.inv (hs : s.Inv lo hi list) (h : ListStep list s c t) : t.Inv lo hi list := by
  obtain ⟨live, nodes, hinv, hvalues, hnull⟩ := hs
  cases h with
  | @insert value heap hinsert =>
    obtain ⟨new, hinserted⟩ := hinv.insert hinsert
    refine ⟨_, _, hinserted.inv, by rw [hinserted.values, hvalues], ?_⟩
    rw [List.mem_append, List.mem_singleton, not_or]
    exact ⟨hnull, (listInsert_value_ne_zero hinsert).symm⟩
  | find => exact ⟨live, nodes, hinv, hvalues, hnull⟩
  | @delete value heap hmem hdelete =>
    have hne : value ≠ 0 := fun h0 => hnull (h0 ▸ hmem)
    obtain ⟨pre, node, post, heap', rfl, hnode, hpre, hdelete', hdeleted⟩ :=
      hinv.delete hne (hvalues ▸ hmem)
    obtain rfl : heap = heap' := Except.ok.inj (hdelete.symm.trans hdelete')
    refine ⟨_, _, hdeleted.inv, ?_, fun h0 => hnull (List.mem_of_mem_erase h0)⟩
    rw [hdeleted.values, ← hvalues, nodeValues_erase hnode hpre]

theorem firstNode_eq_getD :
    firstNode m value nodes = nodes.getD ((nodeValues m nodes).idxOf value) 0 := by
  induction nodes with
  | nil => rfl
  | cons a nodes ih =>
    rw [firstNode, nodeValues, List.map_cons]
    by_cases h : nodeValue m a = value
    · rw [List.find?_cons_of_pos (by simpa using h), h, List.idxOf_cons_self]
      rfl
    · rw [List.find?_cons_of_neg (by simpa using h), List.idxOf_cons_ne _ h, List.getD_cons_succ]
      exact ih

theorem ListInv.represents (h : ListInv lo hi heap live list nodes) :
    RepresentsList heap list nodes (nodeValues heap.mem nodes) := by
  have hnull := (List.nodup_cons.mp h.separate.nodup).1
  refine ⟨h.links.head, ?_, h.separate.nodup, rfl, ?_, ?_, ?_, ?_⟩
  · rintro pre a post rfl
    exact h.links.chain.at.2
  · intro a ha
    obtain ⟨rest, rfl⟩ := List.head?_eq_some_iff.mp ha
    exact h.links.chain.1
  · intro a ha b hb
    exact h.links.chain.next_eq_iff hnull ha hb
  · rw [h.links.length, BitVec.toNat_ofNat, Nat.mod_eq_of_lt h.length_lt]
  · intro value hvalue
    rw [h.find hvalue, firstNode_eq_getD]

end

/-- From an empty list on, every sequence of calls keeps the list a faithful sequence; the calls
return, `list_insert` as far as `malloc` does. -/
theorem list_represents_sequence {lo hi : Nat} {heap : Heap} {live : List (Word × Word)}
    {list : Word} (hledger : Ledger lo hi heap live) (hnull : 12 ≤ lo)
    (hlist : (list, sizeofList) ∈ live) (hhead : listHead heap.mem list = 0)
    (hlength : listLength heap.mem list = 0) :
    ∀ calls t, Run (ListStep list) ⟨heap, []⟩ calls t →
      (∃ nodes, RepresentsList t.heap list nodes t.values) ∧
      (∀ value ∈ t.values, ∃ heap', t.heap.listDelete list value = .ok heap') ∧
      ∀ value ≠ 0, (∃ r, malloc t.heap sizeofNode = .ok r) →
        ∃ heap', t.heap.listInsert list value = .ok heap' := by
  intro calls t hrun
  have hstart : ListState.Inv lo hi list ⟨heap, []⟩ :=
    ⟨live, [], ⟨hledger, hnull, hlist, by simp, List.nodup_nil, hhead, hlength, trivial⟩, rfl,
      by simp⟩
  obtain ⟨live', nodes, hinv, hvalues, hnz⟩ :=
    hrun.invariant (fun _ _ _ hs h => h.inv hs) hstart
  refine ⟨⟨nodes, hvalues ▸ hinv.represents⟩, fun value hmem => ?_, fun value hne hm => ?_⟩
  · have hne : value ≠ 0 := fun h0 => hnz (h0 ▸ hmem)
    obtain ⟨_, _, _, heap', _, _, _, hdelete, _⟩ := hinv.delete hne (hvalues ▸ hmem)
    exact ⟨heap', hdelete⟩
  · exact hinv.insert_ok hne hm

/-- A heap of one chunk with an empty list on it. -/
theorem exists_emptyList : ∃ heap list, Roomy 0x20000 0x30010 heap [(list, sizeofList)] 65512 ∧
    listHead heap.mem list = 0 ∧ listLength heap.mem list = 0 := by
  have hroomy : Roomy 0x20000 0x30010 (oneChunk (fun _ => 0) 0x20000 0x10000) []
      (sizeofList.toNat + 16 + 65512) := roomy_oneChunk (by decide) (by decide)
  obtain ⟨list, heap, -, hrest⟩ := hroomy.malloc_rest (by decide) (by decide)
  refine ⟨{ heap with mem := setListLength (setListHead heap.mem list 0) list 0 }, list,
    hrest.write fun x hx => ?_, ?_, ?_⟩
  · have hlist : ¬ InRange list 8 x := fun hin =>
      hx (Or.inr (Or.inr ⟨_, List.mem_cons_self, hin⟩))
    rw [setListLength_frame hlist, setListHead_frame hlist]
  · rw [listHead_setListLength, listHead_setListHead]
  · rw [listLength_setListLength]

/-- Two values are inserted and the first of them is deleted. -/
theorem list_represents_sequence_oneChunk :
    ∃ heap list t, Run (ListStep list) ⟨heap, []⟩
        [.insert 0x1000, .insert 0x2000, .delete 0x1000] t ∧
      t.values = [0x2000] ∧ ∃ nodes, RepresentsList t.heap list nodes t.values := by
  obtain ⟨heap, list, hroom, hhead, hlength⟩ := exists_emptyList
  have h₀ : ListInv 0x20000 0x30010 heap [(list, sizeofList)] list [] :=
    ⟨hroom.ledger, by decide, List.mem_cons_self, by simp, List.nodup_nil, hhead, hlength, trivial⟩
  have hroom₀ : Roomy 0x20000 0x30010 heap [(list, sizeofList)] (28 + (28 + 1)) :=
    hroom.mono (by decide)
  obtain ⟨heap₁, a, hfirst, h₁, hroom₁⟩ :=
    h₀.insert_roomy hroom₀ (by decide) (by decide : (0x1000 : Word) ≠ 0)
  obtain ⟨heap₂, b, hsecond, h₂, -⟩ :=
    h₁.inv.insert_roomy hroom₁ (by decide) (by decide : (0x2000 : Word) ≠ 0)
  have hseq := list_represents_sequence hroom.ledger (by decide) List.mem_cons_self hhead hlength
  have htwo : Run (ListStep list) ⟨heap, []⟩ [.insert 0x1000, .insert 0x2000]
      ⟨heap₂, [0x1000, 0x2000]⟩ := .cons (.insert hfirst) (.cons (.insert hsecond) (.nil _))
  obtain ⟨heap₃, hdelete⟩ := (hseq _ _ htwo).2.1 0x1000 List.mem_cons_self
  have hthree : Run (ListStep list) ⟨heap, []⟩
      [.insert 0x1000, .insert 0x2000, .delete 0x1000] ⟨heap₃, [0x2000]⟩ :=
    htwo.snoc (.delete List.mem_cons_self hdelete)
  exact ⟨heap, list, _, hthree, rfl, (hseq _ _ hthree).1⟩

end Hjortron
