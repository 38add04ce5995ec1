import Hjortron.Memory.Proofs.BootStack
import Hjortron.Proofs.ListRun

/-!
# New lists

`list_create` takes a block from the heap and returns it as it is. The list is empty when the bytes
of the block happen to be zero, as they are in memory that has never been written; in a recycled
block the head and the length are what the last owner has left there.
-/

namespace Hjortron

/-- `list_insert` of the values, one after the other. -/
def Heap.insertAll (heap : Heap) (list : Word) (values : List Word) : Except Halt Heap :=
  values.foldlM (fun heap value => heap.listInsert list value) heap

/-- `list_create`, and then `list_insert` of the values. -/
def Heap.newList (heap : Heap) (values : List Word) : Except Halt (Word × Heap) := do
  let (list, heap) ← heap.listCreate
  let heap ← heap.insertAll list values
  return (list, heap)

variable {lo hi : Nat} {heap heap' : Heap} {live : List (Word × Word)}
  {list value len chunk found : Word} {nodes values : List Word} {m : Mem}

/-! ## Insertions -/

theorem ListInv.insertAll (h : ListInv lo hi heap live list nodes)
    (hinsert : heap.insertAll list values = .ok heap') :
    ∃ live' nodes', ListInv lo hi heap' live' list nodes' ∧
      nodeValues heap'.mem nodes' = nodeValues heap.mem nodes ++ values := by
  induction values generalizing heap live nodes with
  | nil =>
    obtain rfl := Except.ok.inj hinsert
    exact ⟨live, nodes, h, by simp⟩
  | cons value values ih =>
    rw [Heap.insertAll, List.foldlM_cons] at hinsert
    obtain ⟨heap₁, hfirst, hrest⟩ := bind_eq_ok.mp hinsert
    obtain ⟨new, hinserted⟩ := h.insert hfirst
    obtain ⟨live', nodes', h', hvalues⟩ := ih hinserted.inv hrest
    refine ⟨live', nodes', h', ?_⟩
    rw [hvalues, hinserted.values, List.append_assoc, List.singleton_append]

/-- With room for the nodes and their headers, the insertions return. -/
theorem ListInv.insertAll_ok (h : ListInv lo hi heap live list nodes)
    (hroom : Roomy lo hi heap live (28 * values.length + 1)) (hvalues : 0 ∉ values) :
    ∃ heap', heap.insertAll list values = .ok heap' := by
  induction values generalizing heap live nodes with
  | nil => exact ⟨heap, rfl⟩
  | cons value values ih =>
    rw [List.mem_cons, not_or] at hvalues
    have hsize : 28 * (value :: values).length + 1 = 28 + (28 * values.length + 1) := by
      rw [List.length_cons]
      omega
    rw [hsize] at hroom
    obtain ⟨heap₁, new, hfirst, hinserted, hroom₁⟩ :=
      h.insert_roomy hroom (Nat.succ_pos _) (Ne.symm hvalues.1)
    obtain ⟨heap', hrest⟩ := ih hinserted.inv hroom₁ hvalues.2
    refine ⟨heap', ?_⟩
    rw [Heap.insertAll, List.foldlM_cons, hfirst]
    exact hrest

/-! ## The block of the list -/

theorem FirstFit.ne_zero (h : FirstFit m len chunk found) : found ≠ 0 := by
  induction h with
  | here hne _ _ => exact hne
  | next _ _ _ ih => exact ih

theorem FirstFit.unique {found' : Word} (h : FirstFit m len chunk found)
    (h' : FirstFit m len chunk found') : found = found' := by
  induction h with
  | here hne hfree hroom =>
    cases h' with
    | here => rfl
    | next _ hskip _ => exact absurd ⟨hfree, hroom⟩ hskip
  | next hne hskip _ ih =>
    cases h' with
    | here _ hfree hroom => exact absurd ⟨hfree, hroom⟩ hskip
    | next _ _ h' => exact ih h'

/-- The search finds the first chunk that fits. -/
theorem FirstFit.findChunk_eq {fuel : Nat} {r : Word} (hfit : FirstFit m len chunk found)
    (hfind : findChunk m len fuel chunk = .ok r) : r = found := by
  induction fuel generalizing chunk with
  | zero => cases hfind
  | succ fuel ih =>
    rw [findChunk] at hfind
    cases hfit with
    | here hne hfree hroom =>
      rw [if_neg hne, if_pos (by simp [hfree, hroom])] at hfind
      exact (Except.ok.inj hfind).symm
    | next hne hskip hrest =>
      rw [if_neg hne, if_neg (by simpa using hskip)] at hfind
      exact ih hrest hfind

/-- `malloc` returns the payload of the first chunk that fits. -/
theorem Ledger.malloc_of_firstFit (h : Ledger lo hi heap live) (hlen : len ≠ 0)
    (hfit : FirstFit heap.mem len heap.startChunk chunk) :
    ∃ heap', Hjortron.malloc heap len = .ok (chunk + sizeofMemoryChunk, heap') := by
  obtain ⟨bs, hs, -⟩ := h
  have hc := hs.heap.chunks
  cases ha : BlockList.allocate 16 len.toNat bs with
  | some r =>
    obtain ⟨mem, hm, -⟩ := malloc_of_allocate hc hs.heap.initialized hlen ha
    obtain ⟨-, chunk', hfit', hptr, -⟩ := malloc_firstFit hm
    rw [hptr, hfit'.unique hfit] at hm
    exact ⟨_, hm⟩
  | none =>
    have hfind : findChunk heap.mem len (2 ^ 32) heap.startChunk = .ok 0 := by
      rw [hc.start_eq, findChunk_linked hc.layout hc.linked hc.layout.length_lt,
        List.find?_eq_none.mpr (by simpa using BlockList.allocate_eq_none_iff.mp ha)]
      rfl
    exact absurd (hfit.findChunk_eq hfind).symm hfit.ne_zero

theorem listCreate_of_malloc (hlist : list ≠ 0)
    (hm : malloc heap sizeofList = .ok (list, heap')) : heap.listCreate = .ok (list, heap') := by
  unfold Heap.listCreate
  rw [hm]
  simp only [bind, Except.bind, bne_iff_ne.mpr hlist, assert_true]
  rfl

theorem listCreate_eq_ok (hcreate : heap.listCreate = .ok (list, heap')) :
    malloc heap sizeofList = .ok (list, heap') := by
  obtain ⟨⟨list₁, heap₁⟩, hm, hcreate⟩ := bind_eq_ok.mp hcreate
  obtain ⟨_, -, hcreate⟩ := bind_eq_ok.mp hcreate
  cases hcreate
  exact hm

/-- The header of the list is what the block has held before. -/
theorem Ledger.listHeader_create (h : Ledger lo hi heap live)
    (hm : Hjortron.malloc heap sizeofList = .ok (list, heap')) :
    listHead heap'.mem list = listHead heap.mem list ∧
      listLength heap'.mem list = listLength heap.mem list := by
  apply listHeader_congr
  intro y hy
  exact h.malloc_contents hm hy

/-- A block whose first bytes are zero is an empty list. -/
theorem Ledger.listInv_create (h : Ledger lo hi heap live) (hnull : 12 ≤ lo)
    (hm : Hjortron.malloc heap sizeofList = .ok (list, heap')) (hhead : listHead heap.mem list = 0)
    (hlength : listLength heap.mem list = 0) :
    ListInv lo hi heap' ((list, sizeofList) :: live) list [] := by
  obtain ⟨hhead', hlength'⟩ := h.listHeader_create hm
  exact ⟨(h.malloc hm).ledger, hnull, List.mem_cons_self, by simp, List.nodup_nil,
    hhead'.trans hhead, hlength'.trans hlength, trivial⟩

/-! ## New lists -/

/-- The bytes that become the header of a new list are zero: those behind the header of the first
free chunk with room for it. -/
def BlankBlock (heap : Heap) : Prop :=
  ∀ chunk, FirstFit heap.mem sizeofList heap.startChunk chunk →
    listHead heap.mem (chunk + sizeofMemoryChunk) = 0 ∧
      listLength heap.mem (chunk + sizeofMemoryChunk) = 0

/-- Creating a list of `values` yields a list of exactly these values, and it does return when one
free chunk has room for the list and all nodes with their headers. -/
def YieldsList (lo hi : Nat) (heap : Heap) (live : List (Word × Word)) (values : List Word) :
    Prop :=
  (∀ list heap', heap.newList values = .ok (list, heap') →
    (∃ nodes, RepresentsList heap' list nodes values) ∧
      ∀ value ≠ 0, value ∉ values → heap'.listFind list value = .ok 0) ∧
  (Roomy lo hi heap live (24 + (28 * values.length + 1)) → ∃ r, heap.newList values = .ok r)

theorem RepresentsList.find_absent (h : RepresentsList heap list nodes values) (hvalue : value ≠ 0)
    (habsent : value ∉ values) : heap.listFind list value = .ok 0 := by
  have hlength : values.length = nodes.length := by
    rw [← h.contents, List.length_map]
  rw [h.find value hvalue, List.idxOf_eq_length habsent, hlength]
  simp

section

variable (h : Ledger lo hi heap live) (hnull : 12 ≤ lo) (hblank : BlankBlock heap)

include h hnull hblank

theorem listInv_of_blank (hm : malloc heap sizeofList = .ok (list, heap')) :
    ListInv lo hi heap' ((list, sizeofList) :: live) list [] := by
  obtain ⟨-, chunk, hfit, rfl, -⟩ := malloc_firstFit hm
  obtain ⟨hhead, hlength⟩ := hblank chunk hfit
  exact h.listInv_create hnull hm hhead hlength

theorem newList_inv (hnew : heap.newList values = .ok (list, heap')) :
    ∃ live' nodes, ListInv lo hi heap' live' list nodes ∧ nodeValues heap'.mem nodes = values := by
  obtain ⟨⟨list₁, heap₁⟩, hcreate, hnew⟩ := bind_eq_ok.mp hnew
  obtain ⟨heap₂, hinsert, hnew⟩ := bind_eq_ok.mp hnew
  cases hnew
  exact (listInv_of_blank h hnull hblank (listCreate_eq_ok hcreate)).insertAll hinsert

theorem newList_ok (hvalues : 0 ∉ values)
    (hroom : Roomy lo hi heap live (24 + (28 * values.length + 1))) :
    ∃ r, heap.newList values = .ok r := by
  have hpos : 0 < sizeofList.toNat := by decide
  obtain ⟨list, heap₁, hm, hroom₁⟩ := Roomy.malloc_rest hroom hpos (Nat.succ_pos _)
  have hinv := listInv_of_blank h hnull hblank hm
  obtain ⟨heap', hinsert⟩ := hinv.insertAll_ok hroom₁ hvalues
  refine ⟨(list, heap'), ?_⟩
  unfold Heap.newList
  rw [listCreate_of_malloc hinv.list_ne_zero hm]
  simp only [bind, Except.bind, hinsert]
  rfl

end

/-- **New lists.** Whatever values are inserted into it, a list created on this heap consists of
them exactly if the bytes that `list_create` finds in its block are zero. -/
theorem yieldsList_iff (h : Ledger lo hi heap live) (hnull : 12 ≤ lo) :
    (∀ values, 0 ∉ values → YieldsList lo hi heap live values) ↔
      BlankBlock heap := by
  constructor
  · intro hyields chunk hfit
    obtain ⟨heap', hm⟩ := h.malloc_of_firstFit (by decide) hfit
    have hne := (h.malloc hm).ledger.ne_zero List.mem_cons_self
    have hnew : heap.newList [] = .ok (chunk + sizeofMemoryChunk, heap') := by
      unfold Heap.newList
      rw [listCreate_of_malloc hne hm]
      rfl
    obtain ⟨⟨nodes, hlist⟩, -⟩ := (hyields [] List.not_mem_nil).1 _ _ hnew
    obtain rfl := List.map_eq_nil_iff.mp hlist.contents
    obtain ⟨hhead, hlength⟩ := h.listHeader_create hm
    refine ⟨hhead.symm.trans hlist.head, hlength.symm.trans ?_⟩
    exact BitVec.eq_of_toNat_eq hlist.length
  · intro hblank values hvalues
    refine ⟨fun list heap' hnew => ?_, newList_ok h hnull hblank hvalues⟩
    obtain ⟨live', nodes, hinv, hcontents⟩ := newList_inv h hnull hblank hnew
    have hlist := hinv.represents
    rw [hcontents] at hlist
    exact ⟨⟨nodes, hlist⟩, fun value hne habsent => hlist.find_absent hne habsent⟩

/-- On a heap of one chunk, that chunk is the first that fits. -/
theorem firstFit_oneChunk (mem : Mem) :
    FirstFit (oneChunk mem 0x20000 0x10000).mem sizeofList
      (oneChunk mem 0x20000 0x10000).startChunk 0x20000 := by
  have hheader : chunkHeader (oneChunk mem 0x20000 0x10000).mem 0x20000 =
      ⟨0, 0, false, 0x10000⟩ := by
    simp [oneChunk]
  refine .here (by decide : (0x20000 : Word) ≠ 0) (allocated_of_header hheader) ?_
  show sizeofList ≤ chunkLen _ 0x20000
  rw [chunkLen_of_header hheader]
  decide

theorem blankBlock_oneChunk : BlankBlock (oneChunk (fun _ => 0) 0x20000 0x10000) := by
  intro chunk hfit
  rw [hfit.unique (firstFit_oneChunk _)]
  decide

/-- Memory that has never been written. -/
theorem yieldsList_iff_zero :
    YieldsList 0x20000 0x30010 (oneChunk (fun _ => 0) 0x20000 0x10000) [] [0x1000, 0x2000] := by
  have hledger : Ledger 0x20000 0x30010 (oneChunk (fun _ => 0) 0x20000 0x10000) [] :=
    (roomy_oneChunk (by decide) (by decide)).ledger
  exact (yieldsList_iff hledger (by decide)).mpr blankBlock_oneChunk _ (by decide)

/-- A heap whose only chunk holds bytes that are not zero: the new list seems to have a node. -/
theorem newList_recycled :
    ∃ list heap', (oneChunk (fun _ => 1) 0x20000 0x10000).newList [] = .ok (list, heap') ∧
      listHead heap'.mem list = 0x01010101 ∧ listLength heap'.mem list = 0x01010101 ∧
      ¬ YieldsList 0x20000 0x30010 (oneChunk (fun _ => 1) 0x20000 0x10000) [] [] := by
  have hledger : Ledger 0x20000 0x30010 (oneChunk (fun _ => 1) 0x20000 0x10000) [] :=
    (roomy_oneChunk (by decide) (by decide)).ledger
  obtain ⟨heap', hm⟩ := hledger.malloc_of_firstFit (by decide) (firstFit_oneChunk _)
  obtain ⟨hhead, hlength⟩ := hledger.listHeader_create hm
  have hnew : (oneChunk (fun _ => 1) 0x20000 0x10000).newList [] =
      .ok (0x20000 + sizeofMemoryChunk, heap') := by
    unfold Heap.newList
    rw [listCreate_of_malloc (by decide) hm]
    rfl
  have hstale : listHead heap'.mem (0x20000 + sizeofMemoryChunk) = 0x01010101 :=
    hhead.trans (by decide)
  refine ⟨_, heap', hnew, hstale, hlength.trans (by decide), fun hyields => ?_⟩
  obtain ⟨⟨nodes, hlist⟩, -⟩ := hyields.1 _ _ hnew
  obtain rfl := List.map_eq_nil_iff.mp hlist.contents
  exact absurd (hstale.symm.trans hlist.head) (by decide)

/-- Lists of any values that fit on a heap of one chunk. -/
theorem exists_list (values : List Word) (hvalues : 0 ∉ values) (hlength : values.length ≤ 2000) :
    ∃ heap live list nodes, ListInv 0x20000 0x30010 heap live list nodes ∧
      nodeValues heap.mem nodes = values := by
  have hroom : Roomy 0x20000 0x30010 (oneChunk (fun _ => 0) 0x20000 0x10000) [] 0x10000 :=
    roomy_oneChunk (by decide) (by decide)
  obtain ⟨⟨list, heap⟩, hnew⟩ := newList_ok hroom.ledger (by decide) blankBlock_oneChunk hvalues
    (hroom.mono (by omega))
  obtain ⟨live, nodes, hinv⟩ := newList_inv hroom.ledger (by decide) blankBlock_oneChunk hnew
  exact ⟨heap, live, list, nodes, hinv⟩

end Hjortron
