import Hjortron.ListAccess
import Hjortron.Proofs.NewList

/-!
# What `list_delete` touches

The search stays within the list, and so do the accesses to the header. The two writes that link
the neighbours of the node to each other go through `previous` and `next` without asking whether
there is a neighbour: they stay within the list exactly if the node is neither the first nor the
last one.
-/

namespace Hjortron

/-- The access is to a member of the list or of one of its nodes. -/
def Access.Inside (list : Word) (nodes : List Word) (a : Access) : Prop :=
  a.base = list ∧ a.offset ∈ [0, 4] ∨ a.base ∈ nodes ∧ a.offset ∈ [0, 4, 8]

namespace Traced

variable {lo hi : Nat} {heap heap' : Heap} {live : List (Word × Word)} {log : List Access}
  {base offset v list value node next : Word} {nodes pre post : List Word}

theorem runs_readWord (base offset : Word) (heap : Heap) :
    (readWord base offset).Runs heap (heap.mem.load32 (base + offset)) heap
      [⟨base, offset, false⟩] := rfl

theorem runs_writeWord (base offset v : Word) (heap : Heap) :
    (writeWord base offset v).Runs heap ()
      { heap with mem := heap.mem.store32 (base + offset) v } [⟨base, offset, true⟩] := rfl

theorem runs_assert {holds : Bool} (h : holds = true) (expression : String) (heap : Heap) :
    (assert holds expression).Runs heap () heap [] := by
  rw [h]
  rfl

/-! ## The search -/

theorem runs_findNode_found (hnode : node ≠ 0) (hvalue : nodeValue heap.mem node = value)
    (fuel : Nat) :
    (findNode value (fuel + 1) node).Runs heap node heap [⟨node, 8, false⟩] := by
  have hload : heap.mem.load32 (node + 8) = value := hvalue
  unfold findNode
  rw [if_neg hnode]
  refine Logged.runs_bind_iff.mpr ⟨_, _, _, [], runs_readWord node 8 heap, ?_, rfl⟩
  rw [if_pos hload]
  rfl

theorem runs_findNode_next {fuel : Nat} (hnode : node ≠ 0)
    (hvalue : nodeValue heap.mem node ≠ value)
    (hrest : (findNode value fuel (nodeNext heap.mem node)).Runs heap v heap' log) :
    (findNode value (fuel + 1) node).Runs heap v heap'
      (⟨node, 8, false⟩ :: ⟨node, 4, false⟩ :: log) := by
  have hload : heap.mem.load32 (node + 8) ≠ value := hvalue
  unfold findNode
  rw [if_neg hnode]
  apply (runs_readWord node 8 heap).bind
  rw [if_neg hload]
  exact (runs_readWord node 4 heap).bind hrest

/-- The search reads nodes of the list only. -/
theorem runs_findNode (value : Word) {p : Word} {fuel : Nat}
    (hc : Node.Chain (nodeAt heap.mem) p nodes 0) (hnull : 0 ∉ nodes)
    (hfuel : nodes.length < fuel) :
    ∃ log, (findNode value fuel (nodes.headD 0)).Runs heap (firstNode heap.mem value nodes) heap
      log ∧ ∀ a ∈ log, a.base ∈ nodes ∧ a.offset ∈ [0, 4, 8] := by
  induction nodes generalizing p fuel with
  | nil =>
    obtain ⟨fuel, rfl⟩ := Nat.exists_eq_succ_of_ne_zero (by omega : fuel ≠ 0)
    exact ⟨[], rfl, by simp⟩
  | cons a nodes ih =>
    obtain ⟨fuel, rfl⟩ := Nat.exists_eq_succ_of_ne_zero (by omega : fuel ≠ 0)
    obtain ⟨-, hnext, hrest⟩ := hc
    rw [List.mem_cons, not_or] at hnull
    rw [List.headD_cons, firstNode]
    by_cases hvalue : nodeValue heap.mem a = value
    · rw [List.find?_cons_of_pos (by simpa using hvalue)]
      exact ⟨_, runs_findNode_found (Ne.symm hnull.1) hvalue fuel, by simp⟩
    · rw [List.find?_cons_of_neg (by simpa using hvalue)]
      obtain ⟨log, hrun, hlog⟩ := ih hrest hnull.2 (by simpa using hfuel)
      have hstep : nodeNext heap.mem a = nodes.headD 0 := hnext
      rw [← hstep] at hrun
      refine ⟨_, runs_findNode_next (Ne.symm hnull.1) hvalue hrun, ?_⟩
      simp only [List.forall_mem_cons]
      refine ⟨by simp, by simp, fun a ha => ?_⟩
      exact ⟨List.mem_cons_of_mem _ (hlog a ha).1, (hlog a ha).2⟩

theorem runs_listFind (h : ListAt heap.mem list nodes) (hlist : list ≠ 0) (hnull : 0 ∉ nodes)
    (hlength : nodes.length < 2 ^ 32) (hvalue : value ≠ 0) :
    ∃ log, (listFind list value).Runs heap (firstNode heap.mem value nodes) heap log ∧
      ∀ a ∈ log, a.Inside list nodes := by
  obtain ⟨log, hrun, hlog⟩ := runs_findNode value h.chain hnull hlength
  have hhead : heap.mem.load32 (list + 0) = nodes.headD 0 := by
    simpa [listHead] using h.head
  rw [← hhead] at hrun
  refine ⟨_, (runs_assert (bne_iff_ne.mpr hlist) "list" heap).bind
    ((runs_assert (bne_iff_ne.mpr hvalue) "value" heap).bind
      ((runs_readWord list 0 heap).bind hrun)), ?_⟩
  simp only [List.nil_append, List.cons_append, List.forall_mem_cons]
  exact ⟨.inl ⟨rfl, by simp⟩, fun a ha => .inr (hlog a ha)⟩

/-! ## The writes -/

theorem runs_replaceHead (list node next : Word) (heap : Heap) :
    ∃ heap' log, (replaceHead list node next).Runs heap () heap' log ∧
      ∀ a ∈ log, a.base = list ∧ a.offset ∈ [0, 4] := by
  by_cases hhead : heap.mem.load32 (list + 0) = node
  · refine ⟨{ heap with mem := heap.mem.store32 (list + 0) next },
      [⟨list, 0, false⟩] ++ [⟨list, 0, true⟩], (runs_readWord list 0 heap).bind ?_, by simp⟩
    rw [if_pos hhead]
    exact runs_writeWord list 0 next heap
  · refine ⟨heap, [⟨list, 0, false⟩] ++ [], (runs_readWord list 0 heap).bind ?_, by simp⟩
    rw [if_neg hhead]
    rfl

/-- The accesses of `list_delete` after the search. -/
theorem runs_unlinkNode (list node : Word) (heap : Heap) :
    ∃ log, (unlinkNode list node).Runs heap ()
        { heap with mem := Hjortron.unlinkNode heap.mem list node }
        (⟨node, 0, false⟩ :: ⟨node, 4, false⟩ :: ⟨nodePrevious heap.mem node, 4, true⟩ ::
          ⟨nodeNext heap.mem node, 0, true⟩ :: log) ∧
      ∀ a ∈ log, a.base = list ∧ a.offset ∈ [0, 4] := by
  have hprevious : heap.mem.load32 (node + 0) = nodePrevious heap.mem node := by
    simp [nodePrevious]
  obtain ⟨heap₁, log, hhead, hlog⟩ := runs_replaceHead list node (nodeNext heap.mem node) _
  have hrun : (unlinkNode list node).Runs heap () _ _ :=
    (runs_readWord node 0 heap).bind ((runs_readWord node 4 heap).bind
      ((runs_writeWord _ 4 _ heap).bind ((runs_writeWord _ 0 _ _).bind (hhead.bind
        ((runs_readWord list 4 heap₁).bind
          (runs_writeWord list 4 (heap₁.mem.load32 (list + 4) - 1) heap₁))))))
  have hend := hrun.forget_eq.symm.trans forget_unlinkNode
  rw [(Prod.mk.inj (Except.ok.inj hend)).2, hprevious] at hrun
  refine ⟨log ++ ([⟨list, 4, false⟩, ⟨list, 4, true⟩] : List Access), hrun, ?_⟩
  rw [List.forall_mem_append]
  exact ⟨hlog, by simp⟩

/-! ## `list_delete` -/

/-- Members of NULL are not inside the list. -/
theorem base_ne_zero_of_inside {a : Access} (hlist : list ≠ 0) (hnull : 0 ∉ nodes)
    (ha : a.Inside list nodes) : a.base ≠ 0 := by
  rcases ha with ⟨hbase, -⟩ | ⟨hmem, -⟩
  · rwa [hbase]
  · exact fun hzero => hnull (hzero ▸ hmem)

theorem inside_iff {write : Bool} (hlist : list ≠ 0) (hnull : 0 ∉ nodes)
    (hbase : base ∈ 0 :: nodes) (hoffset : offset ∈ [0, 4, 8]) :
    (⟨base, offset, write⟩ : Access).Inside list nodes ↔ base ≠ 0 := by
  constructor
  · exact base_ne_zero_of_inside hlist hnull
  · intro hne
    exact .inr ⟨(List.mem_cons.mp hbase).resolve_left hne, hoffset⟩

/-- The accesses after the search are inside the list when there are nodes on both sides. -/
theorem unlink_inside_iff (h : ListAt heap.mem list (pre ++ node :: post)) (hlist : list ≠ 0)
    (hnull : 0 ∉ pre ++ node :: post) (hlog : ∀ a ∈ log, a.base = list ∧ a.offset ∈ [0, 4]) :
    (∀ a ∈ (⟨node, 0, false⟩ :: ⟨node, 4, false⟩ :: ⟨nodePrevious heap.mem node, 4, true⟩ ::
        ⟨nodeNext heap.mem node, 0, true⟩ :: log : List Access),
      a.Inside list (pre ++ node :: post)) ↔ 0 < pre.length ∧ 0 < post.length := by
  obtain ⟨hprevious, hnext⟩ := h.neighbours
  have hat : nodePrevious heap.mem node = pre.getLastD 0 ∧ nodeNext heap.mem node = post.headD 0 :=
    h.chain.at
  have hself : node ∈ 0 :: (pre ++ node :: post) := by simp
  have hne : node ≠ 0 := fun hzero => hnull (hzero ▸ by simp)
  have hrest : ∀ a ∈ log, a.Inside list (pre ++ node :: post) := fun a ha => .inl (hlog a ha)
  simp only [List.forall_mem_cons]
  rw [inside_iff hlist hnull hself (by simp), inside_iff hlist hnull hself (by simp),
    inside_iff hlist hnull hprevious (by simp), inside_iff hlist hnull hnext (by simp), hat.1,
    hat.2]
  have hlast : pre.getLastD 0 ≠ 0 ↔ 0 < pre.length := by
    rcases List.eq_nil_or_concat' pre with rfl | ⟨pre, c, rfl⟩
    · simp
    · simp only [List.getLastD_concat, List.length_append, List.length_cons]
      constructor
      · omega
      · rintro - rfl
        simp at hnull
  have hhead : post.headD 0 ≠ 0 ↔ 0 < post.length := by
    cases post with
    | nil => simp
    | cons c post =>
      simp only [List.headD_cons, List.length_cons]
      constructor
      · omega
      · rintro - rfl
        simp at hnull
  rw [hlast, hhead]
  exact ⟨fun h => ⟨h.2.2.1, h.2.2.2.1⟩, fun h => ⟨hne, hne, h.1, h.2, hrest⟩⟩

/-- Where the first node with the value is, in terms of the values of the list. -/
theorem idxOf_nodeValues {m : Mem} (hnode : nodeValue m node = value)
    (hpre : value ∉ nodeValues m pre) :
    (nodeValues m (pre ++ node :: post)).idxOf value = pre.length := by
  unfold nodeValues at hpre ⊢
  rw [List.map_append, List.map_cons, hnode, List.idxOf_append_of_notMem hpre,
    List.idxOf_cons_self, List.length_map, Nat.add_zero]

/-- What `list_delete` accesses: the search stays within the list, and then come the node, its
neighbours and the header. -/
theorem runs_listDelete (h : ListInv lo hi heap live list nodes) (hvalue : value ≠ 0)
    (hmem : value ∈ nodeValues heap.mem nodes) :
    ∃ pre node post heap' search header, nodes = pre ++ node :: post ∧
      nodeValue heap.mem node = value ∧ value ∉ nodeValues heap.mem pre ∧
      (listDelete list value).Runs heap () heap' (search ++ ⟨node, 0, false⟩ ::
        ⟨node, 4, false⟩ :: ⟨nodePrevious heap.mem node, 4, true⟩ ::
          ⟨nodeNext heap.mem node, 0, true⟩ :: header) ∧
      (∀ a ∈ search, a.Inside list nodes) ∧ ∀ a ∈ header, a.base = list ∧ a.offset ∈ [0, 4] := by
  have hnull := (List.nodup_cons.mp h.separate.nodup).1
  obtain ⟨search, hfind, hinside⟩ := runs_listFind h.links h.list_ne_zero hnull h.length_lt hvalue
  obtain ⟨pre, node, post, rfl, hnode, hpre, hfirst⟩ := exists_firstNode hmem
  rw [hfirst] at hfind
  obtain ⟨header, hunlink, hheader⟩ := runs_unlinkNode list node heap
  obtain ⟨heap', hfree, -⟩ := h.unlink
  have hne : node ≠ 0 := fun hzero => hnull (hzero ▸ by simp)
  have hrun : (listDelete list value).Runs heap () heap' _ :=
    (runs_assert (bne_iff_ne.mpr h.list_ne_zero) "list" heap).bind
    ((runs_assert (bne_iff_ne.mpr hvalue) "value" heap).bind (hfind.bind
      ((runs_assert (bne_iff_ne.mpr hne) "node" heap).bind (hunlink.bind
        (Logged.runs_call_iff.mpr ⟨by rw [hfree]; rfl, rfl⟩)))))
  simp only [List.nil_append, List.append_nil] at hrun
  exact ⟨pre, node, post, heap', search, header, rfl, hnode, hpre, hrun, hinside, hheader⟩

/-- A run that is recorded is one of `list_delete` of `Hjortron.LinkedList`. -/
theorem listDelete_of_runs (hrun : (listDelete list value).Runs heap () heap' log) :
    heap.listDelete list value = .ok heap' := by
  have hcode := forget_listDelete.symm.trans hrun.forget_eq
  cases hdelete : heap.listDelete list value with
  | error e =>
    rw [hdelete] at hcode
    cases hcode
  | ok heap'' =>
    rw [hdelete] at hcode
    cases hcode
    rfl

/-- **What `list_delete` touches.** Deleting a value of the list returns, and all that it reads and
writes before `free` are members of the list and of its nodes, exactly if the first node with the
value has a node in front of it and a node behind it. -/
theorem listDelete_inside_iff (h : ListInv lo hi heap live list nodes) (hvalue : value ≠ 0)
    (hmem : value ∈ nodeValues heap.mem nodes) :
    ∃ heap' log, (listDelete list value).Runs heap () heap' log ∧
      heap.listDelete list value = .ok heap' ∧
      ((∀ a ∈ log, a.Inside list nodes) ↔
        0 < (nodeValues heap.mem nodes).idxOf value ∧
          (nodeValues heap.mem nodes).idxOf value + 1 < nodes.length) := by
  obtain ⟨pre, node, post, heap', search, header, rfl, hnode, hpre, hrun, hsearch, hheader⟩ :=
    runs_listDelete h hvalue hmem
  refine ⟨heap', _, hrun, listDelete_of_runs hrun, ?_⟩
  have hnull := (List.nodup_cons.mp h.separate.nodup).1
  rw [List.forall_mem_append, unlink_inside_iff h.links h.list_ne_zero hnull hheader,
    idxOf_nodeValues hnode hpre, List.length_append, List.length_cons]
  constructor
  · rintro ⟨-, hfront, hback⟩
    exact ⟨hfront, by omega⟩
  · rintro ⟨hfront, hback⟩
    exact ⟨hsearch, hfront, by omega⟩

/-- The node in the middle of three. -/
theorem listDelete_inside_iff_middle :
    ∃ heap live list nodes heap' log, ListInv 0x20000 0x30010 heap live list nodes ∧
      nodeValues heap.mem nodes = [1, 2, 3] ∧ (listDelete list 2).Runs heap () heap' log ∧
      ∀ a ∈ log, a.Inside list nodes := by
  obtain ⟨heap, live, list, nodes, hinv, hvalues⟩ := exists_list [1, 2, 3] (by decide) (by decide)
  have hlength : nodes.length = 3 := by simpa [nodeValues] using congrArg List.length hvalues
  have hmem : 2 ∈ nodeValues heap.mem nodes := by
    rw [hvalues]
    decide
  obtain ⟨heap', log, hrun, -, hinside⟩ := listDelete_inside_iff hinv (by decide) hmem
  rw [hvalues, hlength] at hinside
  exact ⟨heap, live, list, nodes, heap', log, hinv, hvalues, hrun, hinside.mpr (by decide)⟩

/-- The only node of a list: `next` of NULL and `previous` of NULL are written. -/
theorem listDelete_writes_null :
    ∃ heap live list node heap' log, ListInv 0x20000 0x30010 heap live list [node] ∧
      nodeValues heap.mem [node] = [1] ∧ (listDelete list 1).Runs heap () heap' log ∧
      ⟨0, 4, true⟩ ∈ log ∧ ⟨0, 0, true⟩ ∈ log ∧ ¬ ∀ a ∈ log, a.Inside list [node] := by
  obtain ⟨heap, live, list, nodes, hinv, hvalues⟩ := exists_list [1] (by decide) (by decide)
  obtain ⟨node, rfl, hnode⟩ : ∃ node, nodes = [node] ∧ nodeValue heap.mem node = 1 := by
    simpa [nodeValues, List.map_eq_singleton_iff] using hvalues
  have hmem : 1 ∈ nodeValues heap.mem [node] := by
    rw [hvalues]
    decide
  obtain ⟨pre, a, post, heap', search, header, hsplit, -, -, hrun, -, -⟩ :=
    runs_listDelete hinv (by decide) hmem
  obtain ⟨rfl, rfl, rfl⟩ : pre = [] ∧ a = node ∧ post = [] := by
    rcases List.append_eq_singleton_iff.mp hsplit.symm with ⟨rfl, h⟩ | ⟨-, h⟩
    · exact ⟨rfl, (List.cons.inj h).1, (List.cons.inj h).2⟩
    · cases h
  have hat : nodePrevious heap.mem a = 0 ∧ nodeNext heap.mem a = 0 :=
    (show Node.Chain (nodeAt heap.mem) 0 ([] ++ a :: []) 0 from hinv.links.chain).at
  rw [hat.1, hat.2] at hrun
  refine ⟨heap, live, list, a, heap', _, hinv, hvalues, hrun, by simp, by simp, fun hinside => ?_⟩
  have hnull : (⟨0, 4, true⟩ : Access).Inside list [a] := hinside _ (by simp)
  rcases hnull with ⟨hlist, -⟩ | ⟨hnode, -⟩
  · exact hinv.list_ne_zero hlist.symm
  · exact hinv.ledger.ne_zero (hinv.blocks a (by simp)) (List.mem_singleton.mp hnode).symm

end Traced

end Hjortron
