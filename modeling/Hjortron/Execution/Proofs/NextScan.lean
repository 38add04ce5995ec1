import Hjortron.Execution.Process
import Hjortron.Execution.Proofs.SchedulerSpec
import Hjortron.Proofs.ListFootprint

/-!
# `scheduler_next` on flat memory

The loop of `scheduler_next` counts with the length of the list and goes back to the head where a
node has no successor. On a well-formed list it is the search of `Hjortron.Execution.Scheduler`,
once round the list, and with all accesses on record it is seen not to read through NULL.
-/

namespace Hjortron

/-- A pointer, with `none` for NULL. -/
def pointer (p : Word) : Option Word := if p = 0 then none else some p

section

variable {F : Type} {m : Mem} {list current q p a : Word} {nodes pre post : List Word}
  {s : Scheduler F} {n : Nat}

theorem pointer_of_ne (h : p ≠ 0) : pointer p = some p := if_neg h

/-- What the scheduler `s` has to do with the list in memory. -/
structure ScansList (m : Mem) (list : Word) (nodes : List Word) (s : Scheduler F) : Prop where
  links : ListAt m list nodes
  null : 0 ∉ nodes
  values : s.list = nodeValues m nodes
  ne_zero : 0 ∉ s.list
  state : ∀ p ∈ s.list, processState m p = processStateWaiting ↔ (s.process p).state = .waiting

/-- The loop on flat memory. -/
theorem ScansList.nextLoop (h : ScansList m list nodes s) (hnodes : nodes = pre ++ a :: post) :
    schedulerNextLoop s n (nodeValues m (a :: post)) =
      .ok (pointer (Kernel.nextLoop m list n a)) := by
  induction n generalizing pre a post with
  | zero => rfl
  | succ n ih =>
    have hstep : ∀ pre c rest, nodes = pre ++ c :: rest →
        (if (s.process (nodeValue m c)).state = .waiting then .ok (some (nodeValue m c))
        else schedulerNextLoop s n (nodeValues m (c :: rest)) : Except Halt (Option Word)) =
        .ok (pointer (if processState m (nodeValue m c) = processStateWaiting then
          nodeValue m c else Kernel.nextLoop m list n c)) := by
      intro pre c rest hnodes
      have hmem : nodeValue m c ∈ s.list := by
        rw [h.values, hnodes]
        exact List.mem_map_of_mem (by simp)
      have hstate := h.state _ hmem
      by_cases hw : (s.process (nodeValue m c)).state = .waiting
      · have hne : nodeValue m c ≠ 0 := fun hzero => h.ne_zero (hzero ▸ hmem)
        rw [if_pos hw, if_pos (hstate.mpr hw), pointer_of_ne hne]
      · rw [if_neg hw, if_neg (mt hstate.mp hw)]
        exact ih hnodes
    have hnext : nodeNext m a = post.headD 0 := (hnodes ▸ h.links.chain).at.2
    have hflat : ∀ c, (if nodeNext m a = 0 then listHead m list else nodeNext m a) = c →
        Kernel.nextLoop m list (n + 1) a =
        if processState m (nodeValue m c) = processStateWaiting then
          nodeValue m c else Kernel.nextLoop m list n c := by
      rintro c rfl
      rfl
    cases post with
    | nil =>
      obtain ⟨c, rest, hhead⟩ := List.exists_cons_of_ne_nil (show nodes ≠ [] by simp [hnodes])
      have hlist : s.list = nodeValue m c :: nodeValues m rest := by
        rw [h.values, hhead]
        rfl
      have hfirst : (if nodeNext m a = 0 then listHead m list else nodeNext m a) = c := by
        rw [if_pos (show nodeNext m a = 0 from hnext), h.links.head, hhead]
        rfl
      rw [hflat c hfirst, ← hstep [] c rest hhead]
      simp only [nodeValues, List.map_cons, List.map_nil, schedulerNextLoop, if_true, hlist]
    | cons c rest =>
      have hc : c ≠ 0 := fun hzero => h.null (by rw [hnodes, ← hzero]; simp)
      have hnext' : nodeNext m a = c := hnext
      rw [hflat c (by rw [hnext', if_neg hc]), ← hstep (pre ++ [a]) c rest (by simp [hnodes])]
      rfl

/-- The whole function on flat memory. -/
theorem ScansList.schedulerNext {k : Kernel} (h : ScansList k.heap.mem k.list nodes s)
    (hlength : nodes.length < 2 ^ 32) (hlist : k.list ≠ 0)
    (hcurrent : s.current = pointer k.current)
    (hmem : k.current = 0 ∨ k.current ∈ s.list) :
    ∃ q, k.schedulerNext = .ok q ∧ Hjortron.schedulerNext s = .ok (pointer q) := by
  have hcount : (listLength k.heap.mem k.list).toNat = s.list.length := by
    rw [h.links.length, BitVec.toNat_ofNat, Nat.mod_eq_of_lt hlength, h.values, nodeValues,
      List.length_map]
  unfold Kernel.schedulerNext Hjortron.schedulerNext
  by_cases hc : k.current = 0
  · rw [if_neg (not_not.mpr hc), hcount, hcurrent, hc]
    refine ⟨_, rfl, ?_⟩
    change schedulerNextLoop s s.list.length s.list = _
    cases nodes with
    | nil =>
      rw [h.values]
      rfl
    | cons a nodes =>
      rw [h.links.head, List.headD_cons,
        ← h.nextLoop (show a :: nodes = [] ++ a :: nodes from rfl), ← h.values]
  · have hcur := hmem.resolve_left hc
    rw [h.values] at hcur
    obtain ⟨pre, a, post, rfl, hvalue, hpre, hfirst⟩ := exists_firstNode hcur
    rw [if_pos hc, h.links.find h.null hlength hlist hc, hfirst, hcount]
    refine ⟨_, rfl, ?_⟩
    have hfind : listFind s.list k.current = nodeValues k.heap.mem (a :: post) := by
      have hvalues := h.values
      unfold nodeValues at hvalues hpre ⊢
      rw [listFind, hvalues, List.map_append, List.map_cons, hvalue, dropWhile_ne_append_cons hpre]
    rw [hcurrent, pointer_of_ne hc, ← h.nextLoop rfl]
    simp only [hfind]

end

/-! ## Access by access -/

namespace Traced

/-- Reads a byte. -/
def readByte (base offset : Word) : Action Byte := do
  .emit ⟨base, offset, false⟩
  .read fun heap => heap.mem (base + offset)

/-- The node that `scheduler_next` looks at after `node`. -/
def nextNode (list node : Word) : Action Word := do
  let next ← readWord node 4
  if next = 0 then
    readWord list 0
  else
    return next

/-- The loop of `scheduler_next`. -/
def nextLoop (list : Word) : Nat → Word → Word → Action Word
  | 0, _, _ => .fail .diverges
  | fuel + 1, i, node => do
    -- list->length
    let length ← readWord list 4
    if i < length then do
      let node ← nextNode list node
      -- ((process_t *)node->value)->state
      let process ← readWord node 8
      let state ← readByte process 16
      if state = processStateWaiting then
        readWord node 8
      else
        nextLoop list fuel (i + 1) node
    else
      return 0

/-- `scheduler_next`, with the static variables as arguments. -/
def schedulerNext (list current : Word) : Action Word := do
  let head ← readWord list 0
  if current ≠ 0 then do
    let node ← listFind list current
    nextLoop list (2 ^ 32) 0 node
  else
    nextLoop list (2 ^ 32) 0 head

variable {heap : Heap} {list node current i a : Word} {nodes : List Word} {n fuel : Nat}

theorem runs_readByte (base offset : Word) (heap : Heap) :
    (readByte base offset).Runs heap (heap.mem (base + offset)) heap [⟨base, offset, false⟩] := rfl

/-- The first member of a structure. -/
theorem runs_readWord_zero (base : Word) (heap : Heap) :
    (readWord base 0).Runs heap (heap.mem.load32 base) heap [⟨base, 0, false⟩] := by
  have hrun := runs_readWord base 0 heap
  have hbase : base + 0 = base := BitVec.add_zero base
  rwa [hbase] at hrun

theorem runs_nextNode (heap : Heap) (hlist : list ≠ 0) (hnode : node ≠ 0) :
    ∃ log, (nextNode list node).Runs heap
        (if nodeNext heap.mem node = 0 then listHead heap.mem list else nodeNext heap.mem node)
        heap log ∧ ∀ a ∈ log, a.base ≠ 0 := by
  by_cases hnext : nodeNext heap.mem node = 0
  · have hload : heap.mem.load32 (node + 4) = 0 := hnext
    refine ⟨[⟨node, 4, false⟩] ++ [⟨list, 0, false⟩], (runs_readWord node 4 heap).bind ?_,
      by simpa using ⟨hnode, hlist⟩⟩
    rw [if_pos hload, if_pos hnext]
    exact runs_readWord_zero list heap
  · have hload : heap.mem.load32 (node + 4) ≠ 0 := hnext
    refine ⟨[⟨node, 4, false⟩] ++ [], (runs_readWord node 4 heap).bind ?_,
      by simpa using hnode⟩
    rw [if_neg hload, if_neg hnext]
    rfl

/-- The loop ends when it has counted to the length of the list. -/
theorem runs_nextLoop_end (hlist : list ≠ 0) (hi : ¬ i < listLength heap.mem list) :
    ∃ log, (nextLoop list (fuel + 1) i node).Runs heap 0 heap log ∧ ∀ a ∈ log, a.base ≠ 0 := by
  have hload : ¬ i < heap.mem.load32 (list + 4) := hi
  refine ⟨[⟨list, 4, false⟩] ++ [], (runs_readWord list 4 heap).bind ?_,
    by simpa using hlist⟩
  rw [if_neg hload]
  rfl

/-- One round of the loop. -/
theorem runs_nextLoop_round {c v : Word} {log log' : List Access}
    (hi : i < listLength heap.mem list) (hnext : (nextNode list node).Runs heap c heap log)
    (hrest : (if processState heap.mem (nodeValue heap.mem c) = processStateWaiting then
        readWord c 8 else nextLoop list fuel (i + 1) c).Runs heap v heap log') :
    (nextLoop list (fuel + 1) i node).Runs heap v heap
      ([⟨list, 4, false⟩] ++ (log ++ ([⟨c, 8, false⟩] ++
        ([⟨nodeValue heap.mem c, 16, false⟩] ++ log')))) := by
  have hload : i < heap.mem.load32 (list + 4) := hi
  apply (runs_readWord list 4 heap).bind
  rw [if_pos hload]
  apply hnext.bind
  apply (runs_readWord c 8 heap).bind
  apply (runs_readByte (nodeValue heap.mem c) 16 heap).bind
  exact hrest

/-- A round that finds a waiting process. -/
theorem runs_nextLoop_found {c : Word} {log : List Access} (hi : i < listLength heap.mem list)
    (hnext : (nextNode list node).Runs heap c heap log)
    (hstate : processState heap.mem (nodeValue heap.mem c) = processStateWaiting) :
    (nextLoop list (fuel + 1) i node).Runs heap (nodeValue heap.mem c) heap
      ([⟨list, 4, false⟩] ++ (log ++ ([⟨c, 8, false⟩] ++
        ([⟨nodeValue heap.mem c, 16, false⟩] ++ [⟨c, 8, false⟩])))) := by
  apply runs_nextLoop_round hi hnext
  rw [if_pos hstate]
  exact runs_readWord c 8 heap

/-- A round that goes on. -/
theorem runs_nextLoop_next {c v : Word} {log log' : List Access}
    (hi : i < listLength heap.mem list) (hnext : (nextNode list node).Runs heap c heap log)
    (hstate : processState heap.mem (nodeValue heap.mem c) ≠ processStateWaiting)
    (hrest : (nextLoop list fuel (i + 1) c).Runs heap v heap log') :
    (nextLoop list (fuel + 1) i node).Runs heap v heap
      ([⟨list, 4, false⟩] ++ (log ++ ([⟨c, 8, false⟩] ++
        ([⟨nodeValue heap.mem c, 16, false⟩] ++ log')))) := by
  apply runs_nextLoop_round hi hnext
  rwa [if_neg hstate]

theorem runs_schedulerNext_head {q : Word} {log : List Access} (hc : current = 0)
    (hrun : (nextLoop list (2 ^ 32) 0 (listHead heap.mem list)).Runs heap q heap log) :
    (schedulerNext list current).Runs heap q heap ([⟨list, 0, false⟩] ++ log) := by
  apply (runs_readWord_zero list heap).bind
  rw [if_neg (not_not.mpr hc)]
  exact hrun

theorem runs_schedulerNext_current {q : Word} {log log' : List Access} (hc : current ≠ 0)
    (hfind : (listFind list current).Runs heap node heap log)
    (hrun : (nextLoop list (2 ^ 32) 0 node).Runs heap q heap log') :
    (schedulerNext list current).Runs heap q heap ([⟨list, 0, false⟩] ++ (log ++ log')) := by
  apply (runs_readWord_zero list heap).bind
  rw [if_pos hc]
  exact hfind.bind hrun

section

variable (h : ListAt heap.mem list nodes) (hlist : list ≠ 0) (hnull : 0 ∉ nodes)
  (hvalues : 0 ∉ nodeValues heap.mem nodes) (hlength : nodes.length < 2 ^ 32)

include h hlist hnull hvalues hlength in
/-- The loop reads through the pointers of the list only. -/
theorem runs_nextLoop (ha : 0 < n → a ∈ nodes) (hi : i.toNat + n = nodes.length)
    (hfuel : n < fuel) :
    ∃ log, (nextLoop list fuel i a).Runs heap (Kernel.nextLoop heap.mem list n a) heap log ∧
      ∀ e ∈ log, e.base ≠ 0 := by
  have hcount : (listLength heap.mem list).toNat = nodes.length := by
    rw [h.length, BitVec.toNat_ofNat, Nat.mod_eq_of_lt hlength]
  induction n generalizing i a fuel with
  | zero =>
    obtain ⟨fuel, rfl⟩ := Nat.exists_eq_succ_of_ne_zero (by omega : fuel ≠ 0)
    apply runs_nextLoop_end hlist
    rw [BitVec.lt_def]
    omega
  | succ n ih =>
    obtain ⟨fuel, rfl⟩ := Nat.exists_eq_succ_of_ne_zero (by omega : fuel ≠ 0)
    have hmem := ha (Nat.succ_pos n)
    have hi' : i < listLength heap.mem list := by
      rw [BitVec.lt_def]
      omega
    have hane : a ≠ 0 := fun hzero => hnull (hzero ▸ hmem)
    obtain ⟨log, hnext, hlog⟩ := runs_nextNode heap hlist hane
    have hc := h.next_mem hmem
    rw [Kernel.nextLoop]
    generalize (if nodeNext heap.mem a = 0 then listHead heap.mem list
      else nodeNext heap.mem a) = c at hnext hc
    have hcne : c ≠ 0 := fun hzero => hnull (hzero ▸ hc)
    have hvalue : nodeValue heap.mem c ≠ 0 :=
      fun hzero => hvalues (hzero ▸ List.mem_map_of_mem hc)
    by_cases hstate : processState heap.mem (nodeValue heap.mem c) = processStateWaiting
    · rw [if_pos hstate]
      refine ⟨_, runs_nextLoop_found hi' hnext hstate, ?_⟩
      simp only [List.forall_mem_append, List.forall_mem_singleton]
      exact ⟨hlist, hlog, hcne, hvalue, hcne⟩
    · rw [if_neg hstate]
      obtain ⟨log', hrest, hlog'⟩ : ∃ log', (nextLoop list fuel (i + 1) c).Runs heap _ heap log' ∧
          ∀ e ∈ log', e.base ≠ 0 := ih (fun _ => hc) (by bv_omega) (by omega)
      refine ⟨_, runs_nextLoop_next hi' hnext hstate hrest, ?_⟩
      simp only [List.forall_mem_append, List.forall_mem_singleton]
      exact ⟨hlist, hlog, hcne, hvalue, hlog'⟩

include h hlist hnull hvalues hlength in
/-- The result is that of the function without the record. -/
theorem runs_schedulerNext {k : Kernel} {q : Word} (hheap : k.heap = heap) (hk : k.list = list)
    (hcurrent : k.current = 0 ∨ k.current ∈ nodeValues heap.mem nodes)
    (hq : k.schedulerNext = .ok q) :
    ∃ log, (schedulerNext list k.current).Runs heap q heap log ∧ ∀ a ∈ log, a.base ≠ 0 := by
  have hcount : (listLength heap.mem list).toNat = nodes.length := by
    rw [h.length, BitVec.toNat_ofNat, Nat.mod_eq_of_lt hlength]
  have hzero : (0 : Word).toNat + nodes.length = nodes.length := Nat.zero_add _
  unfold Kernel.schedulerNext at hq
  rw [hheap, hk, hcount] at hq
  by_cases hc : k.current = 0
  · rw [if_neg (not_not.mpr hc)] at hq
    obtain rfl := Except.ok.inj hq
    have hhead : 0 < nodes.length → listHead heap.mem list ∈ nodes := by
      intro hpos
      rw [h.head]
      cases nodes with
      | nil => cases hpos
      | cons a nodes => exact List.mem_cons_self
    obtain ⟨log, hrun, hlog⟩ := runs_nextLoop h hlist hnull hvalues hlength hhead hzero hlength
    refine ⟨_, runs_schedulerNext_head hc hrun, ?_⟩
    rw [List.forall_mem_append, List.forall_mem_singleton]
    exact ⟨hlist, hlog⟩
  · rw [if_pos hc, h.find hnull hlength hlist hc] at hq
    obtain rfl := Except.ok.inj hq
    have hmem : firstNode heap.mem k.current nodes ∈ nodes := by
      obtain ⟨pre, a, post, rfl, -, -, hfirst⟩ := exists_firstNode (hcurrent.resolve_left hc)
      rw [hfirst]
      simp
    obtain ⟨log, hfind, hlog⟩ := runs_listFind h hlist hnull hlength hc
    obtain ⟨log', hrun, hlog'⟩ :=
      runs_nextLoop h hlist hnull hvalues hlength (fun _ => hmem) hzero hlength
    refine ⟨_, runs_schedulerNext_current hc hfind hrun, ?_⟩
    rw [List.forall_mem_append, List.forall_mem_singleton, List.forall_mem_append]
    exact ⟨hlist, fun a ha => base_ne_zero_of_inside hlist hnull (hlog a ha), hlog'⟩

end

end Traced

/-! ## The scan -/

/-- The processes in the order in which `scheduler_next` looks at them: once round the list, from
the one after the current process, or after the head, on. -/
def scanOrder (processes : List Word) (current : Word) : List Word :=
  processes.rotate ((if current = 0 then 0 else processes.idxOf current) + 1)

variable {k : Kernel} {nodes : List Word}

theorem mem_scanOrder {processes : List Word} {current p : Word} :
    p ∈ scanOrder processes current ↔ p ∈ processes :=
  List.mem_rotate

/-- The list in memory as a scheduler. -/
def Kernel.scanned (k : Kernel) (nodes : List Word) : Scheduler Unit where
  list := nodeValues k.heap.mem nodes
  process p := ⟨(), if processState k.heap.mem p = processStateWaiting then .waiting else .running,
    0⟩
  current := pointer k.current
  enabled := k.enabled
  esp := none

theorem scansList_scanned (h : ListAt k.heap.mem k.list nodes) (hnull : 0 ∉ nodes)
    (hvalues : 0 ∉ nodeValues k.heap.mem nodes) :
    ScansList k.heap.mem k.list nodes (k.scanned nodes) := by
  refine ⟨h, hnull, rfl, hvalues, fun p _ => ?_⟩
  unfold Kernel.scanned
  simp

/-- The search of `Hjortron.Execution.Scheduler` goes in the scan order. -/
theorem schedulerNext_scanned (hnd : (nodeValues k.heap.mem nodes).Nodup)
    (hcurrent : k.current = 0 ∨ k.current ∈ nodeValues k.heap.mem nodes) :
    Hjortron.schedulerNext (k.scanned nodes) =
      .ok ((scanOrder (nodeValues k.heap.mem nodes) k.current).find?
        fun p => processState k.heap.mem p = processStateWaiting) := by
  have hwaiting : (k.scanned nodes).isWaiting =
      fun p => decide (processState k.heap.mem p = processStateWaiting) := by
    funext p
    unfold Scheduler.isWaiting Kernel.scanned
    simp
  rw [← hwaiting]
  unfold scanOrder
  by_cases hc : k.current = 0
  · have hnone : (k.scanned nodes).current = none := by
      show pointer k.current = none
      rw [hc]
      rfl
    rw [if_pos hc]
    cases hnodes : nodeValues k.heap.mem nodes with
    | nil => exact schedulerNext_empty hnone hnodes
    | cons p rest =>
      rw [schedulerNext_head hnone hnodes, List.rotate_cons_succ, List.rotate_zero]
  · have hmem := hcurrent.resolve_left hc
    rw [if_neg hc, rotate_idxOf_succ hmem]
    exact schedulerNext_current hnd (pointer_of_ne hc) hmem

theorem eq_getD_of_pointer {q : Word} {o : Option Word} (h : pointer q = o) : q = o.getD 0 := by
  subst h
  unfold pointer
  split
  next hzero => exact hzero
  next hne => rfl

/-- **`scheduler_next` is a complete cyclic scan.** On a well-formed list of distinct processes,
with no current process or one of the list, it returns the first waiting process in the scan order,
and NULL exactly when no process of the list is waiting; and none of its accesses goes through
NULL. -/
theorem schedulerNext_scans (h : ListAt k.heap.mem k.list nodes) (hlist : k.list ≠ 0)
    (hnull : 0 ∉ nodes) (hvalues : 0 ∉ nodeValues k.heap.mem nodes)
    (hnd : (nodeValues k.heap.mem nodes).Nodup)
    (hcurrent : k.current = 0 ∨ k.current ∈ nodeValues k.heap.mem nodes) :
    ∃ q log, k.schedulerNext = .ok q ∧
      (Traced.schedulerNext k.list k.current).Runs k.heap q k.heap log ∧
      (∀ a ∈ log, a.base ≠ 0) ∧
      q = ((scanOrder (nodeValues k.heap.mem nodes) k.current).find?
        fun p => processState k.heap.mem p = processStateWaiting).getD 0 ∧
      (q = 0 ↔ ∀ p ∈ nodeValues k.heap.mem nodes,
        processState k.heap.mem p ≠ processStateWaiting) := by
  have hlength : nodes.length < 2 ^ 32 :=
    length_lt_of_nodup (List.nodup_cons.mpr ⟨hnull, hnd.of_map⟩)
  obtain ⟨q, hq, hsearch⟩ := (scansList_scanned h hnull hvalues).schedulerNext hlength hlist rfl
    hcurrent
  obtain ⟨log, hrun, hlog⟩ := Traced.runs_schedulerNext h hlist hnull hvalues hlength rfl rfl
    hcurrent hq
  have hresult := Except.ok.inj (hsearch.symm.trans (schedulerNext_scanned hnd hcurrent))
  refine ⟨q, log, hq, hrun, hlog, eq_getD_of_pointer hresult, ?_⟩
  rw [eq_getD_of_pointer hresult]
  cases hfind : (scanOrder (nodeValues k.heap.mem nodes) k.current).find?
      fun p => processState k.heap.mem p = processStateWaiting with
  | none =>
    have hnone := List.find?_eq_none.mp hfind
    simp only [mem_scanOrder, decide_eq_true_eq] at hnone
    exact ⟨fun _ => hnone, fun _ => rfl⟩
  | some p =>
    have hmem := mem_scanOrder.mp (List.mem_of_find?_eq_some hfind)
    have hwaiting : processState k.heap.mem p = processStateWaiting := by
      simpa using List.find?_some hfind
    refine ⟨fun hzero => ?_, fun hall => absurd hwaiting (hall p hmem)⟩
    have hp : p = 0 := hzero
    exact absurd (hp ▸ hmem) hvalues

/-- The second of three processes is the current one. -/
theorem schedulerNext_scans_three :
    ∃ (k : Kernel) (nodes : List Word), k.current = 0x2000 ∧
      nodeValues k.heap.mem nodes = [0x1000, 0x2000, 0x3000] ∧ ∃ q log, k.schedulerNext = .ok q ∧
      (Traced.schedulerNext k.list k.current).Runs k.heap q k.heap log ∧
      (∀ a ∈ log, a.base ≠ 0) ∧
      q = (([0x3000, 0x1000, 0x2000] : List Word).find?
        fun p => processState k.heap.mem p = processStateWaiting).getD 0 := by
  obtain ⟨heap, live, list, nodes, hinv, hvalues⟩ :=
    exists_list [0x1000, 0x2000, 0x3000] (by decide) (by decide)
  have hnull := (List.nodup_cons.mp hinv.separate.nodup).1
  have hcurrent : (0x2000 : Word) ∈ nodeValues heap.mem nodes := by
    rw [hvalues]
    decide
  obtain ⟨q, log, hq, hrun, hlog, hresult, -⟩ :=
    schedulerNext_scans (k := ⟨heap, 0, list, 0x2000, true, 0⟩) hinv.links hinv.list_ne_zero hnull
      (by rw [hvalues]; decide) (by rw [hvalues]; decide) (.inr hcurrent)
  rw [hvalues] at hresult
  exact ⟨⟨heap, 0, list, 0x2000, true, 0⟩, nodes, rfl, hvalues, q, log, hq, hrun, hlog, hresult⟩

end Hjortron
