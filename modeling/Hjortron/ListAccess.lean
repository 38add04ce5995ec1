import Hjortron.LinkedList
import Hjortron.Misc.Logged

/-!
# `kernel/src/list.c`, access by access

`list_find` and `list_delete` with every access to a member of a structure on record, with the
pointer that it goes through. `free` is called as a whole: what it does to its own headers is not
recorded.
-/

namespace Hjortron

namespace Traced

/-- Code that records its accesses. -/
abbrev Action := Logged Heap Halt Access

/-- Reads a word. -/
def readWord (base offset : Word) : Action Word := do
  .emit ⟨base, offset, false⟩
  .read fun heap => heap.mem.load32 (base + offset)

/-- Writes a word. -/
def writeWord (base offset v : Word) : Action Unit := do
  .emit ⟨base, offset, true⟩
  .modify fun heap => { heap with mem := heap.mem.store32 (base + offset) v }

/-- `assert(expression)`. -/
def assert (holds : Bool) (expression : String) : Action Unit :=
  .call fun heap => (Hjortron.assert holds expression).map fun u => (u, heap)

/-- The loop of `list_find`. -/
def findNode (value : Word) : Nat → Word → Action Word
  | 0, _ => .fail .diverges
  | fuel + 1, node =>
    if node = 0 then
      return 0
    else do
      -- node->value
      let v ← readWord node 8
      if v = value then
        return node
      else do
        -- node->next
        let next ← readWord node 4
        findNode value fuel next

/-- `list_find`. -/
def listFind (list value : Word) : Action Word := do
  assert (list != 0) "list"
  assert (value != 0) "value"
  -- list->head
  let node ← readWord list 0
  findNode value (2 ^ 32) node

/-- The `if` of `list_delete`. -/
def replaceHead (list node next : Word) : Action Unit := do
  let head ← readWord list 0
  if head = node then
    writeWord list 0 next
  else
    return

/-- The part of `list_delete` between `assert(node)` and `free`. -/
def unlinkNode (list node : Word) : Action Unit := do
  -- node->previous, node->next
  let previous ← readWord node 0
  let next ← readWord node 4
  -- previous->next, next->previous
  writeWord previous 4 next
  writeWord next 0 previous
  replaceHead list node next
  -- list->length
  let length ← readWord list 4
  writeWord list 4 (length - 1)

/-- `list_delete`. -/
def listDelete (list value : Word) : Action Unit := do
  assert (list != 0) "list"
  assert (value != 0) "value"
  let node ← listFind list value
  assert (node != 0) "node"
  unlinkNode list node
  .call fun heap => (free heap node).map ((), ·)

/-! ## Without the record -/

section

variable {heap : Heap} {list node value v base offset : Word}

theorem forget_readWord :
    (readWord base offset).forget heap = .ok (heap.mem.load32 (base + offset), heap) := rfl

theorem forget_writeWord : (writeWord base offset v).forget heap =
    .ok ((), { heap with mem := heap.mem.store32 (base + offset) v }) := rfl

/-- The first member of a structure. -/
theorem forget_readWord_zero :
    (readWord base 0).forget heap = .ok (heap.mem.load32 base, heap) := by
  rw [forget_readWord]
  simp

theorem forget_writeWord_zero : (writeWord base 0 v).forget heap =
    .ok ((), { heap with mem := heap.mem.store32 base v }) := by
  rw [forget_writeWord]
  simp

theorem forget_assert {holds : Bool} {expression : String} :
    (assert holds expression).forget heap =
      (Hjortron.assert holds expression).map fun u => (u, heap) :=
  Logged.forget_call

theorem forget_findNode (fuel : Nat) :
    (findNode value fuel node).forget heap =
      (Hjortron.findNode heap.mem value fuel node).map (·, heap) := by
  induction fuel generalizing node with
  | zero => rfl
  | succ fuel ih =>
    unfold findNode Hjortron.findNode
    by_cases hnode : node = 0
    · rw [if_pos hnode, if_pos hnode]
      rfl
    · rw [if_neg hnode, if_neg hnode, Logged.forget_bind, forget_readWord]
      show Logged.forget (if nodeValue heap.mem node = value then _ else _) heap = _
      by_cases hvalue : nodeValue heap.mem node = value
      · rw [if_pos hvalue, if_pos hvalue]
        rfl
      · rw [if_neg hvalue, if_neg hvalue, Logged.forget_bind, forget_readWord]
        exact ih

theorem forget_listFind :
    (listFind list value).forget heap = (heap.listFind list value).map (·, heap) := by
  unfold listFind Heap.listFind
  rw [Logged.forget_bind, forget_assert]
  cases list != 0 with
  | false => rfl
  | true =>
    show Logged.forget _ heap = _
    rw [Logged.forget_bind, forget_assert]
    cases value != 0 with
    | false => rfl
    | true =>
      show Logged.forget _ heap = _
      rw [Logged.forget_bind_ok forget_readWord_zero]
      exact forget_findNode _

theorem forget_replaceHead {next : Word} : (replaceHead list node next).forget heap =
    .ok ((), { heap with
      mem := if listHead heap.mem list = node then setListHead heap.mem list next
        else heap.mem }) := by
  unfold replaceHead
  rw [Logged.forget_bind_ok forget_readWord_zero]
  by_cases hhead : listHead heap.mem list = node
  · rw [if_pos hhead]
    exact (congrArg (Logged.forget · heap) (if_pos hhead)).trans forget_writeWord_zero
  · rw [if_neg hhead]
    exact congrArg (Logged.forget · heap) (if_neg hhead)

theorem forget_unlinkNode : (unlinkNode list node).forget heap =
    .ok ((), { heap with mem := Hjortron.unlinkNode heap.mem list node }) := by
  unfold unlinkNode
  rw [Logged.forget_bind_ok forget_readWord_zero, Logged.forget_bind_ok forget_readWord,
    Logged.forget_bind_ok forget_writeWord, Logged.forget_bind_ok forget_writeWord_zero,
    Logged.forget_bind_ok forget_replaceHead, Logged.forget_bind_ok forget_readWord,
    forget_writeWord]
  rfl

/-- `list_delete` of `Hjortron.LinkedList` does the same to the heap. -/
theorem forget_listDelete :
    (listDelete list value).forget heap = (heap.listDelete list value).map ((), ·) := by
  unfold listDelete Heap.listDelete
  rw [Logged.forget_bind, forget_assert]
  cases list != 0 with
  | false => rfl
  | true =>
    show Logged.forget _ heap = _
    rw [Logged.forget_bind, forget_assert]
    cases value != 0 with
    | false => rfl
    | true =>
      show Logged.forget _ heap = _
      rw [Logged.forget_bind, forget_listFind]
      cases heap.listFind list value with
      | error e => rfl
      | ok node =>
        show Logged.forget (Traced.assert (node != 0) "node" >>= _) heap =
          Except.map _ (Hjortron.assert (node != 0) "node" >>= _)
        rw [Logged.forget_bind, forget_assert]
        cases node != 0 with
        | false => rfl
        | true =>
          show Logged.forget _ heap = _
          rw [Logged.forget_bind_ok forget_unlinkNode, Logged.forget_call]
          rfl

end

end Traced

end Hjortron
