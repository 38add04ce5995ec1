import Hjortron.Memory.Malloc

/-!
# `kernel/src/list.c`

A list is a heap block with the address of the first node and the number of nodes; a node is a
heap block of three words. Memory is flat and unpaged: the members of NULL are the bytes from
address 0 on, and `list_delete` does write them.
-/

namespace Hjortron

/-- `sizeof(node_t)`. -/
def sizeofNode : Word := 12

/-- `sizeof(list_t)`. -/
def sizeofList : Word := 8

/-! ## The fields of `node_t` and `list_t` -/

def nodePrevious (m : Mem) (node : Word) : Word := m.load32 node
def nodeNext (m : Mem) (node : Word) : Word := m.load32 (node + 4)
def nodeValue (m : Mem) (node : Word) : Word := m.load32 (node + 8)

def setNodePrevious (m : Mem) (node v : Word) : Mem := m.store32 node v
def setNodeNext (m : Mem) (node v : Word) : Mem := m.store32 (node + 4) v
def setNodeValue (m : Mem) (node v : Word) : Mem := m.store32 (node + 8) v

def listHead (m : Mem) (list : Word) : Word := m.load32 list
def listLength (m : Mem) (list : Word) : Word := m.load32 (list + 4)

def setListHead (m : Mem) (list v : Word) : Mem := m.store32 list v
def setListLength (m : Mem) (list v : Word) : Mem := m.store32 (list + 4) v

/-! ## The operations -/

/-- `list_create`. The fields of the new list are whatever the block holds. -/
def Heap.listCreate (heap : Heap) : Except Halt (Word × Heap) := do
  let (list, heap) ← malloc heap sizeofList
  assert (list != 0) "list"
  return (list, heap)

/-- The loop of `list_find`. A walk over as many nodes as there are addresses never ends. -/
def findNode (m : Mem) (value : Word) : Nat → Word → Except Halt Word
  | 0, _ => .error .diverges
  | fuel + 1, node =>
    if node = 0 then
      .ok 0
    else if nodeValue m node = value then
      .ok node
    else
      findNode m value fuel (nodeNext m node)

/-- `list_find`. -/
def Heap.listFind (heap : Heap) (list value : Word) : Except Halt Word := do
  assert (list != 0) "list"
  assert (value != 0) "value"
  findNode heap.mem value (2 ^ 32) (listHead heap.mem list)

/-- The loop of `list_insert`: the last node from `node` on. -/
def lastNode (m : Mem) : Nat → Word → Except Halt Word
  | 0, _ => .error .diverges
  | fuel + 1, node =>
    if nodeNext m node ≠ 0 then
      lastNode m fuel (nodeNext m node)
    else
      .ok node

/-- The fields that `list_insert` gives the new node first. -/
def initNode (m : Mem) (new value : Word) : Mem :=
  let m := setNodePrevious m new 0
  let m := setNodeNext m new 0
  setNodeValue m new value

/-- The part of `list_insert` after `assert(new)`. -/
def appendNode (m : Mem) (list new value : Word) : Except Halt Mem := do
  let m := initNode m new value
  if listHead m list = 0 then
    let m := setListHead m list new
    return setListLength m list (listLength m list + 1)
  let node ← lastNode m (2 ^ 32) (listHead m list)
  let m := setNodeNext m node new
  let m := setNodePrevious m new node
  return setListLength m list (listLength m list + 1)

/-- `list_insert`. -/
def Heap.listInsert (heap : Heap) (list value : Word) : Except Halt Heap := do
  assert (list != 0) "list"
  assert (value != 0) "value"
  let (new, heap) ← malloc heap sizeofNode
  assert (new != 0) "new"
  let mem ← appendNode heap.mem list new value
  return { heap with mem }

/-- The writes of `list_delete` when `node` has been found. -/
def unlinkNode (m : Mem) (list node : Word) : Mem :=
  let previous := nodePrevious m node
  let next := nodeNext m node
  let m := setNodeNext m previous next
  let m := setNodePrevious m next previous
  let m := if listHead m list = node then setListHead m list next else m
  setListLength m list (listLength m list - 1)

/-- `list_delete`. -/
def Heap.listDelete (heap : Heap) (list value : Word) : Except Halt Heap := do
  assert (list != 0) "list"
  assert (value != 0) "value"
  let node ← heap.listFind list value
  assert (node != 0) "node"
  free { heap with mem := unlinkNode heap.mem list node } node

end Hjortron
