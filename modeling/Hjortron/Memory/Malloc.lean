import Hjortron.Assert
import Hjortron.Misc.FlatMemory

/-!
# `kernel/src/memory/malloc.c`

The allocator keeps a doubly linked list of chunks threaded through 16-byte headers that lie
in the managed memory itself, in front of each payload. The three static variables are the
fields of `Heap` next to the flat memory; `KERNEL_END` is a symbol of the linker script and a
parameter here. Messages written by `info` and `warn` are left out.
-/

namespace Hjortron

/-- `memory_map_entry` (`kernel/include/cpu/boot.h`), without the unused `acpi` field. -/
structure MemoryMapEntry where
  base : BitVec 64
  len : BitVec 64
  type : Word
  deriving DecidableEq, Repr

/-- `E820_ENTRY_FREE`. -/
def e820EntryFree : Word := 0x1

/-- `sizeof(memory_chunk)`. -/
def sizeofMemoryChunk : Word := 16

/-- The flat memory and the static variables of `malloc.c`. -/
structure Heap where
  mem : Mem
  initialized : Bool
  startChunk : Word
  len : Word

/-- The statics before `malloc_init` runs. -/
def Heap.boot (mem : Mem) : Heap := ⟨mem, false, 0, 0⟩

/-! ## The fields of `memory_chunk` -/

def previousChunk (m : Mem) (chunk : Word) : Word := m.load32 chunk
def nextChunk (m : Mem) (chunk : Word) : Word := m.load32 (chunk + 4)
def allocated (m : Mem) (chunk : Word) : Bool := m (chunk + 8) != 0
def chunkLen (m : Mem) (chunk : Word) : Word := m.load32 (chunk + 12)

def setPreviousChunk (m : Mem) (chunk v : Word) : Mem := m.store32 chunk v
def setNextChunk (m : Mem) (chunk v : Word) : Mem := m.store32 (chunk + 4) v
def setAllocated (m : Mem) (chunk : Word) (v : Bool) : Mem :=
  m.store8 (chunk + 8) (if v then 1 else 0)
def setChunkLen (m : Mem) (chunk v : Word) : Mem := m.store32 (chunk + 12) v

/-! ## `malloc_init` -/

/-- The test for the entry that holds the start chunk; the comparisons are in 64 bits. -/
def MemoryMapEntry.holdsKernelEnd (kernelEnd : Word) (entry : MemoryMapEntry) : Bool :=
  entry.base < kernelEnd.setWidth 64 && kernelEnd.setWidth 64 ≤ entry.base + entry.len

/-- One iteration of the loop over the map; the second component is the local `chunk`. -/
def mallocInitEntry (kernelEnd : Word) (state : Heap × Word) (entry : MemoryMapEntry) :
    Heap × Word :=
  let (heap, chunk) := state
  if entry.type ≠ e820EntryFree then
    (heap, chunk)
  else if heap.startChunk = 0 then
    -- find start chunk
    if entry.holdsKernelEnd kernelEnd then
      let startChunk := kernelEnd
      let mem := setNextChunk heap.mem startChunk 0
      let mem := setPreviousChunk mem startChunk 0
      let mem := setAllocated mem startChunk false
      let mem := setChunkLen mem startChunk
        ((entry.base + entry.len - kernelEnd.setWidth 64 -
          sizeofMemoryChunk.setWidth 64).setWidth 32)
      ({ heap with mem, startChunk, len := heap.len + chunkLen mem startChunk }, startChunk)
    else
      (heap, chunk)
  else
    -- find additional chunks
    let next := entry.base.setWidth 32
    let mem := setNextChunk heap.mem next 0
    let mem := setPreviousChunk mem next chunk
    let mem := setAllocated mem next false
    let mem := setChunkLen mem next ((entry.len - sizeofMemoryChunk.setWidth 64).setWidth 32)
    let mem := setNextChunk mem chunk next
    ({ heap with mem, len := heap.len + chunkLen mem next }, next)

/-- `malloc_init`. -/
def mallocInit (kernelEnd : Word) (mmap : List MemoryMapEntry) (heap : Heap) :
    Except Halt Heap := do
  let (heap, _) := mmap.foldl (mallocInitEntry kernelEnd) (heap, 0)
  assert (heap.startChunk != 0) "start_chunk"
  return { heap with initialized := true }

/-! ## `malloc` -/

/-- The search of `malloc`: the first free chunk that is long enough, or `NULL`. A walk that
does not end within as many nodes as there are addresses visits one of them twice and never
ends. -/
def findChunk (m : Mem) (len : Word) : Nat → Word → Except Halt Word
  | 0, _ => .error .diverges
  | fuel + 1, chunk =>
    if chunk = 0 then
      .ok chunk
    else if !allocated m chunk && len ≤ chunkLen m chunk then
      .ok chunk
    else
      findChunk m len fuel (nextChunk m chunk)

/-- The split of `malloc`: the tail of `chunk` becomes a free chunk of its own. -/
def splitChunk (m : Mem) (chunk len : Word) : Mem :=
  let newChunk := chunk + len + sizeofMemoryChunk
  let m := setPreviousChunk m newChunk chunk
  let m := setNextChunk m newChunk (nextChunk m chunk)
  let m := setAllocated m newChunk false
  let m := setChunkLen m newChunk (chunkLen m chunk - len - sizeofMemoryChunk)
  let m :=
    if nextChunk m newChunk ≠ 0 then
      setPreviousChunk m (nextChunk m newChunk) newChunk
    else
      m
  let m := setChunkLen m chunk len
  setNextChunk m chunk newChunk

/-- The part of `malloc` after `assert(chunk)`. -/
def takeChunk (m : Mem) (chunk len : Word) : Mem :=
  let m :=
    if len + sizeofMemoryChunk < chunkLen m chunk then
      splitChunk m chunk len
    else
      m
  setAllocated m chunk true

/-- `malloc`. -/
def malloc (heap : Heap) (len : Word) : Except Halt (Word × Heap) := do
  assert heap.initialized "initialized"
  assert (len != 0) "len"
  let chunk ← findChunk heap.mem len (2 ^ 32) heap.startChunk
  assert (chunk != 0) "chunk"
  return (chunk + sizeofMemoryChunk, { heap with mem := takeChunk heap.mem chunk len })

/-! ## `free` -/

/-- The first merge of `free`: the previous chunk absorbs `chunk`. Returns the chunk that the
rest of the function works on. -/
def mergePrevious (m : Mem) (chunk : Word) : Mem × Word :=
  if previousChunk m chunk ≠ 0 ∧ allocated m (previousChunk m chunk) = false then
    let m := setNextChunk m (previousChunk m chunk) (nextChunk m chunk)
    let m := setChunkLen m (previousChunk m chunk)
      (chunkLen m (previousChunk m chunk) + (chunkLen m chunk + sizeofMemoryChunk))
    let m :=
      if nextChunk m chunk ≠ 0 then
        setPreviousChunk m (nextChunk m chunk) (previousChunk m chunk)
      else
        m
    (m, previousChunk m chunk)
  else
    (m, chunk)

/-- The second merge of `free`: `chunk` absorbs the next chunk. -/
def mergeNext (m : Mem) (chunk : Word) : Mem :=
  if nextChunk m chunk ≠ 0 ∧ allocated m (nextChunk m chunk) = false then
    let m := setChunkLen m chunk
      (chunkLen m chunk + (chunkLen m (nextChunk m chunk) + sizeofMemoryChunk))
    let m := setNextChunk m chunk (nextChunk m (nextChunk m chunk))
    if nextChunk m chunk ≠ 0 then
      setPreviousChunk m (nextChunk m chunk) chunk
    else
      m
  else
    m

/-- `free`. -/
def free (heap : Heap) (ptr : Word) : Except Halt Heap := do
  assert heap.initialized "initialized"
  assert (ptr != 0) "ptr"
  let chunk := ptr - sizeofMemoryChunk
  assert (allocated heap.mem chunk) "chunk->allocated"
  let mem := setAllocated heap.mem chunk false
  let (mem, chunk) := mergePrevious mem chunk
  return { heap with mem := mergeNext mem chunk }

/-! ## `realloc` -/

/-- `memcpy` (`kernel/src/string.c`): a forward loop over bytes. -/
def memcpy (m : Mem) (dest src len : Word) : Mem := m.copy dest src len.toNat

/-- `realloc`. -/
def realloc (heap : Heap) (ptr len : Word) : Except Halt (Word × Heap) := do
  assert heap.initialized "initialized"
  assert (ptr != 0) "ptr"
  assert (len != 0) "len"
  let chunk := ptr - sizeofMemoryChunk
  if len ≤ chunkLen heap.mem chunk then
    return (ptr, heap)
  let (nextPtr, heap) ← malloc heap len
  assert (nextPtr != 0) "next_ptr"
  let heap := { heap with mem := memcpy heap.mem nextPtr ptr (chunkLen heap.mem chunk) }
  let heap ← free heap ptr
  return (nextPtr, heap)

end Hjortron
