import Hjortron.Memory.Malloc

/-!
# Failed assertions of the allocator and `hlt`

`_assert` executes a single `hlt`. With the interrupt flag clear the processor stays there. With
the flag set the next interrupt wakes it, and when its handlers are done `_assert` returns to the
function whose assertion failed. The functions of `malloc.c` are given here once more, with every
`assert` so treated. A call that stops says in which state it left the heap.
-/

namespace Hjortron

/-- What decides how a `hlt` ends: the interrupt flag, and what the handlers, with all that runs
before they return, make of the heap. -/
structure Cpu where
  interruptFlag : Bool
  handlers : Heap → Heap

/-- `irq_enable` (`kernel/src/cpu/irq.c`). -/
def irqEnable (cpu : Cpu) : Cpu := { cpu with interruptFlag := true }

namespace Hlt

/-- `assert(expression)`; the result is the heap that the next statement finds. -/
def assert (cpu : Cpu) (holds : Bool) (expression : String) (heap : Heap) :
    Except (Halt × Heap) Heap :=
  if holds then
    .ok heap
  else if cpu.interruptFlag then
    .ok (cpu.handlers heap)
  else
    .error (.assertion expression, heap)

/-- `malloc`. -/
def malloc (cpu : Cpu) (heap : Heap) (len : Word) : Except (Halt × Heap) (Word × Heap) := do
  let heap ← assert cpu heap.initialized "initialized" heap
  let heap ← assert cpu (len != 0) "len" heap
  let chunk ← (findChunk heap.mem len (2 ^ 32) heap.startChunk).mapError (·, heap)
  let heap ← assert cpu (chunk != 0) "chunk" heap
  return (chunk + sizeofMemoryChunk, { heap with mem := takeChunk heap.mem chunk len })

/-- `free`. -/
def free (cpu : Cpu) (heap : Heap) (ptr : Word) : Except (Halt × Heap) Heap := do
  let heap ← assert cpu heap.initialized "initialized" heap
  let heap ← assert cpu (ptr != 0) "ptr" heap
  let chunk := ptr - sizeofMemoryChunk
  let heap ← assert cpu (allocated heap.mem chunk) "chunk->allocated" heap
  let mem := setAllocated heap.mem chunk false
  let (mem, chunk) := mergePrevious mem chunk
  return { heap with mem := mergeNext mem chunk }

/-- `realloc`. -/
def realloc (cpu : Cpu) (heap : Heap) (ptr len : Word) :
    Except (Halt × Heap) (Word × Heap) := do
  let heap ← assert cpu heap.initialized "initialized" heap
  let heap ← assert cpu (ptr != 0) "ptr" heap
  let heap ← assert cpu (len != 0) "len" heap
  let chunk := ptr - sizeofMemoryChunk
  if len ≤ chunkLen heap.mem chunk then
    return (ptr, heap)
  let (nextPtr, heap) ← malloc cpu heap len
  let heap ← assert cpu (nextPtr != 0) "next_ptr" heap
  let heap := { heap with mem := memcpy heap.mem nextPtr ptr (chunkLen heap.mem chunk) }
  let heap ← free cpu heap ptr
  return (nextPtr, heap)

/-! ## With interrupts disabled -/

variable {cpu : Cpu} {heap : Heap} {ptr len : Word} {holds : Bool} {expression : String}

@[simp] theorem assert_true : assert cpu true expression heap = .ok heap := rfl

theorem assert_disabled (h : cpu.interruptFlag = false) :
    assert cpu holds expression heap =
      ((Hjortron.assert holds expression).map fun _ => heap).mapError (·, heap) := by
  cases holds with
  | true => rfl
  | false => simp [assert, h, Except.map, Except.mapError]

/-- `malloc` has written nothing when it stops. -/
theorem malloc_disabled (h : cpu.interruptFlag = false) :
    malloc cpu heap len = (Hjortron.malloc heap len).mapError (·, heap) := by
  unfold malloc Hjortron.malloc
  simp only [assert_disabled h]
  cases Hjortron.assert heap.initialized "initialized" with
  | error e => rfl
  | ok _ =>
    cases Hjortron.assert (len != 0) "len" with
    | error e => rfl
    | ok _ =>
      simp only [Except.map, Except.mapError, bind, Except.bind, pure, Except.pure]
      cases findChunk heap.mem len (2 ^ 32) heap.startChunk with
      | error e => rfl
      | ok chunk =>
        dsimp only
        cases Hjortron.assert (chunk != 0) "chunk" <;> rfl

/-- `free` has written nothing when it stops. -/
theorem free_disabled (h : cpu.interruptFlag = false) :
    free cpu heap ptr = (Hjortron.free heap ptr).mapError (·, heap) := by
  unfold free Hjortron.free
  simp only [assert_disabled h]
  cases Hjortron.assert heap.initialized "initialized" with
  | error e => rfl
  | ok _ =>
    cases Hjortron.assert (ptr != 0) "ptr" with
    | error e => rfl
    | ok _ =>
      simp only [Except.map, Except.mapError, bind, Except.bind, pure, Except.pure]
      cases Hjortron.assert (allocated heap.mem (ptr - sizeofMemoryChunk)) "chunk->allocated" <;>
        rfl

/-- `realloc` stops for the reasons it stops for without interrupts. -/
theorem realloc_disabled (h : cpu.interruptFlag = false) :
    (realloc cpu heap ptr len).mapError Prod.fst = Hjortron.realloc heap ptr len := by
  unfold realloc Hjortron.realloc
  simp only [assert_disabled h, malloc_disabled h, free_disabled h]
  cases Hjortron.assert heap.initialized "initialized" with
  | error e => rfl
  | ok _ =>
    cases Hjortron.assert (ptr != 0) "ptr" with
    | error e => rfl
    | ok _ =>
      cases Hjortron.assert (len != 0) "len" with
      | error e => rfl
      | ok _ =>
        simp only [Except.map, Except.mapError, bind, Except.bind, pure, Except.pure]
        by_cases hle : len ≤ chunkLen heap.mem (ptr - sizeofMemoryChunk)
        · simp only [if_pos hle]
        · simp only [if_neg hle]
          cases Hjortron.malloc heap len with
          | error e => rfl
          | ok r =>
            obtain ⟨nextPtr, heap⟩ := r
            dsimp only
            cases Hjortron.assert (nextPtr != 0) "next_ptr" with
            | error e => rfl
            | ok _ =>
              dsimp only
              cases Hjortron.free _ ptr <;> rfl

end Hlt

end Hjortron
