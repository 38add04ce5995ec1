import Hjortron.Execution.Elf
import Hjortron.Filesystem.Driver

/-!
# What `elf_read` does on its way

The calls of `memcpy` that the copying loop makes, and `elf_read` with its calls of `malloc` and
`free` logged. Both agree with the code of `Hjortron.Execution.Elf`.
-/

namespace Hjortron

/-- A call of `memcpy`. -/
structure MemcpyCall where
  dest : Word
  src : Word
  len : Word
  deriving DecidableEq, Repr

def MemcpyCall.run (m : Mem) (call : MemcpyCall) : Mem := memcpy m call.dest call.src call.len

/-- The calls of `memcpy` in the loop that copies the sections, from section `i` on. -/
def copyCalls (header fileBuffer relocBuffer : Word) : Nat → Nat → Mem → List MemcpyCall
  | 0, _, _ => []
  | fuel + 1, i, m =>
    if i < (eShnum m header).toNat then
      let sh := elfFindSh m header (BitVec.ofNat 32 i)
      if !shAlloc m sh || shType m sh ≠ shtProgbits then
        copyCalls header fileBuffer relocBuffer fuel (i + 1) m
      else
        let call : MemcpyCall :=
          ⟨relocBuffer + shAddr m sh, fileBuffer + shOffset m sh, shSize m sh⟩
        call :: copyCalls header fileBuffer relocBuffer fuel (i + 1) (call.run m)
    else []

/-- The loop does nothing but these calls. -/
theorem copyLoop_eq_foldl (header fileBuffer relocBuffer : Word) (fuel i : Nat) (m : Mem) :
    copyLoop header fileBuffer relocBuffer fuel i m =
      (copyCalls header fileBuffer relocBuffer fuel i m).foldl MemcpyCall.run m := by
  induction fuel generalizing i m with
  | zero => rfl
  | succ fuel ih =>
    simp only [copyLoop, copyCalls]
    split_ifs
    · exact ih (i + 1) m
    · exact ih (i + 1) _
    · rfl

/-- `elf_read` of a file of `len` bytes. The result holds whether the end of the function is
reached, `*buffer` and `*entry`. -/
def elfReadLogged (fsRead : Word → Word → Driver.Action Unit) (len buffer entry : Word) :
    Driver.Action (Bool × Word × Word) := do
  let fileBuffer ← Driver.malloc len
  fsRead fileBuffer len
  let header := fileBuffer
  .call fun heap => (assert (elfCheckFile heap.mem header) "elf_check_file(header)").map (·, heap)
  .call fun heap =>
    (assert (elfCheckSupport heap.mem header) "elf_check_support(header)").map (·, heap)
  let len ← .read fun heap => imageLengthLoop heap.mem header (2 ^ 16) 0 0
  let relocBuffer ← Driver.malloc len
  Driver.write fun m => memset m relocBuffer 0 len
  Driver.write fun m => copyLoop header fileBuffer relocBuffer (2 ^ 16) 0 m
  let relocated ← .call fun heap =>
    (relocateLoop header fileBuffer relocBuffer (2 ^ 16) 0 heap.mem).map
      fun r => (r.2, { heap with mem := r.1 })
  Driver.free fileBuffer
  if relocated then do
    let entry ← .read fun heap => eEntry heap.mem header
    return (true, relocBuffer, entry)
  else
    return (false, buffer, entry)

theorem Driver.forget_malloc (heap : Heap) (len : Word) :
    (Driver.malloc len).forget heap = Hjortron.malloc heap len := by
  rw [Driver.malloc, Logged.forget_bind, Logged.forget_call]
  cases Hjortron.malloc heap len <;> rfl

theorem Driver.forget_free (heap : Heap) (ptr : Word) :
    (Driver.free ptr).forget heap = (Hjortron.free heap ptr).map ((), ·) := by
  rw [Driver.free, Logged.forget_bind, Logged.forget_call]
  cases Hjortron.free heap ptr <;> rfl

/-- Without the log, the code is `elf_read`. -/
theorem forget_elfReadLogged (fsRead : Word → Word → Driver.Action Unit) (heap : Heap)
    (len buffer entry : Word) :
    ((elfReadLogged fsRead len buffer entry).forget heap).map (fun r => (r.2, r.1.2)) =
      elfRead (fun heap ptr len => ((fsRead ptr len).forget heap).map Prod.snd) heap len buffer
        entry := by
  rw [elfReadLogged, elfRead, Logged.forget_bind, Driver.forget_malloc]
  rcases Hjortron.malloc heap len with _ | ⟨fileBuffer, heap⟩
  · rfl
  change Except.map _ ((fsRead fileBuffer len >>= _).forget heap) =
    (Except.map Prod.snd ((fsRead fileBuffer len).forget heap) >>= _)
  rw [Logged.forget_bind]
  rcases (fsRead fileBuffer len).forget heap with _ | ⟨_, heap⟩
  · rfl
  change Except.map _ ((Logged.call _ >>= _).forget heap) =
    (assert (elfCheckFile heap.mem fileBuffer) _ >>= _)
  rw [Logged.forget_bind, Logged.forget_call]
  rcases assert (elfCheckFile heap.mem fileBuffer) _ with _ | _
  · rfl
  change Except.map _ ((Logged.call _ >>= _).forget heap) =
    (assert (elfCheckSupport heap.mem fileBuffer) _ >>= _)
  rw [Logged.forget_bind, Logged.forget_call]
  rcases assert (elfCheckSupport heap.mem fileBuffer) _ with _ | _
  · rfl
  change Except.map _ ((Logged.read _ >>= _).forget heap) =
    (Hjortron.malloc heap (imageLengthLoop heap.mem fileBuffer (2 ^ 16) 0 0) >>= _)
  rw [Logged.forget_bind_read]
  generalize imageLengthLoop heap.mem fileBuffer (2 ^ 16) 0 0 = len
  rw [Logged.forget_bind, Driver.forget_malloc]
  rcases Hjortron.malloc heap len with _ | ⟨relocBuffer, heap⟩
  · rfl
  change Except.map _ ((Logged.modify _ >>= _).forget heap) =
    (relocateLoop fileBuffer fileBuffer relocBuffer (2 ^ 16) 0 _ >>= _)
  rw [Logged.forget_bind_modify]
  change Except.map _ ((Logged.modify _ >>= _).forget _) = _
  rw [Logged.forget_bind_modify, Logged.forget_bind, Logged.forget_call]
  dsimp only
  rcases relocateLoop fileBuffer fileBuffer relocBuffer _ _ _ with _ | ⟨mem, relocated⟩
  · rfl
  change Except.map _ ((Driver.free fileBuffer >>= _).forget _) = (Hjortron.free _ _ >>= _)
  rw [Logged.forget_bind, Driver.forget_free]
  rcases Hjortron.free _ fileBuffer with _ | heap
  · rfl
  cases relocated <;> rfl

end Hjortron
