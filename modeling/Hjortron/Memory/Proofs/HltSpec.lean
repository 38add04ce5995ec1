import Hjortron.Memory.Hlt
import Hjortron.Memory.Proofs.BootStack
import Hjortron.Memory.Proofs.Ledger

/-!
# Requests that cannot be met

When no free chunk is long enough the search of `malloc` ends at `NULL` and `assert(chunk)` fails.
Whether the request is refused is then up to the interrupt flag alone: a processor that stays in
`hlt` has written nothing, and one that is woken takes the chunk at `NULL` and returns the pointer
behind its header. As little as possible is assumed of the heap: the list of chunks ends.
-/

namespace Hjortron

open BlockList

/-- The list of chunks ends. -/
def ChunksEnd (heap : Heap) : Prop := ∃ k, (nextChunk heap.mem)^[k] heap.startChunk = 0

/-- No chunk of the list is free and has `len` bytes. -/
def Unservable (heap : Heap) (len : Word) : Prop :=
  ∀ chunk, ¬ FirstFit heap.mem len heap.startChunk chunk

/-- A call of `realloc` that passes its assertions and has to move the block. -/
structure NeedsBlock (heap : Heap) (ptr len : Word) : Prop where
  initialized : heap.initialized = true
  ptr_ne_zero : ptr ≠ 0
  outgrown : chunkLen heap.mem (ptr - sizeofMemoryChunk) < len

/-- A call that never returns and leaves the heap as it found it. -/
def StopsUntouched {α : Type} (heap : Heap) (result : Except (Halt × Heap) α) : Prop :=
  ∃ reason, result = .error (reason, heap)

section

variable {cpu : Cpu} {heap : Heap} {m : Mem} {chunk ptr len : Word} {bs : List Block}
  {holds : Bool} {expression : String}

/-! ## The search -/

theorem findChunk_of_iterate {j fuel : Nat} (h : (nextChunk m)^[j] chunk = 0) (hj : j < fuel) :
    ∃ found, findChunk m len fuel chunk = .ok found := by
  induction fuel generalizing chunk j with
  | zero => cases hj
  | succ fuel ih =>
    rw [findChunk]
    by_cases hz : chunk = 0
    · exact ⟨chunk, if_pos hz⟩
    · rw [if_neg hz]
      by_cases hfit : (!allocated m chunk && len ≤ chunkLen m chunk) = true
      · exact ⟨chunk, if_pos hfit⟩
      · rw [if_neg hfit]
        cases j with
        | zero => exact absurd h hz
        | succ j =>
          apply ih _ (by omega : j < fuel)
          rwa [Function.iterate_succ_apply] at h

/-- The search comes to an end within its fuel. -/
theorem ChunksEnd.findChunk (h : ChunksEnd heap) (len : Word) :
    ∃ found, findChunk heap.mem len (2 ^ 32) heap.startChunk = .ok found := by
  obtain ⟨k, hk⟩ := h
  obtain ⟨j, hj, hk⟩ := exists_iterate_eq_lt hk
  exact findChunk_of_iterate hk hj

theorem ChunksEnd.findChunk_null (h : ChunksEnd heap) (hfull : Unservable heap len) :
    Hjortron.findChunk heap.mem len (2 ^ 32) heap.startChunk = .ok 0 := by
  obtain ⟨found, hfound⟩ := h.findChunk len
  by_cases hz : found = 0
  · rw [hfound, hz]
  · exact absurd (findChunk_firstFit hfound hz) (hfull found)

/-! ## The heaps of the allocator -/

theorem iterate_nextChunk_linked {p : Word} (hlink : Linked m p bs 0) :
    (nextChunk m)^[bs.length] (headPtr bs 0) = 0 := by
  induction bs generalizing p with
  | nil => rfl
  | cons b bs ih =>
    obtain ⟨hhd, hrest⟩ := hlink
    change (nextChunk m)^[bs.length + 1] (chunkPtr b) = 0
    rw [Function.iterate_succ_apply, nextChunk_of_header hhd]
    exact ih hrest

theorem exists_fits_of_firstFit {p : Word} (hl : Layout bs) (hlink : Linked m p bs 0)
    (h : FirstFit m len (headPtr bs 0) chunk) : ∃ b ∈ bs, b.Fits len.toNat := by
  induction bs generalizing p with
  | nil =>
    cases h with
    | here hne => exact absurd rfl hne
    | next hne => exact absurd rfl hne
  | cons b bs ih =>
    obtain ⟨hhd, hrest⟩ := hlink
    change FirstFit m len (chunkPtr b) chunk at h
    cases h with
    | here _ hfree hroom =>
      refine ⟨b, List.mem_cons_self, (fits_iff len hl.spread List.mem_cons_self hhd).mp ?_⟩
      simp [hfree, hroom]
    | next _ _ h =>
      rw [nextChunk_of_header hhd] at h
      obtain ⟨c, hc, hfits⟩ := ih hl.tail hrest h
      exact ⟨c, List.mem_cons_of_mem b hc, hfits⟩

theorem HeapInv.chunksEnd (h : HeapInv heap bs) : ChunksEnd heap := by
  refine ⟨bs.length, ?_⟩
  rw [h.chunks.start_eq]
  exact iterate_nextChunk_linked h.chunks.linked

theorem HeapInv.unservable (h : HeapInv heap bs) (hfits : ∀ b ∈ bs, ¬ b.Fits len.toNat) :
    Unservable heap len := by
  intro chunk hfirst
  rw [h.chunks.start_eq] at hfirst
  obtain ⟨b, hb, hfit⟩ := exists_fits_of_firstFit h.layout h.chunks.linked hfirst
  exact hfits b hb hfit

theorem takeChunk_mark (m : Mem) (chunk len : Word) : takeChunk m chunk len (chunk + 8) = 1 :=
  Mem.store8_self 1

theorem not_stops_of_returns {α : Type} {result : Except (Halt × Heap) α}
    (h : ∃ r, result = .ok r) : ¬ StopsUntouched heap result := by
  rintro ⟨reason, hstop⟩
  obtain ⟨r, hr⟩ := h
  rw [hr] at hstop
  cases hstop

namespace Hlt

/-! ## With interrupts enabled -/

section

variable (hflag : cpu.interruptFlag = true)

include hflag

/-- What follows an assertion is executed, with a heap that the handlers may have changed. -/
theorem returns_after_assert {α : Type} {I : Heap → Prop} {f : Heap → Except (Halt × Heap) α}
    (hkeep : ∀ heap, I heap → I (cpu.handlers heap)) (h : I heap)
    (hf : ∀ heap, I heap → ∃ r, f heap = .ok r) :
    ∃ r, (assert cpu holds expression heap >>= f) = .ok r := by
  unfold assert
  rw [if_pos hflag]
  cases holds with
  | true => exact hf heap h
  | false => exact hf _ (hkeep heap h)

/-- `malloc` returns a pointer whatever it is asked for. -/
theorem malloc_returns (len : Word)
    (hkeep : ∀ heap, ChunksEnd heap → ChunksEnd (cpu.handlers heap)) (h : ChunksEnd heap) :
    ∃ r, malloc cpu heap len = .ok r := by
  apply returns_after_assert hflag hkeep h
  intro heap h
  apply returns_after_assert hflag hkeep h
  intro heap h
  obtain ⟨chunk, hchunk⟩ := h.findChunk len
  rw [hchunk]
  apply returns_after_assert hflag hkeep h
  intro heap _
  exact ⟨_, rfl⟩

/-- `free` returns whatever it is given. -/
theorem free_returns (heap : Heap) (ptr : Word) : ∃ r, free cpu heap ptr = .ok r := by
  apply returns_after_assert (I := fun _ => True) hflag (fun _ h => h) trivial
  intro heap _
  apply returns_after_assert (I := fun _ => True) hflag (fun _ h => h) trivial
  intro heap _
  apply returns_after_assert (I := fun _ => True) hflag (fun _ h => h) trivial
  intro heap _
  exact ⟨_, rfl⟩

theorem realloc_returns (hkeep : ∀ heap, ChunksEnd heap → ChunksEnd (cpu.handlers heap))
    (h : ChunksEnd heap) : ∃ r, realloc cpu heap ptr len = .ok r := by
  apply returns_after_assert hflag hkeep h
  intro heap h
  apply returns_after_assert hflag hkeep h
  intro heap h
  apply returns_after_assert hflag hkeep h
  intro heap h
  by_cases hle : len ≤ chunkLen heap.mem (ptr - sizeofMemoryChunk)
  · exact ⟨_, if_pos hle⟩
  · dsimp only
    rw [if_neg hle]
    obtain ⟨⟨nextPtr, heap'⟩, hmalloc⟩ := malloc_returns hflag len hkeep h
    rw [hmalloc]
    apply returns_after_assert (I := fun _ => True) hflag (fun _ h => h) trivial
    intro heap _
    dsimp only
    generalize memcpy heap.mem nextPtr ptr _ = mem
    obtain ⟨heap', hfree⟩ := free_returns hflag { heap with mem } ptr
    rw [hfree]
    exact ⟨_, rfl⟩

/-- What `malloc` returns then: a chunk at `NULL` is split if the bytes there say so, and marked. -/
theorem malloc_null (hinit : heap.initialized = true) (hlen : len ≠ 0) (h : ChunksEnd heap)
    (hfull : Unservable heap len) :
    malloc cpu heap len = .ok (sizeofMemoryChunk, { cpu.handlers heap with
      mem := takeChunk (cpu.handlers heap).mem 0 len }) := by
  have h1 : (len != 0) = true := by simpa using hlen
  unfold malloc
  simp only [hinit, h1, assert_true, h.findChunk_null hfull, bind, Except.bind, Except.mapError]
  simp [assert, hflag, pure, Except.pure]

end

/-! ## With interrupts disabled -/

theorem malloc_stops (hflag : cpu.interruptFlag = false) (hfull : Unservable heap len) :
    StopsUntouched heap (malloc cpu heap len) := by
  rw [malloc_disabled hflag]
  cases hmalloc : Hjortron.malloc heap len with
  | error reason => exact ⟨reason, rfl⟩
  | ok r =>
    obtain ⟨-, chunk, hfirst, -⟩ := malloc_firstFit hmalloc
    exact absurd hfirst (hfull chunk)

/-- `realloc` stops where its `malloc` stops. -/
theorem realloc_stops (hneed : NeedsBlock heap ptr len)
    (h : StopsUntouched heap (malloc cpu heap len)) :
    StopsUntouched heap (realloc cpu heap ptr len) := by
  obtain ⟨reason, hmalloc⟩ := h
  have h1 : (ptr != 0) = true := by simpa using hneed.ptr_ne_zero
  have h2 : (len != 0) = true := by
    have hlt := hneed.outgrown
    simp only [bne_iff_ne, ne_eq]
    rintro rfl
    exact absurd hlt (BitVec.not_lt_zero)
  have h3 : ¬ len ≤ chunkLen heap.mem (ptr - sizeofMemoryChunk) := BitVec.not_le.mpr hneed.outgrown
  refine ⟨reason, ?_⟩
  simp only [realloc, hneed.initialized, h1, h2, if_neg h3, hmalloc, assert_true, bind, Except.bind]

/-- A request that cannot be met is refused exactly when interrupts are disabled. -/
theorem unservable_stops_iff (cpu : Cpu)
    (hkeep : ∀ heap, ChunksEnd heap → ChunksEnd (cpu.handlers heap))
    (hend : ChunksEnd heap) (hfull : Unservable heap len) :
    (StopsUntouched heap (malloc cpu heap len) ↔ cpu.interruptFlag = false) ∧
      ∀ ptr, NeedsBlock heap ptr len →
        (StopsUntouched heap (realloc cpu heap ptr len) ↔ cpu.interruptFlag = false) := by
  cases hflag : cpu.interruptFlag with
  | false =>
    have hstops := malloc_stops hflag hfull
    refine ⟨iff_of_true hstops rfl, ?_⟩
    intro ptr hneed
    exact iff_of_true (realloc_stops hneed hstops) rfl
  | true =>
    refine ⟨iff_of_false (not_stops_of_returns (malloc_returns hflag len hkeep hend)) (by simp), ?_⟩
    intro ptr _
    exact iff_of_false (not_stops_of_returns (realloc_returns hflag hkeep hend)) (by simp)

/-- A heap whose only chunk has been handed out. -/
def usedUp : Heap where
  mem := setAllocated (oneChunk (fun _ => 0) 0x10000 0x1000).mem 0x10000 true
  initialized := true
  startChunk := 0x10000
  len := 0x1000

theorem heapInv_usedUp : HeapInv usedUp [⟨0x10000, 0x1000, true⟩] := by
  refine ⟨rfl, by simp [headPtr, chunkPtr, usedUp], ⟨?_, trivial⟩, by simp [Ordered], ?_, by simp⟩
  · simp [headPtr, chunkPtr, usedUp, oneChunk]
  · simp [Block.stop]

theorem usedUp_unservable (len : Word) : Unservable usedUp len :=
  heapInv_usedUp.unservable (by simp [Block.Fits])

/-- Asked for more, the heap refuses before `irq_enable` and serves afterwards. -/
theorem unservable_stops_iff_usedUp :
    StopsUntouched usedUp (malloc ⟨false, id⟩ usedUp 0x2000) ∧
      StopsUntouched usedUp (realloc ⟨false, id⟩ usedUp 0x10010 0x2000) ∧
      ¬ StopsUntouched usedUp (realloc (irqEnable ⟨false, id⟩) usedUp 0x10010 0x2000) := by
  have hend := heapInv_usedUp.chunksEnd
  have hneed : NeedsBlock usedUp 0x10010 0x2000 := ⟨rfl, by decide, by decide⟩
  have hbefore := unservable_stops_iff ⟨false, id⟩ (fun _ h => h) hend (usedUp_unservable 0x2000)
  have hafter := unservable_stops_iff (irqEnable ⟨false, id⟩) (fun _ h => h) hend
    (usedUp_unservable 0x2000)
  refine ⟨hbefore.1.mpr rfl, (hbefore.2 _ hneed).mpr rfl, ?_⟩
  rw [hafter.2 _ hneed]
  decide

/-- After `irq_enable` a request that no chunk can serve returns the address `0x10` and marks a
chunk at `NULL`. -/
theorem malloc_serves_null : Unservable usedUp 0x2000 ∧ usedUp.mem 8 = 0 ∧
    ∃ heap, malloc (irqEnable ⟨false, id⟩) usedUp 0x2000 = .ok (0x10, heap) ∧ heap.mem 8 = 1 := by
  refine ⟨usedUp_unservable 0x2000, by decide, _,
    malloc_null rfl rfl (by decide) heapInv_usedUp.chunksEnd (usedUp_unservable 0x2000), ?_⟩
  exact takeChunk_mark usedUp.mem 0 0x2000

end Hlt

end

end Hjortron
