import Hjortron.Memory.Malloc

/-!
# Chunk headers in memory

The four fields of `memory_chunk` read as one value. A field write changes its own header in
that field only, leaves every header that lies apart alone, and changes no byte outside the
16 bytes of the header.
-/

namespace Hjortron

/-- The contents of a `memory_chunk`. -/
structure ChunkHeader where
  previous : Word
  next : Word
  allocated : Bool
  len : Word
  deriving DecidableEq, Repr

/-- The header stored at `chunk`. -/
def chunkHeader (m : Mem) (chunk : Word) : ChunkHeader :=
  ⟨previousChunk m chunk, nextChunk m chunk, allocated m chunk, chunkLen m chunk⟩

section

variable {m m' : Mem} {c d x v : Word} {u : Bool} {hd : ChunkHeader}

theorem previousChunk_of_header (h : chunkHeader m c = hd) : previousChunk m c = hd.previous := by
  rw [← h, chunkHeader]

theorem nextChunk_of_header (h : chunkHeader m c = hd) : nextChunk m c = hd.next := by
  rw [← h, chunkHeader]

theorem allocated_of_header (h : chunkHeader m c = hd) : allocated m c = hd.allocated := by
  rw [← h, chunkHeader]

theorem chunkLen_of_header (h : chunkHeader m c = hd) : chunkLen m c = hd.len := by
  rw [← h, chunkHeader]

/-- A header is determined by its 16 bytes. -/
theorem chunkHeader_congr (h : ∀ y, InRange c 16 y → m y = m' y) :
    chunkHeader m c = chunkHeader m' c := by
  have hword : ∀ i : Word, i.toNat + 4 ≤ 16 → m.load32 (c + i) = m'.load32 (c + i) :=
    fun i hi => Mem.load32_member_congr hi h
  have h0 : m.load32 c = m'.load32 c := by simpa using hword 0 (by simp)
  have h8 : m (c + 8) = m' (c + 8) := h _ (by unfold InRange; bv_omega)
  simp only [chunkHeader, previousChunk, nextChunk, allocated, chunkLen, h0, h8,
    hword 4 (by simp), hword 12 (by simp)]

/-! ## Bytes outside the header -/

theorem setPreviousChunk_frame (h : ¬ InRange c 16 x) : setPreviousChunk m c v x = m x :=
  Mem.store32_of_not_inRange (by unfold InRange at h ⊢; omega)

theorem setNextChunk_frame (h : ¬ InRange c 16 x) : setNextChunk m c v x = m x :=
  Mem.store32_member (by decide) h

theorem setAllocated_frame (h : ¬ InRange c 16 x) : setAllocated m c u x = m x :=
  Mem.store8_of_ne (by rintro rfl; exact h (by unfold InRange; bv_omega))

theorem setChunkLen_frame (h : ¬ InRange c 16 x) : setChunkLen m c v x = m x :=
  Mem.store32_member (by decide) h

/-! ## Headers that lie apart -/

theorem chunkHeader_apart (h : Apart c 16 d 16) (hframe : ∀ y, ¬ InRange c 16 y → m' y = m y) :
    chunkHeader m' d = chunkHeader m d :=
  chunkHeader_congr fun y hy => hframe y (h.not_inRange hy)

@[simp] theorem chunkHeader_setPreviousChunk_apart (h : Apart c 16 d 16) :
    chunkHeader (setPreviousChunk m c v) d = chunkHeader m d :=
  chunkHeader_apart h fun _ => setPreviousChunk_frame

@[simp] theorem chunkHeader_setNextChunk_apart (h : Apart c 16 d 16) :
    chunkHeader (setNextChunk m c v) d = chunkHeader m d :=
  chunkHeader_apart h fun _ => setNextChunk_frame

@[simp] theorem chunkHeader_setAllocated_apart (h : Apart c 16 d 16) :
    chunkHeader (setAllocated m c u) d = chunkHeader m d :=
  chunkHeader_apart h fun _ => setAllocated_frame

@[simp] theorem chunkHeader_setChunkLen_apart (h : Apart c 16 d 16) :
    chunkHeader (setChunkLen m c v) d = chunkHeader m d :=
  chunkHeader_apart h fun _ => setChunkLen_frame

/-! ## The written header -/

@[simp] theorem chunkHeader_setPreviousChunk_self :
    chunkHeader (setPreviousChunk m c v) c = { chunkHeader m c with previous := v } := by
  have h4 : Apart c 4 (c + 4) 4 := by unfold Apart; bv_omega
  have h12 : Apart c 4 (c + 12) 4 := by unfold Apart; bv_omega
  have h8 : (m.store32 c v) (c + 8) = m (c + 8) :=
    Mem.store32_of_not_inRange (by unfold InRange; bv_omega)
  simp only [chunkHeader, previousChunk, nextChunk, allocated, chunkLen, setPreviousChunk,
    Mem.load32_store32_self, Mem.load32_store32_apart h4, Mem.load32_store32_apart h12, h8]

@[simp] theorem chunkHeader_setNextChunk_self :
    chunkHeader (setNextChunk m c v) c = { chunkHeader m c with next := v } := by
  have h0 : Apart (c + 4) 4 c 4 := by unfold Apart; bv_omega
  have h8 : (m.store32 (c + 4) v) (c + 8) = m (c + 8) :=
    Mem.store32_of_not_inRange (by unfold InRange; bv_omega)
  simp (disch := decide) only [chunkHeader, previousChunk, nextChunk, allocated, chunkLen,
    setNextChunk, Mem.load32_store32_self, Mem.load32_store32_apart h0,
    Mem.load32_store32_member, h8]

@[simp] theorem chunkHeader_setAllocated_self :
    chunkHeader (setAllocated m c u) c = { chunkHeader m c with allocated := u } := by
  have hword : ∀ i : Word, i = 0 ∨ i = 4 ∨ i = 12 → ∀ e : Byte,
      (m.store8 (c + 8) e).load32 (c + i) = m.load32 (c + i) := by
    intro i hi e
    refine Mem.load32_congr fun y hy => Mem.store8_of_ne ?_
    rintro rfl
    unfold InRange at hy
    rcases hi with rfl | rfl | rfl <;> bv_omega
  have h0 : ∀ e : Byte, (m.store8 (c + 8) e).load32 c = m.load32 c := by
    intro e
    simpa using hword 0 (by simp) e
  simp only [chunkHeader, previousChunk, nextChunk, allocated, chunkLen, setAllocated,
    Mem.store8_self, h0, hword 4 (by simp), hword 12 (by simp)]
  cases u <;> simp

@[simp] theorem chunkHeader_setChunkLen_self :
    chunkHeader (setChunkLen m c v) c = { chunkHeader m c with len := v } := by
  have h0 : Apart (c + 12) 4 c 4 := by unfold Apart; bv_omega
  have h8 : (m.store32 (c + 12) v) (c + 8) = m (c + 8) :=
    Mem.store32_of_not_inRange (by unfold InRange; bv_omega)
  simp (disch := decide) only [chunkHeader, previousChunk, nextChunk, allocated, chunkLen,
    setChunkLen, Mem.load32_store32_self, Mem.load32_store32_apart h0,
    Mem.load32_store32_member, h8]

end

end Hjortron
