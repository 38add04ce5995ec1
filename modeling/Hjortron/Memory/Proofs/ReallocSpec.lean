import Hjortron.Memory.Proofs.FreeSpec

/-!
# `realloc` and the contents of live blocks

`realloc` returns the same pointer when the request fits the block, and otherwise allocates,
copies the old payload and releases the old block. No call changes a payload byte of another
live block: `malloc` and `free` write headers only, and the copy of `realloc` stays inside the
block that was just allocated.
-/

namespace Hjortron

open BlockList

section

variable {heap heap' : Heap} {bs bs' : List Block} {b c q : Block} {ptr len : Word} {a : Nat}

/-- Live pointers identify their blocks. -/
theorem Layout.eq_of_payloadPtr_eq (hl : Layout bs) (hb : b ∈ bs) (hbu : b.used = true)
    (hc : c ∈ bs) (hcu : c.used = true) (heq : payloadPtr b = payloadPtr c) : b = c := by
  by_contra hne
  have h1 := hl.payloadPtr_toNat hb hbu
  have h2 := hl.payloadPtr_toNat hc hcu
  have h3 := hl.ordered.stop_le_or hb hc hne
  rw [heq, h2] at h1
  simp only [Block.stop] at h3
  omega

/-- The block that serves a request is in the new list. -/
theorem served_mem (hl : Layout bs) (ha : allocate 16 len.toNat bs = some (bs', a)) :
    ∃ c ∈ bs', c.used = true ∧ c.addr = a ∧ len.toNat ≤ c.len ∧ c ∉ bs ∧
      ∀ x, x ∈ bs' ∧ x.used = true ↔ (x ∈ bs ∧ x.used = true) ∨ x = c := by
  obtain ⟨b, hb, hfit, haddr, hused⟩ := mem_allocate_used ha
  have hmem := (hused (served 16 len.toNat b)).mpr (Or.inr rfl)
  exact ⟨_, hmem.1, hmem.2, served_addr.trans haddr.symm, served_len hfit,
    hl.ordered.served_not_mem (by omega) hb hfit, hused⟩

/-- A request that fits the block keeps the pointer and the heap. -/
theorem realloc_of_le (hinv : HeapInv heap bs) (hb : b ∈ bs) (hu : b.used = true)
    (hlen : len ≠ 0) (hle : len.toNat ≤ b.len) :
    realloc heap (payloadPtr b) len = .ok (payloadPtr b, heap) := by
  have h1 : (payloadPtr b != 0) = true := by simpa using hinv.layout.payloadPtr_ne_zero hb hu
  have h2 : (len != 0) = true := by simpa using hlen
  have h3 : len ≤ chunkLen heap.mem (chunkPtr b) := by
    rw [BitVec.le_def, hinv.chunks.chunkLen_toNat hb]
    exact hle
  simp only [realloc, hinv.initialized, h1, h2, payloadPtr_sub, if_pos h3, assert_true, bind,
    Except.bind, pure, Except.pure]

theorem realloc_zero (hinv : HeapInv heap bs) (hb : b ∈ bs) (hu : b.used = true) :
    realloc heap (payloadPtr b) 0 = .error (.assertion "len") := by
  have h1 : (payloadPtr b != 0) = true := by simpa using hinv.layout.payloadPtr_ne_zero hb hu
  simp only [realloc, hinv.initialized, h1, assert_true, bind, Except.bind]
  rfl

theorem inPayload_add {i : Nat} (hi : i < b.len) (hlen : b.len < 2 ^ 32) :
    InPayload b (payloadPtr b + BitVec.ofNat 32 i) := by
  unfold InPayload InRange
  bv_omega

/-- Copying the payload of `b` into that of a longer block `c` moves every byte and writes
inside the payload of `c` only. -/
theorem memcpy_payload {m : Mem} {start : Word} (hch : ChunkList m start bs) (hb : b ∈ bs)
    (hpos : 0 < b.len) (hc : c ∈ bs) (hne : b ≠ c) (hle : b.len ≤ c.len) :
    ChunkList (memcpy m (payloadPtr c) (payloadPtr b) (chunkLen m (chunkPtr b))) start bs ∧
      (∀ i < b.len, memcpy m (payloadPtr c) (payloadPtr b) (chunkLen m (chunkPtr b))
        (payloadPtr c + BitVec.ofNat 32 i) = m (payloadPtr b + BitVec.ofNat 32 i)) ∧
      ∀ x, ¬ InRange (payloadPtr c) b.len x →
        memcpy m (payloadPtr c) (payloadPtr b) (chunkLen m (chunkPtr b)) x = m x := by
  have hblen := hch.layout.len_lt hb
  rw [memcpy, hch.chunkLen_toNat hb]
  have hapart : Apart (payloadPtr c) b.len (payloadPtr b) b.len :=
    hch.layout.apart_payload hc hb hne.symm hle (Nat.le_refl _) hpos hpos
  have hframe : ∀ x, ¬ InRange (payloadPtr c) b.len x →
      m.copy (payloadPtr c) (payloadPtr b) b.len x = m x := fun x hx =>
    Mem.copy_of_not_inRange (by omega) hx
  refine ⟨hch.frame fun x hx => hframe x fun hin => hx ?_, fun i hi => ?_, hframe⟩
  · refine hch.layout.outsideHeaders hc ?_
    unfold InPayload
    unfold InRange at hin ⊢
    omega
  · exact Mem.copy_apply (by omega) hapart hi

/-- A request that outgrows the block moves it. -/
theorem realloc_of_allocate (hinv : HeapInv heap bs) (hb : b ∈ bs) (hu : b.used = true)
    (hlt : b.len < len.toNat) (ha : allocate 16 len.toNat bs = some (bs', a)) :
    ∃ mem, realloc heap (payloadPtr b) len = .ok (BitVec.ofNat 32 (a + 16), { heap with mem }) ∧
      ChunkList mem heap.startChunk (release 16 b.addr bs') ∧
      (∀ i < b.len, mem (BitVec.ofNat 32 (a + 16) + BitVec.ofNat 32 i) =
        heap.mem (payloadPtr b + BitVec.ofNat 32 i)) ∧
      ∀ x, OutsideHeaders bs' x → ¬ InRange (BitVec.ofNat 32 (a + 16)) b.len x →
        mem x = heap.mem x := by
  have hlen : len ≠ 0 := by
    rintro rfl
    simp at hlt
  obtain ⟨mem₁, hmalloc, hc₁, hframe₁⟩ :=
    malloc_of_allocate hinv.chunks hinv.initialized hlen ha
  obtain ⟨c, hc, hcu, rfl, hcl, hfresh, hused⟩ := served_mem hinv.layout ha
  have hb' : b ∈ bs' := ((hused b).mpr (Or.inl ⟨hb, hu⟩)).1
  have hbc : b ≠ c := fun heq => hfresh (heq ▸ hb)
  have hblen := hc₁.layout.len_lt hb'
  obtain ⟨hc₂, hcopy, hframe₂⟩ := memcpy_payload hc₁ hb' (hinv.layout.used_pos b hb hu) hc hbc
    (by omega)
  generalize hmem₂ : memcpy mem₁ (payloadPtr c) (payloadPtr b) (chunkLen mem₁ (chunkPtr b)) = mem₂
    at hc₂ hcopy hframe₂
  obtain ⟨mem₃, hfree, hc₃, hframe₃⟩ :=
    free_of_mem { heap with mem := mem₂ } hc₂ hinv.initialized hb' hu
  refine ⟨mem₃, ?_, hc₃, fun i hi => ?_, fun x hx hnin => ?_⟩
  · have h1 : (payloadPtr b != 0) = true := by simpa using hinv.layout.payloadPtr_ne_zero hb hu
    have h2 : (len != 0) = true := by simpa using hlen
    have h3 : ¬ len ≤ chunkLen heap.mem (chunkPtr b) := by
      rw [BitVec.le_def, hinv.chunks.chunkLen_toNat hb]
      omega
    have h4 : (payloadPtr c != 0) = true := by simpa using hc₁.layout.payloadPtr_ne_zero hc hcu
    change malloc heap len = .ok (payloadPtr c, { heap with mem := mem₁ }) at hmalloc
    simp only [hinv.initialized] at hfree hmalloc
    simp only [realloc, hinv.initialized, h1, h2, payloadPtr_sub, if_neg h3, hmalloc, h4,
      hmem₂, hfree, assert_true, bind, Except.bind, pure, Except.pure]
    rfl
  · have hin : InPayload c (payloadPtr c + BitVec.ofNat 32 i) :=
      inPayload_add (by omega) (by have := hc₁.layout.len_lt hc; omega)
    have hout := hc₁.layout.outsideHeaders hb' (inPayload_add hi (by omega))
    calc mem₃ (payloadPtr c + BitVec.ofNat 32 i)
        = mem₂ (payloadPtr c + BitVec.ofNat 32 i) := hframe₃ _ (hc₁.layout.outsideHeaders hc hin)
      _ = mem₁ (payloadPtr b + BitVec.ofNat 32 i) := hcopy i hi
      _ = heap.mem (payloadPtr b + BitVec.ofNat 32 i) := hframe₁ _ hout
  · calc mem₃ x = mem₂ x := hframe₃ x hx
      _ = mem₁ x := hframe₂ x hnin
      _ = heap.mem x := hframe₁ x hx

/-- Without room for a new block `realloc` stops inside `malloc`. -/
theorem realloc_of_not_allocate (hinv : HeapInv heap bs) (hb : b ∈ bs) (hu : b.used = true)
    (hlt : b.len < len.toNat) (ha : allocate 16 len.toNat bs = none) :
    realloc heap (payloadPtr b) len = .error (.assertion "chunk") := by
  have hlen : len ≠ 0 := by
    rintro rfl
    simp at hlt
  have h1 : (payloadPtr b != 0) = true := by simpa using hinv.layout.payloadPtr_ne_zero hb hu
  have h2 : (len != 0) = true := by simpa using hlen
  have h3 : ¬ len ≤ chunkLen heap.mem (chunkPtr b) := by
    rw [BitVec.le_def, hinv.chunks.chunkLen_toNat hb]
    omega
  simp only [realloc, hinv.initialized, h1, h2, payloadPtr_sub, if_neg h3,
    malloc_of_not_allocate hinv.chunks hinv.initialized hlen ha, assert_true, bind, Except.bind]

end

end Hjortron
