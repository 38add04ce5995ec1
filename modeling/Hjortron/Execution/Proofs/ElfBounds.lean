import Hjortron.Execution.ElfLog
import Hjortron.Execution.Proofs.ElfSpec

/-!
# Where the copying loop of `elf_read` writes

The image buffer is as long as the largest end of a loaded section, computed in 32 bits. A section
whose end does not fit in 32 bits has a small end there, and its copy runs out of the buffer; all
other copies stay inside.
-/

namespace Hjortron

open BlockList

variable {file m m₀ : Mem} {n i k fuel : Nat} {base image len addr size : Word}

/-- The section is copied to the image. -/
def Copied (file : Mem) (i : Nat) : Prop :=
  i < sectionCount file ∧ shAlloc file (sectionAt file i) = true ∧
    shType file (sectionAt file i) = shtProgbits

instance (file : Mem) (i : Nat) : Decidable (Copied file i) :=
  inferInstanceAs (Decidable (_ ∧ _ ∧ _))

/-- The copied sections from `i` on end below `2 ^ 32`. -/
def FitFrom (file : Mem) (i : Nat) : Prop :=
  ∀ s, i ≤ s → Copied file s → sectionEnd file s < 2 ^ 32

theorem fitFrom_iff : FitFrom file i ↔
    (Copied file i → sectionEnd file i < 2 ^ 32) ∧ FitFrom file (i + 1) := by
  constructor
  · intro h
    exact ⟨h i (Nat.le_refl i), fun s hs => h s (by omega)⟩
  · intro h s hs
    rcases Nat.eq_or_lt_of_le hs with rfl | hlt
    · exact h.1
    · exact h.2 s hlt

theorem fitFrom_of_le (hi : sectionCount file ≤ i) : FitFrom file i :=
  fun _ his hs => absurd hs.1 (by omega)

/-- The `len` bytes from `image` on have all that a call of `memcpy` writes. -/
def MemcpyCall.Inside (image len : Word) (call : MemcpyCall) : Prop :=
  ∀ k < call.len.toNat, InRange image len.toNat (call.dest + BitVec.ofNat 32 k)

/-! ## The length of the buffer -/

theorem le_imageLengthLoop (fuel i : Nat) : len ≤ imageLengthLoop m base fuel i len := by
  induction fuel generalizing i len with
  | zero => exact BitVec.le_refl len
  | succ fuel ih =>
    simp only [imageLengthLoop]
    split_ifs with hi halloc hlt
    · exact ih (i + 1)
    · exact BitVec.le_trans (BitVec.le_of_lt hlt) (ih (i + 1))
    · exact ih (i + 1)
    · exact BitVec.le_refl len

/-- The buffer reaches the end of every loaded section, in 32 bits. -/
theorem sectionEnd_le_imageLengthLoop (hi : k ≤ i) (hloaded : IsLoaded file i)
    (hfuel : i < k + fuel) :
    shAddr file (sectionAt file i) + shSize file (sectionAt file i) ≤
      imageLengthLoop file 0 fuel k len := by
  have hcount : i < (eShnum file 0).toNat := hloaded.1
  induction fuel generalizing k len with
  | zero => omega
  | succ fuel ih =>
    simp only [imageLengthLoop]
    rw [if_pos (by omega)]
    rcases Nat.eq_or_lt_of_le hi with rfl | hlt
    · rw [show elfFindSh file 0 (BitVec.ofNat 32 k) = sectionAt file k from rfl, hloaded.2,
        Bool.not_true, if_neg Bool.false_ne_true]
      refine BitVec.le_trans ?_ (le_imageLengthLoop fuel (k + 1))
      split_ifs with hle
      · exact BitVec.le_refl _
      · exact BitVec.not_lt.mp hle
    · exact ih hlt (by omega)

/-! ## Copies -/

/-- A copy to an address whose end is within the buffer in 32 bits is inside the buffer if the end
is not taken modulo `2 ^ 32`. -/
theorem inside_iff (image src : Word) (hle : addr + size ≤ len) :
    MemcpyCall.Inside image len ⟨image + addr, src, size⟩ ↔ addr.toNat + size.toNat < 2 ^ 32 := by
  constructor
  · intro hinside
    by_contra hwrap
    -- the byte before address 0, which no block of less than `2 ^ 32` bytes reaches
    have hlast := hinside (2 ^ 32 - 1 - addr.toNat) (by show _ < size.toNat; omega)
    have hlen := len.isLt
    unfold InRange at hlast
    bv_omega
  · intro hfits k hk
    have hk' : k < size.toNat := hk
    unfold InRange
    bv_omega

/-- A copy inside the buffer changes nothing outside. -/
theorem MemcpyCall.Inside.frame {call : MemcpyCall} {y : Word} (h : call.Inside image len)
    (hy : ¬ InRange image len.toNat y) : call.run m y = m y := by
  refine Mem.copy_of_not_inRange (by omega) fun hin => hy ?_
  unfold InRange at hin
  have hbyte := h _ hin
  rwa [BitVec.ofNat_toNat, BitVec.setWidth_eq, add_sub_cancel] at hbyte

/-- The copies from section `i` on. -/
theorem copyCalls_inside_iff (htable : TableInside file n) (hn : n < 2 ^ 32)
    (hap : Apart image len.toNat base n)
    (hlen : ∀ i, IsLoaded file i →
      shAddr file (sectionAt file i) + shSize file (sectionAt file i) ≤ len)
    (hshow : Shows m base file n) (hik : i + k = sectionCount file) (hfuel : k ≤ fuel) :
    (∀ call ∈ copyCalls base base image fuel i m, call.Inside image len) ↔ FitFrom file i := by
  induction k generalizing i fuel m with
  | zero =>
    have hnil : copyCalls base base image fuel i m = [] := by
      cases fuel with
      | zero => rfl
      | succ fuel => rw [copyCalls, hshow.eShnum_eq htable.header hn, if_neg (by omega)]
    rw [hnil]
    exact ⟨fun _ => fitFrom_of_le (by omega), fun _ _ h => absurd h List.not_mem_nil⟩
  | succ k ih =>
    cases fuel with
    | zero => omega
    | succ fuel =>
      have hi : i < sectionCount file := by omega
      have hsh := hshow.sectionHeader (htable.sectionAt_inside hn hi) hn
      rw [fitFrom_iff]
      simp only [copyCalls]
      rw [hshow.eShnum_eq htable.header hn, if_pos hi]
      simp only [hshow.sectionAt_eq htable.header hn, hsh]
      by_cases hcopied : Copied file i
      · have hinside := inside_iff image (base + shOffset file (sectionAt file i))
          (hlen i ⟨hi, hcopied.2.1⟩)
        rw [if_neg (by simp [hcopied.2.1, hcopied.2.2]), List.forall_mem_cons]
        -- past a copy that stays inside, the file buffer is as it was
        have hrest (h : sectionEnd file i < 2 ^ 32) :=
          ih (hshow.of_apart hap fun y hy => (hinside.mpr h).frame hy)
            (show i + 1 + k = sectionCount file by omega) (show k ≤ fuel by omega)
        constructor
        · intro hcalls
          have hfits := hinside.mp hcalls.1
          exact ⟨fun _ => hfits, (hrest hfits).mp hcalls.2⟩
        · intro hfit
          have hfits := hfit.1 hcopied
          exact ⟨hinside.mpr hfits, (hrest hfits).mpr hfit.2⟩
      · have hskip : (!shAlloc file (sectionAt file i) ||
            decide (shType file (sectionAt file i) ≠ shtProgbits)) = true := by
          have h : ¬ (shAlloc file (sectionAt file i) = true ∧
            shType file (sectionAt file i) = shtProgbits) := fun h => hcopied ⟨hi, h⟩
          simpa using not_and_or.mp h
        rw [if_pos hskip]
        have hrest := ih hshow (show i + 1 + k = sectionCount file by omega)
          (show k ≤ fuel by omega)
        exact ⟨fun h => ⟨fun hc => absurd hc hcopied, hrest.mp h⟩, fun h => hrest.mpr h.2⟩

/-- All copies of a file that has been delivered. -/
theorem copies_inside {fsRead : Heap → Word → Word → Except Halt Heap}
    {heap heap₁ heap₂ heap₃ : Heap} {bs : List Block} (hinv : HeapInv heap bs)
    (htable : TableInside file size.toNat) (hm₁ : malloc heap size = .ok (base, heap₁))
    (hread : fsRead heap₁ base size = .ok heap₂)
    (hdel : FileDelivered heap₁ heap₂ base file size.toNat)
    (hlen : len = imageLengthLoop heap₂.mem base (2 ^ 16) 0 0)
    (hm₂ : malloc heap₂ len = .ok (image, heap₃)) :
    (∀ call ∈ copyCalls base base image (2 ^ 16) 0 (memset heap₃.mem image 0 len),
        call.Inside image len) ↔ FitFrom file 0 := by
  obtain ⟨bs₃, f, c, rfl, rfl, hbuf⟩ := loadBuffers hinv hm₁ hread hdel hm₂
  have hcount : sectionCount file ≤ 2 ^ 16 := Nat.le_of_lt (eShnum file 0).isLt
  have hset := imageAt_memset heap₃.mem (payloadPtr c) len.isLt
  rw [BitVec.ofNat_toNat, BitVec.setWidth_eq] at hset
  have hshow := hbuf.bytes.of_apart hbuf.apart hset.frame
  refine copyCalls_inside_iff htable size.isLt hbuf.apart (fun i hi => ?_) hshow
    (Nat.zero_add (sectionCount file)) hcount
  have hi' : i < 2 ^ 16 := Nat.lt_of_lt_of_le hi.1 hcount
  rw [hlen, hdel.bytes.imageLengthLoop_eq htable size.isLt]
  exact sectionEnd_le_imageLengthLoop (Nat.zero_le i) hi (by omega)

/-- **The copies and the buffer.** For every file that `fs_read` delivers and whose table of
sections lies inside it, all that the copying loop writes lies in the `len` bytes of the image
buffer if and only if no copied section ends at `2 ^ 32` or beyond. -/
theorem copies_inside_iff {fsRead : Heap → Word → Word → Except Halt Heap}
    {heap heap₁ heap₂ heap₃ : Heap} {bs : List Block} (hinv : HeapInv heap bs)
    (htable : TableInside file size.toNat) (hm₁ : malloc heap size = .ok (base, heap₁))
    (hread : fsRead heap₁ base size = .ok heap₂)
    (hdel : FileDelivered heap₁ heap₂ base file size.toNat)
    (hlen : len = imageLengthLoop heap₂.mem base (2 ^ 16) 0 0)
    (hm₂ : malloc heap₂ len = .ok (image, heap₃)) :
    (∀ call ∈ copyCalls base base image (2 ^ 16) 0 (memset heap₃.mem image 0 len),
        call.Inside image len) ↔
      ∀ i, Copied file i → sectionEnd file i < 2 ^ 32 := by
  rw [copies_inside hinv htable hm₁ hread hdel hlen hm₂]
  exact ⟨fun h i => h i (Nat.zero_le i), fun h i _ => h i⟩

theorem copies_inside_sample :
    (∀ i, Copied sampleObject i → sectionEnd sampleObject i < 2 ^ 32) ∧
      ∃ heap₃ : Heap, ∀ call ∈ copyCalls 0x20010 0x20010 0x20164 (2 ^ 16) 0
        (memset heap₃.mem 0x20164 0 12), call.Inside 0x20164 12 := by
  have hfits : ∀ i, Copied sampleObject i → sectionEnd sampleObject i < 2 ^ 32 := by
    intro i hi
    have hall : ∀ i < sectionCount sampleObject, sectionEnd sampleObject i < 2 ^ 32 := by
      decide +kernel
    exact hall i hi.1
  obtain ⟨heap, heap₁, heap₂, heap₃, -, hinv, hm₁, hfs, hdel, hm₂⟩ :=
    sample_buffers sampleObject
  have htable := sampleObject_wellFormed.loadable.toTableInside
  have hlen : (12 : Word) = imageLengthLoop heap₂.mem 0x20010 (2 ^ 16) 0 0 := by
    rw [hdel.bytes.imageLengthLoop_eq htable (by decide)]
    decide +kernel
  exact ⟨hfits, heap₃, (copies_inside_iff hinv htable hm₁ hfs hdel hlen hm₂).mpr hfits⟩

/-- The sample object with its code at `0xFFFFFFFC`. -/
def wrappingObject : Mem := sampleObject.store32 176 0xFFFFFFFC

theorem wrappingObject_tableInside : TableInside wrappingObject 324 := by
  constructor
  · decide
  · decide +kernel

/-- The end of the code is 4 in 32 bits, so the buffer has room for the other section only. -/
theorem wrappingObject_outside :
    elfIsFile wrappingObject 0 = true ∧ elfIsSupported wrappingObject 0 = true ∧
      ∃ heap heap₁ heap₂ heap₃, mallocInit 0x20000 pcMap (Heap.boot fun _ => 0) = .ok heap ∧
        malloc heap 324 = .ok (0x20010, heap₁) ∧
        deliver wrappingObject heap₁ 0x20010 324 = .ok heap₂ ∧
        imageLengthLoop heap₂.mem 0x20010 (2 ^ 16) 0 0 = 12 ∧
        malloc heap₂ 12 = .ok (0x20164, heap₃) ∧
        ¬ ∀ call ∈ copyCalls 0x20010 0x20010 0x20164 (2 ^ 16) 0 (memset heap₃.mem 0x20164 0 12),
          call.Inside 0x20164 12 := by
  obtain ⟨heap, heap₁, heap₂, heap₃, hinit, hinv, hm₁, hfs, hdel, hm₂⟩ :=
    sample_buffers wrappingObject
  have hlen : imageLengthLoop heap₂.mem 0x20010 (2 ^ 16) 0 0 = 12 := by
    rw [hdel.bytes.imageLengthLoop_eq wrappingObject_tableInside (by decide)]
    decide +kernel
  refine ⟨by decide +kernel, by decide +kernel, heap, heap₁, heap₂, heap₃, hinit, hm₁, hfs, hlen,
    hm₂, fun hinside => ?_⟩
  have hcopied : Copied wrappingObject 1 ∧ ¬ sectionEnd wrappingObject 1 < 2 ^ 32 := by
    decide +kernel
  have hcalls := copies_inside hinv wrappingObject_tableInside hm₁ hfs hdel hlen.symm hm₂
  exact hcopied.2 (hcalls.mp hinside 1 (Nat.zero_le 1) hcopied.1)

end Hjortron
