import Hjortron.Execution.Proofs.ElfFile

/-!
# The first passes of `elf_read`

Two of the three loops over the sections, for a memory that shows a file from `base` on and a
buffer apart from it: the first computes the length of the image, the second fills the buffer with
`imageByte`. The file buffer is read anew in every iteration, so the second pass also has to leave
it alone.
-/

namespace Hjortron

variable {file m m₀ : Mem} {n i j k fuel len : Nat} {base image x : Word}

/-! ## Reading the file -/

namespace Shows

variable (h : Shows m base file n)
include h

theorem member32 (c : Word) (hx : x.toNat + c.toNat + 4 ≤ n) (hn : n < 2 ^ 32) :
    m.load32 (base + x + c) = file.load32 (x + c) := by
  rw [BitVec.add_assoc]
  exact h.load32 (by bv_omega) (by omega)

theorem member16 (c : Word) (hx : x.toNat + c.toNat + 2 ≤ n) (hn : n < 2 ^ 32) :
    m.load16 (base + x + c) = file.load16 (x + c) := by
  rw [BitVec.add_assoc]
  exact h.load16 (by bv_omega) (by omega)

theorem eIdent_eq (c : Word) (hc : c.toNat < n) : eIdent m base c = eIdent file 0 c := by
  unfold eIdent
  rw [h c hc, zero_add]

theorem header16 (c : Word) (hc : c.toNat + 2 ≤ n) (hn : n < 2 ^ 32) :
    m.load16 (base + c) = file.load16 (0 + c) := by
  rw [zero_add]
  exact h.load16 hc (by omega)

theorem header32 (c : Word) (hc : c.toNat + 4 ≤ n) (hn : n < 2 ^ 32) :
    m.load32 (base + c) = file.load32 (0 + c) := by
  rw [zero_add]
  exact h.load32 hc (by omega)

theorem checks (h52 : 52 ≤ n) (hn : n < 2 ^ 32) :
    elfIsFile m base = elfIsFile file 0 ∧ elfIsSupported m base = elfIsSupported file 0 := by
  have hident (c : Word) (hc : c.toNat < 16) := h.eIdent_eq c (by omega)
  have hmachine : eMachine m base = eMachine file 0 :=
    h.header16 18 (show 20 ≤ n by omega) hn
  have htype : eType m base = eType file 0 := h.header16 16 (show 18 ≤ n by omega) hn
  constructor
  · simp only [elfIsFile, hident 0 (by decide), hident 1 (by decide), hident 2 (by decide),
      hident 3 (by decide)]
  · simp only [elfIsSupported, hident 4 (by decide), hident 5 (by decide), hident 6 (by decide),
      hmachine, htype]

theorem elfFindSh_eq (h52 : 52 ≤ n) (hn : n < 2 ^ 32) (idx : Word) :
    elfFindSh m base idx = base + elfFindSh file 0 idx := by
  have hshoff : eShoff m base = eShoff file 0 := h.header32 32 (show 36 ≤ n by omega) hn
  unfold elfFindSh
  rw [hshoff, zero_add, BitVec.add_assoc]

theorem sectionAt_eq (h52 : 52 ≤ n) (hn : n < 2 ^ 32) (i : Nat) :
    elfFindSh m base (BitVec.ofNat 32 i) = base + sectionAt file i :=
  h.elfFindSh_eq h52 hn _

theorem eShnum_eq (h52 : 52 ≤ n) (hn : n < 2 ^ 32) :
    (eShnum m base).toNat = sectionCount file := by
  have hshnum : eShnum m base = eShnum file 0 := h.header16 48 (show 50 ≤ n by omega) hn
  rw [hshnum]
  rfl

/-- The members of a section header. -/
theorem sectionHeader (hx : x.toNat + 40 ≤ n) (hn : n < 2 ^ 32) :
    shType m (base + x) = shType file x ∧ shAlloc m (base + x) = shAlloc file x ∧
      shAddr m (base + x) = shAddr file x ∧ shOffset m (base + x) = shOffset file x ∧
      shSize m (base + x) = shSize file x ∧ shLink m (base + x) = shLink file x ∧
      shInfo m (base + x) = shInfo file x ∧ shEntsize m (base + x) = shEntsize file x := by
  have member (c : Word) (hc : c.toNat ≤ 36) := h.member32 (x := x) c (by omega) hn
  refine ⟨member 4 (by decide), ?_, member 12 (by decide), member 16 (by decide),
    member 20 (by decide), member 24 (by decide), member 28 (by decide), member 36 (by decide)⟩
  have hflags : shFlags m (base + x) = shFlags file x := member 8 (by decide)
  unfold shAlloc
  rw [hflags]

end Shows

/-! ## The length of the image -/

/-- The first pass reads the file only. -/
theorem Shows.imageLengthLoop_eq (hshow : Shows m base file n) (htable : TableInside file n)
    (hn : n < 2 ^ 32) (fuel i : Nat) (len : Word) :
    imageLengthLoop m base fuel i len = imageLengthLoop file 0 fuel i len := by
  induction fuel generalizing i len with
  | zero => rfl
  | succ fuel ih =>
    simp only [imageLengthLoop]
    rw [hshow.eShnum_eq htable.header hn, show (eShnum file 0).toNat = sectionCount file from rfl]
    by_cases hi : i < sectionCount file
    · have hsh := hshow.sectionHeader (htable.sectionAt_inside hn hi) hn
      rw [if_pos hi, if_pos hi, ih]
      simp only [hshow.sectionAt_eq htable.header hn, hsh]
      rfl
    · rw [if_neg hi, if_neg hi]

theorem Loadable.imageLength_succ (hwf : Loadable file n) (hi : i < sectionCount file) :
    BitVec.ofNat 32 (imageLength file (i + 1)) =
      if !shAlloc file (sectionAt file i) then BitVec.ofNat 32 (imageLength file i)
      else if BitVec.ofNat 32 (imageLength file i) <
          shAddr file (sectionAt file i) + shSize file (sectionAt file i) then
        shAddr file (sectionAt file i) + shSize file (sectionAt file i)
      else BitVec.ofNat 32 (imageLength file i) := by
  have hlen := hwf.imageLength_lt (Nat.le_of_lt hi)
  rw [imageLength]
  cases halloc : shAlloc file (sectionAt file i) with
  | false => rfl
  | true =>
    have hfits := hwf.fits i hi ⟨hi, halloc⟩
    unfold sectionEnd sectionStart at hfits ⊢
    simp only [if_true, Bool.not_true, Bool.false_eq_true, if_false]
    split_ifs with hlt
    · bv_omega
    · bv_omega

/-- The first pass. -/
theorem imageLengthLoop_eq (hwf : Loadable file n) (hik : i + k = sectionCount file)
    (hfuel : k ≤ fuel) :
    imageLengthLoop file 0 fuel i (BitVec.ofNat 32 (imageLength file i)) =
      BitVec.ofNat 32 (imageLength file (sectionCount file)) := by
  have hcount : (eShnum file 0).toNat = sectionCount file := rfl
  induction k generalizing i fuel with
  | zero =>
    have hi : i = sectionCount file := by omega
    cases fuel with
    | zero => rw [imageLengthLoop, hi]
    | succ fuel => rw [imageLengthLoop, hcount, if_neg (by omega), hi]
  | succ k ih =>
    cases fuel with
    | zero => omega
    | succ fuel =>
      have hi : i < sectionCount file := by omega
      rw [imageLengthLoop, hcount, if_pos hi]
      change imageLengthLoop file 0 fuel (i + 1) (if _ then _ else _) = _
      rw [← show sectionAt file i = elfFindSh file 0 (BitVec.ofNat 32 i) from rfl,
        ← hwf.imageLength_succ hi]
      exact ih (by omega) (by omega)

/-! ## The contents of the image -/

/-- The memory is `m₀` but for the `len` bytes from `image` on, which are given by `byte`. -/
structure ImageAt (m₀ m : Mem) (image : Word) (len : Nat) (byte : Nat → Byte) : Prop where
  bytes : ∀ a < len, m (image + BitVec.ofNat 32 a) = byte a
  frame : ∀ y, ¬ InRange image len y → m y = m₀ y

theorem ImageAt.congr {byte byte' : Nat → Byte} (h : ImageAt m₀ m image len byte)
    (hbyte : ∀ a < len, byte a = byte' a) : ImageAt m₀ m image len byte' :=
  ⟨fun a ha => (h.bytes a ha).trans (hbyte a ha), h.frame⟩

theorem imageAt_memset (m : Mem) (image : Word) (hlen : len < 2 ^ 32) :
    ImageAt m (memset m image 0 (BitVec.ofNat 32 len)) image len fun _ => 0 := by
  have hlen' : (BitVec.ofNat 32 len).toNat = len := by
    rw [BitVec.toNat_ofNat, Nat.mod_eq_of_lt hlen]
  unfold memset
  rw [hlen']
  constructor
  · intro a ha
    apply Mem.fill_of_inRange (by omega)
    unfold InRange
    bv_omega
  · intro y hy
    exact Mem.fill_of_not_inRange (by omega) hy

/-- Copying a part of the file into the image. -/
theorem ImageAt.memcpy {byte : Nat → Byte} {addr offset size : Word}
    (h : ImageAt m₀ m image len byte) (hshow : Shows m base file n) (hap : Apart image len base n)
    (hlen : len < 2 ^ 32) (haddr : addr.toNat + size.toNat ≤ len)
    (hoffset : offset.toNat + size.toNat ≤ n) :
    ImageAt m₀ (memcpy m (image + addr) (base + offset) size) image len fun a =>
      if addr.toNat ≤ a ∧ a < addr.toNat + size.toNat then
        file (offset + BitVec.ofNat 32 (a - addr.toNat))
      else byte a := by
  unfold Hjortron.memcpy
  constructor
  · intro a ha
    split_ifs with hin
    · have hsub : Apart (image + addr) size.toNat (base + offset) size.toNat :=
        hap.sub haddr hoffset (by omega) (by omega)
      have hdest : image + BitVec.ofNat 32 a =
          image + addr + BitVec.ofNat 32 (a - addr.toNat) := by bv_omega
      rw [hdest, Mem.copy_apply size.isLt hsub (by omega), BitVec.add_assoc]
      exact hshow _ (by bv_omega)
    · rw [Mem.copy_of_not_inRange (by omega) (by unfold InRange; bv_omega)]
      exact h.bytes a ha
  · intro y hy
    rw [Mem.copy_of_not_inRange (by omega) (by unfold InRange at hy ⊢; bv_omega)]
    exact h.frame y hy

/-- The second pass. -/
theorem copyLoop_spec (hwf : Loadable file n) (hn : n < 2 ^ 32)
    (hlen : len = imageLength file (sectionCount file)) (hap : Apart image len base n)
    (hshow : Shows m₀ base file n) (hik : i + k = sectionCount file) (hfuel : k ≤ fuel)
    (h : ImageAt m₀ m image len fun a => imageByte file a i) :
    ImageAt m₀ (copyLoop base base image fuel i m) image len fun a =>
      imageByte file a (sectionCount file) := by
  induction k generalizing i fuel m with
  | zero =>
    have hi : i = sectionCount file := by omega
    subst hi
    cases fuel with
    | zero => exact h
    | succ fuel =>
      rw [copyLoop, (hshow.of_apart hap h.frame).eShnum_eq hwf.header hn, if_neg (by omega)]
      exact h
  | succ k ih =>
    cases fuel with
    | zero => omega
    | succ fuel =>
      have hi : i < sectionCount file := by omega
      have hshow' := hshow.of_apart hap h.frame
      have hsh := hshow'.sectionHeader (hwf.sectionAt_inside hn hi) hn
      rw [copyLoop, hshow'.eShnum_eq hwf.header hn, if_pos hi]
      simp only [hshow'.sectionAt_eq hwf.header hn, hsh]
      apply ih (by omega) (by omega)
      by_cases hprog : shAlloc file (sectionAt file i) = true ∧
          shType file (sectionAt file i) = shtProgbits
      · have hcontents := hwf.contents i hi ⟨hi, hprog.1⟩ hprog.2
        have hend := sectionEnd_le_imageLength hi hprog.1
        rw [← hlen] at hend
        rw [if_neg (by simp [hprog.1, hprog.2])]
        refine (h.memcpy hshow' hap ?_ hend hcontents).congr fun a _ => ?_
        · rw [hlen]
          exact hwf.imageLength_lt (Nat.le_refl _)
        · rw [imageByte]
          exact if_congr ⟨fun hin => ⟨hprog.1, hprog.2, hin⟩, fun hcov => hcov.2.2⟩ rfl rfl
      · rw [if_pos (by simpa using not_and_or.mp hprog)]
        refine h.congr fun a _ => ?_
        rw [imageByte, if_neg fun hcov => hprog ⟨hcov.1, hcov.2.1⟩]

end Hjortron
