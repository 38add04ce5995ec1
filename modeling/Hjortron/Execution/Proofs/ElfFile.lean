import Hjortron.Execution.Elf
import Mathlib.Tactic.MkIffOfInductiveProp

/-!
# Object files

A file is a memory that starts at address 0, so that the members of its structures are read as
in `elf.c`, with the header at 0. `ElfWellFormed` says which files can be loaded, `imageByte`
what the loaded sections look like before relocation, and `relocatedWord` what the i386
supplement makes of a relocated word when the image starts at `base`.
-/

namespace Hjortron

section Definitions

variable (file : Mem)

/-! ## Sections -/

/-- The number of sections. -/
def sectionCount : Nat := (eShnum file 0).toNat

/-- Where the file has the header of section `i`. -/
def sectionAt (i : Nat) : Word := elfFindSh file 0 (BitVec.ofNat 32 i)

/-- The section has an address in the image. -/
def IsLoaded (i : Nat) : Prop := i < sectionCount file ∧ shAlloc file (sectionAt file i) = true

instance (i : Nat) : Decidable (IsLoaded file i) := inferInstanceAs (Decidable (_ ∧ _))

/-- Where section `i` starts in the image. -/
def sectionStart (i : Nat) : Nat := (shAddr file (sectionAt file i)).toNat

/-- Where section `i` ends in the image. -/
def sectionEnd (i : Nat) : Nat := sectionStart file i + (shSize file (sectionAt file i)).toNat

/-- The largest end of a loaded section among the first `k`. -/
def imageLength : Nat → Nat
  | 0 => 0
  | k + 1 =>
    if shAlloc file (sectionAt file k) then max (imageLength k) (sectionEnd file k)
    else imageLength k

/-- The file has contents for byte `a` of the image in section `i`. -/
def Covers (i a : Nat) : Prop :=
  shAlloc file (sectionAt file i) = true ∧ shType file (sectionAt file i) = shtProgbits ∧
    sectionStart file i ≤ a ∧ a < sectionEnd file i

instance (i a : Nat) : Decidable (Covers file i a) :=
  inferInstanceAs (Decidable (_ ∧ _ ∧ _ ∧ _))

/-- Byte `a` of the image before relocation, from the contents of the first `k` sections. -/
def imageByte (a : Nat) : Nat → Byte
  | 0 => 0
  | k + 1 =>
    if Covers file k a then
      file (shOffset file (sectionAt file k) + BitVec.ofNat 32 (a - sectionStart file k))
    else imageByte a k

/-! ## Relocations -/

/-- The number of relocations in section `i`. -/
def relocCount (i : Nat) : Nat := (shSize file (sectionAt file i)).toNat / 8

/-- Where the file has relocation `j` of section `i`. -/
def relocAt (i j : Nat) : Word := shOffset file (sectionAt file i) + 8 * BitVec.ofNat 32 j

def relocType (i j : Nat) : Byte := (rInfo file (relocAt file i j)).setWidth 8

def relocSymbol (i j : Nat) : Word := rInfo file (relocAt file i j) >>> 8

/-- Where the file has the header of the section that the relocations of section `i` are for. -/
def targetAt (i : Nat) : Word := elfFindSh file 0 (shInfo file (sectionAt file i))

/-- The place of a relocated word in the image. -/
def relocOffset (i j : Nat) : Nat :=
  (shAddr file (targetAt file i)).toNat + (rOffset file (relocAt file i j)).toNat

/-- The relocations of the sections `is`, in the order of the file. -/
def relocationsOf (is : List Nat) : List (Nat × Nat) :=
  is.flatMap fun i =>
    if shType file (sectionAt file i) = shtRel then (List.range (relocCount file i)).map (i, ·)
    else []

/-- All relocations of the file, as a section and an index into it. -/
def relocations : List (Nat × Nat) := relocationsOf file (List.range (sectionCount file))

/-- Where the file has the header of the symbol table of section `i`. -/
def symtabAt (i : Nat) : Word := elfFindSh file 0 (shLink file (sectionAt file i))

/-- Where the file has the symbol of a relocation. -/
def symbolAt (i j : Nat) : Word :=
  shOffset file (symtabAt file i) + relocSymbol file i j * 16

/-- The value `S` of the symbol of a relocation when the image starts at `base`. -/
def symbolValue (base : Word) (i j : Nat) : Word :=
  let sym := symbolAt file i j
  if stShndx file sym = shnAbs then stValue file sym
  else base + shAddr file (sectionAt file (stShndx file sym).toNat) + stValue file sym

/-- The addend `A` of a relocation: the word in the file, or 0 in a section without contents. -/
def addend (i j : Nat) : Word :=
  if shType file (targetAt file i) = shtProgbits then
    file.load32 (shOffset file (targetAt file i) + rOffset file (relocAt file i j))
  else 0

/-- The relocated word: `A + S` for `R_386_32`, `A + S - P` for `R_386_PC32`. -/
def relocatedWord (base : Word) (i j : Nat) : Word :=
  if relocType file i j = relt38632 then addend file i j + symbolValue file base i j
  else addend file i j + symbolValue file base i j - (base + BitVec.ofNat 32 (relocOffset file i j))

/-! ## Well-formed files -/

/-- A relocation that the loader supports, for a file of `n` bytes. -/
@[mk_iff]
structure RelocWellFormed (n i j : Nat) : Prop where
  type : relocType file i j = relt38632 ∨ relocType file i j = relt386Pc32
  symbol : relocSymbol file i j ≠ 0
  symbol_inside :
    (shOffset file (symtabAt file i)).toNat + (relocSymbol file i j).toNat * 16 + 16 ≤ n
  defined : stShndx file (symbolAt file i j) = shnAbs ∨
    stShndx file (symbolAt file i j) ≠ shnUndef ∧
      IsLoaded file (stShndx file (symbolAt file i j)).toNat
  inside : (rOffset file (relocAt file i j)).toNat + 4 ≤ (shSize file (targetAt file i)).toNat

instance (n i j : Nat) : Decidable (RelocWellFormed file n i j) :=
  decidable_of_iff' _ (relocWellFormed_iff file n i j)

/-- A section of relocations, for a file of `n` bytes. -/
@[mk_iff]
structure RelSectionWellFormed (n i : Nat) : Prop where
  entsize : shEntsize file (sectionAt file i) = 8
  target : IsLoaded file (shInfo file (sectionAt file i)).toNat
  symtab : (shLink file (sectionAt file i)).toNat < sectionCount file
  contents :
    (shOffset file (sectionAt file i)).toNat + (shSize file (sectionAt file i)).toNat ≤ n
  relocs : ∀ j < relocCount file i, RelocWellFormed file n i j

instance (n i : Nat) : Decidable (RelSectionWellFormed file n i) :=
  decidable_of_iff' _ (relSectionWellFormed_iff file n i)

/-- A section of the image, for a file of `n` bytes. -/
@[mk_iff]
structure LoadedSectionWellFormed (n i : Nat) : Prop where
  type : shType file (sectionAt file i) = shtProgbits ∨ shType file (sectionAt file i) = shtNobits
  fits : sectionEnd file i < 2 ^ 32
  contents : shType file (sectionAt file i) = shtProgbits →
    (shOffset file (sectionAt file i)).toNat + (shSize file (sectionAt file i)).toNat ≤ n

instance (n i : Nat) : Decidable (LoadedSectionWellFormed file n i) :=
  decidable_of_iff' _ (loadedSectionWellFormed_iff file n i)

/-- The address ranges of two sections are disjoint. -/
def SectionsDisjoint (i j : Nat) : Prop :=
  shSize file (sectionAt file i) = 0 ∨ shSize file (sectionAt file j) = 0 ∨
    sectionEnd file i ≤ sectionStart file j ∨ sectionEnd file j ≤ sectionStart file i

instance (i j : Nat) : Decidable (SectionsDisjoint file i j) :=
  inferInstanceAs (Decidable (_ ∨ _ ∨ _ ∨ _))

/-- The header and the table of sections lie inside a file of `n` bytes. -/
structure TableInside (n : Nat) : Prop where
  header : 52 ≤ n
  table : (eShoff file 0).toNat + 40 * sectionCount file ≤ n

/-- The sections of the image can be copied from a file of `n` bytes. -/
structure Loadable (n : Nat) : Prop extends TableInside file n where
  fits : ∀ i < sectionCount file, IsLoaded file i → sectionEnd file i < 2 ^ 32
  contents : ∀ i < sectionCount file, IsLoaded file i →
    shType file (sectionAt file i) = shtProgbits →
      (shOffset file (sectionAt file i)).toNat + (shSize file (sectionAt file i)).toNat ≤ n

/-- A relocatable object file of `n` bytes that can be loaded. -/
@[mk_iff]
structure ElfWellFormed (n : Nat) : Prop where
  isFile : elfIsFile file 0 = true
  isSupported : elfIsSupported file 0 = true
  header : 52 ≤ n
  table : (eShoff file 0).toNat + 40 * sectionCount file ≤ n
  loaded : ∀ i < sectionCount file, IsLoaded file i → LoadedSectionWellFormed file n i
  disjoint : ∀ i < sectionCount file, ∀ j < sectionCount file, i ≠ j → IsLoaded file i →
    IsLoaded file j → SectionsDisjoint file i j
  rel : ∀ i < sectionCount file, shType file (sectionAt file i) = shtRel →
    RelSectionWellFormed file n i
  apart : ((relocations file).map fun r => relocOffset file r.1 r.2).Pairwise
    fun a b => a + 4 ≤ b ∨ b + 4 ≤ a

instance (n : Nat) : Decidable (ElfWellFormed file n) :=
  decidable_of_iff' _ (elfWellFormed_iff file n)

end Definitions

variable {file : Mem} {n i j k a : Nat}

/-! ## Places in the file -/

theorem TableInside.sectionAt_toNat (h : TableInside file n) (hn : n < 2 ^ 32)
    (hi : i < sectionCount file) :
    (sectionAt file i).toNat = (eShoff file 0).toNat + 40 * i := by
  have htable := h.table
  unfold sectionAt elfFindSh
  bv_omega

theorem TableInside.sectionAt_inside (h : TableInside file n) (hn : n < 2 ^ 32)
    (hi : i < sectionCount file) : (sectionAt file i).toNat + 40 ≤ n := by
  have htable := h.table
  rw [h.sectionAt_toNat hn hi]
  omega

theorem ElfWellFormed.loadable (h : ElfWellFormed file n) : Loadable file n :=
  ⟨⟨h.header, h.table⟩, fun i hi hl => (h.loaded i hi hl).fits,
    fun i hi hl => (h.loaded i hi hl).contents⟩

/-- A section found by an index in the file. -/
theorem elfFindSh_eq_sectionAt (idx : Word) : elfFindSh file 0 idx = sectionAt file idx.toNat := by
  rw [sectionAt, BitVec.ofNat_toNat, BitVec.setWidth_eq]

/-- The place of a section that is found by an index. -/
theorem TableInside.elfFindSh_inside {idx : Word} (h : TableInside file n) (hn : n < 2 ^ 32)
    (hidx : idx.toNat < sectionCount file) : (elfFindSh file 0 idx).toNat + 40 ≤ n := by
  rw [elfFindSh_eq_sectionAt]
  exact h.sectionAt_inside hn hidx

theorem mem_relocationsOf {is : List Nat} :
    (i, j) ∈ relocationsOf file is ↔
      i ∈ is ∧ shType file (sectionAt file i) = shtRel ∧ j < relocCount file i := by
  simp only [relocationsOf, List.mem_flatMap]
  constructor
  · intro ⟨k, hk, hmem⟩
    split_ifs at hmem with htype
    · obtain ⟨l, hl, heq⟩ := List.mem_map.mp hmem
      cases heq
      exact ⟨hk, htype, List.mem_range.mp hl⟩
    · cases hmem
  · intro ⟨hi, htype, hj⟩
    refine ⟨i, hi, ?_⟩
    rw [if_pos htype]
    exact List.mem_map.mpr ⟨j, List.mem_range.mpr hj, rfl⟩

theorem mem_relocations :
    (i, j) ∈ relocations file ↔ i < sectionCount file ∧
      shType file (sectionAt file i) = shtRel ∧ j < relocCount file i := by
  rw [relocations, mem_relocationsOf, List.mem_range]

/-! ## The image -/

theorem sectionEnd_le_imageLength (hi : i < k) (halloc : shAlloc file (sectionAt file i) = true) :
    sectionEnd file i ≤ imageLength file k := by
  induction k with
  | zero => omega
  | succ k ih =>
    rw [imageLength]
    rcases Nat.lt_succ_iff_lt_or_eq.mp hi with hlt | rfl
    · have := ih hlt
      split_ifs <;> omega
    · rw [if_pos halloc]
      omega

theorem Loadable.imageLength_lt (h : Loadable file n) (hk : k ≤ sectionCount file) :
    imageLength file k < 2 ^ 32 := by
  induction k with
  | zero => exact Nat.two_pow_pos 32
  | succ k ih =>
    rw [imageLength]
    have hprev := ih (by omega)
    split_ifs with halloc
    · have := h.fits k (by omega) ⟨by omega, halloc⟩
      omega
    · exact hprev

/-- Loaded sections do not overlap. -/
theorem ElfWellFormed.eq_of_overlap (h : ElfWellFormed file n) (hi : IsLoaded file i)
    (hj : IsLoaded file j) (hia : sectionStart file i ≤ a ∧ a < sectionEnd file i)
    (hja : sectionStart file j ≤ a ∧ a < sectionEnd file j) : i = j := by
  by_contra hne
  have hdis := h.disjoint i hi.1 j hj.1 hne hi hj
  unfold sectionEnd at hia hja
  rcases hdis with h0 | h0 | hlt | hlt
  · rw [h0] at hia
    simp at hia
    omega
  · rw [h0] at hja
    simp at hja
    omega
  · unfold sectionEnd at hlt
    omega
  · unfold sectionEnd at hlt
    omega

/-- The contents of the one section that has the byte. -/
theorem ElfWellFormed.imageByte_of_covers (h : ElfWellFormed file n) (hi : i < k)
    (hk : k ≤ sectionCount file) (hcov : Covers file i a) :
    imageByte file a k =
      file (shOffset file (sectionAt file i) + BitVec.ofNat 32 (a - sectionStart file i)) := by
  induction k with
  | zero => omega
  | succ k ih =>
    rw [imageByte]
    split_ifs with hc
    · have heq := h.eq_of_overlap ⟨by omega, hcov.1⟩ ⟨by omega, hc.1⟩ hcov.2.2 hc.2.2
      rw [heq]
    · rcases Nat.lt_succ_iff_lt_or_eq.mp hi with hlt | rfl
      · exact ih hlt (by omega)
      · exact absurd hcov hc

/-- Bytes without contents are 0. -/
theorem imageByte_of_not_covers (h : ∀ i < k, ¬ Covers file i a) : imageByte file a k = 0 := by
  induction k with
  | zero => rfl
  | succ k ih =>
    rw [imageByte, if_neg (h k (Nat.lt_succ_self k))]
    exact ih fun i hi => h i (Nat.lt_succ_of_lt hi)

end Hjortron
