import Hjortron.Execution.Proofs.ElfSpec

/-!
# Object files with unloaded sections

Object files have relocations for sections that are not part of the image, such as debug
information. `nullSection` is the file without one section of relocations: nothing that `elf_read`
reads changes but the type of that section.
-/

namespace Hjortron

variable {file : Mem} {n i j s : Nat} {x : Word}

/-! ## Object files -/

/-- `SHT_NULL`. -/
def shtNull : Word := 0x0

section Definitions

variable (file : Mem)

/-- The section has bytes in the file. -/
def HasContents (i : Nat) : Prop :=
  shType file (sectionAt file i) ≠ shtNull ∧ shType file (sectionAt file i) ≠ shtNobits

instance (i : Nat) : Decidable (HasContents file i) := inferInstanceAs (Decidable (_ ∧ _))

/-- The relocations of section `i`, whether it is for a loaded section or not. -/
@[mk_iff]
structure RelocsWellFormed (i : Nat) : Prop where
  entsize : shEntsize file (sectionAt file i) = 8
  target : (shInfo file (sectionAt file i)).toNat < sectionCount file
  symtab : (shLink file (sectionAt file i)).toNat < sectionCount file
  symtab_contents : HasContents file (shLink file (sectionAt file i)).toNat
  type : ∀ j < relocCount file i, relocType file i j = relt386None ∨
    relocType file i j = relt38632 ∨ relocType file i j = relt386Pc32
  symbol : ∀ j < relocCount file i,
    (relocSymbol file i j).toNat * 16 + 16 ≤ (shSize file (symtabAt file i)).toNat
  symbol_section : ∀ j < relocCount file i, stShndx file (symbolAt file i j) = shnAbs ∨
    (stShndx file (symbolAt file i j)).toNat < sectionCount file
  defined : ∀ j < relocCount file i, relocSymbol file i j ≠ 0 →
    stShndx file (symbolAt file i j) ≠ shnUndef
  inside : ∀ j < relocCount file i,
    (rOffset file (relocAt file i j)).toNat + 4 ≤ (shSize file (targetAt file i)).toNat

instance (i : Nat) : Decidable (RelocsWellFormed file i) :=
  decidable_of_iff' _ (relocsWellFormed_iff file i)

/-- A relocatable object file of `n` bytes with defined symbols. The contents of its sections do not
overlap the table of sections. -/
@[mk_iff]
structure ObjectWellFormed (n : Nat) : Prop where
  isFile : elfIsFile file 0 = true
  isSupported : elfIsSupported file 0 = true
  table_start : 52 ≤ (eShoff file 0).toNat
  table : (eShoff file 0).toNat + 40 * sectionCount file ≤ n
  contents : ∀ i < sectionCount file, HasContents file i →
    (shOffset file (sectionAt file i)).toNat + (shSize file (sectionAt file i)).toNat ≤ n ∧
      (shSize file (sectionAt file i) = 0 ∨
        (shOffset file (sectionAt file i)).toNat + (shSize file (sectionAt file i)).toNat ≤
          (eShoff file 0).toNat ∨
        (eShoff file 0).toNat + 40 * sectionCount file ≤
          (shOffset file (sectionAt file i)).toNat)
  fits : ∀ i < sectionCount file, IsLoaded file i → sectionEnd file i < 2 ^ 32
  rel : ∀ i < sectionCount file, shType file (sectionAt file i) = shtRel →
    RelocsWellFormed file i

instance (n : Nat) : Decidable (ObjectWellFormed file n) :=
  decidable_of_iff' _ (objectWellFormed_iff file n)

/-- The relocations of section `s` are for a section that is not loaded. -/
def Stray (s : Nat) : Prop :=
  s < sectionCount file ∧ shType file (sectionAt file s) = shtRel ∧
    shAlloc file (targetAt file s) = false

instance (s : Nat) : Decidable (Stray file s) := inferInstanceAs (Decidable (_ ∧ _ ∧ _))

/-- The file with the type of section `s` changed to `SHT_NULL`. -/
def nullSection (s : Nat) : Mem := file.store32 (sectionAt file s + 4) shtNull

end Definitions

theorem hasContents_rel (htype : shType file (sectionAt file i) = shtRel) :
    HasContents file i := by
  rw [HasContents, htype]
  decide

namespace ObjectWellFormed

variable (hwf : ObjectWellFormed file n)
include hwf

theorem loadable : Loadable file n := by
  have hstart := hwf.table_start
  have htable := hwf.table
  refine ⟨⟨by omega, htable⟩, hwf.fits, fun i hi _ hprog => (hwf.contents i hi ?_).1⟩
  rw [HasContents, hprog]
  decide

theorem relocatable : Relocatable file n := by
  refine ⟨hwf.loadable.toTableInside, fun i hi htype => ?_⟩
  have hrel := hwf.rel i hi htype
  have hsymtab := hwf.contents _ hrel.symtab hrel.symtab_contents
  refine ⟨hrel.entsize, hrel.target, hrel.symtab,
    (hwf.contents i hi (hasContents_rel htype)).1, fun j hj => ?_, hrel.symbol_section⟩
  have hsymbol := hrel.symbol j hj
  rw [← elfFindSh_eq_sectionAt] at hsymtab
  unfold symtabAt at hsymbol ⊢
  omega

theorem relocAt_outside (hn : n < 2 ^ 32) (hi : i < sectionCount file)
    (htype : shType file (sectionAt file i) = shtRel) (hj : j < relocCount file i) :
    (relocAt file i j).toNat + 8 ≤ (eShoff file 0).toNat ∨
      (eShoff file 0).toNat + 40 * sectionCount file ≤ (relocAt file i j).toNat := by
  have hcontents := hwf.contents i hi (hasContents_rel htype)
  unfold relocCount at hj
  unfold relocAt
  bv_omega

theorem symbolAt_outside (hn : n < 2 ^ 32) (hi : i < sectionCount file)
    (htype : shType file (sectionAt file i) = shtRel) (hj : j < relocCount file i) :
    (symbolAt file i j).toNat + 16 ≤ (eShoff file 0).toNat ∨
      (eShoff file 0).toNat + 40 * sectionCount file ≤ (symbolAt file i j).toNat := by
  have hrel := hwf.rel i hi htype
  have hcontents := hwf.contents _ hrel.symtab hrel.symtab_contents
  have hsymbol := hrel.symbol j hj
  rw [← elfFindSh_eq_sectionAt] at hcontents
  unfold symtabAt at hsymbol
  unfold symbolAt symtabAt
  bv_omega

/-! ## The file without a section of relocations -/

section Null

variable (hn : n < 2 ^ 32) (hs : s < sectionCount file)
include hn hs

/-- Nothing changes outside the table of sections. -/
theorem nullSection_apply
    (hx : x.toNat < (eShoff file 0).toNat ∨
      (eShoff file 0).toNat + 40 * sectionCount file ≤ x.toNat) :
    nullSection file s x = file x := by
  have hat := hwf.loadable.sectionAt_toNat hn hs
  have htable := hwf.table
  apply Mem.store32_of_not_inRange
  unfold InRange
  bv_omega

theorem nullSection_load32 (hend : x.toNat + 4 ≤ 2 ^ 32)
    (hx : x.toNat + 4 ≤ (eShoff file 0).toNat ∨
      (eShoff file 0).toNat + 40 * sectionCount file ≤ x.toNat) :
    (nullSection file s).load32 x = file.load32 x := by
  apply Mem.load32_congr
  intro y hy
  apply hwf.nullSection_apply hn hs
  unfold InRange at hy
  bv_omega

theorem nullSection_load16 (hend : x.toNat + 2 ≤ 2 ^ 32)
    (hx : x.toNat + 2 ≤ (eShoff file 0).toNat ∨
      (eShoff file 0).toNat + 40 * sectionCount file ≤ x.toNat) :
    (nullSection file s).load16 x = file.load16 x := by
  have h0 := hwf.nullSection_apply hn hs (x := x) (by omega)
  have h1 := hwf.nullSection_apply hn hs (x := x + 1) (by bv_omega)
  unfold Mem.load16
  rw [h0, h1]

/-- The other members of section headers are as they were. -/
theorem nullSection_member (hi : i < sectionCount file) (c : Word) (hc : c.toNat ≤ 36)
    (hne : i ≠ s ∨ 8 ≤ c.toNat) :
    (nullSection file s).load32 (sectionAt file i + c) = file.load32 (sectionAt file i + c) := by
  have hat := hwf.loadable.sectionAt_toNat hn hs
  have hati := hwf.loadable.sectionAt_toNat hn hi
  have htable := hwf.table
  apply Mem.load32_store32_apart
  unfold Apart
  rcases Nat.lt_trichotomy i s with hlt | rfl | hlt
  · bv_omega
  · bv_omega
  · bv_omega

theorem nullSection_header : eShoff (nullSection file s) 0 = eShoff file 0 ∧
    eShnum (nullSection file s) 0 = eShnum file 0 ∧
    eEntry (nullSection file s) 0 = eEntry file 0 := by
  have hstart := hwf.table_start
  refine ⟨?_, ?_, ?_⟩
  · exact hwf.nullSection_load32 hn hs (x := 32) (by decide) (.inl (show 36 ≤ _ by omega))
  · exact hwf.nullSection_load16 hn hs (x := 48) (by decide) (.inl (show 50 ≤ _ by omega))
  · exact hwf.nullSection_load32 hn hs (x := 24) (by decide) (.inl (show 28 ≤ _ by omega))

theorem nullSection_elfFindSh (idx : Word) :
    elfFindSh (nullSection file s) 0 idx = elfFindSh file 0 idx := by
  unfold elfFindSh
  rw [(hwf.nullSection_header hn hs).1]

theorem nullSection_sectionAt : sectionAt (nullSection file s) i = sectionAt file i :=
  hwf.nullSection_elfFindSh hn hs _

theorem nullSection_sectionCount : sectionCount (nullSection file s) = sectionCount file := by
  unfold sectionCount
  rw [(hwf.nullSection_header hn hs).2.1]

theorem nullSection_checks : elfIsFile (nullSection file s) 0 = elfIsFile file 0 ∧
    elfIsSupported (nullSection file s) 0 = elfIsSupported file 0 := by
  have hshow : Shows (nullSection file s) 0 file 52 := by
    intro y hy
    have hstart := hwf.table_start
    rw [zero_add]
    exact hwf.nullSection_apply hn hs (.inl (by omega))
  exact hshow.checks (Nat.le_refl 52) (by decide)

/-- The members of section headers but the type. -/
theorem nullSection_members (hi : i < sectionCount file) :
    shAlloc (nullSection file s) (sectionAt file i) = shAlloc file (sectionAt file i) ∧
      shAddr (nullSection file s) (sectionAt file i) = shAddr file (sectionAt file i) ∧
      shOffset (nullSection file s) (sectionAt file i) = shOffset file (sectionAt file i) ∧
      shSize (nullSection file s) (sectionAt file i) = shSize file (sectionAt file i) ∧
      shLink (nullSection file s) (sectionAt file i) = shLink file (sectionAt file i) ∧
      shInfo (nullSection file s) (sectionAt file i) = shInfo file (sectionAt file i) ∧
      shEntsize (nullSection file s) (sectionAt file i) = shEntsize file (sectionAt file i) := by
  have member (c : Word) (hc : c.toNat ≤ 36) (h8 : 8 ≤ c.toNat) :=
    hwf.nullSection_member hn hs hi c hc (.inr h8)
  have hflags : shFlags (nullSection file s) (sectionAt file i) = shFlags file (sectionAt file i) :=
    member 8 (by decide) (by decide)
  refine ⟨?_, member 12 (by decide) (by decide), member 16 (by decide) (by decide),
    member 20 (by decide) (by decide), member 24 (by decide) (by decide),
    member 28 (by decide) (by decide), member 36 (by decide) (by decide)⟩
  unfold shAlloc
  rw [hflags]

theorem nullSection_shType (hi : i < sectionCount file) :
    shType (nullSection file s) (sectionAt file i) =
      if i = s then shtNull else shType file (sectionAt file i) := by
  split_ifs with heq
  · rw [heq]
    exact Mem.load32_store32_self
  · exact hwf.nullSection_member hn hs hi 4 (by decide) (.inl heq)

/-! ### Its image -/

theorem nullSection_isLoaded (hi : i < sectionCount file) :
    IsLoaded (nullSection file s) i ↔ IsLoaded file i := by
  unfold IsLoaded
  rw [hwf.nullSection_sectionCount hn hs, hwf.nullSection_sectionAt hn hs,
    (hwf.nullSection_members hn hs hi).1]

theorem nullSection_section (hi : i < sectionCount file) :
    sectionStart (nullSection file s) i = sectionStart file i ∧
      sectionEnd (nullSection file s) i = sectionEnd file i := by
  have hsh := hwf.nullSection_members hn hs hi
  simp only [sectionEnd, sectionStart, hwf.nullSection_sectionAt hn hs, hsh, and_self]

theorem nullSection_imageLength {k : Nat} (hk : k ≤ sectionCount file) :
    imageLength (nullSection file s) k = imageLength file k := by
  induction k with
  | zero => rfl
  | succ k ih =>
    have hk' : k < sectionCount file := by omega
    rw [imageLength, imageLength, ih (by omega), hwf.nullSection_sectionAt hn hs,
      (hwf.nullSection_members hn hs hk').1, (hwf.nullSection_section hn hs hk').2]

theorem nullSection_loadable : Loadable (nullSection file s) n := by
  have hload := hwf.loadable
  refine ⟨⟨hload.header, ?_⟩, ?_, ?_⟩
  · rw [(hwf.nullSection_header hn hs).1, hwf.nullSection_sectionCount hn hs]
    exact hload.table
  · intro i hi hloaded
    rw [hwf.nullSection_sectionCount hn hs] at hi
    rw [(hwf.nullSection_section hn hs hi).2]
    exact hload.fits i hi ((hwf.nullSection_isLoaded hn hs hi).mp hloaded)
  · intro i hi hloaded hprog
    rw [hwf.nullSection_sectionCount hn hs] at hi
    have hsh := hwf.nullSection_members hn hs hi
    rw [hwf.nullSection_sectionAt hn hs, hwf.nullSection_shType hn hs hi] at hprog
    rw [hwf.nullSection_sectionAt hn hs, hsh.2.2.1, hsh.2.2.2.1]
    split_ifs at hprog with heq
    · exact absurd hprog (by decide)
    · exact hload.contents i hi ((hwf.nullSection_isLoaded hn hs hi).mp hloaded) hprog

variable (htype : shType file (sectionAt file s) = shtRel)
include htype

theorem nullSection_covers {a : Nat} (hi : i < sectionCount file) :
    Covers (nullSection file s) i a ↔ Covers file i a := by
  have hsection := hwf.nullSection_section hn hs hi
  unfold Covers
  rw [hwf.nullSection_sectionAt hn hs, (hwf.nullSection_members hn hs hi).1,
    hwf.nullSection_shType hn hs hi, hsection.1, hsection.2]
  split_ifs with heq
  · rw [heq, htype]
    simp [show shtNull ≠ shtProgbits by decide, show shtRel ≠ shtProgbits by decide]
  · rfl

theorem nullSection_imageByte {a k : Nat} (hk : k ≤ sectionCount file) :
    imageByte (nullSection file s) a k = imageByte file a k := by
  induction k with
  | zero => rfl
  | succ k ih =>
    have hk' : k < sectionCount file := by omega
    rw [imageByte, imageByte, ih (by omega)]
    by_cases hcov : Covers file k a
    · have hcontents := hwf.contents k hk' (by rw [HasContents, hcov.2.1]; decide)
      have hrange := hcov.2.2
      unfold sectionEnd at hrange
      rw [if_pos hcov, if_pos ((hwf.nullSection_covers hn hs htype hk').mpr hcov),
        hwf.nullSection_sectionAt hn hs, (hwf.nullSection_members hn hs hk').2.2.1,
        (hwf.nullSection_section hn hs hk').1]
      apply hwf.nullSection_apply hn hs
      bv_omega
    · rw [if_neg hcov, if_neg (mt (hwf.nullSection_covers hn hs htype hk').mp hcov)]

/-! ### Its relocations -/

omit htype

theorem nullSection_relocCount (hi : i < sectionCount file) :
    relocCount (nullSection file s) i = relocCount file i := by
  unfold relocCount
  rw [hwf.nullSection_sectionAt hn hs, (hwf.nullSection_members hn hs hi).2.2.2.1]

theorem nullSection_relocAt (hi : i < sectionCount file) :
    relocAt (nullSection file s) i j = relocAt file i j := by
  unfold relocAt
  rw [hwf.nullSection_sectionAt hn hs, (hwf.nullSection_members hn hs hi).2.2.1]

section Reloc

variable (hi : i < sectionCount file) (htypei : shType file (sectionAt file i) = shtRel)
  (hj : j < relocCount file i)
include hi htypei hj

/-- A relocation is as it was. -/
theorem nullSection_reloc :
    relocType (nullSection file s) i j = relocType file i j ∧
      relocSymbol (nullSection file s) i j = relocSymbol file i j ∧
      symbolAt (nullSection file s) i j = symbolAt file i j ∧
      relocOffset (nullSection file s) i j = relocOffset file i j := by
  have hout := hwf.relocAt_outside hn hi htypei hj
  have hrel := hwf.rel i hi htypei
  have hinside := (hwf.relocatable.rel i hi htypei).relocAt_inside hj
  have hinfo : rInfo (nullSection file s) (relocAt file i j) = rInfo file (relocAt file i j) := by
    apply hwf.nullSection_load32 hn hs
    · bv_omega
    · bv_omega
  have hoffset : rOffset (nullSection file s) (relocAt file i j) =
      rOffset file (relocAt file i j) := by
    apply hwf.nullSection_load32 hn hs
    · omega
    · omega
  have hsh := hwf.nullSection_members hn hs hi
  have hat := hwf.nullSection_relocAt hn hs (j := j) hi
  refine ⟨?_, ?_, ?_, ?_⟩
  · rw [relocType, relocType, hat, hinfo]
  · rw [relocSymbol, relocSymbol, hat, hinfo]
  · have hsymtab := hwf.nullSection_members hn hs hrel.symtab
    rw [← elfFindSh_eq_sectionAt] at hsymtab
    rw [symbolAt, symbolAt, relocSymbol, relocSymbol, hat, hinfo, symtabAt, symtabAt,
      hwf.nullSection_sectionAt hn hs, hsh.2.2.2.2.1, hwf.nullSection_elfFindSh hn hs,
      hsymtab.2.2.1]
  · have htarget := hwf.nullSection_members hn hs hrel.target
    rw [← elfFindSh_eq_sectionAt] at htarget
    rw [relocOffset, relocOffset, hat, hoffset, targetAt, targetAt,
      hwf.nullSection_sectionAt hn hs, hsh.2.2.2.2.2.1, hwf.nullSection_elfFindSh hn hs,
      htarget.2.1]

theorem nullSection_stShndx :
    stShndx (nullSection file s) (symbolAt file i j) = stShndx file (symbolAt file i j) := by
  have hout := hwf.symbolAt_outside hn hi htypei hj
  have hinside := (hwf.relocatable.rel i hi htypei).symbolAt_inside hj hn
  apply hwf.nullSection_load16 hn hs
  · bv_omega
  · bv_omega

theorem nullSection_symbolValue (image : Word) :
    symbolValue (nullSection file s) image i j = symbolValue file image i j := by
  have hout := hwf.symbolAt_outside hn hi htypei hj
  have hinside := (hwf.relocatable.rel i hi htypei).symbolAt_inside hj hn
  have hvalue : stValue (nullSection file s) (symbolAt file i j) =
      stValue file (symbolAt file i j) := by
    apply hwf.nullSection_load32 hn hs
    · bv_omega
    · bv_omega
  simp only [symbolValue, (hwf.nullSection_reloc hn hs hi htypei hj).2.2.1,
    hwf.nullSection_stShndx hn hs hi htypei hj, hvalue]
  split_ifs with habs
  · rfl
  · have hsection := ((hwf.rel i hi htypei).symbol_section j hj).resolve_left habs
    rw [hwf.nullSection_sectionAt hn hs, (hwf.nullSection_members hn hs hsection).2.1]

theorem nullSection_relocEffect (image : Word) :
    relocEffect (nullSection file s) image (i, j) = relocEffect file image (i, j) := by
  have hreloc := hwf.nullSection_reloc hn hs hi htypei hj
  simp only [relocEffect, relocPatch, hreloc, hwf.nullSection_stShndx hn hs hi htypei hj,
    hwf.nullSection_symbolValue hn hs hi htypei hj image]

end Reloc

/-- The relocations of section `s` are gone. -/
theorem nullSection_relocations :
    relocations (nullSection file s) = (relocations file).filter fun r => r.1 ≠ s := by
  unfold relocations relocationsOf
  rw [List.filter_flatMap, hwf.nullSection_sectionCount hn hs]
  refine List.flatMap_congr fun i hi => ?_
  have hi := List.mem_range.mp hi
  rw [hwf.nullSection_sectionAt hn hs, hwf.nullSection_shType hn hs hi,
    hwf.nullSection_relocCount hn hs hi]
  by_cases heq : i = s
  · rw [if_pos heq, if_neg (by decide)]
    split_ifs
    · simp [heq]
    · rfl
  · rw [if_neg heq]
    split_ifs
    · refine (List.filter_eq_self.mpr fun r hr => ?_).symm
      obtain ⟨j, -, rfl⟩ := List.mem_map.mp hr
      exact decide_eq_true heq
    · rfl

theorem nullSection_effects (image : Word) :
    (relocations (nullSection file s)).map (relocEffect (nullSection file s) image) =
      ((relocations file).filter fun r => r.1 ≠ s).map (relocEffect file image) := by
  rw [hwf.nullSection_relocations hn hs]
  refine List.map_congr_left fun r hr => ?_
  obtain ⟨hi, htypei, hj⟩ := mem_relocations.mp (List.mem_filter.mp hr).1
  exact hwf.nullSection_relocEffect hn hs hi htypei hj image

theorem nullSection_relocatable : Relocatable (nullSection file s) n := by
  refine ⟨(hwf.nullSection_loadable hn hs).toTableInside, fun i hi htypei => ?_⟩
  rw [hwf.nullSection_sectionCount hn hs] at hi
  rw [hwf.nullSection_sectionAt hn hs, hwf.nullSection_shType hn hs hi] at htypei
  have htypei : shType file (sectionAt file i) = shtRel := by
    split_ifs at htypei with heq
    · exact absurd htypei (by decide)
    · exact htypei
  have hrel := hwf.relocatable.rel i hi htypei
  have hsh := hwf.nullSection_members hn hs hi
  have hsymtab := hwf.nullSection_members hn hs hrel.symtab
  rw [← elfFindSh_eq_sectionAt] at hsymtab
  rw [relSectionReadable_iff]
  simp only [hwf.nullSection_sectionAt hn hs, hwf.nullSection_sectionCount hn hs, hsh,
    hwf.nullSection_relocCount hn hs hi, symtabAt, hwf.nullSection_elfFindSh hn hs, hsymtab]
  refine ⟨hrel.entsize, hrel.target, hrel.symtab, hrel.contents, fun j hj => ?_, fun j hj => ?_⟩
  · rw [(hwf.nullSection_reloc hn hs hi htypei hj).2.1]
    exact hrel.symbol_inside j hj
  · rw [(hwf.nullSection_reloc hn hs hi htypei hj).2.2.1,
      hwf.nullSection_stShndx hn hs hi htypei hj]
    exact hrel.symbol_section j hj

end Null

end ObjectWellFormed

end Hjortron
