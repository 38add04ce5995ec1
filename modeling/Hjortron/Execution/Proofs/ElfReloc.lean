import Hjortron.Execution.Proofs.ElfLoad

/-!
# The relocation pass of `elf_read`

Every relocation has one of three effects, which its file decides: it is skipped, it adds a value
to a word, or it ends the function. For a memory that shows the file from `base` on, the third loop
of `elf_read` runs the effects of all relocations in the order of the file, as long as they leave
the file buffer alone.
-/

namespace Hjortron

variable {file m : Mem} {n i j k fuel len : Nat} {base image : Word}

/-! ## Effects -/

/-- What the loader makes of a relocation. -/
inductive RelocEffect
  /-- The relocation has no type or no symbol. -/
  | skip
  /-- A word is changed. -/
  | apply (p : Patch)
  /-- The symbol is undefined or the type is not supported. -/
  | fail

namespace RelocEffect

/-- The memory after an effect; `false` when it ends the function. -/
def run : RelocEffect → Mem → Mem × Bool
  | skip, m => (m, true)
  | apply p, m => (m.patch p, true)
  | fail, m => (m, false)

/-- Runs effects up to the first one that ends the function. -/
def runAll : List RelocEffect → Mem → Mem × Bool
  | [], m => (m, true)
  | e :: es, m => if (e.run m).2 then runAll es (e.run m).1 else e.run m

theorem runAll_append (es fs : List RelocEffect) (m : Mem) :
    runAll (es ++ fs) m =
      if (runAll es m).2 then runAll fs (runAll es m).1 else runAll es m := by
  induction es generalizing m with
  | nil => rfl
  | cons e es ih =>
    rw [List.cons_append, runAll, runAll]
    split_ifs with he <;> simp_all

theorem runAll_apply (ps : List Patch) (m : Mem) :
    runAll (ps.map apply) m = (ps.foldl Mem.patch m, true) := by
  induction ps generalizing m with
  | nil => rfl
  | cons p ps ih => exact ih (m.patch p)

/-- What every effect keeps is kept by all of them. -/
theorem runAll_induction {P : Mem → Prop} {es : List RelocEffect}
    (hstep : ∀ e ∈ es, ∀ m, P m → P (e.run m).1) (hm : P m) : P (runAll es m).1 := by
  induction es generalizing m with
  | nil => exact hm
  | cons e es ih =>
    have he := hstep e (List.mem_cons_self ..) m hm
    rw [runAll]
    split_ifs
    · exact ih (fun e' he' => hstep e' (List.mem_cons_of_mem _ he')) he
    · exact he

/-- The effect writes to the `len` bytes from `image` on only. -/
def WritesIn (image : Word) (len : Nat) (e : RelocEffect) : Prop :=
  ∀ m y, ¬ InRange image len y → (e.run m).1 y = m y

/-- Patches of words in the image. -/
theorem writesIn_apply {p : Patch} (hp : ∀ y, InRange p.addr 4 y → InRange image len y) :
    WritesIn image len (apply p) := by
  intro m y hy
  exact Mem.patch_of_not_inRange fun hin => hy (hp y hin)

theorem runAll_of_not_inRange {es : List RelocEffect} {y : Word}
    (hes : ∀ e ∈ es, WritesIn image len e) (hy : ¬ InRange image len y) :
    (runAll es m).1 y = m y :=
  runAll_induction (P := fun m' => m' y = m y)
    (fun e he m' hm' => (hes e he m' y hy).trans hm') rfl

end RelocEffect

section Definitions

variable (file : Mem)

/-- What a relocation adds to its word. -/
def relocPatch (image : Word) (r : Nat × Nat) : Patch :=
  { addr := image + BitVec.ofNat 32 (relocOffset file r.1 r.2)
    delta :=
      if relocType file r.1 r.2 = relt38632 then symbolValue file image r.1 r.2
      else symbolValue file image r.1 r.2 - (image + BitVec.ofNat 32 (relocOffset file r.1 r.2)) }

/-- The effect of a relocation when the image starts at `image`. -/
def relocEffect (image : Word) (r : Nat × Nat) : RelocEffect :=
  if relocType file r.1 r.2 = 0 ∨ relocSymbol file r.1 r.2 = 0 then .skip
  else if stShndx file (symbolAt file r.1 r.2) = shnUndef then .fail
  else if relocType file r.1 r.2 = relt38632 ∨ relocType file r.1 r.2 = relt386Pc32 then
    .apply (relocPatch file image r)
  else .fail

/-- What the relocations of section `i` refer to lies inside a file of `n` bytes. -/
@[mk_iff]
structure RelSectionReadable (n i : Nat) : Prop where
  entsize : shEntsize file (sectionAt file i) = 8
  target : (shInfo file (sectionAt file i)).toNat < sectionCount file
  symtab : (shLink file (sectionAt file i)).toNat < sectionCount file
  contents :
    (shOffset file (sectionAt file i)).toNat + (shSize file (sectionAt file i)).toNat ≤ n
  symbol_inside : ∀ j < relocCount file i,
    (shOffset file (symtabAt file i)).toNat + (relocSymbol file i j).toNat * 16 + 16 ≤ n
  symbol_section : ∀ j < relocCount file i, stShndx file (symbolAt file i j) = shnAbs ∨
    (stShndx file (symbolAt file i j)).toNat < sectionCount file

instance (n i : Nat) : Decidable (RelSectionReadable file n i) :=
  decidable_of_iff' _ (relSectionReadable_iff file n i)

/-- The relocation pass reads inside a file of `n` bytes. -/
structure Relocatable (n : Nat) : Prop extends TableInside file n where
  rel : ∀ i < sectionCount file, shType file (sectionAt file i) = shtRel →
    RelSectionReadable file n i

end Definitions

/-- A relocation of a word in the image writes there only. -/
theorem writesIn_relocEffect {r : Nat × Nat} (image : Word) (hlt : len < 2 ^ 32)
    (hle : relocOffset file r.1 r.2 + 4 ≤ len) :
    (relocEffect file image r).WritesIn image len := by
  unfold relocEffect
  split_ifs
  · exact fun m y _ => rfl
  · exact fun m y _ => rfl
  · apply RelocEffect.writesIn_apply
    intro y hy
    unfold relocPatch InRange at hy
    unfold InRange
    bv_omega
  · exact fun m y _ => rfl

/-! ## Reading a relocation -/

namespace RelSectionReadable

variable (hrel : RelSectionReadable file n i)
include hrel

theorem relocAt_inside (hj : j < relocCount file i) : (relocAt file i j).toNat + 8 ≤ n := by
  have hcontents := hrel.contents
  unfold relocCount at hj
  unfold relocAt
  bv_omega

theorem symbolAt_inside (hj : j < relocCount file i) (hn : n < 2 ^ 32) :
    (symbolAt file i j).toNat + 16 ≤ n := by
  have hsymbol := hrel.symbol_inside j hj
  unfold symbolAt
  bv_omega

end RelSectionReadable

section Entry

variable (hn : n < 2 ^ 32) (hshow : Shows m base file n) (hrel : RelSectionReadable file n i)
  (hj : j < relocCount file i)
include hn hshow hrel hj

theorem Shows.stShndx_eq :
    stShndx m (base + symbolAt file i j) = stShndx file (symbolAt file i j) := by
  have hinside := hrel.symbolAt_inside hj hn
  exact hshow.member16 14 (show (symbolAt file i j).toNat + 14 + 2 ≤ n by omega) hn

variable (htable : TableInside file n)
include htable

/-- `elf_find_sym` for the symbol of a relocation. -/
theorem elfFindSym_eq :
    elfFindSym m base (shLink file (sectionAt file i)) (relocSymbol file i j) =
      if stShndx file (symbolAt file i j) = shnUndef then 0 else base + symbolAt file i j := by
  have hsh := hshow.sectionHeader (htable.elfFindSh_inside hn hrel.symtab) hn
  unfold elfFindSym
  simp only [hshow.elfFindSh_eq htable.header hn, hsh]
  rw [BitVec.add_assoc, show shOffset file (elfFindSh file 0 (shLink file (sectionAt file i))) +
    relocSymbol file i j * 16 = symbolAt file i j from rfl,
    Shows.stShndx_eq hn hshow hrel hj]

/-- The value that `elf_read` computes for a symbol. -/
theorem symbolValue_eq (image : Word) :
    (if stShndx m (base + symbolAt file i j) = shnAbs then stValue m (base + symbolAt file i j)
      else image + stValue m (base + symbolAt file i j) +
        shAddr m (elfFindSh m base ((stShndx m (base + symbolAt file i j)).setWidth 32))) =
      symbolValue file image i j := by
  have hinside := hrel.symbolAt_inside hj hn
  have hvalue : stValue m (base + symbolAt file i j) = stValue file (symbolAt file i j) :=
    hshow.member32 4 (show (symbolAt file i j).toNat + 4 + 4 ≤ n by omega) hn
  have hidx : ((stShndx file (symbolAt file i j)).setWidth 32).toNat =
      (stShndx file (symbolAt file i j)).toNat := by
    have hlt := (stShndx file (symbolAt file i j)).isLt
    rw [BitVec.toNat_setWidth, Nat.mod_eq_of_lt (by omega)]
  simp only [symbolValue, Shows.stShndx_eq hn hshow hrel hj, hvalue]
  split_ifs with habs
  · rfl
  · have hlt := (hrel.symbol_section j hj).resolve_left habs
    have hsh := hshow.sectionHeader (htable.elfFindSh_inside hn (hidx.trans_lt hlt)) hn
    rw [hshow.elfFindSh_eq htable.header hn, hsh.2.2.1, elfFindSh_eq_sectionAt, hidx]
    exact add_right_comm _ _ _

end Entry

/-- `elf_rel_sym` applies the patch of a relocation, or refuses its type. -/
theorem elfRelSym_eq (m : Mem) (image : Word) (htype : relocType file i j ≠ 0) :
    elfRelSym m (relocType file i j) (image + BitVec.ofNat 32 (relocOffset file i j))
        (symbolValue file image i j) =
      if relocType file i j = relt38632 ∨ relocType file i j = relt386Pc32 then
        some (m.patch (relocPatch file image (i, j)))
      else none := by
  unfold elfRelSym Mem.patch relocPatch
  rw [if_neg (show relocType file i j ≠ relt386None from htype)]
  by_cases h32 : relocType file i j = relt38632
  · simp [h32]
  · by_cases hpc : relocType file i j = relt386Pc32
    · simp [hpc, show ¬ relt386Pc32 = relt38632 by decide]
    · simp [h32, hpc]

/-- The body of the inner loop has the effect of its relocation. -/
theorem relocateEntry_eq (image : Word) (htable : TableInside file n) (hn : n < 2 ^ 32)
    (hshow : Shows m base file n) (hbase : base ≠ 0) (hwrap : base.toNat + n ≤ 2 ^ 32)
    (hrel : RelSectionReadable file n i) (hi : i < sectionCount file)
    (hj : j < relocCount file i) :
    relocateEntry base image (base + sectionAt file i) (base + targetAt file i)
        (base + relocAt file i j) m =
      (relocEffect file image (i, j)).run m := by
  have hinside := hrel.relocAt_inside hj
  have hinfo : rInfo m (base + relocAt file i j) = rInfo file (relocAt file i j) :=
    hshow.member32 4 (show (relocAt file i j).toNat + 4 + 4 ≤ n by omega) hn
  have hoffset : rOffset m (base + relocAt file i j) = rOffset file (relocAt file i j) :=
    hshow.load32 (by omega) (by omega)
  have hsh := hshow.sectionHeader (htable.sectionAt_inside hn hi) hn
  have htarget : shAddr m (base + targetAt file i) = shAddr file (targetAt file i) :=
    (hshow.sectionHeader (htable.elfFindSh_inside hn hrel.target) hn).2.2.1
  have hsym := elfFindSym_eq hn hshow hrel hj htable
  have hvalue := symbolValue_eq hn hshow hrel hj htable image
  have hne : base + symbolAt file i j ≠ 0 := by
    have hsymbol := hrel.symbolAt_inside hj hn
    bv_omega
  have haddr : shAddr file (targetAt file i) + rOffset file (relocAt file i j) =
      BitVec.ofNat 32 (relocOffset file i j) := by
    unfold relocOffset
    bv_omega
  unfold relocateEntry relocEffect
  simp only [hinfo, hoffset, hsh]
  rw [show (rInfo file (relocAt file i j)).setWidth 8 = relocType file i j from rfl,
    show rInfo file (relocAt file i j) >>> 8 = relocSymbol file i j from rfl]
  by_cases hskip : relocType file i j = 0 ∨ relocSymbol file i j = 0
  · rw [if_pos hskip, if_pos hskip]
    rfl
  · rw [if_neg hskip, if_neg hskip, hsym]
    by_cases hundef : stShndx file (symbolAt file i j) = shnUndef
    · rw [if_pos hundef, if_pos rfl, if_pos hundef]
      rfl
    · rw [if_neg hundef, if_neg hne, if_neg hundef, hvalue, htarget, haddr,
        elfRelSym_eq m image (not_or.mp hskip).1]
      split_ifs <;> rfl

/-! ## The loops -/

theorem relocationsOf_cons (i : Nat) (is : List Nat) :
    relocationsOf file (i :: is) =
      (if shType file (sectionAt file i) = shtRel then (List.range (relocCount file i)).map (i, ·)
        else []) ++ relocationsOf file is :=
  List.flatMap_cons

section Loops

variable (hrel : Relocatable file n) (hn : n < 2 ^ 32) (hbase : base ≠ 0)
  (hwrap : base.toNat + n ≤ 2 ^ 32) (hap : Apart image len base n)
  (hin : ∀ r ∈ relocations file, (relocEffect file image r).WritesIn image len)
include hrel hn hbase hwrap hap hin

/-- The inner relocation loop. -/
theorem relocateEntries_eq (hshow : Shows m base file n) (hi : i < sectionCount file)
    (htype : shType file (sectionAt file i) = shtRel) (hjk : j + k = relocCount file i)
    (hfuel : k < fuel) :
    relocateEntries base image (base + sectionAt file i) (base + targetAt file i)
        (base + shOffset file (sectionAt file i)) fuel j m =
      .ok (RelocEffect.runAll (((List.range' j k).map (i, ·)).map (relocEffect file image)) m) := by
  have hsection := hrel.rel i hi htype
  induction k generalizing j fuel m with
  | zero =>
    cases fuel with
    | zero => omega
    | succ fuel =>
      have hsh := hshow.sectionHeader (hrel.sectionAt_inside hn hi) hn
      unfold relocCount at hjk
      rw [relocateEntries]
      simp only [hsh, hsection.entsize]
      rw [if_neg (by decide), if_neg (by rw [BitVec.toNat_udiv]; simp; omega)]
      rfl
  | succ k ih =>
    cases fuel with
    | zero => omega
    | succ fuel =>
      have hj : j < relocCount file i := by omega
      have hsh := hshow.sectionHeader (hrel.sectionAt_inside hn hi) hn
      have hentry := relocateEntry_eq image hrel.toTableInside hn hshow hbase hwrap hsection hi hj
      have hshow' := hshow.of_apart hap (hin (i, j) (mem_relocations.mpr ⟨hi, htype, hj⟩) m)
      unfold relocCount at hjk ih
      rw [relocateEntries]
      simp only [hsh, hsection.entsize]
      rw [if_neg (by decide), if_pos (by rw [BitVec.toNat_udiv]; simp; omega), BitVec.add_assoc,
        show shOffset file (sectionAt file i) + 8 * BitVec.ofNat 32 j = relocAt file i j from rfl,
        hentry, List.range'_succ, List.map_cons, List.map_cons, RelocEffect.runAll]
      cases heffect : relocEffect file image (i, j) with
      | skip => exact ih hshow (by omega) (by omega)
      | apply p =>
        rw [heffect] at hshow'
        exact ih hshow' (by omega) (by omega)
      | fail => rfl

/-- The third pass. -/
theorem relocateLoop_eq (hshow : Shows m base file n) (hik : i + k = sectionCount file)
    (hfuel : k ≤ fuel) :
    relocateLoop base base image fuel i m =
      .ok (RelocEffect.runAll
        ((relocationsOf file (List.range' i k)).map (relocEffect file image)) m) := by
  induction k generalizing i fuel m with
  | zero =>
    cases fuel with
    | zero => rfl
    | succ fuel =>
      rw [relocateLoop, hshow.eShnum_eq hrel.header hn, if_neg (by omega)]
      rfl
  | succ k ih =>
    cases fuel with
    | zero => omega
    | succ fuel =>
      have hi : i < sectionCount file := by omega
      have hsh := hshow.sectionHeader (hrel.sectionAt_inside hn hi) hn
      rw [relocateLoop, hshow.eShnum_eq hrel.header hn, if_pos hi, List.range'_succ,
        relocationsOf_cons]
      simp only [hshow.sectionAt_eq hrel.header hn, hsh]
      rw [hshow.elfFindSh_eq hrel.header hn]
      by_cases htype : shType file (sectionAt file i) = shtRel
      · have hcount : relocCount file i < 2 ^ 32 := by
          have hsize := (shSize file (sectionAt file i)).isLt
          unfold relocCount
          omega
        have hentries := relocateEntries_eq hrel hn hbase hwrap hap hin hshow hi htype
          (Nat.zero_add (relocCount file i)) hcount
        have hshow' : Shows (RelocEffect.runAll
            (((List.range' 0 (relocCount file i)).map (i, ·)).map (relocEffect file image)) m).1
            base file n := by
          refine hshow.of_apart hap fun y hy => RelocEffect.runAll_of_not_inRange ?_ hy
          intro e he
          obtain ⟨r, hr, rfl⟩ := List.mem_map.mp he
          obtain ⟨j, hj, rfl⟩ := List.mem_map.mp hr
          have hj' : j < relocCount file i := by simpa using List.mem_range'_1.mp hj
          exact hin (i, j) (mem_relocations.mpr ⟨hi, htype, hj'⟩)
        rw [if_neg (not_not.mpr htype), if_pos htype, List.map_append, RelocEffect.runAll_append,
          List.range_eq_range']
        unfold targetAt at hentries
        rw [hentries]
        show (if _ then _ else _) = _
        split_ifs with hok
        · exact ih hshow' (by omega) (by omega)
        · rw [Bool.not_eq_true] at hok
          rw [← hok]
          rfl
      · rw [if_pos htype, if_neg htype, List.nil_append]
        exact ih hshow (by omega) (by omega)

end Loops

end Hjortron
