import Hjortron.Boot.FindFile
import Hjortron.Boot.Proofs.ReadFileSpec

/-!
# The root directory search of the boot loader

Before entry number `i` the loop has read the sectors of all entries below `i` and none of them is
the file. From the entry's place in its sector, `di` and `bx` follow.
-/

namespace Hjortron

/-! ## The root directory -/

/-- The first sector of the root directory. -/
def rootStart (bpb : BiosParameterBlock) : Nat :=
  bpb.reservedSectors.toNat + bpb.fats.toNat * bpb.sectorsPerFat.toNat

/-- A byte of the root directory. -/
def rootByte (bpb : BiosParameterBlock) (disk : Disk) (k : Nat) : Byte :=
  disk (BitVec.ofNat 32 (rootStart bpb + k / 512)) (k % 512)

/-- Entry number `i` has the name. -/
def EntryNamed (bpb : BiosParameterBlock) (disk : Disk) (name : Nat → Byte) (i : Nat) : Prop :=
  ∀ k < 11, name k = rootByte bpb disk (32 * i + k)

instance (bpb : BiosParameterBlock) (disk : Disk) (name : Nat → Byte) (i : Nat) :
    Decidable (EntryNamed bpb disk name i) :=
  inferInstanceAs (Decidable (∀ k < 11, _))

/-- The start cluster of entry number `i`. -/
def entryCluster (bpb : BiosParameterBlock) (disk : Disk) (i : Nat) : Half :=
  rootByte bpb disk (32 * i + 0x1B) ++ rootByte bpb disk (32 * i + 0x1A)

/-- The first of the entries from `i` to `i + count` that has the name. -/
def firstNamed (bpb : BiosParameterBlock) (disk : Disk) (name : Nat → Byte) (i count : Nat) :
    Option Nat :=
  (List.range' i count).find? fun i => decide (EntryNamed bpb disk name i)

variable {bpb : BiosParameterBlock} {disk : Disk} {name : Nat → Byte} {n i fuel : Nat}
  {s : FindState}

theorem repeCmpsb_iff {source destination : Nat → Byte} {cx k : Nat} :
    repeCmpsb source destination cx k = true ↔ ∀ m < cx, source (k + m) = destination (k + m) := by
  induction cx generalizing k with
  | zero => simp [repeCmpsb]
  | succ cx ih =>
    rw [repeCmpsb]
    split_ifs with heq
    · rw [ih]
      constructor
      · intro h m hm
        cases m with
        | zero => exact heq
        | succ m => simpa [Nat.add_right_comm, ← Nat.add_assoc] using h m (by omega)
      · intro h m hm
        simpa [Nat.add_right_comm, ← Nat.add_assoc] using h (m + 1) (by omega)
    · exact ⟨fun h => absurd h (by simp), fun h => absurd (h 0 (by omega)) heq⟩

/-! ## One entry -/

/-- The state when `find_file` compares entry number `i` of `n`: the sector of the entry stands in
the buffer. -/
structure AtEntry (bpb : BiosParameterBlock) (disk : Disk) (n i : Nat) (s : FindState) : Prop where
  ax : s.ax.toNat = n - i
  bx : s.bx.toNat = i / 16 + 1
  di : s.di.toNat = 0x7E00 + 32 * (i % 16)
  buffer : ∀ k < 512, s.buffer k = rootByte bpb disk (512 * (i / 16) + k)
  reads : s.reads.map BitVec.toNat = List.range' (rootStart bpb) (i / 16 + 1)

/-- The state at `.loop` for entry number `i` of `n`: in the first entry of a sector `di` is still
beyond the sector before. -/
inductive BeforeEntry (bpb : BiosParameterBlock) (disk : Disk) (n i : Nat) (s : FindState) : Prop
  | inside : AtEntry bpb disk n i s → BeforeEntry bpb disk n i s
  | first : s.ax.toNat = n - i → i % 16 = 0 → s.bx.toNat = i / 16 → s.di = bootBufferMax →
      s.reads.map BitVec.toNat = List.range' (rootStart bpb) (i / 16) → BeforeEntry bpb disk n i s

/-- The sector number of entry number `i`. -/
theorem rootSector_toNat (hfats : bpb.fats = 2) (hlba : rootStart bpb + i / 16 < 65536)
    (hbx : s.bx.toNat = i / 16) :
    (bpb.reservedSectors + bpb.sectorsPerFat + bpb.sectorsPerFat + s.bx).toNat =
      rootStart bpb + i / 16 := by
  have hstart : rootStart bpb = bpb.reservedSectors.toNat + 2 * bpb.sectorsPerFat.toNat := by
    rw [rootStart, hfats]
    rfl
  bv_omega

/-- The first part of an iteration loads the sector of the entry. -/
theorem BeforeEntry.sector (hfats : bpb.fats = 2) (hlba : rootStart bpb + i / 16 < 65536)
    (hlt : i < 65536) (h : BeforeEntry bpb disk n i s) :
    AtEntry bpb disk n i (findFileSector bpb disk s) := by
  cases h with
  | inside h =>
    have hlt : s.di < bootBufferMax := by
      rw [BitVec.lt_def, h.di]
      show _ < 0x8000
      omega
    rw [findFileSector, if_pos hlt]
    exact h
  | first hax hi hbx hdi hreads =>
    have hsector := rootSector_toNat hfats hlba hbx
    have hge : ¬ s.di < bootBufferMax := by
      rw [hdi]
      decide
    rw [findFileSector, if_neg hge]
    refine ⟨hax, ?_, ?_, ?_, ?_⟩
    · show (s.bx + 1).toNat = _
      bv_omega
    · rw [hi]
      rfl
    · intro k hk
      show ataRead disk _ 1 s.buffer k = _
      have hword : ((bpb.reservedSectors + bpb.sectorsPerFat + bpb.sectorsPerFat +
          s.bx).setWidth 32 : Word) = BitVec.ofNat 32 (rootStart bpb + i / 16) := by
        apply BitVec.eq_of_toNat_eq
        rw [BitVec.toNat_setWidth, hsector, BitVec.toNat_ofNat]
      have hdiv : (512 * (i / 16) + k) / 512 = i / 16 := by omega
      have hmod : (512 * (i / 16) + k) % 512 = k := by omega
      rw [ataRead, if_pos (by omega), Nat.div_eq_of_lt hk, Nat.mod_eq_of_lt hk, BitVec.add_zero,
        hword, rootByte, hdiv, hmod]
    · show (s.reads ++ [_]).map BitVec.toNat = _
      rw [List.map_append, hreads, List.range'_1_concat, List.map_singleton, hsector]

theorem AtEntry.offset_toNat (h : AtEntry bpb disk n i s) : s.offset.toNat = 32 * (i % 16) := by
  have hdi := h.di
  unfold FindState.offset bootBuffer
  bv_omega

/-- The bytes of the entry. -/
theorem AtEntry.byte (h : AtEntry bpb disk n i s) {k : Nat} (hk : k < 32) :
    s.buffer (32 * (i % 16) + k) = rootByte bpb disk (32 * i + k) := by
  rw [h.buffer _ (by omega)]
  congr 1
  omega

/-- The comparison decides whether the entry has the name. -/
theorem AtEntry.compare (h : AtEntry bpb disk n i s) :
    repeCmpsb name (fun k => s.buffer (s.offset.toNat + k)) 11 0 =
      decide (EntryNamed bpb disk name i) := by
  rw [Bool.eq_iff_iff, repeCmpsb_iff, decide_eq_true_iff, h.offset_toNat]
  refine forall₂_congr fun k hk => ?_
  rw [Nat.zero_add, h.byte (by omega)]

theorem AtEntry.cluster (h : AtEntry bpb disk n i s) :
    bufferWord s.buffer (s.offset + 0x1A) = entryCluster bpb disk i := by
  have hoffset : (s.offset + 0x1A).toNat = 32 * (i % 16) + 0x1A := by
    have := h.offset_toNat
    bv_omega
  rw [bufferWord, hoffset, Nat.add_assoc, h.byte (by omega), h.byte (by omega), entryCluster]

/-- The end of an iteration leads to the next entry. -/
theorem AtEntry.next (hi : i + 1 < n) (h : AtEntry bpb disk n i s) :
    BeforeEntry bpb disk n (i + 1) { s with di := s.di + fatEntrySize, ax := s.ax - 1 } := by
  have hax := h.ax
  have hdi := h.di
  have hnext : (s.ax - 1).toNat = n - (i + 1) := by bv_omega
  have hdi' : (s.di + fatEntrySize).toNat = 0x7E00 + 32 * (i % 16 + 1) := by
    unfold fatEntrySize
    bv_omega
  by_cases hlast : i % 16 = 15
  · have hdiv : (i + 1) / 16 = i / 16 + 1 := by omega
    refine .first hnext (by omega) (hdiv ▸ h.bx) ?_ (hdiv ▸ h.reads)
    apply BitVec.eq_of_toNat_eq
    rw [hdi', hlast]
    rfl
  · have hdiv : (i + 1) / 16 = i / 16 := by omega
    refine .inside ⟨hnext, hdiv ▸ h.bx, ?_, hdiv ▸ h.buffer, hdiv ▸ h.reads⟩
    show (s.di + fatEntrySize).toNat = _
    omega

/-! ## The loop -/

/-- The outcome of the search: the first of the entries from `i` to `n` that has the name, or the
error, with the sectors up to the last entry looked at. -/
structure Searched (bpb : BiosParameterBlock) (disk : Disk) (name : Nat → Byte) (n i : Nat)
    (result : FindResult) (reads : List Half) : Prop where
  ret : ∀ j ∈ firstNamed bpb disk name i (n - i),
    ∃ di, result = .ret (entryCluster bpb disk j) di
  error : firstNamed bpb disk name i (n - i) = none → result = .error "find file."
  reads : ∃ j, i ≤ j ∧ j < n ∧ reads.map BitVec.toNat = List.range' (rootStart bpb) (j / 16 + 1)

theorem firstNamed_of_named {count : Nat} (h : EntryNamed bpb disk name i) :
    firstNamed bpb disk name i (count + 1) = some i := by
  rw [firstNamed, List.range'_succ]
  exact List.find?_cons_of_pos (decide_eq_true h)

theorem firstNamed_of_not_named {count : Nat} (h : ¬ EntryNamed bpb disk name i) :
    firstNamed bpb disk name i (count + 1) = firstNamed bpb disk name (i + 1) count := by
  rw [firstNamed, List.range'_succ]
  exact List.find?_cons_of_neg (by simpa using h)

theorem firstNamed_eq_some {count j : Nat} : firstNamed bpb disk name 0 count = some j ↔
    EntryNamed bpb disk name j ∧ j < count ∧ ∀ i < j, ¬ EntryNamed bpb disk name i := by
  simp [firstNamed]

theorem firstNamed_eq_none {count : Nat} : firstNamed bpb disk name 0 count = none ↔
    ∀ j < count, ¬ EntryNamed bpb disk name j := by
  simp [firstNamed]

/-- The loop from entry number `i` on. -/
theorem findFileLoop_searched (hfats : bpb.fats = 2) (hn : n < 65536)
    (hlba : ∀ i < n, rootStart bpb + i / 16 < 65536) (hi : i < n) (hfuel : n ≤ i + fuel)
    (h : BeforeEntry bpb disk n i s) :
    ∃ result reads, findFileLoop bpb disk name fuel s = .ok (result, reads) ∧
      Searched bpb disk name n i result reads := by
  induction fuel generalizing i s with
  | zero => omega
  | succ fuel ih =>
    have hat := h.sector hfats (hlba i hi) (by omega)
    have hcount : n - i = n - (i + 1) + 1 := by omega
    rw [findFileLoop]
    simp only [hat.compare]
    by_cases hname : EntryNamed bpb disk name i
    · rw [if_pos (decide_eq_true hname)]
      have hfirst : firstNamed bpb disk name i (n - i) = some i := by
        rw [hcount]
        exact firstNamed_of_named hname
      refine ⟨_, _, rfl, ⟨fun j hj => ?_, fun hnone => ?_, i, le_rfl, hi, hat.reads⟩⟩
      · obtain rfl : i = j := Option.some.inj (hfirst.symm.trans hj)
        exact ⟨_, congrArg (FindResult.ret · _) hat.cluster⟩
      · rw [hfirst] at hnone
        cases hnone
    · have hfirst : firstNamed bpb disk name i (n - i) =
          firstNamed bpb disk name (i + 1) (n - (i + 1)) := by
        rw [hcount]
        exact firstNamed_of_not_named hname
      rw [if_neg (by simpa using hname)]
      have hax := hat.ax
      by_cases hlast : i + 1 < n
      · rw [if_pos (by bv_omega)]
        obtain ⟨result, reads, hrun, hsearched⟩ := ih hlast (by omega) (hat.next hlast)
        obtain ⟨j, hij, hj⟩ := hsearched.reads
        refine ⟨result, reads, hrun, ⟨?_, ?_, j, by omega, hj⟩⟩
        · rw [hfirst]
          exact hsearched.ret
        · rw [hfirst]
          exact hsearched.error
      · rw [if_neg (by bv_omega)]
        have hnone : firstNamed bpb disk name i (n - i) = none := by
          rw [hfirst, Nat.sub_eq_zero_of_le (by omega)]
          rfl
        refine ⟨_, _, rfl, ⟨fun j hj => ?_, fun _ => rfl, i, le_rfl, hi, hat.reads⟩⟩
        rw [hnone] at hj
        cases hj

/-- **The root directory search.** `find_file` returns the start cluster of the first entry with
the name and goes to the error exactly if there is none, and reads only sectors of entries, each at
most once. -/
theorem findFile_exact (bpb : BiosParameterBlock) (disk : Disk) (buffer name : Nat → Byte)
    (hfats : bpb.fats = 2) (hn : 1 ≤ bpb.directoryEntries.toNat)
    (hlba : ∀ i < bpb.directoryEntries.toNat, rootStart bpb + i / 16 < 65536) :
    ∃ result reads, findFile bpb disk buffer name = .ok (result, reads) ∧
      (∀ i < bpb.directoryEntries.toNat, EntryNamed bpb disk name i →
        (∀ j < i, ¬ EntryNamed bpb disk name j) →
        ∃ di, result = .ret (entryCluster bpb disk i) di) ∧
      (result = .error "find file." ↔
        ∀ i < bpb.directoryEntries.toNat, ¬ EntryNamed bpb disk name i) ∧
      reads.Nodup ∧
      ∀ lba ∈ reads, ∃ i < bpb.directoryEntries.toNat, lba.toNat = rootStart bpb + i / 16 := by
  have hbefore : BeforeEntry bpb disk bpb.directoryEntries.toNat 0
      { ax := bpb.directoryEntries, di := bootBufferMax, bx := 0, buffer, reads := [] } :=
    .first rfl rfl rfl rfl rfl
  obtain ⟨result, reads, hrun, hsearched⟩ := findFileLoop_searched hfats bpb.directoryEntries.isLt
    hlba hn (Nat.le_of_lt (by simpa using bpb.directoryEntries.isLt)) hbefore
  refine ⟨result, reads, hrun, fun i hi hname hfirst => ?_, ⟨fun herror => ?_, fun hnone => ?_⟩,
    ?_, fun lba hmem => ?_⟩
  · exact hsearched.ret i (firstNamed_eq_some.mpr ⟨hname, hi, hfirst⟩)
  · apply firstNamed_eq_none.mp
    cases hfirst : firstNamed bpb disk name 0 bpb.directoryEntries.toNat with
    | none => rfl
    | some j =>
      obtain ⟨di, hret⟩ := hsearched.ret j hfirst
      rw [hret] at herror
      cases herror
  · exact hsearched.error (firstNamed_eq_none.mpr hnone)
  · obtain ⟨j, -, -, hreads⟩ := hsearched.reads
    apply List.Nodup.of_map BitVec.toNat
    rw [hreads]
    exact List.nodup_range'
  · obtain ⟨j, -, hj, hreads⟩ := hsearched.reads
    have hlba' : lba.toNat ∈ List.range' (rootStart bpb) (j / 16 + 1) :=
      hreads ▸ List.mem_map_of_mem hmem
    rw [List.mem_range'_1] at hlba'
    exact ⟨16 * (lba.toNat - rootStart bpb), by omega, by omega⟩

/-- `"KERNEL  BIN"`. -/
def kernelBin (k : Nat) : Byte := ("KERNEL  BIN".toList.map ascii).getD k 0

/-- A floppy with `KERNEL.BIN` from cluster 5 on, in the second sector of the root directory. -/
def kernelDisk : Disk := fun lba k =>
  if lba = 20 ∧ 32 ≤ k ∧ k < 43 then kernelBin (k - 32) else if lba = 20 ∧ k = 58 then 5 else 0

theorem findFile_exact_kernel : ∃ di reads,
    findFile floppyBpb kernelDisk (fun _ => 0) kernelBin = .ok (.ret 5 di, reads) := by
  obtain ⟨result, reads, hrun, hret, -⟩ := findFile_exact floppyBpb kernelDisk (fun _ => 0)
    kernelBin rfl (by decide) (by decide +kernel)
  obtain ⟨di, hresult⟩ := hret 17 (by decide) (by decide +kernel) (by decide +kernel)
  have hcluster : entryCluster floppyBpb kernelDisk 17 = 5 := by decide +kernel
  exact ⟨di, reads, by rw [hrun, hresult, hcluster]⟩

end Hjortron
