import Hjortron.Filesystem.Proofs.ReadSpec
import Hjortron.Misc.Run

/-!
# File handles as cursors

`fat12_read` and `fat12_seek` against a cursor that is clamped to the length of the file.
Both compare the 32-bit sum of the old offset and the argument with the length, and `fat12_read`
is exact only under `ReadExact`; `CursorOk` collects when a call moves the handle like the
cursor, and `fileStep_cursor_iff` shows that it is the exact condition.
-/

namespace Hjortron

section

variable {fs : Fat12} {disk : Disk} {readFat : Half → Half} {src : Nat → Byte} {file : FsFile}
  {mem : Mem} {buffer len : Word} {span : ReadSpan} {st : ReadState} {i n : Nat}

/-! ## One read -/

theorem clampLen_toNat (ho : file.offset.toNat ≤ file.len.toNat)
    (h32 : file.offset.toNat + len.toNat < 2 ^ 32) :
    (clampLen file len).toNat = min len.toNat (file.len.toNat - file.offset.toNat) := by
  unfold clampLen
  split
  · rename_i h
    bv_omega
  · rename_i h
    bv_omega

/-- A read without wrap-around, by what its loop delivers. -/
theorem fat12Read_delivers (disk : Disk) (src : Nat → Byte) (mem : Mem) (buffer : Word)
    (hfs : fs.Sectors512)
    (hchain : ValidChain fs readFat file.ref file.len.toNat)
    (ho : file.offset.toNat ≤ file.len.toNat) (h32 : file.offset.toNat + len.toNat < 2 ^ 32) :
    ∃ f d, (fat12Read fs disk readFat src file mem buffer len).file =
        { file with offset := BitVec.ofNat 32 (file.offset.toNat + d) } ∧
      (fat12Read fs disk readFat src file mem buffer len).mem = mem.blit buffer f d ∧
      (ReadExact fs file.offset.toNat (min len.toNat (file.len.toNat - file.offset.toNat)) →
        d = min len.toNat (file.len.toNat - file.offset.toNat) ∧
          ∀ k < d, f k = fileByte fs disk readFat file.ref (file.offset.toNat + k)) ∧
      (¬ ReadExact fs file.offset.toNat (min len.toNat (file.len.toNat - file.offset.toNat)) →
        d < min len.toNat (file.len.toNat - file.offset.toNat)) := by
  have hclamp := clampLen_toNat ho h32
  by_cases h0 : clampLen file len = 0
  · have hm : min len.toNat (file.len.toNat - file.offset.toNat) = 0 := by
      rw [← hclamp, h0]
      rfl
    have hfile : BitVec.ofNat 32 (file.offset.toNat + 0) = file.offset := by simp
    refine ⟨fun _ => 0, 0, ?_, ?_, fun _ => ⟨hm.symm, by simp⟩, fun hn => ?_⟩
    · simp [fat12Read, h0]
    · simp [fat12Read, h0, Mem.blit]
    · have := not_readExact hn
      simp only [hm, Nat.add_zero] at this
      omega
  · generalize hm : min len.toNat (file.len.toNat - file.offset.toNat) = m at *
    have hpos : 0 < m := by
      rw [← hclamp]
      bv_omega
    have hsum : (file.offset + clampLen file len).toNat = file.offset.toNat + m := by
      rw [BitVec.toNat_add, hclamp]
      exact Nat.mod_eq_of_lt (by omega)
    have hspan := hfs.spanOf file.offset (clampLen file len)
    rw [hsum] at hspan
    obtain ⟨f, d, hdel, hex, hshort⟩ := readLoop_delivers disk buffer
      ⟨file.ref, 0, 0, 0, src, file.offset, mem⟩ hfs hspan hchain hpos (by omega) (by omega) rfl rfl
      (by simp) rfl
    have hend : (readSpan fs file.offset (clampLen file len)).clusterEnd.toNat + 1 =
        (file.offset.toNat + m) / fs.clusterBytes + 1 := by rw [hspan.clusterEnd]
    refine ⟨f, d, ?_, ?_, fun h => ?_, hshort⟩
    · simp only [fat12Read, if_neg h0, hend, hdel.offset]
    · simp only [fat12Read, if_neg h0, hend, hdel.mem]
    · obtain ⟨rfl, hbytes⟩ := hex h
      exact ⟨rfl, hbytes⟩

theorem ReadExact.mono {o m m' : Nat} (h : ReadExact fs o m) (hle : m' ≤ m) :
    ReadExact fs o m' := by
  rcases h with h | h
  · exact Or.inl h
  · exact Or.inr ((Nat.div_le_div_right (by omega)).trans h)

/-- The handle and the memory after an exact read at offset `o`. -/
theorem fat12Read_exact (disk : Disk) (src : Nat → Byte) (mem : Mem) (buffer : Word) {o : Nat}
    (hfs : fs.Sectors512) (hchain : ValidChain fs readFat file.ref file.len.toNat)
    (ho : file.offset.toNat = o) (hle : o ≤ file.len.toNat) (h32 : o + len.toNat < 2 ^ 32)
    (hex : ReadExact fs o (min len.toNat (file.len.toNat - o))) :
    (fat12Read fs disk readFat src file mem buffer len).file =
        { file with offset := BitVec.ofNat 32 (min (o + len.toNat) file.len.toNat) } ∧
      (fat12Read fs disk readFat src file mem buffer len).mem =
        mem.blit buffer (fun k => fileByte fs disk readFat file.ref (o + k))
          (min len.toNat (file.len.toNat - o)) := by
  subst ho
  obtain ⟨f, d, hfile, hmem, hgood, -⟩ := fat12Read_delivers disk src mem buffer hfs hchain hle h32
  obtain ⟨rfl, hbytes⟩ := hgood hex
  refine ⟨?_, hmem.trans (Mem.blit_congr hbytes)⟩
  rw [hfile, show file.offset.toNat + min len.toNat (file.len.toNat - file.offset.toNat) =
    min (file.offset.toNat + len.toNat) file.len.toNat by omega]

/-- A read that is not exact stops too early. -/
theorem fat12Read_short (disk : Disk) (src : Nat → Byte) (mem : Mem) (buffer : Word) {o : Nat}
    (hfs : fs.Sectors512) (hchain : ValidChain fs readFat file.ref file.len.toNat)
    (ho : file.offset.toNat = o) (hle : o ≤ file.len.toNat) (h32 : o + len.toNat < 2 ^ 32)
    (hn : ¬ ReadExact fs o (min len.toNat (file.len.toNat - o))) :
    (fat12Read fs disk readFat src file mem buffer len).file.offset.toNat <
      min (o + len.toNat) file.len.toNat := by
  subst ho
  obtain ⟨f, d, hfile, -, -, hshort⟩ := fat12Read_delivers disk src mem buffer hfs hchain hle h32
  have hd := hshort hn
  rw [hfile]
  change (BitVec.ofNat 32 (file.offset.toNat + d)).toNat < _
  rw [ofNat_toNat_of_lt (by omega)]
  omega

/-! ## Splitting a read -/

/-- Reading `n₁` and then `n₂` bytes leaves the buffer and the offset as one read of both does,
and these are the bytes of the file up to its end. -/
def SplitRead (fs : Fat12) (disk : Disk) (readFat : Half → Half) (src src₁ src₂ : Nat → Byte)
    (file : FsFile) (mem : Mem) (buffer n₁ n₂ : Word) : Prop :=
  let whole := fat12Read fs disk readFat src file mem buffer (n₁ + n₂)
  let first := fat12Read fs disk readFat src₁ file mem buffer n₁
  let second := fat12Read fs disk readFat src₂ first.file first.mem
    (buffer + (first.file.offset - file.offset)) n₂
  let stop := min (file.offset.toNat + n₁.toNat + n₂.toNat) file.len.toNat
  second.mem = whole.mem ∧ second.file.offset = whole.file.offset ∧
    whole.file.offset.toNat = stop ∧
    whole.mem = mem.blit buffer
      (fun k => fileByte fs disk readFat file.ref (file.offset.toNat + k))
      (stop - file.offset.toNat)

/-- The lengths of the two parts of a read add up to the length of the whole. -/
theorem split_length {o n₁ n₂ len : Nat} (ho : o ≤ len) :
    min n₁ (len - o) + min n₂ (len - min (o + n₁) len) = min (n₁ + n₂) (len - o) := by
  rcases Nat.le_total (o + n₁) len with h | h
  · rw [Nat.min_eq_left h, Nat.min_eq_left (show n₁ ≤ len - o by omega), Nat.sub_add_eq]
    omega
  · rw [Nat.min_eq_right h, Nat.min_eq_right (show len - o ≤ n₁ by omega), Nat.sub_self]
    omega

/-- Two exact reads deliver what one exact read does. -/
theorem splitRead_of_exact (src src₁ src₂ : Nat → Byte) (mem : Mem) (buffer n₁ n₂ : Word)
    (disk : Disk) (hfs : fs.Sectors512) (hchain : ValidChain fs readFat file.ref file.len.toNat)
    (ho : file.offset.toNat ≤ file.len.toNat)
    (h32 : file.offset.toNat + n₁.toNat + n₂.toNat < 2 ^ 32)
    (hw : ReadExact fs file.offset.toNat
      (min (n₁.toNat + n₂.toNat) (file.len.toNat - file.offset.toNat)))
    (hs : ReadExact fs (min (file.offset.toNat + n₁.toNat) file.len.toNat)
      (min n₂.toNat (file.len.toNat - min (file.offset.toNat + n₁.toNat) file.len.toNat))) :
    SplitRead fs disk readFat src src₁ src₂ file mem buffer n₁ n₂ := by
  generalize hoff : file.offset.toNat = o at *
  have hsum : (n₁ + n₂).toNat = n₁.toNat + n₂.toNat := by
    rw [BitVec.toNat_add]
    exact Nat.mod_eq_of_lt (by omega)
  rw [← hsum] at hw
  simp only [SplitRead, hoff]
  obtain ⟨hwfile, hwmem⟩ := fat12Read_exact disk src mem buffer hfs hchain hoff ho
    (show o + (n₁ + n₂).toNat < 2 ^ 32 by omega) hw
  -- the first part is exact because the whole is
  obtain ⟨hffile, hfmem⟩ := fat12Read_exact disk src₁ mem buffer hfs hchain hoff ho
    (show o + n₁.toNat < 2 ^ 32 by omega) (hw.mono (by omega))
  have hlength : _ = min (n₁.toNat + n₂.toNat) (file.len.toNat - o) := split_length ho
  rw [← hsum] at hlength
  have hnext : min (o + n₁.toNat) file.len.toNat = o + min n₁.toNat (file.len.toNat - o) := by
    omega
  generalize hp : min (o + n₁.toNat) file.len.toNat = p at *
  generalize hd : min n₁.toNat (file.len.toNat - o) = d at *
  have hp' : (BitVec.ofNat 32 p).toNat = p := ofNat_toNat_of_lt (by omega)
  have hdest : BitVec.ofNat 32 p - file.offset = BitVec.ofNat 32 d := by
    rw [hnext, BitVec.ofNat_add, ← hoff, BitVec.ofNat_toNat, BitVec.setWidth_eq,
      add_sub_cancel_left]
  rw [hffile, hfmem, hwfile, hwmem]
  simp only [hdest]
  have hchain₁ : ValidChain fs readFat { file with offset := BitVec.ofNat 32 p }.ref
    { file with offset := BitVec.ofNat 32 p }.len.toNat := hchain
  obtain ⟨hsfile, hsmem⟩ := fat12Read_exact disk src₂
    (mem.blit buffer (fun k => fileByte fs disk readFat file.ref (o + k)) d)
    (buffer + BitVec.ofNat 32 d) hfs hchain₁ hp' (by simp only; omega)
    (show p + n₂.toNat < 2 ^ 32 by omega) hs
  rw [hsfile, hsmem]
  simp only
  have hstop : min (p + n₂.toNat) file.len.toNat =
    min (o + n₁.toNat + n₂.toNat) file.len.toNat := by omega
  refine ⟨?_, ?_, ?_, ?_⟩
  · rw [Mem.blit_blit (by omega) (by omega), hlength]
    refine Mem.blit_congr fun k hk => ?_
    split
    · rfl
    · rw [hnext, show o + d + (k - d) = o + k by omega]
  · rw [hsum, ← Nat.add_assoc, hstop]
  · rw [hsum, ← Nat.add_assoc, ofNat_toNat_of_lt (by omega)]
  · rw [show min (o + n₁.toNat + n₂.toNat) file.len.toNat - o =
      min (n₁ + n₂).toNat (file.len.toNat - o) by omega]

/-- The offset after a read shows whether it was exact. -/
theorem readExact_of_offset {src : Nat → Byte} {mem : Mem} {buffer : Word} {disk : Disk} {o : Nat}
    (hfs : fs.Sectors512) (hchain : ValidChain fs readFat file.ref file.len.toNat)
    (ho : file.offset.toNat = o) (hle : o ≤ file.len.toNat) (h32 : o + len.toNat < 2 ^ 32)
    (h : (fat12Read fs disk readFat src file mem buffer len).file.offset.toNat =
      min (o + len.toNat) file.len.toNat) :
    ReadExact fs o (min len.toNat (file.len.toNat - o)) := by
  by_contra hn
  have hshort := fat12Read_short disk src mem buffer hfs hchain ho hle h32 hn
  omega

theorem SplitRead.exact {src src₁ src₂ : Nat → Byte} {mem : Mem} {buffer n₁ n₂ : Word}
    {disk : Disk} (h : SplitRead fs disk readFat src src₁ src₂ file mem buffer n₁ n₂)
    (hfs : fs.Sectors512) (hchain : ValidChain fs readFat file.ref file.len.toNat)
    (ho : file.offset.toNat ≤ file.len.toNat)
    (h32 : file.offset.toNat + n₁.toNat + n₂.toNat < 2 ^ 32) :
    ReadExact fs file.offset.toNat
        (min (n₁.toNat + n₂.toNat) (file.len.toNat - file.offset.toNat)) ∧
      ReadExact fs (min (file.offset.toNat + n₁.toNat) file.len.toNat)
        (min n₂.toNat (file.len.toNat - min (file.offset.toNat + n₁.toNat) file.len.toNat)) := by
  obtain ⟨-, hoffset, hstop, -⟩ := h
  have hsum : (n₁ + n₂).toNat = n₁.toNat + n₂.toNat := by
    rw [BitVec.toNat_add]
    exact Nat.mod_eq_of_lt (by omega)
  have hw := readExact_of_offset hfs hchain rfl ho
    (show _ + (n₁ + n₂).toNat < 2 ^ 32 by omega) (by rw [hstop, hsum, Nat.add_assoc])
  obtain ⟨hffile, -⟩ := fat12Read_exact disk src₁ mem buffer hfs hchain rfl ho
    (show _ + n₁.toNat < 2 ^ 32 by omega) (hw.mono (by omega))
  rw [← hoffset, hffile] at hstop
  rw [hsum] at hw
  refine ⟨hw, ?_⟩
  generalize hp : min (file.offset.toNat + n₁.toNat) file.len.toNat = p at *
  have hchain₁ : ValidChain fs readFat { file with offset := BitVec.ofNat 32 p }.ref
    { file with offset := BitVec.ofNat 32 p }.len.toNat := hchain
  apply readExact_of_offset hfs hchain₁ (ofNat_toNat_of_lt (by omega)) (by simp only; omega)
    (show p + n₂.toNat < 2 ^ 32 by omega)
  rw [hstop]
  simp only
  omega

/-- A read can be split exactly when the whole read and its second part are exact. -/
theorem fat12Read_split_iff (src src₁ src₂ : Nat → Byte) (mem : Mem) (buffer n₁ n₂ : Word)
    (disk : Disk) (hfs : fs.Sectors512) (hchain : ValidChain fs readFat file.ref file.len.toNat)
    (ho : file.offset.toNat ≤ file.len.toNat)
    (h32 : file.offset.toNat + n₁.toNat + n₂.toNat < 2 ^ 32) :
    SplitRead fs disk readFat src src₁ src₂ file mem buffer n₁ n₂ ↔
      ReadExact fs file.offset.toNat
        (min (n₁.toNat + n₂.toNat) (file.len.toNat - file.offset.toNat)) ∧
      ReadExact fs (min (file.offset.toNat + n₁.toNat) file.len.toNat)
        (min n₂.toNat (file.len.toNat - min (file.offset.toNat + n₁.toNat) file.len.toNat)) := by
  constructor
  · intro h
    exact h.exact hfs hchain ho h32
  · intro ⟨hw, hs⟩
    exact splitRead_of_exact src src₁ src₂ mem buffer n₁ n₂ disk hfs hchain ho h32 hw hs

/-- A 1.44 MB floppy disk. -/
def floppy : Fat12 := fat12Init ⟨512, 1, 1, 2, 224, 9⟩

theorem floppy_sectors512 : floppy.Sectors512 := ⟨by decide, by decide⟩

/-- A file of 2000 bytes in consecutive clusters from 2 on. -/
def floppyFile (offset : Word) : FsFile := ⟨[], 2000, offset, 2⟩

theorem floppyFile_chain (offset : Word) :
    ValidChain floppy (· + 1) (floppyFile offset).ref (floppyFile offset).len.toNat := by
  intro i hi
  have hi4 : i < 4 := by
    change i * 512 < 2000 at hi
    omega
  change fat12ValidCluster (chainCluster (· + 1) 2 i) = true
  clear hi
  revert i
  decide

theorem fat12Read_split_iff_floppy :
    SplitRead floppy (fun _ _ => 0) (· + 1) (fun _ => 0) (fun _ => 0) (fun _ => 0) (floppyFile 100)
      (fun _ => 0) 0x20010 300 400 :=
  (fat12Read_split_iff _ _ _ _ _ _ _ _ floppy_sectors512 (floppyFile_chain 100) (by decide)
    (by decide)).mpr ⟨by decide, by decide⟩

/-- A read of 1500 bytes that starts at byte 100 and touches four clusters ends at byte 1400. -/
theorem fat12Read_split_fails :
    ValidChain floppy (· + 1) (floppyFile 100).ref (floppyFile 100).len.toNat ∧
      (floppyFile 100).offset.toNat + (1500 : Word).toNat + (0 : Word).toNat < 2 ^ 32 ∧
      ¬ SplitRead floppy (fun _ _ => 0) (· + 1) (fun _ => 0) (fun _ => 0) (fun _ => 0)
        (floppyFile 100) (fun _ => 0) 0x20010 1500 0 := by
  refine ⟨floppyFile_chain 100, by decide, fun h => ?_⟩
  have hshort := fat12Read_short (fun _ _ => 0) (fun _ => 0) (fun _ => 0) 0x20010
    floppy_sectors512 (floppyFile_chain 100) rfl (by decide)
    (show 100 + (1500 : Word).toNat < 2 ^ 32 by decide) (by decide)
  exact absurd h.2.2.1 (Nat.ne_of_lt hshort)

/-! ## Reading from the start -/

/-- A read of a file that has just been opened is exact: the first bytes of the file, up to its
end, are written to the buffer and nothing else is. A request that ends at a cluster border makes
the loop visit one more cluster, which need not be valid. -/
theorem fat12Read_from_start (disk : Disk) (src : Nat → Byte) (mem : Mem) (buffer len : Word)
    (hfs : fs.Sectors512) (hchain : ValidChain fs readFat file.ref file.len.toNat)
    (h0 : file.offset = 0) :
    (∀ k < min len.toNat file.len.toNat,
      (fat12Read fs disk readFat src file mem buffer len).mem (buffer + BitVec.ofNat 32 k) =
        fileByte fs disk readFat file.ref k) ∧
    (∀ x : Word, min len.toNat file.len.toNat ≤ (x - buffer).toNat →
      (fat12Read fs disk readFat src file mem buffer len).mem x = mem x) ∧
    (fat12Read fs disk readFat src file mem buffer len).file =
      { file with offset := BitVec.ofNat 32 (min len.toNat file.len.toNat) } := by
  have hexact : ReadExact fs 0 (min len.toNat (file.len.toNat - 0)) := Or.inl (Nat.zero_mod _)
  have hlt := len.isLt
  obtain ⟨hfile, hmem⟩ := fat12Read_exact disk src mem buffer hfs hchain
    (show file.offset.toNat = 0 by rw [h0]; rfl) (Nat.zero_le _) (by omega) hexact
  rw [Nat.zero_add] at hfile
  rw [Nat.sub_zero] at hmem
  refine ⟨fun k hk => ?_, fun x hx => ?_, hfile⟩
  · have hsub : (buffer + BitVec.ofNat 32 k - buffer).toNat = k := by bv_omega
    rw [hmem, Mem.blit_apply (by omega), hsub, if_pos hk, Nat.zero_add]
  · rw [hmem, Mem.blit_apply (by omega), if_neg (by omega)]

/-- A file that fills its two clusters: the loop stops at the end mark of the chain. -/
theorem fat12Read_from_start_fullClusters :
    ValidChain floppy (fun c => if c = 2 then 3 else 0xFFF) 2 1024 ∧
    (fat12Read floppy (fun _ _ => 0xAB) (fun c => if c = 2 then 3 else 0xFFF) (fun _ => 0)
      ⟨[], 1024, 0, 2⟩ (fun _ => 0) 0x20010 5000).file = ⟨[], 1024, 1024, 2⟩ := by
  have hchain : ValidChain floppy (fun c => if c = 2 then 3 else 0xFFF) 2 1024 := by
    intro i hi
    change i * 512 < 1024 at hi
    obtain rfl | rfl : i = 0 ∨ i = 1 := by omega
    · decide
    · decide
  obtain ⟨-, -, hfile⟩ := fat12Read_from_start (fun _ _ => 0xAB) (fun _ => 0) (fun _ => 0) 0x20010
    5000 floppy_sectors512 (show ValidChain floppy (fun c => if c = 2 then 3 else 0xFFF)
      (⟨[], 1024, 0, 2⟩ : FsFile).ref (1024 : Word).toNat from hchain) rfl
  exact ⟨hchain, hfile⟩

/-! ## Sequences of calls -/

/-- The calls on an open file. -/
inductive FileCall
  | seek (offset : Word)
  | read (buffer len : Word)
  deriving DecidableEq, Repr

/-- An open handle and the memory that its reads go to. -/
structure FileSession where
  file : FsFile
  mem : Mem

/-- One call. What `malloc` leaves in the buffer of a read is arbitrary. -/
def FileStep (fs : Fat12) (disk : Disk) (readFat : Half → Half) (s : FileSession) :
    FileCall → FileSession → Prop
  | .seek offset, t => t = ⟨fat12Seek s.file offset, s.mem⟩
  | .read buffer len, t => ∃ src, t =
    ⟨(fat12Read fs disk readFat src s.file s.mem buffer len).file,
      (fat12Read fs disk readFat src s.file s.mem buffer len).mem⟩

/-- The cursor that the handle stands for: a position clamped to the length of the file. -/
def cursorStep (len pos : Nat) : FileCall → Nat
  | .seek offset => min offset.toNat len
  | .read _ n => min (pos + n.toNat) len

/-- The calls that move a handle at position `pos` like the cursor. -/
def CursorOk (fs : Fat12) (len pos : Nat) : FileCall → Prop
  | .seek offset =>
    pos + offset.toNat ≤ len ∨ (pos + offset.toNat < 2 ^ 32 ∧ len ≤ offset.toNat) ∨
      (2 ^ 32 ≤ pos + offset.toNat ∧ offset.toNat ≤ len)
  | .read _ n =>
    (pos + n.toNat < 2 ^ 32 ∧ ReadExact fs pos (min n.toNat (len - pos))) ∨
      (2 ^ 32 ≤ pos + n.toNat ∧ pos = len ∧
        (pos + n.toNat - 2 ^ 32) / fs.clusterBytes < len / fs.clusterBytes)

theorem fat12Seek_offset_iff {offset : Word} (ho : file.offset.toNat ≤ file.len.toNat) :
    (fat12Seek file offset).offset.toNat =
        cursorStep file.len.toNat file.offset.toNat (.seek offset) ↔
      CursorOk fs file.len.toNat file.offset.toNat (.seek offset) := by
  simp only [fat12Seek, cursorStep, CursorOk]
  split
  · rename_i h
    rw [BitVec.lt_def, BitVec.toNat_add] at h
    omega
  · rename_i h
    rw [BitVec.lt_def, BitVec.toNat_add] at h
    omega

/-- When the end of the span lies before its begin, nothing is copied. -/
theorem readLoop_of_end_lt (disk : Disk) (readFat : Half → Half) (buffer : Word) (st : ReadState)
    {o t : Nat} (hspan : SpanOf fs span o t)
    (hlt : t / fs.clusterBytes < o / fs.clusterBytes) (hi : i ≤ t / fs.clusterBytes) :
    (readLoop fs disk readFat span buffer (t / fs.clusterBytes + 1 - i) (BitVec.ofNat 32 i)
        st).1.offset = st.offset ∧
      (readLoop fs disk readFat span buffer (t / fs.clusterBytes + 1 - i) (BitVec.ofNat 32 i)
        st).1.mem = st.mem := by
  obtain ⟨hb, he⟩ := hspan.lt
  induction hk : t / fs.clusterBytes - i generalizing i st with
  | zero =>
    obtain rfl : i = t / fs.clusterBytes := by omega
    have hnot : ¬ span.clusterBegin ≤ span.clusterEnd := by
      rw [BitVec.le_def, hspan.clusterBegin, hspan.clusterEnd]
      omega
    rw [Nat.add_sub_cancel_left, ← eq_ofNat hspan.clusterEnd]
    simp only [readLoop, hnot, false_and, if_false]
    split <;> simp
  | succ k ih =>
    have hnat := ofNat_toNat_of_lt (i := i) (by omega)
    have hlt' : BitVec.ofNat 32 i < span.clusterBegin := by
      rw [BitVec.lt_def, hspan.clusterBegin, hnat]
      omega
    have hne : BitVec.ofNat 32 i ≠ span.clusterEnd := by
      intro heq
      rw [heq, hspan.clusterEnd] at hnat
      omega
    rw [show t / fs.clusterBytes + 1 - i = t / fs.clusterBytes + 1 - (i + 1) + 1 by omega]
    cases hv : fat12ValidCluster (st.cluster.setWidth 16) with
    | false =>
      rw [readLoop_invalid hv]
      exact ⟨rfl, rfl⟩
    | true =>
      rw [readLoop_walk hv hlt' hne,
        show BitVec.ofNat 32 i + 1 = BitVec.ofNat 32 (i + 1) by bv_omega]
      exact @ih (i + 1) { st with cluster := (readFat (st.cluster.setWidth 16)).setWidth 32 }
        (by omega) (by omega)

/-- A read whose sum wraps around to `t` is not clamped. -/
theorem clampLen_wrap {t : Nat} (hle : file.offset.toNat ≤ file.len.toNat)
    (ht : file.offset.toNat + len.toNat = 2 ^ 32 + t) :
    clampLen file len = len ∧ len ≠ 0 ∧ (file.offset + len).toNat = t := by
  have hlen := len.isLt
  have hsum : (file.offset + len).toNat = t := by
    rw [BitVec.toNat_add]
    omega
  refine ⟨?_, by bv_omega, hsum⟩
  rw [clampLen, if_neg]
  rw [BitVec.lt_def, hsum]
  omega

/-- A read that wraps around to a cluster before its first leaves the handle alone. -/
theorem fat12Read_wrap_before (disk : Disk) (src : Nat → Byte) (mem : Mem) (buffer : Word) {t : Nat}
    (hfs : fs.Sectors512) (hle : file.offset.toNat ≤ file.len.toNat)
    (ht : file.offset.toNat + len.toNat = 2 ^ 32 + t)
    (hlt : t / fs.clusterBytes < file.offset.toNat / fs.clusterBytes) :
    (fat12Read fs disk readFat src file mem buffer len).file.offset = file.offset ∧
      (fat12Read fs disk readFat src file mem buffer len).mem = mem := by
  obtain ⟨hclamp, hne, hsum⟩ := clampLen_wrap hle ht
  have hspan := hfs.spanOf file.offset len
  rw [hsum] at hspan
  have hrun := readLoop_of_end_lt disk readFat buffer
    ⟨file.ref, 0, 0, 0, src, file.offset, mem⟩ hspan hlt (Nat.zero_le _)
  rw [Nat.sub_zero] at hrun
  simp only [fat12Read, hclamp, if_neg hne, hspan.clusterEnd]
  exact hrun

/-- A read that wraps around inside its first cluster moves the handle backwards. -/
theorem fat12Read_wrap_inside (disk : Disk) (src : Nat → Byte) (mem : Mem) (buffer : Word)
    {t : Nat} (hfs : fs.Sectors512)
    (hchain : ValidChain fs readFat file.ref file.len.toNat)
    (hle : file.offset.toNat ≤ file.len.toNat) (ht : file.offset.toNat + len.toNat = 2 ^ 32 + t)
    (heq : t / fs.clusterBytes = file.offset.toNat / fs.clusterBytes) :
    (fat12Read fs disk readFat src file mem buffer len).file.offset.toNat = t := by
  obtain ⟨hclamp, hne, hsum⟩ := clampLen_wrap hle ht
  have hspan := hfs.spanOf file.offset len
  rw [hsum] at hspan
  have hvalid : ∀ j ≤ file.offset.toNat / fs.clusterBytes,
      fat12ValidCluster (chainCluster readFat file.ref j) = true := by
    intro j hj
    refine hchain j ?_
    have h1 := Nat.mul_le_mul_right fs.clusterBytes hj
    have h2 := Nat.div_mul_le_self t fs.clusterBytes
    rw [heq] at h2
    omega
  obtain ⟨c, hc, hwalk⟩ := readLoop_to_begin (i := 0) disk buffer
    ⟨file.ref, 0, 0, 0, src, file.offset, mem⟩ hspan heq.ge
    (fun j hj => hvalid j hj.le) (Nat.zero_le _) rfl
  have hbe : (readSpan fs file.offset len).clusterBegin =
      (readSpan fs file.offset len).clusterEnd :=
    BitVec.eq_of_toNat_eq (by rw [hspan.clusterBegin, hspan.clusterEnd, heq])
  rw [Nat.sub_zero, ← eq_ofNat hspan.clusterBegin, hbe, heq, Nat.add_sub_cancel_left,
    readLoop_last (hc ▸ hvalid _ le_rfl) (hbe ▸ BitVec.le_refl _)] at hwalk
  change readLoop fs disk readFat _ buffer _ 0 _ = _ at hwalk
  have hback : (file.offset + ((readSpan fs file.offset len).offsetEnd -
      (readSpan fs file.offset len).offsetBegin)).toNat = t := by
    have h1 := hspan.offsetBegin
    have h2 := hspan.offsetEnd
    have h3 := Nat.div_add_mod file.offset.toNat fs.clusterBytes
    have h4 := Nat.div_add_mod t fs.clusterBytes
    rw [heq] at h4
    bv_omega
  simp only [fat12Read, hclamp, if_neg hne, hspan.clusterEnd, heq, hwalk, readCluster, readSlice,
    hbe, and_self, if_true]
  exact hback

theorem fat12Read_offset_iff (disk : Disk) (src : Nat → Byte) (mem : Mem) (buffer len : Word)
    (hfs : fs.Sectors512) (hchain : ValidChain fs readFat file.ref file.len.toNat)
    (hle : file.offset.toNat ≤ file.len.toNat) :
    (fat12Read fs disk readFat src file mem buffer len).file.offset.toNat =
        cursorStep file.len.toNat file.offset.toNat (.read buffer len) ↔
      CursorOk fs file.len.toNat file.offset.toNat (.read buffer len) := by
  simp only [cursorStep, CursorOk]
  by_cases h32 : file.offset.toNat + len.toNat < 2 ^ 32
  · by_cases hex : ReadExact fs file.offset.toNat
      (min len.toNat (file.len.toNat - file.offset.toNat))
    · obtain ⟨hfile, -⟩ := fat12Read_exact disk src mem buffer hfs hchain rfl hle h32 hex
      rw [hfile]
      exact iff_of_true (ofNat_toNat_of_lt (by omega)) (Or.inl ⟨h32, hex⟩)
    · have hshort := fat12Read_short disk src mem buffer hfs hchain rfl hle h32 hex
      refine iff_of_false (Nat.ne_of_lt hshort) ?_
      rintro (⟨-, h⟩ | ⟨h, -⟩)
      · exact hex h
      · omega
  · obtain ⟨t, ht⟩ := Nat.exists_eq_add_of_le (Nat.le_of_not_lt h32)
    have hlen := len.isLt
    have hmono : t / fs.clusterBytes ≤ file.offset.toNat / fs.clusterBytes :=
      Nat.div_le_div_right (by omega)
    have hcur : min (file.offset.toNat + len.toNat) file.len.toNat = file.len.toNat := by omega
    rw [hcur, ht, Nat.add_sub_cancel_left]
    rcases hmono.lt_or_eq with hlt | heq
    · rw [(fat12Read_wrap_before disk src mem buffer hfs hle ht hlt).1]
      constructor
      · intro h
        exact Or.inr ⟨by omega, h, h ▸ hlt⟩
      · rintro (⟨h, -⟩ | ⟨-, h, -⟩)
        · omega
        · exact h
    · rw [fat12Read_wrap_inside disk src mem buffer hfs hchain hle ht heq]
      refine iff_of_false (by omega) ?_
      rintro (⟨h, -⟩ | ⟨-, h, hlt⟩)
      · omega
      · rw [← h, heq] at hlt
        omega

/-- A read that moves like the cursor writes inside the part of the buffer that it fills. -/
theorem fat12Read_frame (disk : Disk) (src : Nat → Byte) (mem : Mem) (buffer len : Word)
    (hfs : fs.Sectors512) (hchain : ValidChain fs readFat file.ref file.len.toNat)
    (hle : file.offset.toNat ≤ file.len.toNat)
    (hok : CursorOk fs file.len.toNat file.offset.toNat (.read buffer len)) {x : Word}
    (hx : min len.toNat (file.len.toNat - file.offset.toNat) ≤ (x - buffer).toNat) :
    (fat12Read fs disk readFat src file mem buffer len).mem x = mem x := by
  rcases hok with ⟨h32, hex⟩ | ⟨hwrap, heq, hlt⟩
  · obtain ⟨-, hmem⟩ := fat12Read_exact disk src mem buffer hfs hchain rfl hle h32 hex
    have hlen := len.isLt
    rw [hmem, Mem.blit_apply (by omega), if_neg (Nat.not_lt_of_le hx)]
  · obtain ⟨t, ht⟩ := Nat.exists_eq_add_of_le hwrap
    rw [ht, Nat.add_sub_cancel_left, ← heq] at hlt
    rw [(fat12Read_wrap_before disk src mem buffer hfs hle ht hlt).2]

theorem fat12Read_len (disk : Disk) (src : Nat → Byte) (mem : Mem) (buffer len : Word) :
    (fat12Read fs disk readFat src file mem buffer len).file.len = file.len ∧
      (fat12Read fs disk readFat src file mem buffer len).file.ref = file.ref := by
  by_cases h0 : clampLen file len = 0
  · simp only [fat12Read, if_pos h0, and_self]
  · simp only [fat12Read, if_neg h0, and_self]

/-- A call moves the handle like the cursor exactly when `CursorOk` holds. -/
theorem fileStep_cursor_iff {s t : FileSession} {c : FileCall} (hfs : fs.Sectors512)
    (hchain : ValidChain fs readFat s.file.ref s.file.len.toNat)
    (hle : s.file.offset.toNat ≤ s.file.len.toNat) (hstep : FileStep fs disk readFat s c t) :
    t.file.offset.toNat = cursorStep s.file.len.toNat s.file.offset.toNat c ↔
      CursorOk fs s.file.len.toNat s.file.offset.toNat c := by
  cases c with
  | seek offset =>
    subst hstep
    exact fat12Seek_offset_iff hle
  | read buffer len =>
    obtain ⟨src, rfl⟩ := hstep
    exact fat12Read_offset_iff disk src s.mem buffer len hfs hchain hle

theorem FileStep.len_eq {s t : FileSession} {c : FileCall}
    (hstep : FileStep fs disk readFat s c t) :
    t.file.len = s.file.len ∧ t.file.ref = s.file.ref := by
  cases c with
  | seek offset =>
    subst hstep
    exact ⟨rfl, rfl⟩
  | read buffer len =>
    obtain ⟨src, rfl⟩ := hstep
    exact fat12Read_len disk src s.mem buffer len

theorem cursorStep_le {len pos : Nat} (c : FileCall) : cursorStep len pos c ≤ len := by
  cases c <;> exact Nat.min_le_right _ _

/-- The handle of a run of calls that are all `CursorOk`: it follows the cursor. -/
theorem Run.cursor {s t : FileSession} {calls : List FileCall} (hfs : fs.Sectors512)
    (hchain : ValidChain fs readFat s.file.ref s.file.len.toNat)
    (hle : s.file.offset.toNat ≤ s.file.len.toNat)
    (hrun : Run (fun s c t => FileStep fs disk readFat s c t ∧
      CursorOk fs s.file.len.toNat s.file.offset.toNat c) s calls t) :
    t.file.len = s.file.len ∧ t.file.ref = s.file.ref ∧
      t.file.offset.toNat = calls.foldl (cursorStep s.file.len.toNat) s.file.offset.toNat ∧
      t.file.offset.toNat ≤ s.file.len.toNat := by
  induction hrun with
  | nil s => exact ⟨rfl, rfl, rfl, hle⟩
  | cons hstep _ ih =>
    obtain ⟨hcall, hok⟩ := hstep
    obtain ⟨hlen, href⟩ := hcall.len_eq
    have hpos := (fileStep_cursor_iff hfs hchain hle hcall).mpr hok
    rw [hlen, href] at ih
    obtain ⟨h1, h2, h3, h4⟩ := ih hchain (hpos ▸ cursorStep_le _)
    exact ⟨h1, h2, by rw [h3, hpos, List.foldl_cons], h4⟩

/-- In every run of calls that are all `CursorOk` the handle is at the position of the cursor,
inside the file, and reads stay inside the part of their buffer that they fill; a call that is
not `CursorOk` leaves the cursor. -/
theorem file_run_follows_cursor (mem : Mem) (disk : Disk) (hfs : fs.Sectors512)
    (hchain : ValidChain fs readFat file.ref file.len.toNat) (h0 : file.offset = 0) :
    ∀ calls s, Run (fun s c t => FileStep fs disk readFat s c t ∧
        CursorOk fs s.file.len.toNat s.file.offset.toNat c) ⟨file, mem⟩ calls s →
      s.file.offset.toNat = calls.foldl (cursorStep file.len.toNat) 0 ∧
      s.file.offset.toNat ≤ file.len.toNat ∧
      (∀ c t, FileStep fs disk readFat s c t →
        (t.file.offset.toNat = cursorStep file.len.toNat s.file.offset.toNat c ↔
          CursorOk fs file.len.toNat s.file.offset.toNat c)) ∧
      ∀ buffer len t, FileStep fs disk readFat s (.read buffer len) t →
        CursorOk fs file.len.toNat s.file.offset.toNat (.read buffer len) →
        ∀ x : Word, min len.toNat (file.len.toNat - s.file.offset.toNat) ≤ (x - buffer).toNat →
          t.mem x = s.mem x := by
  intro calls s hrun
  have hle : (⟨file, mem⟩ : FileSession).file.offset.toNat ≤ file.len.toNat := by
    simp [h0]
  obtain ⟨hlen, href, hpos, hin⟩ := Run.cursor (s := ⟨file, mem⟩) hfs hchain hle hrun
  have hchain' : ValidChain fs readFat s.file.ref s.file.len.toNat := by
    rw [hlen, href]
    exact hchain
  have hlen' : s.file.len = file.len := hlen
  refine ⟨by simpa [h0] using hpos, hin, fun c t hstep => ?_, fun buffer len t hstep hok x hx => ?_⟩
  · rw [← hlen']
    exact fileStep_cursor_iff hfs hchain' (by rw [hlen']; exact hin) hstep
  · obtain ⟨src, rfl⟩ := hstep
    rw [← hlen'] at hok hx
    exact fat12Read_frame disk src s.mem buffer len hfs hchain' (by rw [hlen']; exact hin) hok hx

theorem file_run_follows_cursor_floppy :
    ∃ s, Run (fun s c t => FileStep floppy (fun _ _ => 0) (· + 1) s c t ∧
        CursorOk floppy s.file.len.toNat s.file.offset.toNat c) ⟨floppyFile 0, fun _ => 0⟩
        [.seek 512, .read 0x10000 1000] s ∧
      s.file.offset.toNat = 1512 := by
  have hseek : CursorOk floppy 2000 0 (.seek 512) := Or.inl (by decide)
  have hread : CursorOk floppy 2000 512 (.read 0x10000 1000) := Or.inl (by decide)
  obtain ⟨s, hrun⟩ : ∃ s, Run (fun s c t => FileStep floppy (fun _ _ => 0) (· + 1) s c t ∧
      CursorOk floppy s.file.len.toNat s.file.offset.toNat c) ⟨floppyFile 0, fun _ => 0⟩
      [.seek 512, .read 0x10000 1000] s :=
    ⟨_, .cons ⟨rfl, hseek⟩ (.cons ⟨⟨fun _ => 0, rfl⟩, hread⟩ (.nil _))⟩
  have hcursor := file_run_follows_cursor _ _ floppy_sectors512 (floppyFile_chain 0) rfl _ s hrun
  exact ⟨s, hrun, hcursor.1⟩

/-- Seeking twice to byte 1200 of a file of 2000 bytes ends at byte 2000. -/
theorem file_run_leaves_cursor :
    ValidChain floppy (· + 1) (floppyFile 0).ref (floppyFile 0).len.toNat ∧
      ∃ s, Run (FileStep floppy (fun _ _ => 0) (· + 1)) ⟨floppyFile 0, fun _ => 0⟩
          [.seek 1200, .seek 1200] s ∧
        s.file.offset.toNat ≠ [FileCall.seek 1200, .seek 1200].foldl (cursorStep 2000) 0 :=
  ⟨floppyFile_chain 0, _, .cons rfl (.cons rfl (.nil _)), by decide⟩

end

end Hjortron
