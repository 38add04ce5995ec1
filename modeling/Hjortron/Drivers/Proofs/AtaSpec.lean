import Hjortron.Drivers.Ata
import Hjortron.Filesystem.ClusterChain
import Mathlib.Data.Finset.Lattice.Fold
import Mathlib.Tactic.IntervalCases

/-!
# What `ata_read` transfers

The sector count register has 8 bits, and the loop of `ata_read` runs on the 32-bit argument. Up to
256 sectors the two agree; beyond, the device has no further block while the driver polls for one.
-/

namespace Hjortron

/-! ## Statement -/

/-- The sectors of the device as a disk. -/
def AtaDevice.disk (d : AtaDevice) : Disk := fun lba => d.sectors lba.toNat

/-- `ata_read` returns, and the buffer holds the `count` sectors from `lba` on. -/
def Transfers (d : AtaDevice) (m : Mem) (buffer lba count : Word) : Prop :=
  ∃ fuel d' m', ataReadPorts fuel buffer d.base lba count d m = some (d', m') ∧
    ∀ k < 512 * count.toNat, m' (buffer + BitVec.ofNat 32 k) =
      d.disk (lba + BitVec.ofNat 32 (k / 512)) (k % 512)

/-- What the file system reads at once: a sector of the FAT, the root directory or a cluster. -/
inductive SectorRequest
  | fat
  | directory
  | cluster
  deriving DecidableEq, Repr

/-- The argument `sector_count`. -/
def SectorRequest.count (fs : Fat12) : SectorRequest → Word
  | .fat => 1
  | .directory => fs.bpb.directoryEntries.setWidth 32 * 0x20 / fs.bytesPerSector
  | .cluster => fs.sectorsPerCluster

section

variable {d : AtaDevice} {m : Mem} {buffer lba count : Word} {start total i fuel : Nat}

/-! ## Polling -/

/-- While the device has a block the first loop ends after the reads that show BSY. -/
theorem ataPollBusy_eq (hleft : 0 < d.left) (fuel : Nat) : ataPollBusy d.base fuel d =
    if d.busy < fuel then some { d with busy := 0, settle := d.settle - 1 } else none := by
  induction fuel generalizing d with
  | zero => rfl
  | succ fuel ih =>
    have hleft' : d.left ≠ 0 := by omega
    rw [ataPollBusy, AtaDevice.inb_status]
    by_cases hbusy : 0 < d.busy
    · have hstatus : d.status = 0x80 := by
        rw [AtaDevice.status, if_neg hleft', if_pos hbusy]
      have hpoll : d.poll = { d with busy := d.busy - 1 } := by
        rw [AtaDevice.poll, if_neg hleft', if_pos hbusy]
      have hfuel : d.busy - 1 < fuel ↔ d.busy < fuel + 1 := by omega
      simp only [hstatus, hpoll]
      rw [if_pos (by decide), ← if_congr hfuel rfl rfl]
      exact ih (d := { d with busy := d.busy - 1 }) hleft
    · have hstatus : d.status &&& 0x80 = 0 := by
        rw [AtaDevice.status, if_neg hleft', if_neg hbusy]
        split_ifs <;> decide
      have hpoll : d.poll = { d with settle := d.settle - 1 } := by
        rw [AtaDevice.poll, if_neg hleft', if_neg hbusy]
      have hzero : d.busy = 0 := by omega
      simp only [hpoll]
      rw [if_neg (not_not.mpr hstatus), if_pos (by omega), ← hzero]

/-- Then the second loop ends with the first read that shows DRQ. -/
theorem ataPollRequest_eq (hleft : 0 < d.left) (hbusy : d.busy = 0) (fuel : Nat) :
    ataPollRequest d.base fuel d =
      if d.settle < fuel then some { d with settle := 0 } else none := by
  induction fuel generalizing d with
  | zero => rfl
  | succ fuel ih =>
    have hleft' : d.left ≠ 0 := by omega
    have hbusy' : ¬ 0 < d.busy := by omega
    have hpoll : d.poll = { d with settle := d.settle - 1 } := by
      rw [AtaDevice.poll, if_neg hleft', if_neg hbusy']
    rw [ataPollRequest, AtaDevice.inb_status]
    by_cases hsettle : 0 < d.settle
    · have hstatus : d.status = 0x50 := by
        rw [AtaDevice.status, if_neg hleft', if_neg hbusy', if_pos hsettle]
      have hfuel : d.settle - 1 < fuel ↔ d.settle < fuel + 1 := by omega
      simp only [hstatus, hpoll]
      rw [if_pos (by decide), ← if_congr hfuel rfl rfl]
      exact ih (d := { d with settle := d.settle - 1 }) hleft hbusy
    · have hstatus : d.status = 0x58 := by
        rw [AtaDevice.status, if_neg hleft', if_neg hbusy', if_neg hsettle]
      have hzero : d.settle - 1 = 0 := by omega
      simp only [hstatus, hpoll, hzero]
      rw [if_neg (by decide), if_pos (by omega)]

/-- A block is waited for as long as it takes. -/
theorem ataPoll_eq (hleft : 0 < d.left) (hfuel : d.busy + d.settle < fuel) :
    ataPoll d.base fuel d = some { d with busy := 0, settle := 0 } := by
  rw [ataPoll, ataPollBusy_eq hleft, if_pos (by omega)]
  have hrequest := ataPollRequest_eq (d := { d with busy := 0, settle := d.settle - 1 }) hleft rfl
    fuel
  exact hrequest.trans (if_pos (by show d.settle - 1 < fuel; omega))

theorem ataPoll_cases (hleft : 0 < d.left) (fuel : Nat) :
    ataPoll d.base fuel d = some { d with busy := 0, settle := 0 } ∨
      ataPoll d.base fuel d = none := by
  rw [ataPoll, ataPollBusy_eq hleft]
  by_cases hbusy : d.busy < fuel
  · rw [if_pos hbusy]
    have hrequest := ataPollRequest_eq (d := { d with busy := 0, settle := d.settle - 1 }) hleft
      rfl fuel
    by_cases hsettle : d.settle - 1 < fuel
    · exact .inl (hrequest.trans (if_pos hsettle))
    · exact .inr (hrequest.trans (if_neg hsettle))
  · rw [if_neg hbusy]
    exact .inr rfl

/-- Without a block DRQ stays clear. -/
theorem ataPoll_eq_none (hleft : d.left = 0) (fuel : Nat) : ataPoll d.base fuel d = none := by
  have hstatus : d.status = 0x50 := if_pos hleft
  have hpoll : d.poll = d := if_pos hleft
  have hrequest (n : Nat) : ataPollRequest d.base n d = none := by
    induction n with
    | zero => rfl
    | succ n ih =>
      rw [ataPollRequest, AtaDevice.inb_status]
      simp only [hstatus, hpoll]
      rw [if_pos (by decide)]
      exact ih
  cases fuel with
  | zero => rfl
  | succ fuel =>
    have hbusy : ataPollBusy d.base (fuel + 1) d = some d := by
      rw [ataPollBusy, AtaDevice.inb_status]
      simp only [hstatus, hpoll]
      rw [if_neg (by decide)]
    rw [ataPoll, hbusy]
    exact hrequest (fuel + 1)

/-- The port that `ata_wait` reads is no register of the device. -/
theorem ataWait_eq (d : AtaDevice) : ataWait d.base d = d := by
  have hport : d.base + 0xC - d.base ≠ 7 := by
    rw [add_sub_cancel_left]
    decide
  exact foldl_range (S := fun _ => d) fun _ _ => AtaDevice.inb_snd hport

/-! ## The command -/

/-- The number of sectors that a device transfers for the argument `count`. -/
def transferCount (count : Word) : Nat :=
  if count.setWidth 8 = (0 : Byte) then 256 else (count.setWidth 8 : Byte).toNat

theorem transferCount_le (count : Word) : transferCount count ≤ 256 := by
  unfold transferCount
  split_ifs with h
  · exact le_rfl
  · exact (BitVec.isLt _).le

theorem transferCount_eq (h1 : 1 ≤ count.toNat) (h256 : count.toNat ≤ 256) :
    transferCount count = count.toNat := by
  unfold transferCount
  split_ifs with h
  · bv_omega
  · bv_omega

/-- The registers that `ata_read` writes. -/
def ataRegisters (lba count : Word) (registers : Half → Byte) : Half → Byte :=
  let registers := Function.update registers 6 ((0xE0 : Byte) ||| (lba >>> 24 &&& 0x0F).setWidth 8)
  let registers := Function.update registers 1 0
  let registers := Function.update registers 2 (count.setWidth 8)
  let registers := Function.update registers 3 (lba.setWidth 8)
  let registers := Function.update registers 4 ((lba >>> 8).setWidth 8)
  Function.update registers 5 ((lba >>> 16).setWidth 8)

/-- The device before the command. -/
def AtaDevice.prepared (d : AtaDevice) (lba count : Word) : AtaDevice :=
  { d with registers := ataRegisters lba count d.registers }

theorem shiftRight_setWidth (w : Word) (k : Nat) :
    (w >>> k).setWidth 8 = w.extractLsb' k 8 := by
  ext i hi
  simp

/-- The registers hold the bytes of the address, and the drive register its last four bits. -/
theorem prepared_lba (h : lba.toNat < 2 ^ 28) : (d.prepared lba count).lba.toNat = lba.toNat := by
  have hdrive : ((0xE0 : Byte) ||| (lba >>> 24 &&& 0x0F).setWidth 8).extractLsb' 0 4 =
      lba.extractLsb' 24 4 := by
    ext i hi
    interval_cases i <;> simp
  have hlba : (d.prepared lba count).lba = lba.extractLsb' 24 4 ++ lba.extractLsb' 16 8 ++
      lba.extractLsb' 8 8 ++ lba.extractLsb' 0 8 := by
    rw [← hdrive, ← shiftRight_setWidth, ← shiftRight_setWidth, ← shiftRight_setWidth,
      BitVec.ushiftRight_zero]
    rfl
  rw [hlba, BitVec.extractLsb'_append_extractLsb'_eq_extractLsb' (show 24 = 16 + 8 from rfl),
    BitVec.extractLsb'_append_extractLsb'_eq_extractLsb' (show 16 = 8 + 8 from rfl),
    BitVec.extractLsb'_append_extractLsb'_eq_extractLsb' (show 8 = 0 + 8 from rfl),
    BitVec.extractLsb'_toNat, Nat.shiftRight_zero, Nat.mod_eq_of_lt h]

theorem prepared_sectorCount : (d.prepared lba count).sectorCount = transferCount count := by
  simp [AtaDevice.prepared, AtaDevice.sectorCount, ataRegisters, Function.update, transferCount]

theorem prepared_mode : ((d.prepared lba count).registers 6).getLsbD 6 = true := by
  simp [AtaDevice.prepared, ataRegisters, Function.update]

/-- `ata_read` starts a transfer from sector `lba` on. -/
theorem ataCommand_eq (d : AtaDevice) (count : Word) (h : lba.toNat < 2 ^ 28) :
    ataCommand d.base lba count d =
      (d.prepared lba count).serve lba.toNat (transferCount count) 0 := by
  simp only [ataCommand]
  rw [AtaDevice.outb_register _ (by decide), AtaDevice.outb_register _ (by decide),
    AtaDevice.outb_register _ (by decide), AtaDevice.outb_register _ (by decide),
    AtaDevice.outb_register _ (by decide), AtaDevice.outb_register _ (by decide),
    AtaDevice.outb_command]
  show (d.prepared lba count).command 0x20 = _
  rw [AtaDevice.command_read prepared_mode, prepared_lba h, prepared_sectorCount]

/-! ## One sector -/

section

variable {f : Nat → Byte}

/-- A word from the device, written behind the bytes so far. -/
theorem ataReadWord_eq {e e' : AtaDevice} {n n' j : Nat} (hn : n = 2 * (i * 256 + j))
    (hn' : n' = n + 2) (hword : e.inw d.base = (f (n + 1) ++ f n, e')) :
    ataReadWord buffer d.base i (e, m.blit buffer f n) j = (e', m.blit buffer f n') := by
  simp only [ataReadWord, hword, ← hn, hn', Mem.blit_store16]

/-- The words of a block. -/
theorem ataReadWords_eq (d : AtaDevice) (hi : i < total)
    (hf : ∀ k < 512, f (512 * i + k) = d.sectors (start + i) k) :
    (List.range 256).foldl (ataReadWord buffer d.base i)
        (d.serveWord start total i 0, m.blit buffer f (512 * i)) =
      (d.serve start total (i + 1), m.blit buffer f (512 * (i + 1))) := by
  have hwords : (List.range 255).foldl (ataReadWord buffer d.base i)
      (d.serveWord start total i 0, m.blit buffer f (512 * i)) =
        (d.serveWord start total i 255, m.blit buffer f (512 * i + 2 * 255)) := by
    apply foldl_range
      (S := fun j => (d.serveWord start total i j, m.blit buffer f (512 * i + 2 * j)))
    intro j hj
    apply ataReadWord_eq (by omega) (by omega)
    rw [Nat.add_assoc, hf (2 * j + 1) (by omega), hf (2 * j) (by omega)]
    exact AtaDevice.inw_serveWord hi hj
  rw [List.range_succ, List.foldl_append, hwords]
  apply ataReadWord_eq (by omega) (by omega)
  rw [Nat.add_assoc, hf (2 * 255 + 1) (by omega), hf (2 * 255) (by omega)]
  exact AtaDevice.inw_last hi

/-- Each iteration waits for a block and takes its words. -/
theorem ataReadSector_serve (d : AtaDevice) (m : Mem) (fuel i : Nat) :
    ataReadSector buffer d.base fuel (d.serve start total i, m) i =
      (ataPoll d.base fuel (d.serve start total i)).bind fun e =>
        some ((List.range 256).foldl (ataReadWord buffer d.base i) (e, m)) := by
  have hwait : ataWait d.base (d.serve start total i) = d.serve start total i :=
    ataWait_eq (d.serve start total i)
  rw [ataReadSector, hwait]
  rfl

theorem ataReadSector_of_poll (d : AtaDevice) (hi : i < total)
    (hf : ∀ k < 512, f (512 * i + k) = d.sectors (start + i) k)
    (hpoll : ataPoll d.base fuel (d.serve start total i) = some (d.serveWord start total i 0)) :
    ataReadSector buffer d.base fuel (d.serve start total i, m.blit buffer f (512 * i)) i =
      some (d.serve start total (i + 1), m.blit buffer f (512 * (i + 1))) := by
  rw [ataReadSector_serve, hpoll, Option.bind_some, ataReadWords_eq d hi hf]

/-- With enough fuel for the delays of the block it is read. -/
theorem ataReadSector_eq (d : AtaDevice) (hi : i < total)
    (hf : ∀ k < 512, f (512 * i + k) = d.sectors (start + i) k)
    (hfuel : (d.delay (d.blocks + i)).1 + (d.delay (d.blocks + i)).2 < fuel) :
    ataReadSector buffer d.base fuel (d.serve start total i, m.blit buffer f (512 * i)) i =
      some (d.serve start total (i + 1), m.blit buffer f (512 * (i + 1))) :=
  ataReadSector_of_poll d hi hf
    (ataPoll_eq (d := d.serve start total i) (Nat.sub_pos_of_lt hi) hfuel)

theorem ataReadSector_cases (d : AtaDevice) (hi : i < total)
    (hf : ∀ k < 512, f (512 * i + k) = d.sectors (start + i) k) (fuel : Nat) :
    ataReadSector buffer d.base fuel (d.serve start total i, m.blit buffer f (512 * i)) i =
        some (d.serve start total (i + 1), m.blit buffer f (512 * (i + 1))) ∨
      ataReadSector buffer d.base fuel (d.serve start total i, m.blit buffer f (512 * i)) i =
        none := by
  rcases ataPoll_cases (d := d.serve start total i) (Nat.sub_pos_of_lt hi) fuel with hpoll | hpoll
  · exact .inl (ataReadSector_of_poll d hi hf hpoll)
  · right
    rw [ataReadSector_serve]
    exact congrArg (Option.bind · _) hpoll

/-- There is no block behind the last. -/
theorem ataReadSector_eq_none (d : AtaDevice) (m : Mem) (fuel : Nat) :
    ataReadSector buffer d.base fuel (d.serve start total total, m) total = none := by
  have hpoll : ataPoll d.base fuel (d.serve start total total) = none :=
    ataPoll_eq_none (d := d.serve start total total) (Nat.sub_self total) fuel
  rw [ataReadSector_serve, hpoll, Option.bind_none]

end

/-! ## All sectors -/

theorem disk_sector (d : AtaDevice) (h : lba.toNat < 2 ^ 28) (hi : i < 256) (k : Nat)
    (hk : k < 512) :
    d.disk (lba + BitVec.ofNat 32 ((512 * i + k) / 512)) ((512 * i + k) % 512) =
      d.sectors (lba.toNat + i) k := by
  have hdiv : (512 * i + k) / 512 = i := by omega
  have hmod : (512 * i + k) % 512 = k := by omega
  have hlba : (lba + BitVec.ofNat 32 i).toNat = lba.toNat + i := by bv_omega
  rw [hdiv, hmod, AtaDevice.disk, hlba]

theorem exists_bound (g : Nat → Nat) (n : Nat) : ∃ bound, ∀ i < n, g i < bound :=
  ⟨(Finset.range n).sup g + 1, fun _ hi =>
    Nat.lt_succ_of_le (Finset.le_sup (f := g) (Finset.mem_range.mpr hi))⟩

/-- Up to 256 sectors `ata_read` keeps its contract, and no transfer is left. -/
theorem ataReadPorts_eq (d : AtaDevice) (m : Mem) (buffer : Word) (hlba : lba.toNat < 2 ^ 28)
    (h1 : 1 ≤ count.toNat) (h256 : count.toNat ≤ 256) : ∃ fuel,
    ataReadPorts fuel buffer d.base lba count d m =
      some ((d.prepared lba count).serve lba.toNat count.toNat count.toNat,
        ataReadInto d.disk lba count.toNat m buffer) := by
  obtain ⟨fuel, hfuel⟩ := exists_bound
    (fun i => (d.delay (d.blocks + i)).1 + (d.delay (d.blocks + i)).2) count.toNat
  refine ⟨fuel, ?_⟩
  rw [ataReadPorts, ataCommand_eq d count hlba, transferCount_eq h1 h256]
  apply foldlM_range (S := fun i => ((d.prepared lba count).serve lba.toNat count.toNat i,
    m.blit buffer (fun k => d.disk (lba + BitVec.ofNat 32 (k / 512)) (k % 512)) (512 * i)))
  intro i hi
  exact ataReadSector_eq (d.prepared lba count) hi (disk_sector d hlba (by omega)) (hfuel i hi)

/-- Beyond 256 sectors it does not return. -/
theorem ataReadPorts_eq_none (d : AtaDevice) (m : Mem) (buffer : Word) (hlba : lba.toNat < 2 ^ 28)
    (h256 : 256 < count.toNat) (fuel : Nat) :
    ataReadPorts fuel buffer d.base lba count d m = none := by
  have htotal := transferCount_le count
  rw [ataReadPorts, ataCommand_eq d count hlba]
  apply foldlM_range_eq_none (n := transferCount count)
    (S := fun i => ((d.prepared lba count).serve lba.toNat (transferCount count) i,
      m.blit buffer (fun k => d.disk (lba + BitVec.ofNat 32 (k / 512)) (k % 512)) (512 * i)))
  · intro i hi
    exact ataReadSector_cases (d.prepared lba count) hi (disk_sector d hlba (by omega)) fuel
  · exact ataReadSector_eq_none (d.prepared lba count) _ fuel
  · omega

/-- `ata_read` returns with the right sectors up to 256 of them. -/
theorem transfers_iff (d : AtaDevice) (m : Mem) (buffer : Word) (hlba : lba.toNat < 2 ^ 28)
    (h1 : 1 ≤ count.toNat) : Transfers d m buffer lba count ↔ count.toNat ≤ 256 := by
  constructor
  · rintro ⟨fuel, d', m', hrun, -⟩
    by_contra h256
    rw [ataReadPorts_eq_none d m buffer hlba (Nat.lt_of_not_le h256)] at hrun
    cases hrun
  · intro h256
    obtain ⟨fuel, hrun⟩ := ataReadPorts_eq d m buffer hlba h1 h256
    refine ⟨fuel, _, _, hrun, fun k hk => ?_⟩
    have hsub : (buffer + BitVec.ofNat 32 k - buffer).toNat = k := by bv_omega
    rw [ataReadInto, Mem.blit_apply (by omega), hsub, if_pos hk]

/-! ## The requests of the file system -/

theorem directory_count (fs : Fat12) (hbps : fs.bpb.bytesPerSector = 512) :
    (SectorRequest.directory.count fs).toNat = fs.bpb.directoryEntries.toNat / 16 := by
  have hentries := fs.bpb.directoryEntries.isLt
  rw [SectorRequest.count, Fat12.bytesPerSector, hbps, BitVec.toNat_udiv, BitVec.toNat_mul,
    BitVec.toNat_setWidth_of_le (by decide)]
  show fs.bpb.directoryEntries.toNat * 32 % 2 ^ 32 / 512 = _
  omega

/-- Only a root directory of more than 4111 entries needs more than 256 sectors. -/
theorem SectorRequest.count_le_iff (fs : Fat12) (hbps : fs.bpb.bytesPerSector = 512)
    (r : SectorRequest) :
    (r.count fs).toNat ≤ 256 ↔ (r = .directory → fs.bpb.directoryEntries.toNat < 4112) := by
  cases r with
  | fat => exact iff_of_true (show (1 : Word).toNat ≤ 256 by decide) nofun
  | directory =>
    rw [directory_count fs hbps]
    constructor
    · intro h _
      omega
    · intro h
      have hlt := h rfl
      omega
  | cluster =>
    have hcluster := fs.bpb.sectorsPerCluster.isLt
    refine iff_of_true ?_ nofun
    rw [SectorRequest.count, Fat12.sectorsPerCluster, BitVec.toNat_setWidth_of_le (by decide)]
    omega

end

/-- **Sectors that the file system gets.** On a volume with sectors of 512 bytes every request of
the file system is transferred as asked, exactly if it is not for a root directory of 4112 entries
or more. -/
theorem ataRead_transfers_iff (fs : Fat12) (hbps : fs.bpb.bytesPerSector = 512)
    (r : SectorRequest) (h1 : 1 ≤ (r.count fs).toNat) (d : AtaDevice) (m : Mem)
    (buffer lba : Word) (hlba : lba.toNat < 2 ^ 28) :
    Transfers d m buffer lba (r.count fs) ↔
      (r = .directory → fs.bpb.directoryEntries.toNat < 4112) :=
  (transfers_iff d m buffer hlba h1).trans (r.count_le_iff fs hbps)

/-- A device that shows BSY and no DRQ for some time before each block. -/
def slowDevice : AtaDevice where
  base := 0x1F0
  sectors := fun lba k => BitVec.ofNat 8 (lba + k)
  delay := fun i => (i % 4, 2)
  blocks := 0
  registers := fun _ => 0
  next := 0
  left := 0
  word := 0
  busy := 0
  settle := 0

/-- The root directory of a floppy. -/
theorem ataRead_transfers_iff_floppy : Transfers slowDevice (fun _ => 0) 0x100000 19
    (SectorRequest.directory.count (fat12Init ⟨512, 1, 1, 2, 224, 9⟩)) :=
  (ataRead_transfers_iff (fat12Init ⟨512, 1, 1, 2, 224, 9⟩) rfl .directory (by decide) slowDevice
    (fun _ => 0) 0x100000 19 (by decide)).mpr fun _ => by decide

/-- A root directory of 4112 entries has 257 sectors, of which the device transfers one. -/
theorem ataRead_hangs_directory :
    SectorRequest.directory.count (fat12Init ⟨512, 1, 1, 2, 4112, 9⟩) = 257 ∧
      (∀ fuel, ataReadPorts fuel 0x100000 0x1F0 19 257 slowDevice (fun _ => 0) = none) ∧
      ¬ Transfers slowDevice (fun _ => 0) 0x100000 19 257 := by
  have hnone : ∀ fuel, ataReadPorts fuel 0x100000 0x1F0 19 257 slowDevice (fun _ => 0) = none :=
    ataReadPorts_eq_none slowDevice (fun _ => 0) 0x100000
      (show (19 : Word).toNat < 2 ^ 28 by decide) (show 256 < (257 : Word).toNat by decide)
  refine ⟨by decide, hnone, ?_⟩
  rintro ⟨fuel, d', m', hrun, -⟩
  cases hrun.symm.trans (hnone fuel)

end Hjortron
