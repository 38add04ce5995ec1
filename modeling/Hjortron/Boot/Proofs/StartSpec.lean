import Hjortron.Boot.Start
import Hjortron.Boot.Proofs.FindFileSpec
import Hjortron.Boot.Proofs.LoadFileSpec
import Hjortron.Boot.Proofs.Read16Spec

/-!
# What the boot loader leaves in memory

Searching and loading write `BUFFER`, the destination of the file and the variable `cluster`, so
that the rest of the boot sector stays and the second file leaves the first as it is. All calls of
`read16` name sectors of the volume.
-/

namespace Hjortron

/-! ## Files -/

/-- The clusters `cs` from `c` on are a file that `read_file` can load to `es:bx`: it lies in free
memory, and its last cluster starts within the segment. -/
structure BootFile (bpb : BiosParameterBlock) (disk : Disk) (volume stack : Nat) (cs : List Half)
    (es bx c : Half) : Prop where
  chain : FileChain bpb volume (fatByte (fat12Init bpb) disk) cs
  start : cs.headD 0 = c
  inFat : ∀ c ∈ cs, fatOffset c.toNat / 512 < bpb.sectorsPerFat.toNat
  free : FreeMemory stack (linear es bx) (cs.length * (fat12Init bpb).clusterBytes)
  segment : bx.toNat + (cs.length - 1) * (fat12Init bpb).clusterBytes < 65536

/-- The file stands in memory from `a` on. -/
def FileLoaded (bpb : BiosParameterBlock) (disk : Disk) (mem : Nat → Byte) (cs : List Half)
    (a : Nat) : Prop :=
  ∀ k < cs.length * (fat12Init bpb).clusterBytes,
    mem (a + k) = (fileContents bpb disk cs).getD k 0

namespace BootRead

/-- The first sector of a call. -/
def lba : BootRead → Half
  | .cluster _ _ lba _ => lba
  | .fat lba => lba

/-- The number of sectors of a call. -/
def count : BootRead → Byte
  | .cluster _ _ _ count => count
  | .fat _ => 1

/-- The call is for sectors of the volume. -/
def OnVolume (volume : Nat) (r : BootRead) : Prop :=
  1 ≤ r.count.toNat ∧ r.lba.toNat + r.count.toNat ≤ volume

theorem onVolume_fat {volume : Nat} {lba : Half} (h : lba.toNat < volume) :
    (BootRead.fat lba).OnVolume volume :=
  ⟨le_rfl, h⟩

end BootRead

section

variable {bpb : BiosParameterBlock} {disk : Disk} {mem : Nat → Byte} {cs : List Half}
  {name : Nat → Byte} {c es bx : Half} {volume stack fuel a : Nat} {s : Loader}
  {vars : BootVariables} {dl : Byte} {r : DriveParameters}

/-! ## Calls -/

/-- Calls for the root directory write the buffer. -/
theorem call_fat_mem (disk : Disk) (s : Loader) (sectors : List Half)
    (ha : a < 0x7E00 ∨ 0x8000 ≤ a) : (s.call disk (sectors.map .fat)).mem a = s.mem a := by
  apply bootMemory_outside
  intro r hr hw
  rcases List.mem_map.mp hr with ⟨lba, -, rfl⟩
  rcases hw with ⟨hle, hlt⟩
  omega

namespace BootFile

/-- On a volume with 16-bit sector numbers the file fits. -/
theorem fits (hb : BootableBpb bpb) (hvolume : volume ≤ 65536)
    (h : BootFile bpb disk volume stack cs es bx c) : FitsBoot bpb cs bx where
  fats := hb.fats
  segment := h.segment
  sectors := by
    intro c hc
    have hcluster := h.chain.chainCluster hc
    have hon := hcluster.onVolume
    have hspc := hb.sectorsPerCluster
    rw [fat12ClusterLba_toNat hb hcluster]
    omega

/-- The sectors of the FAT that belong to a file lie before its clusters. -/
theorem fatLba_toNat (hb : BootableBpb bpb) (hvolume : volume ≤ 65536)
    (h : BootFile bpb disk volume stack cs es bx c) {c' : Half} (hc' : c' ∈ cs) :
    (bootFatLba bpb c').toNat < volume := by
  have hcluster := h.chain.chainCluster hc'
  have hfats : 1 ≤ bpb.fats.toNat := by
    rw [hb.fats]
    decide
  have hlt := fatSector_lt_cluster hfats (h.inFat c' hc') c'
  have hon := hcluster.onVolume
  rw [clusterSector_eq hb.fats] at hlt
  have hdiv : (BitVec.ofNat 16 (fatOffset c'.toNat / 512)).toNat = fatOffset c'.toNat / 512 := by
    rw [BitVec.toNat_ofNat, Nat.mod_eq_of_lt (by omega)]
  rw [bootFatLba, bootFatOffset_toNat hcluster.valid.2, BitVec.toNat_add, hdiv,
    Nat.mod_eq_of_lt (by omega)]
  omega

/-- The calls of `read_file` name sectors of the volume. -/
theorem reads_onVolume (hb : BootableBpb bpb) (hvolume : volume ≤ 65536)
    (hcluster : ∀ c ∈ cs, ChainCluster bpb volume c)
    (hfat : ∀ c ∈ cs, (bootFatLba bpb c).toNat < volume) :
    ∀ r ∈ bootReads bpb es bx cs, r.OnVolume volume := by
  induction cs generalizing bx with
  | nil =>
    intro r hr
    cases hr
  | cons c cs ih =>
    intro r hr
    have hc := hcluster c List.mem_cons_self
    rcases List.mem_cons.mp hr with rfl | hr
    · have hon := hc.onVolume
      have hspc := hb.sectorsPerCluster
      refine ⟨hspc, ?_⟩
      change (bootClusterLba bpb c).toNat + bpb.sectorsPerCluster.toNat ≤ volume
      rw [bootClusterLba_mod hc.valid.1, Nat.mod_eq_of_lt (by omega)]
      exact hon
    · rcases List.mem_cons.mp hr with rfl | hr
      · exact BootRead.onVolume_fat (hfat c List.mem_cons_self)
      · exact ih (fun c hc => hcluster c (List.mem_cons_of_mem _ hc))
          (fun c hc => hfat c (List.mem_cons_of_mem _ hc)) r hr

/-- `read_file` on a file: its calls, and what they write. -/
theorem readFile (hb : BootableBpb bpb) (hvolume : volume ≤ 65536) (hstack : stack ≤ 0x7C00)
    (h : BootFile bpb disk volume stack cs es bx c) (hfuel : cs.length ≤ fuel)
    (buffer : Nat → Byte) :
    ∃ file, Hjortron.readFile bpb disk buffer fuel es bx c = .ok file ∧
      (∀ r ∈ file.reads, r.OnVolume volume) ∧
      ∀ mem, FileLoaded bpb disk (bootMemory disk mem file.reads) cs (linear es bx) ∧
        ∀ a, (a < linear es bx ∨ stack ≤ a ∧ a < 0x8000) → (a < 0x7E00 ∨ 0x8000 ≤ a) →
          bootMemory disk mem file.reads a = mem a := by
  have hfits := h.fits hb hvolume
  have hfat : ∀ c ∈ cs, bpb.reservedSectors.toNat + fatOffset c.toNat / 512 < 65536 := by
    intro c' hc'
    have hcluster := h.chain.chainCluster hc'
    have hon := hcluster.onVolume
    have hlt := fatSector_lt_cluster (by rw [hb.fats]; decide) (h.inFat c' hc') c'
    rw [clusterSector_eq hb.fats] at hlt
    omega
  have hbuffer : linear es bx + cs.length * (fat12Init bpb).clusterBytes ≤ 0x7E00 ∨
      0x8000 ≤ linear es bx := by
    have hloader := h.free.loader
    omega
  rcases readFileLoop_reads (s := ⟨c, es, bx, buffer, []⟩) hb.bytesPerSector h.chain hfat
    h.start.symm hfuel with ⟨file, hrun, hreads⟩
  rw [List.nil_append] at hreads
  refine ⟨file, hrun, ?_, ?_⟩
  · rw [hreads]
    exact reads_onVolume hb hvolume (fun c hc => h.chain.chainCluster hc)
      fun c hc => h.fatLba_toNat hb hvolume hc
  · intro mem
    rw [hreads]
    constructor
    · intro k hk
      have hlba : ∀ c ∈ cs,
          (bootClusterLba bpb c).setWidth 32 = fat12ClusterLba (fat12Init bpb) c :=
        fun c hc => bootClusterLba_eq hb.bytesPerSector hb.fats (h.chain.chainCluster hc).valid.1
          (hfits.sectors c hc)
      exact bootMemory_bootReads hb.bytesPerSector h.segment hlba hbuffer hk
    · intro a ha hout
      apply bootMemory_outside
      intro r hr hw
      have hspares := bootReads_spares hb.bytesPerSector h.segment h.free hr
      rcases bootReads_writes hb.bytesPerSector h.segment hr hw with hle | hin
      · change linear es bx ≤ a at hle
        cases r with
        | fat lba =>
          rcases hw with ⟨hge, hlt⟩
          omega
        | cluster es' bx' lba count =>
          rcases hw with ⟨hge, hlt⟩
          change linear es' bx' + 512 * count.toNat ≤ stack ∨ 0x8000 ≤ linear es' bx' at hspares
          omega
      · omega

end BootFile

/-! ## The boot sector -/

/-- The variables lie in the boot sector, behind the BIOS parameter block, and apart from each
other. -/
structure BootVariables.Sound (vars : BootVariables) : Prop where
  bootDrive : 0x7C3E ≤ vars.bootDrive ∧ vars.bootDrive < 0x7E00
  cluster : 0x7C3E ≤ vars.cluster ∧ vars.cluster + 1 < 0x7E00
  apart : vars.bootDrive ≠ vars.cluster ∧ vars.bootDrive ≠ vars.cluster + 1

/-- The bytes of the boot sector that the loader writes: `boot_drive`, `cluster`, and the low bytes
of the geometry. -/
def BootVariables.Holds (vars : BootVariables) (a : Nat) : Prop :=
  a = vars.bootDrive ∨ a = vars.cluster ∨ a = vars.cluster + 1 ∨ a = 0x7C18 ∨ a = 0x7C1A

theorem storeBootWord_of_ne {b : Nat} {v : Half} (h : a ≠ b) (h' : a ≠ b + 1) :
    storeBootWord mem b v a = mem a := by
  rw [storeBootWord, Function.update_of_ne h', Function.update_of_ne h]

theorem startVariables_of_ne (hdrive : a ≠ vars.bootDrive) (hheads : a ≠ 0x7C1A)
    (hsectors : a ≠ 0x7C18) : startVariables vars dl r mem a = mem a := by
  unfold startVariables
  split_ifs
  · exact Function.update_of_ne hdrive ..
  · rw [Function.update_of_ne hsectors, Function.update_of_ne hheads, Function.update_of_ne hdrive]

theorem startVariables_bootDrive (hvars : vars.Sound) :
    startVariables vars dl r mem vars.bootDrive = dl := by
  have hsound := hvars.bootDrive
  unfold startVariables
  split_ifs
  · exact Function.update_self ..
  · rw [Function.update_of_ne (by omega), Function.update_of_ne (by omega), Function.update_self]

/-- The parameter block depends on its bytes only. -/
theorem bootBpb_congr {mem' : Nat → Byte} (h : ∀ a, 0x7C0B ≤ a → a < 0x7C18 → mem' a = mem a) :
    bootBpb mem' = bootBpb mem := by
  simp only [bootBpb, bootWord, h 0x7C0B (by decide) (by decide),
    h 0x7C0C (by decide) (by decide), h 0x7C0D (by decide) (by decide),
    h 0x7C0E (by decide) (by decide), h 0x7C0F (by decide) (by decide),
    h 0x7C10 (by decide) (by decide), h 0x7C11 (by decide) (by decide),
    h 0x7C12 (by decide) (by decide), h 0x7C16 (by decide) (by decide),
    h 0x7C17 (by decide) (by decide)]

theorem bootGeometry_congr {mem' : Nat → Byte}
    (h : ∀ a, 0x7C18 ≤ a → a < 0x7C1C → mem' a = mem a) : bootGeometry mem' = bootGeometry mem := by
  simp only [bootGeometry, bootWord, h 0x7C18 (by decide) (by decide),
    h 0x7C19 (by decide) (by decide), h 0x7C1A (by decide) (by decide),
    h 0x7C1B (by decide) (by decide)]

theorem bootBpb_startVariables (hvars : vars.Sound) :
    bootBpb (startVariables vars dl r mem) = bootBpb mem := by
  have hsound := hvars.bootDrive
  apply bootBpb_congr
  intro a hle hlt
  exact startVariables_of_ne (by omega) (by omega) (by omega)

theorem setLowByte_append {h l b : Byte} : setLowByte (h ++ l : Half) b = h ++ b := by
  unfold setLowByte
  congr 1
  exact BitVec.extractLsb'_append_eq_left

/-- What `start` stores is the geometry of `startGeometry`. -/
theorem bootGeometry_startVariables (hvars : vars.Sound) :
    bootGeometry (startVariables vars dl r mem) = startGeometry (bootGeometry mem) dl r := by
  have hsound := hvars.bootDrive
  by_cases hdl : dl &&& 0x80 = 0
  · rw [startGeometry, if_pos hdl]
    apply bootGeometry_congr
    intro a hle hlt
    rw [startVariables, if_pos hdl]
    exact Function.update_of_ne (by omega) ..
  · rw [startGeometry, if_neg hdl, startVariables, if_neg hdl]
    have hsectors : 0x7C19 ≠ vars.bootDrive := by omega
    have hheads : 0x7C1B ≠ vars.bootDrive := by omega
    simp only [bootGeometry, bootWord, setLowByte_append]
    simp [hsectors, hheads]

/-! ## One file -/

/-- The first entry with the name. -/
def rootEntry (bpb : BiosParameterBlock) (disk : Disk) (name : Nat → Byte) : Option Nat :=
  firstNamed bpb disk name 0 bpb.directoryEntries.toNat

/-- The root directory lies on the volume. -/
structure RootOnVolume (bpb : BiosParameterBlock) (volume : Nat) : Prop where
  nonempty : 1 ≤ bpb.directoryEntries.toNat
  sectors : ∀ i < bpb.directoryEntries.toNat, rootStart bpb + i / 16 < volume

/-- `find_file`, with the sectors that it reads. -/
theorem findFile_rootEntry (disk : Disk) (hb : BootableBpb bpb) (hroot : RootOnVolume bpb volume)
    (hvolume : volume ≤ 65536) (buffer name : Nat → Byte) :
    ∃ result sectors, findFile bpb disk buffer name = .ok (result, sectors) ∧
      (∀ lba ∈ sectors, lba.toNat < volume) ∧
      (∀ i, rootEntry bpb disk name = some i → ∃ di, result = .ret (entryCluster bpb disk i) di) ∧
      (rootEntry bpb disk name = none → result = .error "find file.") := by
  have hbefore : BeforeEntry bpb disk bpb.directoryEntries.toNat 0
      { ax := bpb.directoryEntries, di := bootBufferMax, bx := 0, buffer, reads := [] } :=
    .first rfl rfl rfl rfl rfl
  have hsearched : ∃ result sectors, findFile bpb disk buffer name = .ok (result, sectors) ∧
      Searched bpb disk name bpb.directoryEntries.toNat 0 result sectors :=
    findFileLoop_searched hb.fats bpb.directoryEntries.isLt
      (fun i hi => Nat.lt_of_lt_of_le (hroot.sectors i hi) hvolume) hroot.nonempty
      (Nat.le_of_lt (by simpa using bpb.directoryEntries.isLt)) hbefore
  rcases hsearched with ⟨result, sectors, hrun, hret, herror, j, -, hj, hreads⟩
  refine ⟨result, sectors, hrun, ?_, hret, herror⟩
  intro lba hlba
  have hmem : lba.toNat ∈ List.range' (rootStart bpb) (j / 16 + 1) :=
    hreads ▸ List.mem_map_of_mem hlba
  rw [List.mem_range'_1] at hmem
  have hlast := hroot.sectors j hj
  omega

/-- `find_file` and `read_file`: the outcome, and what it leaves. -/
theorem loadNamed_spec (hvars : vars.Sound) (hb : BootableBpb (bootBpb s.mem))
    (hroot : RootOnVolume (bootBpb s.mem) volume) (hvolume : volume ≤ 65536)
    (hstack : stack ≤ 0x7C00) (hfuel : cs.length ≤ fuel)
    (hfile : ∀ i, rootEntry (bootBpb s.mem) disk name = some i →
      BootFile (bootBpb s.mem) disk volume stack cs es bx (entryCluster (bootBpb s.mem) disk i))
    (hs : ∀ r ∈ s.reads, r.OnVolume volume) :
    ∃ error t, loadNamed vars disk fuel name es bx s = .ok (error, t) ∧
      (error = if (rootEntry (bootBpb s.mem) disk name).isSome then none
        else some "find file.") ∧
      ((rootEntry (bootBpb s.mem) disk name).isSome →
        FileLoaded (bootBpb s.mem) disk t.mem cs (linear es bx)) ∧
      (∀ a, (a < linear es bx ∨ stack ≤ a ∧ a < 0x8000) → (a < 0x7E00 ∨ 0x8000 ≤ a) →
        a ≠ vars.cluster → a ≠ vars.cluster + 1 → t.mem a = s.mem a) ∧
      ∀ r ∈ t.reads, r.OnVolume volume := by
  generalize hbpb : bootBpb s.mem = bpb at hb hroot hfile ⊢
  rcases findFile_rootEntry disk hb hroot hvolume s.buffer name with
    ⟨result, sectors, hfind, hsectors, hret, herror⟩
  have hreads : ∀ r ∈ (s.call disk (sectors.map .fat)).reads, r.OnVolume volume := by
    intro r hr
    rcases List.mem_append.mp hr with hr | hr
    · exact hs r hr
    · rcases List.mem_map.mp hr with ⟨lba, hlba, rfl⟩
      exact BootRead.onVolume_fat (hsectors lba hlba)
  unfold loadNamed
  simp only [hbpb]
  rw [hfind]
  cases hentry : rootEntry bpb disk name with
  | none =>
    rw [herror hentry]
    refine ⟨_, _, rfl, rfl, ?_, ?_, hreads⟩
    · intro h
      cases h
    · intro a _ hout _ _
      exact call_fat_mem disk s sectors hout
  | some i =>
    rcases hret i hentry with ⟨di, rfl⟩
    have hfile' := hfile i hentry
    rcases hfile'.readFile hb hvolume hstack hfuel
      (s.call disk (sectors.map .fat)).buffer with ⟨file, hrun, hon, hmem⟩
    have hbind : (do
        let file ← Hjortron.readFile bpb disk (s.call disk (sectors.map .fat)).buffer fuel es bx
          (entryCluster bpb disk i)
        return (none, ((s.call disk (sectors.map .fat)).call disk file.reads).setCluster vars
          file.cluster) : Except Halt (Option String × Loader)) =
        .ok (none, ((s.call disk (sectors.map .fat)).call disk file.reads).setCluster vars
          file.cluster) := by
      rw [hrun]
      rfl
    refine ⟨_, _, hbind, rfl, ?_, ?_, ?_⟩
    · intro _ k hk
      -- the file lies beside the boot sector
      have hfree := hfile'.free.loader
      have hsound := hvars.cluster
      rw [← (hmem (s.call disk (sectors.map .fat)).mem).1 k hk]
      exact storeBootWord_of_ne (by omega) (by omega)
    · intro a ha hout hcluster hcluster'
      exact (storeBootWord_of_ne hcluster hcluster').trans
        (((hmem _).2 a ha hout).trans (call_fat_mem disk s sectors hout))
    · intro r hr
      rcases List.mem_append.mp hr with hr | hr
      · exact hreads r hr
      · exact hon r hr

end

/-! ## Both files -/

/-- The drive holds the volume, has at most 256 cylinders, and is described by the BIOS parameter
block if it is a floppy. -/
structure BootDrive (geometry : BootGeometry) (dl : Byte) (r : DriveParameters) (volume : Nat) :
    Prop where
  sectorsPerTrack : geometry.sectorsPerTrack.toNat < 256
  headsPerCylinder : geometry.headsPerCylinder.toNat < 256
  floppy : dl &&& 0x80 = 0 → geometry.sectorsPerTrack.toNat = r.cl.toNat ∧
    geometry.headsPerCylinder.toNat = r.maxHead + 1
  sectors : 1 ≤ r.sectors
  heads : r.dh.toNat ≤ 254
  cylinders : r.maxCylinder < 256
  total : volume ≤ r.total

/-- `read16` addresses the sectors of the volume. -/
theorem BootDrive.addresses {geometry : BootGeometry} {dl : Byte} {r : DriveParameters}
    {volume : Nat} {c : BootRead} (h : BootDrive geometry dl r volume) (hc : c.OnVolume volume) :
    ∃ i, read16 (startGeometry geometry dl r) dl c.count c.lba = .ok i ∧
      r.Addresses c.lba.toNat i := by
  have htotal := h.total
  have hgeometry : (startGeometry geometry dl r).sectorsPerTrack.toNat = r.cl.toNat ∧
      (startGeometry geometry dl r).headsPerCylinder.toNat = r.maxHead + 1 := by
    by_cases hdl : dl &&& 0x80 = 0
    · rw [startGeometry, if_pos hdl]
      exact h.floppy hdl
    · exact startGeometry_toNat hdl h.sectorsPerTrack h.headsPerCylinder h.heads
  apply DriveParameters.addresses_of_lt dl c.count h.sectors h.heads hgeometry.1 hgeometry.2
    h.cylinders
  unfold BootRead.OnVolume at hc
  omega

/-- The variables of the boot sector after `start`, and the rest of it as it was. -/
structure BootSectorKept (vars : BootVariables) (dl : Byte) (r : DriveParameters)
    (mem mem' : Nat → Byte) : Prop where
  bootDrive : mem' vars.bootDrive = dl
  geometry : bootGeometry mem' = startGeometry (bootGeometry mem) dl r
  rest : ∀ a, 0x7C00 ≤ a → a < 0x7E00 → ¬ vars.Holds a → mem' a = mem a

/-- Calls that write neither the boot sector nor its other variables. -/
theorem bootSectorKept_of {vars : BootVariables} {dl : Byte} {r : DriveParameters}
    {mem mem' : Nat → Byte} (hvars : vars.Sound)
    (h : ∀ a, 0x7C00 ≤ a → a < 0x7E00 → a ≠ vars.cluster → a ≠ vars.cluster + 1 →
      mem' a = startVariables vars dl r mem a) : BootSectorKept vars dl r mem mem' where
  bootDrive := by
    have hsound := hvars.bootDrive
    rw [h _ (by omega) (by omega) hvars.apart.1 hvars.apart.2]
    exact startVariables_bootDrive hvars
  geometry := by
    have hsound := hvars.cluster
    rw [← bootGeometry_startVariables hvars]
    apply bootGeometry_congr
    intro a hle hlt
    exact h a (by omega) (by omega) (by omega) (by omega)
  rest := by
    intro a hle hlt hout
    unfold BootVariables.Holds at hout
    rw [h a hle hlt (by omega) (by omega)]
    exact startVariables_of_ne (by omega) (by omega) (by omega)

/-- Sectors on the volume are addressed with the variables that `start` has set. -/
theorem BootSectorKept.addresses {vars : BootVariables} {dl : Byte} {r : DriveParameters}
    {mem : Nat → Byte} {s : Loader} {volume : Nat} (h : BootSectorKept vars dl r mem s.mem)
    (hdrive : BootDrive (bootGeometry mem) dl r volume)
    (hreads : ∀ c ∈ s.reads, c.OnVolume volume) :
    ∀ c ∈ s.reads, c.OnVolume volume ∧
      ∃ i, read16 (bootGeometry s.mem) (s.mem vars.bootDrive) c.count c.lba = .ok i ∧
        r.Addresses c.lba.toNat i := by
  intro c hc
  rw [h.geometry, h.bootDrive]
  exact ⟨hreads c hc, hdrive.addresses (hreads c hc)⟩

/-- **The boot loader.** On a volume of at most 65536 sectors with a parameter block that the loader
can use, on a drive with at most 256 cylinders, and for files that lie in free memory and whose last
clusters start within a segment: `start` ends in an error exactly when the root directory lacks one
of the names; what it finds it loads whole, to `0x1000` and `0x10000`; of the boot sector it writes
`boot_drive`, `cluster` and the geometry only; and each call of `read16` addresses the sectors that
it is for. -/
theorem bootStart_loads {vars : BootVariables} {disk : Disk} {mem : Nat → Byte}
    {initCs kernelCs : List Half} {volume stack : Nat} {dl : Byte} {r : DriveParameters}
    (hvars : vars.Sound) (hb : BootableBpb (bootBpb mem))
    (hroot : RootOnVolume (bootBpb mem) volume) (hvolume : volume ≤ 65536)
    (hstack : stack ≤ 0x7C00)
    (hinit : ∀ i, rootEntry (bootBpb mem) disk fileInitBin = some i →
      BootFile (bootBpb mem) disk volume stack initCs 0 initSegment
        (entryCluster (bootBpb mem) disk i))
    (hkernel : ∀ i, rootEntry (bootBpb mem) disk fileKernelBin = some i →
      BootFile (bootBpb mem) disk volume stack kernelCs 0x1000 0
        (entryCluster (bootBpb mem) disk i))
    (hdrive : BootDrive (bootGeometry mem) dl r volume) :
    ∃ fuel error s, bootStart vars disk fuel dl r mem = .ok (error, s) ∧
      (error = none ↔ (rootEntry (bootBpb mem) disk fileInitBin).isSome ∧
        (rootEntry (bootBpb mem) disk fileKernelBin).isSome) ∧
      (error ≠ none → error = some "find file.") ∧
      ((rootEntry (bootBpb mem) disk fileInitBin).isSome →
        FileLoaded (bootBpb mem) disk s.mem initCs 0x1000) ∧
      (error = none → FileLoaded (bootBpb mem) disk s.mem kernelCs 0x10000) ∧
      BootSectorKept vars dl r mem s.mem ∧
      ∀ c ∈ s.reads, c.OnVolume volume ∧
        ∃ i, read16 (bootGeometry s.mem) (s.mem vars.bootDrive) c.count c.lba = .ok i ∧
          r.Addresses c.lba.toNat i := by
  have hsound := hvars.cluster
  let start : Loader := ⟨startVariables vars dl r mem, []⟩
  have hbpb : bootBpb start.mem = bootBpb mem := bootBpb_startVariables hvars
  rw [← hbpb] at hb hroot hinit hkernel ⊢
  rcases loadNamed_spec (s := start) hvars hb hroot hvolume hstack
    (le_max_left _ kernelCs.length) hinit (fun r hr => nomatch hr) with
    ⟨error, s, hrun, herror, hloaded, hkept, hreads⟩
  have hstart : linear 0 initSegment = 0x1000 := rfl
  have hkernelStart : linear 0x1000 0 = 0x10000 := rfl
  rw [hstart] at hloaded hkept
  have hsector : ∀ a, 0x7C00 ≤ a → a < 0x7E00 → a ≠ vars.cluster → a ≠ vars.cluster + 1 →
      s.mem a = startVariables vars dl r mem a :=
    fun a hle hlt => hkept a (Or.inr ⟨by omega, by omega⟩) (Or.inl hlt)
  cases hfound : rootEntry (bootBpb start.mem) disk fileInitBin with
  | none =>
    rw [hfound] at herror
    obtain rfl : error = some "find file." := herror
    have hboot : bootStart vars disk (max initCs.length kernelCs.length) dl r mem =
        .ok (some "find file.", s) := by
      rw [bootStart, hrun]
      rfl
    have hsectorKept := bootSectorKept_of hvars hsector
    exact ⟨_, _, s, hboot, by simp, fun _ => rfl, by simp, by simp, hsectorKept,
      hsectorKept.addresses hdrive hreads⟩
  | some i =>
    rw [hfound] at herror hloaded
    obtain rfl : error = none := herror
    have hbpb' : bootBpb s.mem = bootBpb start.mem := by
      apply bootBpb_congr
      intro a hle hlt
      exact hsector a (by omega) (by omega) (by omega) (by omega)
    have hloaded' := hloaded rfl
    have hfree := (hinit i hfound).free.loader
    rw [hstart] at hfree
    rw [← hbpb'] at hb hroot hkernel hloaded' hfree
    rcases loadNamed_spec (s := s) hvars hb hroot hvolume hstack (le_max_right initCs.length _)
      hkernel hreads with ⟨error, t, hrun', herror', hsecond, hkept', hreads'⟩
    have hboot : bootStart vars disk (max initCs.length kernelCs.length) dl r mem =
        .ok (error, t) := by
      rw [bootStart, hrun]
      exact hrun'
    rw [hkernelStart] at hsecond hkept'
    have hsectorKept : BootSectorKept vars dl r mem t.mem := by
      apply bootSectorKept_of hvars
      intro a hle hlt hcluster hcluster'
      rw [hkept' a (Or.inr ⟨by omega, by omega⟩) (Or.inl hlt) hcluster hcluster']
      exact hsector a hle hlt hcluster hcluster'
    rw [← hbpb']
    refine ⟨_, error, t, hboot, ?_, ?_, ?_, ?_, hsectorKept,
      hsectorKept.addresses hdrive hreads'⟩
    · rw [herror']
      cases rootEntry (bootBpb s.mem) disk fileKernelBin <;> simp
    · rw [herror']
      cases rootEntry (bootBpb s.mem) disk fileKernelBin <;> simp
    · intro _ k hk
      rw [hkept' (0x1000 + k) (Or.inl (by omega)) (Or.inl (by omega)) (by omega) (by omega)]
      exact hloaded' k hk
    · intro hnone
      apply hsecond
      rw [herror'] at hnone
      cases hentry : rootEntry (bootBpb s.mem) disk fileKernelBin with
      | none =>
        rw [hentry] at hnone
        cases hnone
      | some j => rfl

/-- A floppy with both files, one cluster each. -/
def bootDisk : Disk := fun lba k =>
  if lba = 1 then 0xFF
  else if lba = 19 then
    if k < 11 then fileInitBin k
    else if k = 26 then 2
    else if 32 ≤ k ∧ k < 43 then fileKernelBin (k - 32)
    else if k = 58 then 3
    else 0
  else BitVec.ofNat 8 k

theorem bootFile_single {es bx c : Half} (hc : c = 2 ∨ c = 3)
    (hfree : FreeMemory 0x7000 (linear es bx) 512) :
    BootFile floppyBpb bootDisk 2880 0x7000 [c] es bx c where
  chain := by
    rcases hc with rfl | rfl
    · exact .last ⟨by decide, by decide, by decide⟩ (by decide +kernel)
    · exact .last ⟨by decide, by decide, by decide⟩ (by decide +kernel)
  start := rfl
  inFat := by
    intro c' hc'
    rw [List.mem_singleton.mp hc']
    rcases hc with rfl | rfl <;> decide
  free := by
    rw [List.length_singleton, Nat.one_mul]
    exact hfree
  segment := by
    rw [List.length_singleton, Nat.sub_self, Nat.zero_mul]
    exact bx.isLt

theorem rootEntry_init : rootEntry floppyBpb bootDisk fileInitBin = some 0 :=
  firstNamed_eq_some.mpr ⟨by decide +kernel, by decide, by decide⟩

theorem rootEntry_kernel : rootEntry floppyBpb bootDisk fileKernelBin = some 1 :=
  firstNamed_eq_some.mpr ⟨by decide +kernel, by decide, by decide +kernel⟩

/-- The parameter block of the floppy in the boot sector. -/
def floppySector : List Byte :=
  [0x00, 0x02, 0x01, 0x01, 0x00, 0x02, 0xE0, 0x00, 0x40, 0x0B, 0xF0, 0x09, 0x00, 0x12, 0x00, 0x02,
    0x00]

def floppyMemory (a : Nat) : Byte := floppySector.getD (a - 0x7C0B) 0

theorem bootStart_loads_floppy :
    ∃ fuel s, bootStart ⟨0x7D80, 0x7D81⟩ bootDisk fuel 0 ⟨79, 18, 1⟩ floppyMemory =
        .ok (none, s) ∧
      FileLoaded floppyBpb bootDisk s.mem [2] 0x1000 ∧
        FileLoaded floppyBpb bootDisk s.mem [3] 0x10000 ∧
          BootSectorKept ⟨0x7D80, 0x7D81⟩ 0 ⟨79, 18, 1⟩ floppyMemory s.mem := by
  have hbpb : bootBpb floppyMemory = floppyBpb := by decide
  have hgeometry : bootGeometry floppyMemory = ⟨18, 2⟩ := by decide
  have hvars : BootVariables.Sound ⟨0x7D80, 0x7D81⟩ := ⟨by decide, by decide, by decide⟩
  have hb : BootableBpb floppyBpb := ⟨rfl, rfl, by decide⟩
  have hroot : RootOnVolume floppyBpb 2880 := ⟨by decide, by decide +kernel⟩
  have hdrive : BootDrive ⟨18, 2⟩ 0 ⟨79, 18, 1⟩ 2880 :=
    ⟨by decide, by decide, by decide, by decide, by decide, by decide, by decide⟩
  have hinit : ∀ i, rootEntry floppyBpb bootDisk fileInitBin = some i →
      BootFile floppyBpb bootDisk 2880 0x7000 [2] 0 initSegment
        (entryCluster floppyBpb bootDisk i) := by
    intro i hi
    obtain rfl : 0 = i := Option.some.inj (rootEntry_init.symm.trans hi)
    have hcluster : entryCluster floppyBpb bootDisk 0 = 2 := by decide +kernel
    rw [hcluster]
    exact bootFile_single (Or.inl rfl) ⟨by decide, by decide, by decide⟩
  have hkernel : ∀ i, rootEntry floppyBpb bootDisk fileKernelBin = some i →
      BootFile floppyBpb bootDisk 2880 0x7000 [3] 0x1000 0
        (entryCluster floppyBpb bootDisk i) := by
    intro i hi
    obtain rfl : 1 = i := Option.some.inj (rootEntry_kernel.symm.trans hi)
    have hcluster : entryCluster floppyBpb bootDisk 1 = 3 := by decide +kernel
    rw [hcluster]
    exact bootFile_single (Or.inr rfl) ⟨by decide, by decide, by decide⟩
  rw [← hbpb] at hb hroot hinit hkernel
  rw [← hgeometry] at hdrive
  rcases bootStart_loads hvars hb hroot (by decide) (by decide) hinit hkernel hdrive with
    ⟨fuel, error, s, hrun, hnone, -, hinit, hkernel, hkept, -⟩
  rw [hbpb] at hnone hinit hkernel
  have hboth := hnone.mpr ⟨by rw [rootEntry_init]; rfl, by rw [rootEntry_kernel]; rfl⟩
  rw [hboth] at hrun
  exact ⟨fuel, s, hrun, hinit (by rw [rootEntry_init]; rfl), hkernel hboth, hkept⟩

end Hjortron
