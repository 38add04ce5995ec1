import Hjortron.Boot.ReadFile
import Hjortron.Filesystem.Proofs.FatSpec

/-!
# The boot loader and the kernel read the same sectors

The boot loader follows a cluster chain in 16-bit registers until an entry of at least `0xFF0`, the
kernel in 32 bits until an invalid cluster. On a volume of fewer than 65536 sectors no sum of the
boot loader wraps, and both decode an entry that is not split in the same way.
-/

namespace Hjortron

open BlockList

/-! ## The volume -/

/-- The first sector after the root directory. -/
def dataStart (bpb : BiosParameterBlock) : Nat :=
  bpb.reservedSectors.toNat + 2 * bpb.sectorsPerFat.toNat + bpb.directoryEntries.toNat * 32 / 512

/-- The first sector of a cluster. -/
def clusterStart (bpb : BiosParameterBlock) (c : Half) : Nat :=
  dataStart bpb + (c.toNat - 2) * bpb.sectorsPerCluster.toNat

/-- The sectors of a cluster. -/
def clusterSectors (bpb : BiosParameterBlock) (c : Half) : List Nat :=
  List.range' (clusterStart bpb c) bpb.sectorsPerCluster.toNat

/-- The parameter blocks of volumes with 512-byte sectors and two FATs. -/
structure BootableBpb (bpb : BiosParameterBlock) : Prop where
  bytesPerSector : bpb.bytesPerSector = 512
  fats : bpb.fats = 2
  sectorsPerCluster : 1 ≤ bpb.sectorsPerCluster.toNat

/-- A cluster of a chain: valid, on a volume of `volume` sectors, and with an entry that lies in
one sector of the FAT. -/
structure ChainCluster (bpb : BiosParameterBlock) (volume : Nat) (c : Half) : Prop where
  valid : 2 ≤ c.toNat ∧ c.toNat ≤ 0xFEF
  onVolume : clusterStart bpb c + bpb.sectorsPerCluster.toNat ≤ volume
  notSplit : ¬ SplitEntry c.toNat

/-- A well-formed chain in the FAT `f`, up to a final entry of at least `0xFF0`. -/
inductive FileChain (bpb : BiosParameterBlock) (volume : Nat) (f : Nat → Byte) : List Half → Prop
  | last {c : Half} : ChainCluster bpb volume c → 0xFF0 ≤ fatEntry f c.toNat →
      FileChain bpb volume f [c]
  | cons {c next : Half} {cs : List Half} : ChainCluster bpb volume c →
      fatEntry f c.toNat = next.toNat → FileChain bpb volume f (next :: cs) →
      FileChain bpb volume f (c :: next :: cs)

/-! ## The two lists of sectors -/

/-- The data sectors of a call of `read16`. -/
def BootRead.dataSectors : BootRead → List Nat
  | .cluster _ _ lba count => List.range' lba.toNat count.toNat
  | .fat _ => []

/-- The data sectors that `read_file` has requested. -/
def BootState.dataSectors (s : BootState) : List Nat := s.reads.flatMap BootRead.dataSectors

/-- The sectors of a chain for the kernel: the clusters that `fat12_read_fat` returns from
`cluster` on while they are valid, each with the sectors from `fat12_cluster_lba` on. -/
def kernelSectors (fs : Fat12) (disk : Disk) : Nat → Heap → Half → Except Halt (List Nat)
  | 0, _, _ => .error .diverges
  | fuel + 1, heap, cluster =>
    if fat12ValidCluster cluster = false then
      .ok []
    else do
      let (next, heap) ← fat12ReadFat fs disk heap cluster
      let rest ← kernelSectors fs disk fuel heap next
      return List.range' (fat12ClusterLba fs cluster).toNat fs.sectorsPerCluster.toNat ++ rest

variable {bpb : BiosParameterBlock} {disk : Disk} {volume fuel : Nat} {c next : Half}
  {cs : List Half} {heap : Heap} {lo hi size : Nat} {live : List (Word × Word)} {s : BootState}

theorem fatEntry_lt (f : Nat → Byte) (k : Nat) : fatEntry f k < 4096 := by
  have h1 := (f (fatOffset k)).isLt
  have h2 := (f (fatOffset k + 1)).isLt
  unfold fatEntry
  simp only [Nat.shiftRight_eq_div_pow, and_fff]
  split <;> omega

theorem fatEntry_toNat (f : Nat → Byte) (k : Nat) :
    (BitVec.ofNat 16 (fatEntry f k)).toNat = fatEntry f k := by
  have := fatEntry_lt f k
  rw [BitVec.toNat_ofNat, Nat.mod_eq_of_lt (by omega)]

/-! ## The kernel -/

/-- The size of the root directory in sectors. -/
theorem rootSectors_eq (bpb : BiosParameterBlock) :
    (bpb.directoryEntries.setWidth 32 * 0x20 / (512 : Half).setWidth 32 : Word) =
      BitVec.ofNat 32 (bpb.directoryEntries.toNat * 32 / 512) := by
  have hde := bpb.directoryEntries.isLt
  have hentries : (bpb.directoryEntries.setWidth 32 * 0x20 : Word) =
      BitVec.ofNat 32 (bpb.directoryEntries.toNat * 32) := by bv_omega
  rw [hentries, ofNat_div _ (by omega)]
  rfl

/-- The first sector of a cluster, with any number of FATs. -/
def clusterSector (bpb : BiosParameterBlock) (c : Half) : Nat :=
  bpb.reservedSectors.toNat + bpb.fats.toNat * bpb.sectorsPerFat.toNat +
    bpb.directoryEntries.toNat * 32 / 512 + (c.toNat - 2) * bpb.sectorsPerCluster.toNat

theorem clusterSector_lt (bpb : BiosParameterBlock) (c : Half) : clusterSector bpb c < 2 ^ 26 := by
  have hr := bpb.reservedSectors.isLt
  have hd := bpb.directoryEntries.isLt
  have hc := c.isLt
  have hfats : bpb.fats.toNat * bpb.sectorsPerFat.toNat ≤ 255 * 65535 :=
    Nat.mul_le_mul (by omega) (by omega)
  have hcluster : (c.toNat - 2) * bpb.sectorsPerCluster.toNat ≤ 65533 * 255 :=
    Nat.mul_le_mul (by omega) (by omega)
  unfold clusterSector
  omega

theorem clusterSector_eq (hfats : bpb.fats = 2) : clusterSector bpb c = clusterStart bpb c := by
  rw [clusterSector, hfats]
  rfl

/-- The kernel computes the first sector of a cluster without wrapping. -/
theorem fat12ClusterLba_eq (hbps : bpb.bytesPerSector = 512) (hc : 2 ≤ c.toNat) :
    (fat12ClusterLba (fat12Init bpb) c).toNat = clusterSector bpb c := by
  have hlt := clusterSector_lt bpb c
  unfold clusterSector at hlt ⊢
  have hfats : (bpb.sectorsPerFat.setWidth 32 * bpb.fats.setWidth 32 : Word).toNat =
      bpb.fats.toNat * bpb.sectorsPerFat.toNat := by
    rw [BitVec.toNat_mul, BitVec.toNat_setWidth_of_le (by decide),
      BitVec.toNat_setWidth_of_le (by decide), Nat.mul_comm, Nat.mod_eq_of_lt (by omega)]
  have hcluster : ((c.setWidth 32 - 2) * bpb.sectorsPerCluster.setWidth 32 : Word).toNat =
      (c.toNat - 2) * bpb.sectorsPerCluster.toNat := by
    have hsub : (c.setWidth 32 - 2 : Word).toNat = c.toNat - 2 := by bv_omega
    rw [BitVec.toNat_mul, hsub, BitVec.toNat_setWidth_of_le (by decide),
      Nat.mod_eq_of_lt (by omega)]
  simp only [fat12ClusterLba, fat12Init, Fat12.sectorsPerCluster, hbps, rootSectors_eq]
  generalize (bpb.sectorsPerFat.setWidth 32 * bpb.fats.setWidth 32 : Word) = fats at hfats
  generalize ((c.setWidth 32 - 2) * bpb.sectorsPerCluster.setWidth 32 : Word) = offset at hcluster
  bv_omega

theorem fat12ClusterLba_toNat (hb : BootableBpb bpb) (hc : ChainCluster bpb volume c) :
    (fat12ClusterLba (fat12Init bpb) c).toNat = clusterStart bpb c := by
  rw [fat12ClusterLba_eq hb.bytesPerSector hc.valid.1, clusterSector_eq hb.fats]

theorem fat12ValidCluster_iff : fat12ValidCluster c = true ↔ 2 ≤ c.toNat ∧ c.toNat ≤ 0xFEF := by
  simp [fat12ValidCluster, BitVec.le_def]

theorem kernelSectors_stop {fs : Fat12} (hc : fat12ValidCluster c = false) :
    kernelSectors fs disk (fuel + 1) heap c = .ok [] := by
  simp only [kernelSectors, hc, if_true]

/-- The kernel at a cluster of the chain. -/
theorem kernelSectors_step (disk : Disk) (fuel : Nat) (hb : BootableBpb bpb)
    (hc : ChainCluster bpb volume c) (h : Roomy lo hi heap live size) (hsize : 512 ≤ size) :
    ∃ heap', Roomy lo hi heap' live size ∧
      kernelSectors (fat12Init bpb) disk (fuel + 1) heap c =
        (kernelSectors (fat12Init bpb) disk fuel heap'
          (BitVec.ofNat 16 (fatEntry (fatByte (fat12Init bpb) disk) c.toNat))).map
            (clusterSectors bpb c ++ ·) := by
  have hbps : (fat12Init bpb).bpb.bytesPerSector = 512 := hb.bytesPerSector
  obtain ⟨heap', hrun, hroomy, -⟩ := fat12ReadFat_of_not_split disk h hbps hsize hc.notSplit
  have hspc : ((fat12Init bpb).sectorsPerCluster).toNat = bpb.sectorsPerCluster.toNat := by
    unfold Fat12.sectorsPerCluster fat12Init
    bv_omega
  refine ⟨heap', hroomy, ?_⟩
  simp only [kernelSectors, fat12ValidCluster_iff.mpr hc.valid, Bool.true_eq_false, if_false, hrun,
    bind, Except.bind, pure, Except.pure, fat12ClusterLba_toNat hb hc, hspc, clusterSectors]
  rfl

/-- The kernel reads the sectors of all clusters of the chain. -/
theorem kernelSectors_chain (hb : BootableBpb bpb)
    (hchain : FileChain bpb volume (fatByte (fat12Init bpb) disk) cs)
    (h : Roomy lo hi heap live size) (hsize : 512 ≤ size) (hfuel : cs.length < fuel) :
    kernelSectors (fat12Init bpb) disk fuel heap (cs.headD 0) =
      .ok (cs.flatMap (clusterSectors bpb)) := by
  induction hchain generalizing heap fuel with
  | @last c hc hend =>
    obtain ⟨fuel, rfl⟩ := Nat.exists_eq_add_of_le' (Nat.succ_le_of_lt hfuel)
    obtain ⟨heap', hroomy, hstep⟩ := kernelSectors_step disk (fuel + 1) hb hc h hsize
    have hinvalid : fat12ValidCluster
        (BitVec.ofNat 16 (fatEntry (fatByte (fat12Init bpb) disk) c.toNat)) = false := by
      rw [Bool.eq_false_iff, ne_eq, fat12ValidCluster_iff, fatEntry_toNat]
      omega
    rw [kernelSectors_stop hinvalid] at hstep
    refine hstep.trans ?_
    simp [Except.map]
  | @cons c next cs hc hentry hchain ih =>
    obtain ⟨fuel, rfl⟩ := Nat.exists_eq_add_of_le' (Nat.one_le_of_lt hfuel)
    obtain ⟨heap', hroomy, hstep⟩ := kernelSectors_step disk fuel hb hc h hsize
    have hnext : kernelSectors (fat12Init bpb) disk fuel heap' next =
        .ok ((next :: cs).flatMap (clusterSectors bpb)) :=
      ih hroomy (Nat.lt_of_succ_lt_succ hfuel)
    rw [hentry, BitVec.ofNat_toNat, BitVec.setWidth_eq, hnext] at hstep
    rw [List.flatMap_cons]
    exact hstep

/-! ## The boot loader -/

theorem mul16_toNat (ax operand : Half) : (mul16 ax operand).toNat = ax.toNat * operand.toNat := by
  have hax := ax.isLt
  have hop := operand.isLt
  have hlt : ax.toNat * operand.toNat < 2 ^ 32 := by
    calc ax.toNat * operand.toNat ≤ 65535 * 65535 := by gcongr <;> omega
      _ < 2 ^ 32 := by decide
  rw [mul16, BitVec.toNat_mul, BitVec.toNat_setWidth_of_le (by omega),
    BitVec.toNat_setWidth_of_le (by omega), Nat.mod_eq_of_lt hlt]

theorem div16_sector {x : Word} (hx : x.toNat < 2 ^ 25) :
    div16 x 512 = .ok (BitVec.ofNat 16 (x.toNat / 512), BitVec.ofNat 16 (x.toNat % 512)) := by
  have hq : (x / (512 : Half).setWidth 32).toNat = x.toNat / 512 := rfl
  have hr : (x % (512 : Half).setWidth 32).toNat = x.toNat % 512 := rfl
  rw [div16, if_neg (by decide), hq, if_neg (by omega), ← hq, ← hr, BitVec.ofNat_toNat,
    BitVec.ofNat_toNat]

/-- The sector that the boot loader computes for a cluster, in 16 bits. -/
def bootClusterLba (bpb : BiosParameterBlock) (c : Half) : Half :=
  (mul16 (c - 2) (bpb.sectorsPerCluster.setWidth 16)).setWidth 16 + bpb.reservedSectors +
    bpb.sectorsPerFat + bpb.sectorsPerFat +
    BitVec.ofNat 16 (bpb.directoryEntries.toNat * 32 / 512)

/-- The number that the boot loader adds to its destination. -/
def bootClusterSize (bpb : BiosParameterBlock) : Half :=
  (mul16 bpb.bytesPerSector (bpb.sectorsPerCluster.setWidth 16)).setWidth 16

/-- The offset of an entry in the FAT, in 16 bits. -/
def bootFatOffset (c : Half) : Half := c + c >>> 1

/-- The sector that the boot loader computes for an entry of the FAT, in 16 bits. -/
def bootFatLba (bpb : BiosParameterBlock) (c : Half) : Half :=
  bpb.reservedSectors + BitVec.ofNat 16 ((bootFatOffset c).toNat / 512)

/-- The buffer after the sector with the entry of a cluster is loaded. -/
def bootFatBuffer (bpb : BiosParameterBlock) (disk : Disk) (c : Half) (buffer : Nat → Byte) :
    Nat → Byte :=
  ataRead disk ((bootFatLba bpb c).setWidth 32) 1 buffer

/-- One iteration of the boot loader. -/
theorem readFileCluster_ok (disk : Disk) (s : BootState) (hbps : bpb.bytesPerSector = 512) :
    readFileCluster bpb disk s = .ok {
      cluster := fat12NextCluster s.cluster
        (bufferWord (bootFatBuffer bpb disk s.cluster s.buffer)
          (BitVec.ofNat 16 ((bootFatOffset s.cluster).toNat % 512)))
      es := s.es
      bx := s.bx + bootClusterSize bpb
      buffer := bootFatBuffer bpb disk s.cluster s.buffer
      reads := s.reads ++ [.cluster s.es s.bx (bootClusterLba bpb s.cluster) bpb.sectorsPerCluster,
        .fat (bootFatLba bpb s.cluster)] } := by
  have hroot : div16 (mul16 bpb.directoryEntries 0x20) 512 =
      .ok (BitVec.ofNat 16 (bpb.directoryEntries.toNat * 32 / 512),
        BitVec.ofNat 16 (bpb.directoryEntries.toNat * 32 % 512)) := by
    have hproduct : (mul16 bpb.directoryEntries 0x20).toNat = bpb.directoryEntries.toNat * 32 :=
      mul16_toNat _ _
    rw [div16_sector (by bv_omega), hproduct]
  have hfat : div16 ((s.cluster + s.cluster >>> 1).setWidth 32) 512 =
      .ok (BitVec.ofNat 16 ((bootFatOffset s.cluster).toNat / 512),
        BitVec.ofNat 16 ((bootFatOffset s.cluster).toNat % 512)) := by
    have hword : ((bootFatOffset s.cluster).setWidth 32 : Word).toNat =
        (bootFatOffset s.cluster).toNat := BitVec.toNat_setWidth_of_le (by decide)
    show div16 ((bootFatOffset s.cluster).setWidth 32) 512 = _
    rw [div16_sector (by bv_omega), hword]
  have hnext : ∀ v : Half, (if s.cluster &&& 1 = 0 then v &&& 0xFFF else v >>> 4) =
      fat12NextCluster s.cluster v := by
    intro v
    unfold fat12NextCluster
    split <;> simp_all
  simp only [readFileCluster, hbps, hroot, hfat, hnext, bind, Except.bind, pure, Except.pure,
    List.append_assoc, List.singleton_append, bootClusterSize]
  rfl

/-- The sector number of a cluster is right up to its 16 bits. -/
theorem bootClusterLba_mod (hc : 2 ≤ c.toNat) :
    (bootClusterLba bpb c).toNat = clusterStart bpb c % 65536 := by
  have hspc : ((bpb.sectorsPerCluster.setWidth 16 : Half)).toNat =
      bpb.sectorsPerCluster.toNat := by bv_omega
  have hsub : (c - 2).toNat = c.toNat - 2 := by bv_omega
  have hmul : (mul16 (c - 2) (bpb.sectorsPerCluster.setWidth 16)).toNat =
      (c.toNat - 2) * bpb.sectorsPerCluster.toNat := by rw [mul16_toNat, hsub, hspc]
  unfold bootClusterLba clusterStart dataStart
  generalize mul16 (c - 2) (bpb.sectorsPerCluster.setWidth 16) = product at hmul
  bv_omega

/-- It does not wrap on a small volume. -/
theorem bootClusterLba_toNat (hc : ChainCluster bpb volume c) (hvolume : volume < 65536) :
    (bootClusterLba bpb c).toNat = clusterStart bpb c := by
  have hon := hc.onVolume
  rw [bootClusterLba_mod hc.valid.1, Nat.mod_eq_of_lt (by omega)]

/-- The offset of an entry does not wrap. -/
theorem bootFatOffset_toNat (hc : c.toNat ≤ 0xFEF) :
    (bootFatOffset c).toNat = fatOffset c.toNat := by
  have hshift : (c >>> 1).toNat = c.toNat / 2 := by
    rw [BitVec.toNat_ushiftRight, Nat.shiftRight_eq_div_pow]
  unfold bootFatOffset fatOffset
  bv_omega

/-- The sector of the FAT lies on the volume, so that its number does not wrap. -/
theorem fatSector_lt (hb : BootableBpb bpb) (hc : ChainCluster bpb volume c)
    (hvolume : volume < 65536) :
    bpb.reservedSectors.toNat + fatOffset c.toNat / 512 < 65536 := by
  have hvalid := hc.valid
  have hon := hc.onVolume
  have hspc := hb.sectorsPerCluster
  have hmul : c.toNat - 2 ≤ (c.toNat - 2) * bpb.sectorsPerCluster.toNat :=
    Nat.le_mul_of_pos_right _ hspc
  unfold clusterStart dataStart at hon
  unfold fatOffset
  omega

/-- The two bytes that the boot loader reads from its buffer. -/
theorem bufferWord_fat (buffer : Nat → Byte) (hc : c.toNat ≤ 0xFEF) (hsplit : ¬ SplitEntry c.toNat)
    (hlt : bpb.reservedSectors.toNat + fatOffset c.toNat / 512 < 65536) :
    (bufferWord (bootFatBuffer bpb disk c buffer)
      (BitVec.ofNat 16 ((bootFatOffset c).toNat % 512))).toNat =
      (fatByte (fat12Init bpb) disk (fatOffset c.toNat)).toNat +
        256 * (fatByte (fat12Init bpb) disk (fatOffset c.toNat + 1)).toNat := by
  unfold SplitEntry at hsplit
  rw [bootFatOffset_toNat hc]
  have hlba : ((bootFatLba bpb c).setWidth 32 : Word) =
      (fat12Init bpb).lbaFat1 + BitVec.ofNat 32 (fatOffset c.toNat / 512) := by
    rw [bootFatLba, bootFatOffset_toNat hc]
    simp only [fat12Init]
    bv_omega
  have hrest : (BitVec.ofNat 16 (fatOffset c.toNat % 512)).toNat = fatOffset c.toNat % 512 := by
    rw [BitVec.toNat_ofNat, Nat.mod_eq_of_lt (by omega)]
  have hread : ∀ k < 512, ataRead disk ((fat12Init bpb).lbaFat1 +
      BitVec.ofNat 32 (fatOffset c.toNat / 512)) 1 buffer k =
      disk ((fat12Init bpb).lbaFat1 + BitVec.ofNat 32 (fatOffset c.toNat / 512)) k := by
    intro k hk
    rw [ataRead, if_pos (by omega), Nat.div_eq_of_lt hk, Nat.mod_eq_of_lt hk, BitVec.add_zero]
  have hdiv : (fatOffset c.toNat + 1) / 512 = fatOffset c.toNat / 512 := by omega
  have hmod : (fatOffset c.toNat + 1) % 512 = fatOffset c.toNat % 512 + 1 := by omega
  rw [bufferWord, append_toNat, bootFatBuffer, hrest, hlba, hread _ (by omega), hread _ (by omega),
    fatByte, fatByte, hdiv, hmod]

/-- The boot loader decodes an entry that is not split. -/
theorem bootNext_eq (buffer : Nat → Byte) (hc : c.toNat ≤ 0xFEF) (hsplit : ¬ SplitEntry c.toNat)
    (hlt : bpb.reservedSectors.toNat + fatOffset c.toNat / 512 < 65536) :
    fat12NextCluster c (bufferWord (bootFatBuffer bpb disk c buffer)
      (BitVec.ofNat 16 ((bootFatOffset c).toNat % 512))) =
      BitVec.ofNat 16 (fatEntry (fatByte (fat12Init bpb) disk) c.toNat) := by
  apply BitVec.eq_of_toNat_eq
  rw [fat12NextCluster_toNat, bufferWord_fat _ hc hsplit hlt, fatEntry_toNat, fatEntry]

/-- The calls of `read16` for the clusters `cs` with the destination `es:bx`. -/
def bootReads (bpb : BiosParameterBlock) (es : Half) : Half → List Half → List BootRead
  | _, [] => []
  | bx, c :: cs =>
    .cluster es bx (bootClusterLba bpb c) bpb.sectorsPerCluster :: .fat (bootFatLba bpb c) ::
      bootReads bpb es (bx + bootClusterSize bpb) cs

theorem FileChain.chainCluster {f : Nat → Byte} (hchain : FileChain bpb volume f cs) (hc : c ∈ cs) :
    ChainCluster bpb volume c := by
  induction hchain with
  | last h _ =>
    rw [List.mem_singleton] at hc
    exact hc ▸ h
  | cons h _ _ ih =>
    rcases List.mem_cons.mp hc with rfl | hc
    · exact h
    · exact ih hc

/-- One iteration at a cluster of a chain leads to the next cluster. -/
theorem readFileCluster_next (disk : Disk) (hbps : bpb.bytesPerSector = 512)
    (hc : ChainCluster bpb volume s.cluster)
    (hlt : bpb.reservedSectors.toNat + fatOffset s.cluster.toNat / 512 < 65536) :
    ∃ t, readFileCluster bpb disk s = .ok t ∧
      t.cluster = BitVec.ofNat 16 (fatEntry (fatByte (fat12Init bpb) disk) s.cluster.toNat) ∧
      t.es = s.es ∧ t.bx = s.bx + bootClusterSize bpb ∧
      t.reads = s.reads ++ [.cluster s.es s.bx (bootClusterLba bpb s.cluster) bpb.sectorsPerCluster,
        .fat (bootFatLba bpb s.cluster)] :=
  ⟨_, readFileCluster_ok disk s hbps, bootNext_eq _ hc.valid.2 hc.notSplit hlt, rfl, rfl, rfl⟩

/-- The boot loader follows a chain whose entries lie in sectors with 16-bit numbers. -/
theorem readFileLoop_reads (hbps : bpb.bytesPerSector = 512)
    (hchain : FileChain bpb volume (fatByte (fat12Init bpb) disk) cs)
    (hfat : ∀ c ∈ cs, bpb.reservedSectors.toNat + fatOffset c.toNat / 512 < 65536)
    (hstart : s.cluster = cs.headD 0) (hfuel : cs.length ≤ fuel) :
    ∃ s', readFileLoop bpb disk fuel s = .ok s' ∧
      s'.reads = s.reads ++ bootReads bpb s.es s.bx cs := by
  induction hchain generalizing s fuel with
  | @last c hc hend =>
    obtain ⟨fuel, rfl⟩ := Nat.exists_eq_add_of_le' (show 1 ≤ fuel from hfuel)
    obtain rfl : s.cluster = c := hstart
    obtain ⟨t, hrun, hcluster, -, -, hreads⟩ :=
      readFileCluster_next disk hbps hc (hfat _ (List.mem_singleton_self _))
    have hstop : ¬ t.cluster < 0xFF0 := by
      rw [hcluster, BitVec.lt_def, fatEntry_toNat, Nat.not_lt]
      exact hend
    refine ⟨t, ?_, hreads⟩
    simp only [readFileLoop, hrun, bind, Except.bind, hstop, if_false, pure, Except.pure]
  | @cons c next cs hc hentry hchain ih =>
    obtain ⟨fuel, rfl⟩ := Nat.exists_eq_add_of_le' (Nat.one_le_of_lt hfuel)
    obtain rfl : s.cluster = c := hstart
    obtain ⟨t, hrun, hcluster, hes, hbx, hreads⟩ :=
      readFileCluster_next disk hbps hc (hfat _ (List.mem_cons_self ..))
    rw [hentry, BitVec.ofNat_toNat, BitVec.setWidth_eq] at hcluster
    have hgo : t.cluster < 0xFF0 := by
      rw [hcluster, BitVec.lt_def]
      exact Nat.lt_succ_of_le (hchain.chainCluster (List.mem_cons_self ..)).valid.2
    obtain ⟨s', hloop, hrest⟩ := ih (fun c hmem => hfat c (List.mem_cons_of_mem _ hmem)) hcluster
      (Nat.le_of_succ_le_succ hfuel)
    refine ⟨s', ?_, ?_⟩
    · simp only [readFileLoop, hrun, bind, Except.bind, hgo, if_true, hloop]
    · rw [hrest, hreads, hes, hbx, List.append_assoc]
      rfl

theorem dataSectors_bootReads (hchain : ∀ c ∈ cs, ChainCluster bpb volume c)
    (hvolume : volume < 65536) (es bx : Half) :
    (bootReads bpb es bx cs).flatMap BootRead.dataSectors = cs.flatMap (clusterSectors bpb) := by
  induction cs generalizing bx with
  | nil => rfl
  | cons c cs ih =>
    have hc := hchain c (List.mem_cons_self ..)
    rw [bootReads, List.flatMap_cons, List.flatMap_cons, List.flatMap_cons,
      ih (fun c hmem => hchain c (List.mem_cons_of_mem _ hmem)), BootRead.dataSectors,
      bootClusterLba_toNat hc hvolume]
    rfl

/-- The boot loader reads the sectors of all clusters of the chain. -/
theorem readFileLoop_chain (hb : BootableBpb bpb) (hvolume : volume < 65536)
    (hchain : FileChain bpb volume (fatByte (fat12Init bpb) disk) cs)
    (hstart : s.cluster = cs.headD 0) (hfuel : cs.length ≤ fuel) :
    ∃ s', readFileLoop bpb disk fuel s = .ok s' ∧
      s'.dataSectors = s.dataSectors ++ cs.flatMap (clusterSectors bpb) := by
  have hfat (c : Half) (hc : c ∈ cs) :=
    fatSector_lt hb (hchain.chainCluster hc) hvolume
  obtain ⟨s', hrun, hreads⟩ := readFileLoop_reads hb.bytesPerSector hchain hfat hstart hfuel
  refine ⟨s', hrun, ?_⟩
  rw [BootState.dataSectors, hreads, List.flatMap_append,
    dataSectors_bootReads (fun c hc => hchain.chainCluster hc) hvolume]
  rfl

/-- The data sectors that `read_file` requests for a file are those that the kernel reads for
it. -/
theorem readFile_sectors_eq_kernel (bpb : BiosParameterBlock) (disk : Disk) (volume : Nat)
    (c : Half) (rest : List Half) (hb : BootableBpb bpb) (hvolume : volume < 65536)
    (hchain : FileChain bpb volume (fatByte (fat12Init bpb) disk) (c :: rest))
    (heap : Heap) (bs : List Block) (hheap : HeapInv heap bs) (hroom : ∃ b ∈ bs, b.Fits 512)
    (buffer : Nat → Byte) (es bx : Half) (fuel : Nat) (hfuel : (c :: rest).length < fuel) :
    ∃ s sectors, readFile bpb disk buffer fuel es bx c = .ok s ∧
      kernelSectors (fat12Init bpb) disk fuel heap c = .ok sectors ∧ s.dataSectors = sectors := by
  obtain ⟨b, hbmem, hfit⟩ := hroom
  obtain ⟨live, hroomy⟩ := hheap.roomy hbmem hfit
  have hkernel := kernelSectors_chain hb hchain hroomy le_rfl hfuel
  obtain ⟨s, hboot, hsectors⟩ := readFileLoop_chain (s := ⟨c, es, bx, buffer, []⟩) hb hvolume hchain
    rfl (Nat.le_of_lt hfuel)
  exact ⟨s, _, hboot, hkernel, hsectors⟩

/-- A chain of two clusters on a floppy. -/
theorem readFile_sectors_eq_kernel_floppy :
    ∃ s sectors, readFile floppyBpb twoClusterDisk (fun _ => 0) 3 0 0x1000 2 = .ok s ∧
      kernelSectors (fat12Init floppyBpb) twoClusterDisk 3 (oneChunk (fun _ => 0) 0x10000 512) 2 =
        .ok sectors ∧ s.dataSectors = sectors :=
  readFile_sectors_eq_kernel floppyBpb twoClusterDisk 2880 2 [3] ⟨rfl, rfl, by decide⟩ (by decide)
    (.cons ⟨by decide, by decide, by decide⟩ (by decide)
      (.last ⟨by decide, by decide, by decide⟩ (by decide)))
    (oneChunk (fun _ => 0) 0x10000 512) [⟨0x10000, 512, false⟩]
    (heapInv_oneChunk (by decide) (by decide)) ⟨_, List.mem_singleton_self _, rfl, le_rfl⟩
    (fun _ => 0) 0 0x1000 3 (by decide)

end Hjortron
