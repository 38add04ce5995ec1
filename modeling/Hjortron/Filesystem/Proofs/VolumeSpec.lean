import Hjortron.Filesystem.Driver
import Hjortron.Filesystem.Proofs.ClusterChainSpec

/-!
# Volumes

What is on a disk: the FAT, the directories and the files. A `Volume` is a disk on which the driver
finds them: directories fill one cluster, chains reach as far as their files, and no entry of the
FAT that is followed lies in two sectors. On such a disk `fat12_read_fat` and `fat12_read_directory`
meet the contracts that stand for them in `Hjortron.Filesystem.Driver`.
-/

namespace Hjortron

/-- The entry of a cluster in the FAT on the disk. -/
def diskFat (fs : Fat12) (disk : Disk) (cluster : Half) : Half :=
  BitVec.ofNat 16 (fatEntry (fatByte fs disk) cluster.toNat)

/-- The entries of the root directory lie in consecutive sectors, those of another directory in its
cluster. -/
def diskDirectory (fs : Fat12) (disk : Disk) (cluster : Half) : Directory :=
  if cluster = 0 then
    { count := fs.bpb.directoryEntries.toNat
      bytes := fun k => disk (fs.lbaRoot + BitVec.ofNat 32 (k / 512)) (k % 512)
      count_lt := by
        have hlt := fs.bpb.directoryEntries.isLt
        omega }
  else
    { count := fs.clusterBytes / 32
      bytes := clusterByte fs disk cluster
      count_lt := by
        have hlt := fs.clusterBytes_lt
        omega }

/-- The directories: the root, and those with an entry in one of them. -/
inductive IsDirectory (fs : Fat12) (disk : Disk) : Half → Prop
  | root : IsDirectory fs disk 0
  | entry {c : Half} {e : DirectoryEntry} : IsDirectory fs disk c →
      e ∈ (diskDirectory fs disk c).entries → e.attributes = fat12AttributeDirectory →
      IsDirectory fs disk (e.cluster.setWidth 16)

/-- A disk with a volume that the driver can read. -/
structure Volume where
  fs : Fat12
  disk : Disk
  sectors : fs.Sectors512
  rootSectors : fs.bpb.directoryEntries.toNat % 16 = 0
  rootEntries : 0 < fs.bpb.directoryEntries.toNat
  directories : ∀ c, IsDirectory fs disk c → c ≠ 0 → fat12ValidCluster c = true ∧
    ¬ SplitEntry c.toNat ∧ fat12ValidCluster (diskFat fs disk c) = false
  chains : ∀ c, IsDirectory fs disk c → ∀ e ∈ (diskDirectory fs disk c).entries,
    e.attributes = fat12AttributeArchive → ValidChain fs (diskFat fs disk) e.cluster e.size.toNat
  unsplit : ∀ c, IsDirectory fs disk c → ∀ e ∈ (diskDirectory fs disk c).entries,
    e.attributes = fat12AttributeArchive → ∀ i, i * fs.clusterBytes < e.size.toNat →
      ¬ SplitEntry (chainCluster (diskFat fs disk) e.cluster i).toNat

namespace Volume

/-- `fat12_read_fat` by the cluster that it returns. -/
def readFat (v : Volume) : Half → Half := diskFat v.fs v.disk

/-- `fat12_read_directory` by the entries that it returns. -/
def directory (v : Volume) : Half → Directory := diskDirectory v.fs v.disk

/-- The directories of the volume. -/
def IsDirectory (v : Volume) : Half → Prop := Hjortron.IsDirectory v.fs v.disk

/-- A handle of a file of the volume. -/
def IsFile (v : Volume) (file : FsFile) : Prop :=
  ∃ c, v.IsDirectory c ∧ ∃ e ∈ (v.directory c).entries, e.attributes = fat12AttributeArchive ∧
    file.ref = e.cluster ∧ file.len = e.size

/-- The bytes of a file. -/
def contents (v : Volume) (file : FsFile) : List Byte :=
  (List.range file.len.toNat).map (fileByte v.fs v.disk v.readFat file.ref)

end Volume

/-! ## The contracts -/

/-- On every heap with room for it `fat12_read_directory` returns a new block with the entries. -/
def DirectoryRead (fs : Fat12) (disk : Disk) (c : Half) (d : Directory) : Prop :=
  ∀ lo hi heap live clusters chainLen entries len, Roomy lo hi heap live (32 * d.count) →
    StableCell lo hi live entries → StableCell lo hi live len → StableCell lo hi live chainLen →
    Apart entries 4 len 4 → Apart entries 4 chainLen 4 → Apart len 4 chainLen 4 →
    ∃ heap' ptr, fat12ReadDirectory fs disk clusters chainLen heap entries len c = .ok heap' ∧
      heap'.mem.load32 entries = ptr ∧ heap'.mem.load32 len = BitVec.ofNat 32 d.count ∧
      Ledger lo hi heap' ((ptr, BitVec.ofNat 32 (32 * d.count)) :: live) ∧
      ∀ k < 32 * d.count, heap'.mem (ptr + BitVec.ofNat 32 k) = d.bytes k

section

variable {fs : Fat12} {disk : Disk} {c : Half} {v : Volume} {file : FsFile} {buffer : List Byte}
  {entries : List DirectoryEntry} {entry : DirectoryEntry} {attributes : Byte}

/-- The sectors of the root directory are read into a new block. -/
theorem directoryRead_root (h512 : fs.Sectors512)
    (hsectors : fs.bpb.directoryEntries.toNat % 16 = 0) (hpos : 0 < fs.bpb.directoryEntries.toNat) :
    DirectoryRead fs disk 0 (diskDirectory fs disk 0) := by
  intro lo hi heap live clusters chainLen entries len h hentries hlen _ hel _ _
  have hlt := fs.bpb.directoryEntries.isLt
  have hcount : (diskDirectory fs disk 0).count = fs.bpb.directoryEntries.toNat := rfl
  rw [hcount] at h
  rw [hcount]
  have hsize : fs.bpb.directoryEntries.setWidth 32 * 0x20 =
      BitVec.ofNat 32 (32 * fs.bpb.directoryEntries.toNat) := by bv_omega
  have hnat : (BitVec.ofNat 32 (32 * fs.bpb.directoryEntries.toNat)).toNat =
      32 * fs.bpb.directoryEntries.toNat := ofNat_toNat_of_lt (by omega)
  have hsector : fs.bytesPerSector = 512 := by
    rw [Fat12.bytesPerSector, h512.bytesPerSector]
    rfl
  have hread : 512 * (BitVec.ofNat 32 (32 * fs.bpb.directoryEntries.toNat) / 512).toNat =
      32 * fs.bpb.directoryEntries.toNat := by
    rw [BitVec.toNat_udiv, hnat]
    change 512 * (_ / 512) = _
    omega
  have hroom : 0 < (BitVec.ofNat 32 (32 * fs.bpb.directoryEntries.toNat)).toNat := by omega
  rcases h.malloc hroom hnat.le with ⟨ptr, heap₁, hmalloc, halloc⟩
  let m₁ := ataReadInto disk fs.lbaRoot
    (BitVec.ofNat 32 (32 * fs.bpb.directoryEntries.toNat) / 512).toNat heap₁.mem ptr
  let m₂ := (m₁.store32 entries ptr).store32 len (fs.bpb.directoryEntries.setWidth 32)
  have hframe : ∀ x, ¬ InRange entries 4 x → ¬ InRange len 4 x → m₂ x = m₁ x := fun x he hl =>
    (Mem.store32_of_not_inRange hl).trans (Mem.store32_of_not_inRange he)
  -- the block is apart from the variables
  have hblock : ∀ x, InRange ptr (32 * fs.bpb.directoryEntries.toNat) x →
      ¬ InRange entries 4 x ∧ ¬ InRange len 4 x := by
    intro x hx
    rw [← hnat] at hx
    exact ⟨fun hin => halloc.ledger.not_inRange (hentries x hin) hx,
      fun hin => halloc.ledger.not_inRange (hlen x hin) hx⟩
  refine ⟨{ heap₁ with mem := m₂ }, ptr, ?_, ?_, ?_, ?_, ?_⟩
  · simp only [fat12ReadDirectory, if_true, hsize, hmalloc, hsector, bind, Except.bind, pure,
      Except.pure, m₂, m₁]
    rfl
  · change m₂.load32 entries = ptr
    rw [Mem.load32_store32_apart hel.symm, Mem.load32_store32_self]
  · change m₂.load32 len = _
    rw [Mem.load32_store32_self]
    bv_omega
  · apply halloc.ledger.write
    intro x hx
    have hout : ¬ InRange ptr (32 * fs.bpb.directoryEntries.toNat) x := by
      rw [← hnat]
      exact fun hin => hx (.inr (.inr ⟨_, List.mem_cons_self, hin⟩))
    rw [hframe x (fun hin => hx ((hentries x hin).cons _)) fun hin => hx ((hlen x hin).cons _)]
    exact ataReadInto_frame (by omega) (by rwa [hread])
  · intro k hk
    have hin : InRange ptr (32 * fs.bpb.directoryEntries.toNat) (ptr + BitVec.ofNat 32 k) :=
      inRange_add hk (by omega)
    apply (hframe _ (hblock _ hin).1 (hblock _ hin).2).trans
    exact ataReadInto_apply (by omega) (by omega)

/-- A directory in one cluster is read into a new block. -/
theorem directoryRead_cluster (h512 : fs.Sectors512) (hvalid : fat12ValidCluster c = true)
    (hsplit : ¬ SplitEntry c.toNat) (hlast : fat12ValidCluster (diskFat fs disk c) = false) :
    DirectoryRead fs disk c (diskDirectory fs disk c) := by
  have hchain : ClusterChain fs disk [c] :=
    .last hvalid (fatLink_of_not_split disk h512.bytesPerSector hsplit) hlast
  have hwhole := (chainReadWhole_single hchain h512).directory h512 hvalid (by simp)
  have hne : c ≠ 0 := by
    rintro rfl
    simp [fat12ValidCluster] at hvalid
  have hlt := fs.clusterBytes_lt
  have hsize : 32 * (fs.clusterBytes / 32) = fs.clusterBytes := by
    unfold Fat12.clusterBytes
    omega
  intro lo hi heap live clusters chainLen entries len h hentries hlen hchainLen hel hec hlc
  rw [diskDirectory, if_neg hne] at h ⊢
  dsimp only at h ⊢
  rw [hsize] at h ⊢
  rcases hwhole lo hi heap live clusters chainLen entries len
    (by rwa [List.length_singleton, Nat.one_mul]) hentries hlen hchainLen hel hec hlc with
    ⟨heap', hrun, hcount, hholds⟩
  have hledger := hholds.ledger
  have hbytes := hholds.bytes
  rw [List.length_singleton, Nat.one_mul] at hcount hledger hbytes
  refine ⟨heap', _, hrun, rfl, eq_ofNat hcount, hledger, fun k hk => ?_⟩
  rw [hbytes k hk, chainByte, Nat.div_eq_of_lt hk, Nat.mod_eq_of_lt hk]
  rfl

namespace Volume

/-- `fat12_read_directory` meets its contract in the directories of a volume. -/
theorem directoryRead (hc : v.IsDirectory c) : DirectoryRead v.fs v.disk c (v.directory c) := by
  by_cases h0 : c = 0
  · subst h0
    exact directoryRead_root v.sectors v.rootSectors v.rootEntries
  · rcases v.directories c hc h0 with ⟨hvalid, hsplit, hlast⟩
    exact directoryRead_cluster v.sectors hvalid hsplit hlast

theorem IsFile.validChain (h : v.IsFile file) :
    ValidChain v.fs v.readFat file.ref file.len.toNat := by
  rcases h with ⟨c, hc, e, he, hattr, href, hlen⟩
  rw [href, hlen]
  exact v.chains c hc e he hattr

/-- `fat12_read_fat` meets its contract in the chains of the files of a volume. -/
theorem IsFile.fatLink (h : v.IsFile file) {i : Nat} (hi : i * v.fs.clusterBytes < file.len.toNat) :
    FatLink v.fs v.disk (chainCluster v.readFat file.ref i)
      (chainCluster v.readFat file.ref (i + 1)) := by
  rcases h with ⟨c, hc, e, he, hattr, href, hlen⟩
  rw [hlen] at hi
  rw [href, chainCluster, chainCluster, Function.iterate_succ_apply']
  exact fatLink_of_not_split v.disk v.sectors.bytesPerSector (v.unsplit c hc e he hattr i hi)

/-- On the directories and the files of a volume the code of `fat12_read_directory` and of
`fat12_read_fat` meets the contracts that stand for them. -/
structure MeetsContracts (v : Volume) : Prop where
  directory : ∀ c, v.IsDirectory c → DirectoryRead v.fs v.disk c (v.directory c)
  fat : ∀ file, v.IsFile file → ∀ i, i * v.fs.clusterBytes < file.len.toNat →
    FatLink v.fs v.disk (chainCluster v.readFat file.ref i)
      (chainCluster v.readFat file.ref (i + 1))

theorem meetsContracts (v : Volume) : v.MeetsContracts where
  directory _ hc := v.directoryRead hc
  fat _ hfile _ hi := hfile.fatLink hi

/-! ## Opening files -/

theorem mem_of_findEntry (h : findEntry entries attributes buffer = some entry) :
    entry ∈ entries ∧ entry.attributes = attributes := by
  have hfound := List.find?_some h
  simp only [Bool.and_eq_true, beq_iff_eq] at hfound
  exact ⟨List.mem_of_find?_eq_some h, hfound.1⟩

/-- What the end of a path finds is a file. -/
theorem openFile_isFile {stack : Nat → Byte} {o : Opened FsFile} (hc : v.IsDirectory c)
    (hopen : openFile stack (v.directory c).entries buffer = some o)
    (hfile : o.handle = some file) :
    v.IsFile file ∧ file.offset = 0 := by
  unfold openFile at hopen
  by_cases h0 : strlen buffer = 0
  · rw [if_pos h0] at hopen
    cases hopen
    cases hfile
  · rw [if_neg h0] at hopen
    cases hloop : extensionLoop stack 24 1 buffer [0, 0, 0] with
    | none =>
      rw [hloop] at hopen
      cases hopen
    | some r =>
      rw [hloop] at hopen
      dsimp only at hopen
      by_cases hext : r.2.getD 0 0 = 0
      · rw [if_pos hext] at hopen
        cases hopen
        cases hfile
      · rw [if_neg hext] at hopen
        cases hfind : findEntry (v.directory c).entries fat12AttributeArchive r.1 with
        | none =>
          rw [hfind] at hopen
          cases hopen
          cases hfile
        | some entry =>
          rw [hfind] at hopen
          cases hopen
          cases hfile
          rcases mem_of_findEntry hfind with ⟨hentry, hattr⟩
          exact ⟨⟨c, hc, entry, hentry, hattr, rfl, rfl⟩, rfl⟩

theorem openLoop_isFile {stack : Nat → Byte} {o : Opened FsFile} {i : Nat} (path : List Byte)
    (hc : v.IsDirectory c)
    (hopen : openLoop (fun c => (v.directory c).entries) stack (v.directory c).entries buffer i
      path = some o) (hfile : o.handle = some file) : v.IsFile file ∧ file.offset = 0 := by
  induction path generalizing c buffer i with
  | nil => exact openFile_isFile hc hopen hfile
  | cons x path ih =>
    rw [openLoop] at hopen
    by_cases hslash : x = ascii '/'
    · rw [if_pos hslash] at hopen
      cases hfind : findEntry (v.directory c).entries fat12AttributeDirectory buffer with
      | none =>
        rw [hfind] at hopen
        cases hopen
        cases hfile
      | some entry =>
        rw [hfind] at hopen
        rcases mem_of_findEntry hfind with ⟨hentry, hattr⟩
        exact ih (.entry hc hentry hattr) hopen
    · rw [if_neg hslash] at hopen
      by_cases h11 : i = 11
      · rw [if_pos h11] at hopen
        cases hopen
        cases hfile
      · rw [if_neg h11] at hopen
        exact ih hc hopen

/-- `fat12_open` opens files of the volume, at their start. -/
theorem fat12Open_isFile {stack : Nat → Byte} {o : Opened FsFile} {path : List Byte}
    (hopen : fat12Open (fun c => (v.directory c).entries) stack path = some o)
    (hfile : o.handle = some file) : v.IsFile file ∧ file.offset = 0 :=
  openLoop_isFile path .root hopen hfile

end Volume

end

end Hjortron
