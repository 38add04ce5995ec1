import Hjortron.Boot.LoadFile
import Hjortron.Boot.Proofs.ReadFileSpec
import Hjortron.Filesystem.Proofs.ReadSpec
import Mathlib.Data.List.GetD

/-!
# Where `read_file` puts a file

The destination advances in a 16-bit register within its segment and sectors are numbered in 16
bits. A file is loaded whole exactly if its last cluster starts within the segment and every
cluster within the first 65536 sectors of a volume with two FATs.
-/

namespace Hjortron

/-! ## Statement -/

/-- The concatenated clusters. -/
def fileContents (bpb : BiosParameterBlock) (disk : Disk) (cs : List Half) : List Byte :=
  cs.flatMap fun c =>
    (List.range (fat12Init bpb).clusterBytes).map (clusterByte (fat12Init bpb) disk c)

/-- The `len` bytes from `lo` on are free low memory: they lie above the tables of the BIOS and
below `0x90000`, and not between the end of the stack and the end of `BUFFER`. -/
structure FreeMemory (stack lo len : Nat) : Prop where
  bios : 0x500 ≤ lo
  low : lo + len ≤ 0x90000
  loader : lo + len ≤ stack ∨ 0x8000 ≤ lo

/-- The call leaves the stack, the boot sector and its buffer alone. -/
def BootRead.Spares (stack : Nat) : BootRead → Prop
  | .cluster es bx _ count =>
    linear es bx + 512 * count.toNat ≤ stack ∨ 0x8000 ≤ linear es bx
  | .fat _ => True

/-- From memory `mem`, `read_file` returns, does not overwrite the boot loader, and leaves the
clusters `cs` at `es:bx`. -/
def LoadsFile (bpb : BiosParameterBlock) (disk : Disk) (mem : Nat → Byte) (stack : Nat)
    (cs : List Half) (es bx : Half) : Prop :=
  ∃ fuel s, readFile bpb disk (fun k => mem (0x7E00 + k)) fuel es bx (cs.headD 0) = .ok s ∧
    (∀ r ∈ s.reads, r.Spares stack) ∧
    ∀ k < cs.length * (fat12Init bpb).clusterBytes,
      bootMemory disk mem s.reads (linear es bx + k) = (fileContents bpb disk cs).getD k 0

/-- What the boot loader relies on: two FATs, clusters within the first 65536 sectors, and a last
cluster that starts within the segment. -/
structure FitsBoot (bpb : BiosParameterBlock) (cs : List Half) (bx : Half) : Prop where
  fats : bpb.fats = 2
  sectors : ∀ c ∈ cs, (fat12ClusterLba (fat12Init bpb) c).toNat < 65536
  segment : bx.toNat + (cs.length - 1) * (fat12Init bpb).clusterBytes < 65536

variable {bpb : BiosParameterBlock} {disk disk' : Disk} {mem : Nat → Byte} {cs : List Half}
  {c es bx lba : Half} {a base count fuel stack volume k : Nat} {r : BootRead}
  {reads : List BootRead} {s s' : BootState}

/-! ## Memory -/

/-- The call writes the byte at `a`. -/
def BootRead.Writes : BootRead → Nat → Prop
  | .cluster es bx _ count, a => linear es bx ≤ a ∧ a < linear es bx + 512 * count.toNat
  | .fat _, a => 0x7E00 ≤ a ∧ a < 0x8000

theorem storeSectors_outside (h : ¬ (base ≤ a ∧ a < base + 512 * count)) :
    storeSectors disk lba count base mem a = mem a := by
  unfold storeSectors ataRead
  split_ifs with hle hlt
  · exact absurd ⟨hle, by omega⟩ h
  · exact congrArg mem (Nat.add_sub_cancel' hle)
  · rfl

theorem storeSectors_inside (hk : k < 512 * count) :
    storeSectors disk lba count base mem (base + k) =
      disk (lba.setWidth 32 + BitVec.ofNat 32 (k / 512)) (k % 512) := by
  rw [storeSectors, if_pos (Nat.le_add_right _ _), Nat.add_sub_cancel_left, ataRead, if_pos hk]

theorem BootRead.store_outside (h : ¬ r.Writes a) : r.store disk mem a = mem a := by
  cases r with
  | cluster es bx lba count => exact storeSectors_outside h
  | fat lba => exact storeSectors_outside h

theorem bootMemory_outside (h : ∀ r ∈ reads, ¬ r.Writes a) :
    bootMemory disk mem reads a = mem a := by
  induction reads generalizing mem with
  | nil => rfl
  | cons r reads ih =>
    show bootMemory disk (r.store disk mem) reads a = _
    rw [ih fun r hr => h r (List.mem_cons_of_mem _ hr),
      BootRead.store_outside (h r (List.mem_cons_self ..))]

/-! ## The file -/

theorem fileContents_head (hk : k < (fat12Init bpb).clusterBytes) :
    (fileContents bpb disk (c :: cs)).getD k 0 = clusterByte (fat12Init bpb) disk c k := by
  rw [fileContents, List.flatMap_cons, List.getD_append _ _ _ _ (by simpa using hk)]
  simp [List.getD, hk]

theorem fileContents_tail :
    (fileContents bpb disk (c :: cs)).getD ((fat12Init bpb).clusterBytes + k) 0 =
      (fileContents bpb disk cs).getD k 0 := by
  rw [fileContents, List.flatMap_cons, List.getD_append_right _ _ _ _ (by simp), List.length_map,
    List.length_range, Nat.add_sub_cancel_left]
  rfl

/-- Every cluster stands somewhere in the file. -/
theorem exists_fileContents (hc : c ∈ cs) (hk : k < (fat12Init bpb).clusterBytes) :
    ∃ i < cs.length * (fat12Init bpb).clusterBytes,
      ∀ disk, (fileContents bpb disk cs).getD i 0 = clusterByte (fat12Init bpb) disk c k := by
  induction cs with
  | nil => cases hc
  | cons c' cs ih =>
    rw [List.length_cons, Nat.succ_mul]
    rcases List.mem_cons.mp hc with rfl | hc
    · exact ⟨k, by omega, fun disk => fileContents_head hk⟩
    · obtain ⟨i, hi, hbyte⟩ := ih hc
      exact ⟨(fat12Init bpb).clusterBytes + i, by omega,
        fun disk => fileContents_tail.trans (hbyte disk)⟩

/-! ## Sector numbers -/

/-- With two FATs kernel and boot loader compute the same number, as far as it has 16 bits. -/
theorem bootClusterLba_eq (hbps : bpb.bytesPerSector = 512) (hfats : bpb.fats = 2)
    (hc : 2 ≤ c.toNat) (hlt : (fat12ClusterLba (fat12Init bpb) c).toNat < 65536) :
    (bootClusterLba bpb c).setWidth 32 = fat12ClusterLba (fat12Init bpb) c := by
  have hstart := fat12ClusterLba_eq hbps hc
  rw [clusterSector_eq hfats] at hstart
  apply BitVec.eq_of_toNat_eq
  rw [BitVec.toNat_setWidth_of_le (by decide), bootClusterLba_mod hc, hstart]
  exact Nat.mod_eq_of_lt (by omega)

/-- The sectors of the FAT lie before the clusters. -/
theorem fatSector_lt_cluster (hfats : 1 ≤ bpb.fats.toNat)
    (hin : fatOffset c.toNat / 512 < bpb.sectorsPerFat.toNat) (c' : Half) :
    bpb.reservedSectors.toNat + fatOffset c.toNat / 512 < clusterSector bpb c' := by
  have hle : bpb.sectorsPerFat.toNat ≤ bpb.fats.toNat * bpb.sectorsPerFat.toNat :=
    Nat.le_mul_of_pos_left _ hfats
  unfold clusterSector
  omega

/-! ## Files that fit -/

theorem bootClusterSize_mod (hbps : bpb.bytesPerSector = 512) :
    (bootClusterSize bpb).toNat = (fat12Init bpb).clusterBytes % 65536 := by
  have hspc : ((bpb.sectorsPerCluster.setWidth 16 : Half)).toNat =
      bpb.sectorsPerCluster.toNat := by bv_omega
  rw [bootClusterSize, hbps, BitVec.toNat_setWidth, mul16_toNat, hspc]
  rfl

/-- The next destination does not wrap while more clusters fit in the segment. -/
theorem next_destination (es : Half) (hbps : bpb.bytesPerSector = 512) (hcs : cs ≠ [])
    (hseg : bx.toNat + ((c :: cs).length - 1) * (fat12Init bpb).clusterBytes < 65536) :
    linear es (bx + bootClusterSize bpb) = linear es bx + (fat12Init bpb).clusterBytes ∧
      (bx + bootClusterSize bpb).toNat + (cs.length - 1) * (fat12Init bpb).clusterBytes <
        65536 := by
  have hsize := bootClusterSize_mod hbps
  obtain ⟨n, hn⟩ := Nat.exists_eq_add_of_le' (List.length_pos_iff.mpr hcs)
  rw [List.length_cons, Nat.add_sub_cancel, hn, Nat.succ_mul] at hseg
  have hnext : (bx + bootClusterSize bpb).toNat = bx.toNat + (fat12Init bpb).clusterBytes := by
    bv_omega
  rw [linear, linear, hnext, hn, Nat.add_sub_cancel]
  omega

/-- In a segment with room for all clusters, they are stored one after the other. -/
theorem bootReads_destination (hbps : bpb.bytesPerSector = 512)
    (hseg : bx.toNat + (cs.length - 1) * (fat12Init bpb).clusterBytes < 65536)
    (hr : r ∈ bootReads bpb es bx cs) :
    (∃ lba, r = .fat lba) ∨ ∃ i < cs.length, ∃ bx' lba,
      r = .cluster es bx' lba bpb.sectorsPerCluster ∧
        linear es bx' = linear es bx + i * (fat12Init bpb).clusterBytes := by
  induction cs generalizing bx with
  | nil => cases hr
  | cons c cs ih =>
    rw [bootReads, List.mem_cons, List.mem_cons] at hr
    rcases hr with rfl | rfl | hr
    · exact .inr ⟨0, Nat.succ_pos _, bx, _, rfl, by omega⟩
    · exact .inl ⟨_, rfl⟩
    · have hcs : cs ≠ [] := by
        rintro rfl
        cases hr
      obtain ⟨hnext, hseg'⟩ := next_destination es hbps hcs hseg
      rcases ih hseg' hr with hfat | ⟨i, hi, bx', lba, rfl, hbase⟩
      · exact .inl hfat
      · refine .inr ⟨i + 1, Nat.succ_lt_succ hi, bx', lba, rfl, ?_⟩
        rw [hbase, hnext, Nat.succ_mul]
        omega

/-- A read of the file writes its part of the destination or the buffer. -/
theorem bootReads_writes (hbps : bpb.bytesPerSector = 512)
    (hseg : bx.toNat + (cs.length - 1) * (fat12Init bpb).clusterBytes < 65536)
    (hr : r ∈ bootReads bpb es bx cs) (hw : r.Writes a) :
    linear es bx ≤ a ∨ 0x7E00 ≤ a ∧ a < 0x8000 := by
  rcases bootReads_destination hbps hseg hr with ⟨lba, rfl⟩ | ⟨i, -, bx', lba, rfl, hbase⟩
  · exact .inr hw
  · have hle : linear es bx' ≤ a := hw.1
    exact .inl (by omega)

/-- The calls for a file in free memory spare the boot loader. -/
theorem bootReads_spares (hbps : bpb.bytesPerSector = 512)
    (hseg : bx.toNat + (cs.length - 1) * (fat12Init bpb).clusterBytes < 65536)
    (hfree : FreeMemory stack (linear es bx) (cs.length * (fat12Init bpb).clusterBytes))
    (hr : r ∈ bootReads bpb es bx cs) : r.Spares stack := by
  rcases bootReads_destination hbps hseg hr with ⟨lba, rfl⟩ | ⟨i, hi, bx', lba, rfl, hbase⟩
  · exact trivial
  · have hle : (i + 1) * (fat12Init bpb).clusterBytes ≤
        cs.length * (fat12Init bpb).clusterBytes := Nat.mul_le_mul_right _ hi
    rw [Nat.succ_mul] at hle
    have hsize : (fat12Init bpb).clusterBytes = 512 * bpb.sectorsPerCluster.toNat := rfl
    have hloader := hfree.loader
    show _ ∨ _
    omega

/-- After the calls for a file the sectors of its first cluster stand at the destination. -/
theorem bootMemory_first (hbps : bpb.bytesPerSector = 512)
    (hseg : bx.toNat + ((c :: cs).length - 1) * (fat12Init bpb).clusterBytes < 65536)
    (hbuffer : linear es bx + (c :: cs).length * (fat12Init bpb).clusterBytes ≤ 0x7E00 ∨
      0x8000 ≤ linear es bx) (hk : k < (fat12Init bpb).clusterBytes) :
    bootMemory disk mem (bootReads bpb es bx (c :: cs)) (linear es bx + k) =
      disk ((bootClusterLba bpb c).setWidth 32 + BitVec.ofNat 32 (k / 512)) (k % 512) := by
  have hsize : (fat12Init bpb).clusterBytes = 512 * bpb.sectorsPerCluster.toNat := rfl
  rw [List.length_cons, Nat.succ_mul] at hbuffer
  have hrest : ∀ r ∈ bootReads bpb es (bx + bootClusterSize bpb) cs,
      ¬ r.Writes (linear es bx + k) := by
    intro r hr hw
    have hcs : cs ≠ [] := by
      rintro rfl
      cases hr
    obtain ⟨hnext, hseg'⟩ := next_destination es hbps hcs hseg
    have := bootReads_writes hbps hseg' hr hw
    omega
  have hfat : ¬ (BootRead.fat (bootFatLba bpb c)).Writes (linear es bx + k) := by
    rintro ⟨hle, hlt⟩
    omega
  show bootMemory disk (BootRead.store disk (BootRead.store disk mem _) _) _ _ = _
  rw [bootMemory_outside hrest, BootRead.store_outside hfat, BootRead.store,
    storeSectors_inside (hsize ▸ hk)]

/-- After the calls for a file its clusters stand at the destination. -/
theorem bootMemory_bootReads (hbps : bpb.bytesPerSector = 512)
    (hseg : bx.toNat + (cs.length - 1) * (fat12Init bpb).clusterBytes < 65536)
    (hlba : ∀ c ∈ cs, (bootClusterLba bpb c).setWidth 32 = fat12ClusterLba (fat12Init bpb) c)
    (hbuffer : linear es bx + cs.length * (fat12Init bpb).clusterBytes ≤ 0x7E00 ∨
      0x8000 ≤ linear es bx) (hk : k < cs.length * (fat12Init bpb).clusterBytes) :
    bootMemory disk mem (bootReads bpb es bx cs) (linear es bx + k) =
      (fileContents bpb disk cs).getD k 0 := by
  induction cs generalizing bx mem k with
  | nil =>
    rw [List.length_nil, Nat.zero_mul] at hk
    exact absurd hk (Nat.not_lt_zero _)
  | cons c cs ih =>
    by_cases hfirst : k < (fat12Init bpb).clusterBytes
    · rw [bootMemory_first hbps hseg hbuffer hfirst, fileContents_head hfirst,
        hlba c (List.mem_cons_self ..)]
      rfl
    · rw [List.length_cons, Nat.succ_mul] at hk hbuffer
      obtain ⟨k, rfl⟩ := Nat.exists_eq_add_of_le (Nat.le_of_not_lt hfirst)
      have hcs : cs ≠ [] := by
        rintro rfl
        rw [List.length_nil] at hk
        omega
      obtain ⟨hnext, hseg'⟩ := next_destination es hbps hcs hseg
      rw [← Nat.add_assoc, ← hnext, fileContents_tail]
      exact ih hseg' (fun c hc => hlba c (List.mem_cons_of_mem _ hc)) (by omega) (by omega)

/-- A file that fits is loaded. -/
theorem FitsBoot.loadsFile (hbps : bpb.bytesPerSector = 512) (hstack : stack ≤ 0x7C00)
    (hchain : FileChain bpb volume (fatByte (fat12Init bpb) disk) cs)
    (hin : ∀ c ∈ cs, fatOffset c.toNat / 512 < bpb.sectorsPerFat.toNat)
    (hfree : FreeMemory stack (linear es bx) (cs.length * (fat12Init bpb).clusterBytes))
    (h : FitsBoot bpb cs bx) : LoadsFile bpb disk mem stack cs es bx := by
  have hfats : 1 ≤ bpb.fats.toNat := by
    rw [h.fats]
    decide
  have hfat (c : Half) (hc : c ∈ cs) :
      bpb.reservedSectors.toNat + fatOffset c.toNat / 512 < 65536 := by
    have hsector := h.sectors c hc
    rw [fat12ClusterLba_eq hbps (hchain.chainCluster hc).valid.1] at hsector
    have := fatSector_lt_cluster hfats (hin c hc) c
    omega
  have hlba (c : Half) (hc : c ∈ cs) :=
    bootClusterLba_eq hbps h.fats (hchain.chainCluster hc).valid.1 (h.sectors c hc)
  obtain ⟨s, hrun, hreads⟩ := readFileLoop_reads
    (s := ⟨cs.headD 0, es, bx, fun k => mem (0x7E00 + k), []⟩) hbps hchain hfat rfl le_rfl
  have hbuffer : linear es bx + cs.length * (fat12Init bpb).clusterBytes ≤ 0x7E00 ∨
      0x8000 ≤ linear es bx := by
    have hloader := hfree.loader
    omega
  rw [List.nil_append] at hreads
  refine ⟨cs.length, s, hrun, ?_, ?_⟩
  · intro r hr
    rw [hreads] at hr
    exact bootReads_spares hbps h.segment hfree hr
  · intro k hk
    rw [hreads]
    exact bootMemory_bootReads hbps h.segment hlba hbuffer hk

/-! ## Files that do not fit -/

/-- A call with the segment and the count of `read_file`. -/
def BootRead.Called (bpb : BiosParameterBlock) (es : Half) : BootRead → Prop
  | .cluster es' _ _ count => es' = es ∧ count = bpb.sectorsPerCluster
  | .fat _ => True

/-- Whatever clusters `read_file` follows, it makes no other calls. -/
theorem readFileLoop_called (hbps : bpb.bytesPerSector = 512)
    (hs : ∀ r ∈ s.reads, r.Called bpb s.es)
    (hrun : readFileLoop bpb disk fuel s = .ok s') : ∀ r ∈ s'.reads, r.Called bpb s.es := by
  induction fuel generalizing s with
  | zero => cases hrun
  | succ fuel ih =>
    obtain ⟨t, ht, hrest⟩ := bind_eq_ok.mp hrun
    rw [readFileCluster_ok disk s hbps] at ht
    have hes : t.es = s.es := (congrArg BootState.es (Except.ok.inj ht)).symm
    have hreads : ∀ r ∈ t.reads, r.Called bpb t.es := by
      intro r hr
      rw [← congrArg BootState.reads (Except.ok.inj ht), List.mem_append] at hr
      rw [hes]
      rcases hr with hr | hr
      · exact hs r hr
      · rw [List.mem_pair] at hr
        rcases hr with rfl | rfl
        · exact ⟨rfl, rfl⟩
        · exact trivial
    split at hrest
    · exact hes ▸ ih hreads hrest
    · cases hrest
      exact hes ▸ hreads

/-- `read_file` does not depend on sectors whose numbers have more than 16 bits, apart from the
clusters that it stores. -/
theorem readFileLoop_congr (hbps : bpb.bytesPerSector = 512)
    (h : ∀ lba : Word, lba.toNat < 65536 → disk lba = disk' lba) (fuel : Nat) (s : BootState) :
    readFileLoop bpb disk fuel s = readFileLoop bpb disk' fuel s := by
  have hbuffer (c : Half) (buffer : Nat → Byte) :
      bootFatBuffer bpb disk c buffer = bootFatBuffer bpb disk' c buffer := by
    funext k
    unfold bootFatBuffer ataRead
    split_ifs with hk
    · rw [Nat.div_eq_of_lt (by omega), BitVec.add_zero, h _ (by bv_omega)]
    · rfl
  induction fuel generalizing s with
  | zero => rfl
  | succ fuel ih =>
    simp only [readFileLoop, readFileCluster_ok _ _ hbps, hbuffer, bind, Except.bind, ih]

/-- Two runs that return agree. -/
theorem readFileLoop_unique {fuel' : Nat} (hrun : readFileLoop bpb disk fuel s = .ok s')
    {s'' : BootState} (hrun' : readFileLoop bpb disk fuel' s = .ok s'') : s' = s'' := by
  induction fuel generalizing fuel' s with
  | zero => cases hrun
  | succ fuel ih =>
    cases fuel' with
    | zero => cases hrun'
    | succ fuel' =>
      obtain ⟨t, ht, hrest⟩ := bind_eq_ok.mp hrun
      obtain ⟨t', ht', hrest'⟩ := bind_eq_ok.mp hrun'
      obtain rfl : t = t' := Except.ok.inj (ht.symm.trans ht')
      split at hrest
      · rename_i hgo
        rw [if_pos hgo] at hrest'
        exact ih hrest hrest'
      · rename_i hstop
        rw [if_neg hstop] at hrest'
        exact Except.ok.inj (hrest.symm.trans hrest')

/-- Nor does the memory depend on sectors beyond a cluster from the last 16-bit number on. -/
theorem bootMemory_congr (hspc : 1 ≤ bpb.sectorsPerCluster.toNat)
    (h : ∀ lba : Word, lba.toNat < 65535 + bpb.sectorsPerCluster.toNat → disk lba = disk' lba)
    (hreads : ∀ r ∈ reads, r.Called bpb es) (mem : Nat → Byte) :
    bootMemory disk mem reads = bootMemory disk' mem reads := by
  have hstore (lba : Half) (count base : Nat) (mem : Nat → Byte)
      (hcount : count ≤ bpb.sectorsPerCluster.toNat) :
      storeSectors disk lba count base mem = storeSectors disk' lba count base mem := by
    funext a
    unfold storeSectors ataRead
    split_ifs with hle hlt
    · rw [h _ (by bv_omega)]
    · rfl
    · rfl
  induction reads generalizing mem with
  | nil => rfl
  | cons r reads ih =>
    have hr : r.store disk mem = r.store disk' mem := by
      have hcalled := hreads r (List.mem_cons_self ..)
      cases r with
      | cluster es' bx lba count => exact hstore _ _ _ _ (Nat.le_of_eq (congrArg _ hcalled.2))
      | fat lba => exact hstore _ _ _ _ hspc
    show bootMemory disk (r.store disk mem) reads = bootMemory disk' (r.store disk' mem) reads
    rw [hr, ih fun r hr => hreads r (List.mem_cons_of_mem _ hr)]

/-- A loaded file ends within a cluster of the segment's end: nothing else is ever written. -/
theorem LoadsFile.segment (hbps : bpb.bytesPerSector = 512) (hcs : cs ≠ [])
    (hstack : stack ≤ 0x7C00)
    (hfree : FreeMemory stack (linear es bx) (cs.length * (fat12Init bpb).clusterBytes))
    (h : ∀ mem, LoadsFile bpb disk mem stack cs es bx) :
    bx.toNat + (cs.length - 1) * (fat12Init bpb).clusterBytes < 65536 := by
  by_contra hseg
  have hsize : (fat12Init bpb).clusterBytes = 512 * bpb.sectorsPerCluster.toNat := rfl
  obtain ⟨n, hn⟩ := Nat.exists_eq_add_of_le' (List.length_pos_iff.mpr hcs)
  have hlen : cs.length * (fat12Init bpb).clusterBytes =
      n * (fat12Init bpb).clusterBytes + (fat12Init bpb).clusterBytes := by
    rw [hn, Nat.succ_mul]
  rw [hn, Nat.add_sub_cancel] at hseg
  -- the last byte of the file, which memory does not hold before
  let last := cs.length * (fat12Init bpb).clusterBytes - 1
  obtain ⟨fuel, s, hrun, -, hbytes⟩ := h fun _ => (fileContents bpb disk cs).getD last 0 + 1
  have hcalled := readFileLoop_called hbps (by simp) hrun
  have hout : ∀ r ∈ s.reads, ¬ r.Writes (linear es bx + last) := by
    intro r hr hw
    have hr' := hcalled r hr
    have hloader := hfree.loader
    cases r with
    | cluster es' bx' lba count =>
      obtain ⟨rfl, rfl⟩ := hr'
      obtain ⟨-, hlt⟩ := hw
      unfold linear at hlt
      omega
    | fat lba =>
      obtain ⟨hle, hlt⟩ := hw
      omega
  have hlast := hbytes last (by omega)
  rw [bootMemory_outside hout] at hlast
  generalize (fileContents bpb disk cs).getD last 0 = b at hlast
  bv_omega

/-! ### Other contents of a sector -/

/-- The disk with every byte of sector `lba` changed. -/
def changeSector (disk : Disk) (lba : Word) : Disk := fun l k =>
  if l = lba then disk l k + 1 else disk l k

theorem changeSector_of_ne {l lba : Word} (h : l ≠ lba) : changeSector disk lba l = disk l := by
  funext k
  exact if_neg h

theorem changeSector_self (lba : Word) : changeSector disk lba lba k ≠ disk lba k := by
  rw [changeSector, if_pos rfl]
  bv_omega

theorem FileChain.congr {f g : Nat → Byte} (h : ∀ c ∈ cs, fatEntry f c.toNat = fatEntry g c.toNat)
    (hchain : FileChain bpb volume f cs) : FileChain bpb volume g cs := by
  induction hchain with
  | last hc hend => exact .last hc (h _ (List.mem_singleton_self _) ▸ hend)
  | cons hc hentry _ ih =>
    exact .cons hc (h _ (List.mem_cons_self ..) ▸ hentry)
      (ih fun c hmem => h c (List.mem_cons_of_mem _ hmem))

/-- A sector behind the FAT is not part of the chain. -/
theorem FileChain.changeSector {lba : Word}
    (hlt : ∀ c ∈ cs, bpb.reservedSectors.toNat + fatOffset c.toNat / 512 < lba.toNat)
    (hchain : FileChain bpb volume (fatByte (fat12Init bpb) disk) cs) :
    FileChain bpb volume (fatByte (fat12Init bpb) (changeSector disk lba)) cs := by
  apply hchain.congr
  intro c hc
  have hsplit := (hchain.chainCluster hc).notSplit
  have hlt := hlt c hc
  unfold SplitEntry at hsplit
  have hdiv : (fatOffset c.toNat + 1) / 512 = fatOffset c.toNat / 512 := by omega
  have hne : (fat12Init bpb).lbaFat1 + BitVec.ofNat 32 (fatOffset c.toNat / 512) ≠ lba := by
    unfold fat12Init
    bv_omega
  simp only [fatEntry, fatByte, hdiv, changeSector_of_ne hne]

/-- A loaded file holds nothing of the sectors behind a cluster from the last 16-bit number on. -/
theorem LoadsFile.fileContents_congr {i : Nat} (hbps : bpb.bytesPerSector = 512)
    (hspc : 1 ≤ bpb.sectorsPerCluster.toNat)
    (hagree : ∀ lba : Word, lba.toNat < 65535 + bpb.sectorsPerCluster.toNat →
      disk lba = disk' lba)
    (h : LoadsFile bpb disk mem stack cs es bx) (h' : LoadsFile bpb disk' mem stack cs es bx)
    (hi : i < cs.length * (fat12Init bpb).clusterBytes) :
    (fileContents bpb disk cs).getD i 0 = (fileContents bpb disk' cs).getD i 0 := by
  obtain ⟨fuel, s, hrun, -, hbytes⟩ := h
  obtain ⟨fuel', s', hrun', -, hbytes'⟩ := h'
  have hcalled := readFileLoop_called hbps (by simp) hrun
  rw [readFile, ← readFileLoop_congr hbps fun lba hlt => hagree lba (by omega)] at hrun'
  obtain rfl : s = s' := readFileLoop_unique hrun hrun'
  calc (fileContents bpb disk cs).getD i 0
      = bootMemory disk mem s.reads (linear es bx + i) := (hbytes i hi).symm
    _ = bootMemory disk' mem s.reads (linear es bx + i) := by
        rw [bootMemory_congr hspc hagree hcalled]
    _ = (fileContents bpb disk' cs).getD i 0 := hbytes' i hi

/-- A file that is loaded for any contents lies within the first 65536 sectors: of a cluster behind
them `read_file` does not reach the last sector. -/
theorem LoadsFile.sectors (hbps : bpb.bytesPerSector = 512)
    (hspc : 1 ≤ bpb.sectorsPerCluster.toNat) (hfats : 1 ≤ bpb.fats.toNat)
    (hchain : FileChain bpb volume (fatByte (fat12Init bpb) disk) cs)
    (hin : ∀ c ∈ cs, fatOffset c.toNat / 512 < bpb.sectorsPerFat.toNat)
    (h : ∀ disk, FileChain bpb volume (fatByte (fat12Init bpb) disk) cs →
      LoadsFile bpb disk mem stack cs es bx) (hc : c ∈ cs) :
    (fat12ClusterLba (fat12Init bpb) c).toNat < 65536 := by
  have hlba := fat12ClusterLba_eq hbps (hchain.chainCluster hc).valid.1
  have hbound := clusterSector_lt bpb c
  have hcount := bpb.sectorsPerCluster.isLt
  by_contra hlarge
  -- the last sector of the cluster
  let last := fat12ClusterLba (fat12Init bpb) c + BitVec.ofNat 32 (bpb.sectorsPerCluster.toNat - 1)
  have hlast : last.toNat = clusterSector bpb c + (bpb.sectorsPerCluster.toNat - 1) := by
    show BitVec.toNat (_ + _) = _
    bv_omega
  have hbehind (c' : Half) (hc' : c' ∈ cs) :
      bpb.reservedSectors.toNat + fatOffset c'.toNat / 512 < last.toNat := by
    have := fatSector_lt_cluster hfats (hin c' hc') c
    omega
  have hagree (lba : Word) (hlt : lba.toNat < 65535 + bpb.sectorsPerCluster.toNat) :
      changeSector disk last lba = disk lba := by
    apply changeSector_of_ne
    rintro rfl
    omega
  have hk : 512 * (bpb.sectorsPerCluster.toNat - 1) < (fat12Init bpb).clusterBytes := by
    show _ < 512 * bpb.sectorsPerCluster.toNat
    omega
  have hlastByte (disk : Disk) : clusterByte (fat12Init bpb) disk c
      (512 * (bpb.sectorsPerCluster.toNat - 1)) = disk last 0 := by
    rw [clusterByte, Nat.mul_div_cancel_left _ (by decide), Nat.mul_mod_right]
  obtain ⟨i, hi, hbyte⟩ := exists_fileContents hc hk
  have heq := LoadsFile.fileContents_congr hbps hspc (fun lba hlt => (hagree lba hlt).symm)
    (h disk hchain) (h _ (hchain.changeSector hbehind)) hi
  rw [hbyte, hbyte, hlastByte, hlastByte] at heq
  exact changeSector_self last heq.symm

/-- Without two FATs the boot loader takes another sector for the start of the data. -/
theorem bootClusterLba_ne (hbps : bpb.bytesPerSector = 512) (hfats : 1 ≤ bpb.fats.toNat)
    (hne : bpb.fats ≠ 2) (hc : 2 ≤ c.toNat) (hspf : 0 < bpb.sectorsPerFat.toNat)
    (hlt : (fat12ClusterLba (fat12Init bpb) c).toNat < 65536) :
    (bootClusterLba bpb c).setWidth 32 ≠ fat12ClusterLba (fat12Init bpb) c := by
  intro heq
  have hlba := fat12ClusterLba_eq hbps hc
  have hmod := congrArg BitVec.toNat heq
  rw [BitVec.toNat_setWidth_of_le (by decide), bootClusterLba_mod hc, hlba] at hmod
  have hspf' := bpb.sectorsPerFat.isLt
  rw [hlba] at hlt
  unfold clusterSector at hlt hmod
  unfold clusterStart dataStart at hmod
  by_cases hone : bpb.fats.toNat = 1
  · rw [hone] at hlt hmod
    omega
  · have hthree : 3 * bpb.sectorsPerFat.toNat ≤ bpb.fats.toNat * bpb.sectorsPerFat.toNat := by
      apply Nat.mul_le_mul_right
      bv_omega
    omega

/-- The first byte of a loaded file comes from the sector that the boot loader computes. -/
theorem LoadsFile.first_byte (hbps : bpb.bytesPerSector = 512)
    (hchain : FileChain bpb volume (fatByte (fat12Init bpb) disk) (c :: cs))
    (hbehind : ∀ c' ∈ c :: cs, bpb.reservedSectors.toNat + fatOffset c'.toNat / 512 < 65536)
    (hsize : 0 < (fat12Init bpb).clusterBytes)
    (hbuffer : linear es bx + (c :: cs).length * (fat12Init bpb).clusterBytes ≤ 0x7E00 ∨
      0x8000 ≤ linear es bx)
    (hseg : bx.toNat + ((c :: cs).length - 1) * (fat12Init bpb).clusterBytes < 65536)
    (h : LoadsFile bpb disk mem stack (c :: cs) es bx) :
    disk ((bootClusterLba bpb c).setWidth 32) 0 = disk (fat12ClusterLba (fat12Init bpb) c) 0 := by
  obtain ⟨fuel, s, hrun, -, hbytes⟩ := h
  obtain ⟨s', hrun', hreads⟩ := readFileLoop_reads
    (s := ⟨c, es, bx, fun k => mem (0x7E00 + k), []⟩) hbps hchain hbehind rfl le_rfl
  obtain rfl : s = s' := readFileLoop_unique hrun hrun'
  rw [List.nil_append] at hreads
  have hbyte := hbytes 0 (Nat.mul_pos (Nat.succ_pos _) hsize)
  rw [hreads, bootMemory_first hbps hseg hbuffer hsize, fileContents_head hsize,
    clusterByte] at hbyte
  simpa using hbyte

/-- A file that is loaded for any contents lies on a volume with two FATs. -/
theorem LoadsFile.fats (hbps : bpb.bytesPerSector = 512)
    (hspc : 1 ≤ bpb.sectorsPerCluster.toNat) (hfats : 1 ≤ bpb.fats.toNat)
    (hstack : stack ≤ 0x7C00)
    (hchain : FileChain bpb volume (fatByte (fat12Init bpb) disk) (c :: cs))
    (hin : ∀ c' ∈ c :: cs, fatOffset c'.toNat / 512 < bpb.sectorsPerFat.toNat)
    (hfree : FreeMemory stack (linear es bx) ((c :: cs).length * (fat12Init bpb).clusterBytes))
    (hsectors : ∀ c' ∈ c :: cs, (fat12ClusterLba (fat12Init bpb) c').toNat < 65536)
    (hseg : bx.toNat + ((c :: cs).length - 1) * (fat12Init bpb).clusterBytes < 65536)
    (h : ∀ disk, FileChain bpb volume (fatByte (fat12Init bpb) disk) (c :: cs) →
      LoadsFile bpb disk mem stack (c :: cs) es bx) : bpb.fats = 2 := by
  have hmem : c ∈ c :: cs := List.mem_cons_self ..
  have hvalid := (hchain.chainCluster hmem).valid.1
  have hlba := fat12ClusterLba_eq hbps hvalid
  have hlt := hsectors c hmem
  have hbehind (c' : Half) (hc' : c' ∈ c :: cs) : bpb.reservedSectors.toNat +
      fatOffset c'.toNat / 512 < (fat12ClusterLba (fat12Init bpb) c).toNat :=
    hlba ▸ fatSector_lt_cluster hfats (hin c' hc') c
  have hsize : 0 < (fat12Init bpb).clusterBytes := by
    show 0 < 512 * bpb.sectorsPerCluster.toNat
    omega
  have hbuffer : linear es bx + (c :: cs).length * (fat12Init bpb).clusterBytes ≤ 0x7E00 ∨
      0x8000 ≤ linear es bx := by
    have hloader := hfree.loader
    omega
  have hfirst (disk : Disk)
      (hchain : FileChain bpb volume (fatByte (fat12Init bpb) disk) (c :: cs)) :=
    LoadsFile.first_byte hbps hchain (fun c' hc' => (hbehind c' hc').trans hlt) hsize hbuffer hseg
      (h disk hchain)
  by_contra hne
  have hneLba := bootClusterLba_ne hbps hfats hne hvalid (Nat.zero_lt_of_lt (hin c hmem)) hlt
  have hother := hfirst _ (hchain.changeSector hbehind)
  rw [changeSector_of_ne hneLba, hfirst disk hchain] at hother
  exact changeSector_self _ hother.symm

/-- **Files that the boot loader loads.** A file with a well-formed chain is loaded to free low
memory, whatever its clusters and memory hold, exactly if the volume has two FATs, all its clusters
start within the first 65536 sectors, and its last cluster is stored from an offset below `2 ^ 16`
in the segment on. -/
theorem loadsFile_iff (bpb : BiosParameterBlock) (disk : Disk) (cs : List Half) (es bx : Half)
    (stack volume : Nat) (hbps : bpb.bytesPerSector = 512)
    (hspc : 1 ≤ bpb.sectorsPerCluster.toNat) (hfats : 1 ≤ bpb.fats.toNat)
    (hstack : stack ≤ 0x7C00)
    (hchain : FileChain bpb volume (fatByte (fat12Init bpb) disk) cs)
    (hin : ∀ c ∈ cs, fatOffset c.toNat / 512 < bpb.sectorsPerFat.toNat)
    (hfree : FreeMemory stack (linear es bx) (cs.length * (fat12Init bpb).clusterBytes)) :
    (∀ disk, FileChain bpb volume (fatByte (fat12Init bpb) disk) cs →
      ∀ mem, LoadsFile bpb disk mem stack cs es bx) ↔ FitsBoot bpb cs bx := by
  constructor
  · intro h
    have hcs : ∃ c rest, cs = c :: rest := by
      cases hchain with
      | last => exact ⟨_, _, rfl⟩
      | cons => exact ⟨_, _, rfl⟩
    obtain ⟨c, rest, rfl⟩ := hcs
    have hzero (disk : Disk)
        (hchain : FileChain bpb volume (fatByte (fat12Init bpb) disk) (c :: rest)) :=
      h disk hchain fun _ => 0
    have hseg := LoadsFile.segment hbps (List.cons_ne_nil c rest) hstack hfree (h disk hchain)
    have hsectors (c' : Half) (hc' : c' ∈ c :: rest) :=
      LoadsFile.sectors hbps hspc hfats hchain hin hzero hc'
    exact ⟨LoadsFile.fats hbps hspc hfats hstack hchain hin hfree hsectors hseg hzero, hsectors,
      hseg⟩
  · intro h disk hchain mem
    exact h.loadsFile hbps hstack hchain hin hfree

/-- Two clusters of a floppy at `0:0x1000`. -/
theorem loadsFile_iff_floppy :
    LoadsFile floppyBpb twoClusterDisk (fun _ => 0) 0x7000 [2, 3] 0 0x1000 := by
  have hchain : FileChain floppyBpb 2880 (fatByte (fat12Init floppyBpb) twoClusterDisk) [2, 3] :=
    .cons ⟨by decide, by decide, by decide⟩ (by decide)
      (.last ⟨by decide, by decide, by decide⟩ (by decide))
  have hfree : FreeMemory 0x7000 (linear 0 0x1000)
      (([2, 3] : List Half).length * (fat12Init floppyBpb).clusterBytes) :=
    ⟨by decide, by decide, by decide⟩
  have hin : ∀ c ∈ ([2, 3] : List Half), fatOffset c.toNat / 512 < floppyBpb.sectorsPerFat.toNat :=
    List.forall_mem_cons.mpr ⟨by decide, List.forall_mem_singleton.mpr (by decide)⟩
  have hsectors : ∀ c ∈ ([2, 3] : List Half),
      (fat12ClusterLba (fat12Init floppyBpb) c).toNat < 65536 :=
    List.forall_mem_cons.mpr ⟨by decide, List.forall_mem_singleton.mpr (by decide)⟩
  exact (loadsFile_iff floppyBpb twoClusterDisk [2, 3] 0 0x1000 0x7000 2880 rfl (by decide)
    (by decide) (by decide) hchain hin hfree).mpr ⟨rfl, hsectors, by decide⟩ twoClusterDisk hchain
    fun _ => 0

/-- A hard disk with clusters of 8 KiB. -/
def hardDiskBpb : BiosParameterBlock := ⟨512, 16, 1, 2, 512, 12⟩

/-- The successor of a cluster in a file of the clusters 2 to 10. -/
def nextInRow (c : Nat) : Nat := if c = 10 then 0xFFF else c + 1

/-- A disk with this file. -/
def rowDisk : Disk := fun lba k =>
  if lba = 1 then
    BitVec.ofNat 8 <|
      if k % 3 = 0 then nextInRow (2 * (k / 3))
      else if k % 3 = 1 then nextInRow (2 * (k / 3)) / 256 + 16 * nextInRow (2 * (k / 3) + 1)
      else nextInRow (2 * (k / 3) + 1) / 16
  else 0

/-- The clusters of the file. -/
def rowClusters : List Half := [2, 3, 4, 5, 6, 7, 8, 9, 10]

/-- A kernel of nine clusters at `0x1000:0`: the last one is stored over the first. -/
theorem loadsFile_fails_kernel :
    FileChain hardDiskBpb 65535 (fatByte (fat12Init hardDiskBpb) rowDisk) rowClusters ∧
    FreeMemory 0x7000 (linear 0x1000 0)
      (rowClusters.length * (fat12Init hardDiskBpb).clusterBytes) ∧
    ¬ ∀ mem, LoadsFile hardDiskBpb rowDisk mem 0x7000 rowClusters 0x1000 0 := by
  have hfree : FreeMemory 0x7000 (linear 0x1000 0)
      (rowClusters.length * (fat12Init hardDiskBpb).clusterBytes) :=
    ⟨by decide, by decide, by decide⟩
  refine ⟨?_, hfree, fun h => ?_⟩
  · repeat refine .cons ⟨by decide, by decide, by decide⟩ (by decide) ?_
    exact .last ⟨by decide, by decide, by decide⟩ (by decide)
  · have hseg := LoadsFile.segment (show hardDiskBpb.bytesPerSector = 512 from rfl)
      (List.cons_ne_nil _ _) (by decide) hfree h
    revert hseg
    decide

end Hjortron
