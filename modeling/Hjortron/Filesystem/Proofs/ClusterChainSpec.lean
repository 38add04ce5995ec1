import Hjortron.Filesystem.Proofs.FatSpec
import Hjortron.Filesystem.Proofs.ReadSpec

/-!
# What `fat12_read_cluster_chain` delivers

The destination of cluster `i` is the pointer that lies `4 * i` cluster sizes behind the caller's
pointer variable. For the first cluster that is the variable itself, which has just been set to
the new block; the pointers of all others are whatever the memory holds there.
-/

namespace Hjortron

open BlockList

/-- The clusters of a chain, as `fat12_read_fat` returns them. -/
inductive ClusterChain (fs : Fat12) (disk : Disk) : List Half → Prop
  | last {c next : Half} : fat12ValidCluster c = true → FatLink fs disk c next →
      fat12ValidCluster next = false → ClusterChain fs disk [c]
  | cons {c next : Half} {cs : List Half} : fat12ValidCluster c = true → FatLink fs disk c next →
      ClusterChain fs disk (next :: cs) → ClusterChain fs disk (c :: next :: cs)

/-- Byte `k` of the clusters one after the other. -/
def chainByte (fs : Fat12) (disk : Disk) (cs : List Half) (k : Nat) : Byte :=
  clusterByte fs disk (cs.getD (k / fs.clusterBytes) 0) (k % fs.clusterBytes)

/-- The allocator does not write the variable of four bytes at `a`. -/
def StableCell (lo hi : Nat) (live : List (Word × Word)) (a : Word) : Prop :=
  ∀ x, InRange a 4 x → Stable lo hi live x

/-- `ptr` is a live block of `heap` that holds the chain. -/
structure HoldsChain (fs : Fat12) (disk : Disk) (cs : List Half) (lo hi : Nat)
    (live : List (Word × Word)) (heap : Heap) (ptr : Word) : Prop where
  ledger : Ledger lo hi heap ((ptr, BitVec.ofNat 32 (cs.length * fs.clusterBytes)) :: live)
  bytes : ∀ k < cs.length * fs.clusterBytes,
    heap.mem (ptr + BitVec.ofNat 32 k) = chainByte fs disk cs k

/-- `fat12_read_cluster_chain` reads the chain whole, from every heap with room for it and into
every two variables: it returns the number of clusters and a new block with their contents, and
changes no other byte in use. -/
def ChainReadWhole (fs : Fat12) (disk : Disk) (c : Half) (cs : List Half) : Prop :=
  ∀ lo hi heap live clusters buffer len,
    Roomy lo hi heap live (cs.length * fs.clusterBytes) →
    StableCell lo hi live buffer → StableCell lo hi live len → Apart buffer 4 len 4 →
    ∃ heap', fat12ReadClusterChain fs disk clusters heap buffer len c = .ok heap' ∧
      (heap'.mem.load32 len).toNat = cs.length ∧
      HoldsChain fs disk cs lo hi live heap' (heap'.mem.load32 buffer) ∧
      ∀ x, Stable lo hi live x → ¬ InRange buffer 4 x → ¬ InRange len 4 x →
        heap'.mem x = heap.mem x

/-- `fat12_read_directory` returns the entries stored in the chain. -/
def DirectoryReadWhole (fs : Fat12) (disk : Disk) (c : Half) (cs : List Half) : Prop :=
  ∀ lo hi heap live clusters chainLen entries len,
    Roomy lo hi heap live (cs.length * fs.clusterBytes) →
    StableCell lo hi live entries → StableCell lo hi live len → StableCell lo hi live chainLen →
    Apart entries 4 len 4 → Apart entries 4 chainLen 4 → Apart len 4 chainLen 4 →
    ∃ heap', fat12ReadDirectory fs disk clusters chainLen heap entries len c = .ok heap' ∧
      (heap'.mem.load32 len).toNat = cs.length * fs.clusterBytes / 32 ∧
      HoldsChain fs disk cs lo hi live heap' (heap'.mem.load32 entries)

section

variable {fs : Fat12} {disk : Disk} {heap : Heap} {lo hi size : Nat} {live : List (Word × Word)}
  {c next : Half} {cs : List Half} {buffer len : Word} {clusters : Word → Word} {m : Mem}
  {fuel i n : Nat}

/-! ## Following the chain -/

theorem Roomy.heapInv (h : Roomy lo hi heap live size) :
    ∃ bs, HeapInv heap bs ∧ ∃ b ∈ bs, b.Fits size := by
  obtain ⟨bs, hs, -, hroom⟩ := h
  exact ⟨bs, hs.heap, hroom⟩

theorem FatLink.run (hlink : FatLink fs disk c next) (h : Roomy lo hi heap live size)
    (hbps : fs.bpb.bytesPerSector = 512) (hsize : 512 ≤ size) :
    ∃ heap', fat12ReadFat fs disk heap c = .ok (next, heap') ∧ Roomy lo hi heap' live size ∧
      ∀ x, Stable lo hi live x → heap'.mem x = heap.mem x := by
  obtain ⟨ptr, heap₁, next', heap₂, -, hrun, -, hroomy, hframe⟩ :=
    fat12ReadFat_run disk c h hbps hsize
  obtain ⟨bs, hinv, b, hb, hfit⟩ := h.heapInv
  obtain ⟨heap', hrun'⟩ := hlink heap bs hinv ⟨b, hb, hfit.1, hsize.trans hfit.2⟩
  obtain ⟨rfl, rfl⟩ := Prod.mk.inj (Except.ok.inj (hrun.symm.trans hrun'))
  exact ⟨heap₂, hrun, hroomy, hframe⟩

/-- Writing a variable of the client. -/
theorem Roomy.store32 (h : Roomy lo hi heap live size) {a : Word} (ha : StableCell lo hi live a)
    (v : Word) : Roomy lo hi { heap with mem := heap.mem.store32 a v } live size := by
  apply h.write
  intro x hx
  exact Mem.store32_of_not_inRange fun hin => hx (ha x hin)

theorem StableCell.load32 {heap heap' : Heap} {a : Word} (ha : StableCell lo hi live a)
    (hframe : ∀ x, Stable lo hi live x → heap'.mem x = heap.mem x) :
    heap'.mem.load32 a = heap.mem.load32 a :=
  Mem.load32_congr fun x hx => hframe x (ha x hx)

/-- What the loop over the chain leaves: `n` clusters from index `i` on. -/
structure Collected (cs : List Half) (i : Nat) (len : Word) (lo hi : Nat)
    (live : List (Word × Word)) (size : Nat) (heap heap' : Heap)
    (clusters clusters' : Word → Word) : Prop where
  roomy : Roomy lo hi heap' live size
  count : heap'.mem.load32 len = BitVec.ofNat 32 (i + cs.length)
  stored : ∀ k < cs.length, clusters' (BitVec.ofNat 32 (i + k)) = (cs.getD k 0).setWidth 32
  before : ∀ j < i, clusters' (BitVec.ofNat 32 j) = clusters (BitVec.ofNat 32 j)
  frame : ∀ x, Stable lo hi live x → ¬ InRange len 4 x → heap'.mem x = heap.mem x

theorem collectClusters_stop (hinvalid : fat12ValidCluster c = false) :
    collectClusters fs disk len fuel heap clusters c = .ok (heap, clusters) := by
  cases fuel with
  | zero => rfl
  | succ fuel => simp only [collectClusters, hinvalid, if_true]

/-- One iteration at a valid cluster. -/
theorem collectClusters_step (clusters : Word → Word) (fuel : Nat)
    (hvalid : fat12ValidCluster c = true) (hlink : FatLink fs disk c next)
    (h : Roomy lo hi heap live size) (hbps : fs.bpb.bytesPerSector = 512) (hsize : 512 ≤ size)
    (hlen : StableCell lo hi live len) (hcount : heap.mem.load32 len = BitVec.ofNat 32 i) :
    ∃ heap', collectClusters fs disk len (fuel + 1) heap clusters c =
        collectClusters fs disk len fuel heap'
          (Function.update clusters (BitVec.ofNat 32 i) (c.setWidth 32)) next ∧
      Roomy lo hi heap' live size ∧ heap'.mem.load32 len = BitVec.ofNat 32 (i + 1) ∧
      ∀ x, Stable lo hi live x → ¬ InRange len 4 x → heap'.mem x = heap.mem x := by
  have hwritten := h.store32 hlen (BitVec.ofNat 32 i + 1)
  obtain ⟨heap', hrun, hroomy, hframe⟩ := hlink.run hwritten hbps hsize
  refine ⟨heap', ?_, hroomy, ?_, fun x hx hout => ?_⟩
  · simp only [collectClusters, hvalid, Bool.true_eq_false, if_false, hcount, hrun, bind,
      Except.bind]
  · rw [hlen.load32 hframe, Mem.load32_store32_self, BitVec.ofNat_add]
    rfl
  · rw [hframe x hx]
    exact Mem.store32_of_not_inRange hout

theorem collectClusters_chain (hchain : ClusterChain fs disk cs) (h : Roomy lo hi heap live size)
    (hbps : fs.bpb.bytesPerSector = 512) (hsize : 512 ≤ size) (hlen : StableCell lo hi live len)
    (hcount : heap.mem.load32 len = BitVec.ofNat 32 i) (hfuel : cs.length ≤ fuel)
    (hbound : i + fuel ≤ 256) (clusters : Word → Word) :
    ∃ heap' clusters', collectClusters fs disk len fuel heap clusters (cs.headD 0) =
        .ok (heap', clusters') ∧
      Collected cs i len lo hi live size heap heap' clusters clusters' := by
  induction hchain generalizing heap clusters i fuel with
  | @last c next hvalid hlink hinvalid =>
    obtain ⟨fuel, rfl⟩ := Nat.exists_eq_add_of_le' hfuel
    obtain ⟨heap', hstep, hroomy, hcount', hframe⟩ :=
      collectClusters_step clusters fuel hvalid hlink h hbps hsize hlen hcount
    refine ⟨heap', _, hstep.trans (collectClusters_stop hinvalid), hroomy, hcount', ?_, ?_, hframe⟩
    · intro k hk
      obtain rfl : k = 0 := by simpa using hk
      exact Function.update_self _ _ _
    · intro j hj
      apply Function.update_of_ne
      bv_omega
  | @cons c next cs hvalid hlink hchain ih =>
    cases fuel with
    | zero => simp at hfuel
    | succ fuel =>
      obtain ⟨heap₁, hstep, hroomy, hcount₁, hframe₁⟩ :=
        collectClusters_step clusters fuel hvalid hlink h hbps hsize hlen hcount
      obtain ⟨heap', clusters', hrun, hrest⟩ :=
        ih hroomy hcount₁ (Nat.le_of_succ_le_succ hfuel) (by omega)
          (Function.update clusters (BitVec.ofNat 32 i) (c.setWidth 32))
      have hfirst : clusters' (BitVec.ofNat 32 i) = c.setWidth 32 := by
        rw [hrest.before i (by omega), Function.update_self]
      refine ⟨heap', clusters', hstep.trans hrun, hrest.roomy, ?_, ?_, ?_, ?_⟩
      · rw [hrest.count]
        simp only [List.length_cons]
        congr 1
        omega
      · intro k hk
        cases k with
        | zero => exact hfirst
        | succ k =>
          have := hrest.stored k (by simpa using hk)
          rw [show i + (k + 1) = i + 1 + k by omega, this]
          rfl
      · intro j hj
        rw [hrest.before j (by omega)]
        apply Function.update_of_ne
        bv_omega
      · intro x hx hout
        rw [hrest.frame x hx hout, hframe₁ x hx hout]

theorem ClusterChain.length_pos (hchain : ClusterChain fs disk cs) : 0 < cs.length := by
  cases hchain <;> simp

theorem ClusterChain.size_bounds (hchain : ClusterChain fs disk cs) (h512 : fs.Sectors512)
    (hlength : cs.length ≤ 256) :
    512 ≤ cs.length * fs.clusterBytes ∧ cs.length * fs.clusterBytes < 2 ^ 25 := by
  have hpos := h512.sectorsPerCluster
  have hlt := fs.bpb.sectorsPerCluster.isLt
  unfold Fat12.clusterBytes
  constructor
  · calc 512 = 1 * (512 * 1) := rfl
      _ ≤ cs.length * (512 * fs.bpb.sectorsPerCluster.toNat) := by
        gcongr
        · exact hchain.length_pos
        · exact hpos
  · calc cs.length * (512 * fs.bpb.sectorsPerCluster.toNat) ≤ 256 * (512 * 255) := by
          gcongr
          omega
      _ < 2 ^ 25 := by decide

/-! ## Up to the loop that reads the clusters -/

/-- The state in which the clusters are read: the block is allocated and the caller's variables
are set. -/
structure Prepared (fs : Fat12) (cs : List Half) (lo hi : Nat) (live : List (Word × Word))
    (heap : Heap) (buffer len : Word) (heap' : Heap) (ptr : Word) (clusters : Word → Word) :
    Prop where
  ledger : Ledger lo hi heap' ((ptr, BitVec.ofNat 32 (cs.length * fs.clusterBytes)) :: live)
  target : heap'.mem.load32 buffer = ptr
  count : heap'.mem.load32 len = BitVec.ofNat 32 cs.length
  stored : ∀ k < cs.length, clusters (BitVec.ofNat 32 k) = (cs.getD k 0).setWidth 32
  frame : ∀ x, Stable lo hi live x → ¬ InRange buffer 4 x → ¬ InRange len 4 x →
    heap'.mem x = heap.mem x

theorem fat12ReadClusterChain_prepared (hchain : ClusterChain fs disk cs) (h512 : fs.Sectors512)
    (hlength : cs.length ≤ 256) (clusters : Word → Word)
    (h : Roomy lo hi heap live (cs.length * fs.clusterBytes))
    (hbuffer : StableCell lo hi live buffer) (hlen : StableCell lo hi live len)
    (hap : Apart buffer 4 len 4) :
    ∃ heap' ptr clusters', Prepared fs cs lo hi live heap buffer len heap' ptr clusters' ∧
      fat12ReadClusterChain fs disk clusters heap buffer len (cs.headD 0) =
        (readClusters fs disk clusters' buffer len (2 ^ 32) 0 heap'.mem).map
          fun mem => { heap' with mem } := by
  obtain ⟨hsize, hlt⟩ := hchain.size_bounds h512 hlength
  have hzero := h.store32 hlen 0
  obtain ⟨heap₁, clusters', hrun, hc⟩ := collectClusters_chain hchain hzero h512.bytesPerSector
    hsize hlen (i := 0) Mem.load32_store32_self hlength (by omega) clusters
  have hrequest : fs.clusterSize * heap₁.mem.load32 len =
      BitVec.ofNat 32 (cs.length * fs.clusterBytes) := by
    apply BitVec.eq_of_toNat_eq
    rw [hc.count, BitVec.toNat_mul, h512.clusterSize_toNat, BitVec.toNat_ofNat, BitVec.toNat_ofNat,
      Nat.zero_add, Nat.mod_eq_of_lt (show cs.length < 2 ^ 32 by omega), Nat.mul_comm]
  have hnat : (BitVec.ofNat 32 (cs.length * fs.clusterBytes)).toNat =
      cs.length * fs.clusterBytes := by
    rw [BitVec.toNat_ofNat, Nat.mod_eq_of_lt (by omega)]
  obtain ⟨ptr, heap₂, hm, halloc⟩ := hc.roomy.malloc (by omega) hnat.le
  have hcell : ∀ x, ¬ Stable lo hi
      ((ptr, BitVec.ofNat 32 (cs.length * fs.clusterBytes)) :: live) x →
      heap₂.mem.store32 buffer ptr x = heap₂.mem x := fun x hx =>
    Mem.store32_of_not_inRange fun hin => hx ((hbuffer x hin).cons _)
  refine ⟨{ heap₂ with mem := heap₂.mem.store32 buffer ptr }, ptr, clusters',
    ⟨halloc.ledger.write hcell, Mem.load32_store32_self, ?_, ?_, ?_⟩, ?_⟩
  · rw [Mem.load32_store32_apart hap, hlen.load32 halloc.frame, hc.count, Nat.zero_add]
  · intro k hk
    have := hc.stored k hk
    rwa [Nat.zero_add] at this
  · intro x hx hb hl
    show heap₂.mem.store32 buffer ptr x = heap.mem x
    rw [Mem.store32_of_not_inRange hb, halloc.frame x hx, hc.frame x hx hl]
    exact Mem.store32_of_not_inRange hl
  · simp only [fat12ReadClusterChain, hrun, hrequest, hm, bind, Except.bind, pure, Except.pure]
    rfl

/-! ## Reading the clusters -/

theorem readClusters_done {i : Word} (hfuel : 0 < fuel) (h : m.load32 len ≤ i) :
    readClusters fs disk clusters buffer len fuel i m = .ok m := by
  obtain ⟨fuel, rfl⟩ := Nat.exists_eq_add_of_le' hfuel
  rw [readClusters, if_neg (by bv_omega)]

theorem readClusters_next {i : Word} (h : i < m.load32 len) :
    readClusters fs disk clusters buffer len (fuel + 1) i m =
      readClusters fs disk clusters buffer len fuel (i + 1)
        (ataReadInto disk (fat12ClusterLba fs ((clusters i).setWidth 16))
          fs.sectorsPerCluster.toNat m (m.load32 (buffer + 4 * (fs.clusterSize * i)))) := by
  rw [readClusters, if_pos h]

theorem Fat12.sectors_eq_clusterBytes : 512 * fs.sectorsPerCluster.toNat = fs.clusterBytes := by
  rw [Fat12.sectorsPerCluster_toNat, Fat12.clusterBytes]

/-- One iteration writes the cluster to its destination. -/
theorem ataReadInto_cluster (fs : Fat12) (disk : Disk) (m : Mem) (dest : Word) (c : Half) :
    (∀ x, ¬ InRange dest fs.clusterBytes x →
      ataReadInto disk (fat12ClusterLba fs c) fs.sectorsPerCluster.toNat m dest x = m x) ∧
    ∀ k < fs.clusterBytes,
      ataReadInto disk (fat12ClusterLba fs c) fs.sectorsPerCluster.toNat m dest
        (dest + BitVec.ofNat 32 k) = clusterByte fs disk c k := by
  have hlt := fs.clusterBytes_lt
  rw [← Fat12.sectors_eq_clusterBytes] at hlt ⊢
  constructor
  · intro x hx
    exact ataReadInto_frame (by omega) hx
  · intro k hk
    exact ataReadInto_apply (by omega) hk

theorem setWidth_cluster (c : Half) : (c.setWidth 32 : Word).setWidth 16 = c := by bv_omega

/-- A chain of one cluster is read whole. -/
theorem chainReadWhole_single (hchain : ClusterChain fs disk [c]) (h512 : fs.Sectors512) :
    ChainReadWhole fs disk c [c] := by
  intro lo hi heap live clusters buffer len h hbuffer hlen hap
  obtain ⟨heap₁, ptr, clusters', hp, hrun⟩ :=
    fat12ReadClusterChain_prepared hchain h512 (by simp) clusters h hbuffer hlen hap
  have hlt := fs.clusterBytes_lt
  have hsize : (BitVec.ofNat 32 ([c].length * fs.clusterBytes)).toNat = fs.clusterBytes := by
    rw [List.length_singleton, Nat.one_mul, BitVec.toNat_ofNat, Nat.mod_eq_of_lt (by omega)]
  obtain ⟨hout, hin⟩ := ataReadInto_cluster fs disk heap₁.mem ptr c
  generalize hm₂ : ataReadInto disk (fat12ClusterLba fs c) fs.sectorsPerCluster.toNat heap₁.mem
    ptr = m₂ at hout hin
  -- the block is apart from the variables
  have hstable : ∀ x, Stable lo hi live x → m₂ x = heap₁.mem x := by
    intro x hx
    apply hout
    rw [← hsize]
    exact hp.ledger.not_inRange hx
  have hcount : m₂.load32 len = 1 :=
    (Mem.load32_congr fun x hx => hstable x (hlen x hx)).trans hp.count
  have htarget : m₂.load32 buffer = ptr :=
    (Mem.load32_congr fun x hx => hstable x (hbuffer x hx)).trans hp.target
  have hloop : readClusters fs disk clusters' buffer len (2 ^ 32) 0 heap₁.mem = .ok m₂ := by
    have hstored : clusters' 0 = c.setWidth 32 := hp.stored 0 (by simp)
    have hdest : buffer + 4 * (fs.clusterSize * 0) = buffer := by simp
    have hone : heap₁.mem.load32 len = 1 := hp.count
    have hfirst : (0 : Word) < heap₁.mem.load32 len := by
      rw [hone]
      decide
    rw [show (2 ^ 32 : Nat) = 2 ^ 32 - 1 + 1 from rfl, readClusters_next hfirst, hstored,
      setWidth_cluster, hdest, hp.target, hm₂,
      readClusters_done (by decide) (by rw [hcount]; decide)]
  refine ⟨{ heap₁ with mem := m₂ }, ?_, ?_, ⟨?_, ?_⟩, ?_⟩
  · rw [hloop] at hrun
    exact hrun
  · simp only [hcount]
    rfl
  · simp only [htarget]
    apply hp.ledger.write
    intro x hx
    apply hout
    rw [← hsize]
    exact fun hin => hx (Or.inr (Or.inr ⟨_, List.mem_cons_self, hin⟩))
  · intro k hk
    rw [List.length_singleton, Nat.one_mul] at hk
    simp only [htarget]
    rw [hin k hk, chainByte, Nat.div_eq_of_lt hk, Nat.mod_eq_of_lt hk]
    rfl
  · intro x hx hb hl
    rw [← hp.frame x hx hb hl]
    exact hstable x hx

/-- A directory is read whole when its chain is. -/
theorem ChainReadWhole.directory (hwhole : ChainReadWhole fs disk c cs) (h512 : fs.Sectors512)
    (hvalid : fat12ValidCluster c = true) (hlength : cs.length ≤ 256) :
    DirectoryReadWhole fs disk c cs := by
  intro lo hi heap live clusters chainLen entries len h hentries hlen hchainLen hel hec hlc
  obtain ⟨heap', hrun, hcount, hholds, hframe⟩ := hwhole lo hi _ live clusters entries chainLen
    (h.store32 hchainLen 0) hentries hchainLen hec
  have hne : c ≠ 0 := by
    rintro rfl
    simp [fat12ValidCluster] at hvalid
  have hcount' : (heap'.mem.load32 chainLen * fs.sectorsPerCluster * fs.bytesPerSector /
      0x20).toNat = cs.length * fs.clusterBytes / 32 := by
    have hsector : fs.bytesPerSector.toNat = 512 := by
      rw [Fat12.bytesPerSector, h512.bytesPerSector]
      rfl
    have hlt := fs.bpb.sectorsPerCluster.isLt
    have hproduct : cs.length * fs.bpb.sectorsPerCluster.toNat ≤ 256 * 255 := by
      gcongr
      omega
    rw [BitVec.toNat_udiv, BitVec.toNat_mul, BitVec.toNat_mul, hcount,
      Fat12.sectorsPerCluster_toNat, hsector, Nat.mod_eq_of_lt (a := _ * _) (by omega),
      Nat.mod_eq_of_lt (by omega), Fat12.clusterBytes, Nat.mul_assoc, Nat.mul_comm 512]
    rfl
  have hbytes : cs.length * fs.clusterBytes < 2 ^ 25 := by
    have hlt := fs.clusterBytes_lt
    calc cs.length * fs.clusterBytes ≤ 256 * fs.clusterBytes := by gcongr
      _ < 2 ^ 25 := by omega
  generalize hc :
    heap'.mem.load32 chainLen * fs.sectorsPerCluster * fs.bytesPerSector / 0x20 = count
    at hcount'
  have htarget : (heap'.mem.store32 len count).load32 entries = heap'.mem.load32 entries :=
    Mem.load32_store32_apart hel.symm
  refine ⟨{ heap' with mem := heap'.mem.store32 len count }, ?_, ?_, ⟨?_, ?_⟩⟩
  · simp only [fat12ReadDirectory, hne, if_false, hrun, bind, Except.bind, pure, Except.pure, hc]
  · simp only [Mem.load32_store32_self, hcount']
  · simp only [htarget]
    apply hholds.ledger.write
    intro x hx
    exact Mem.store32_of_not_inRange fun hin => hx ((hlen x hin).cons _)
  · intro k hk
    simp only [htarget]
    rw [Mem.store32_of_not_inRange, hholds.bytes k hk]
    intro hin
    apply hholds.ledger.not_inRange (hlen _ hin)
    rw [BitVec.toNat_ofNat, Nat.mod_eq_of_lt (by omega)]
    exact inRange_add hk (by omega)

/-! ## A longer chain

The pointers behind the caller's variable are zero below, so that every cluster but the first is
written to address 0. -/

/-- A heap of one chunk of `size` bytes, in memory that is zero but for its first byte. -/
def strayHeap (b : Byte) (size : Nat) : Heap :=
  oneChunk (fun x => if x = 0 then b else 0) 0x20000 (BitVec.ofNat 32 size)

theorem strayHeap_roomy (b : Byte) (hsize : size < 2 ^ 25) :
    Roomy 0x20000 (0x20010 + size) (strayHeap b size) [] size := by
  have hnat : (BitVec.ofNat 32 size).toNat = size := by
    rw [BitVec.toNat_ofNat, Nat.mod_eq_of_lt (by omega)]
  have hroomy : Roomy 0x20000 (0x20010 + (BitVec.ofNat 32 size).toNat) (strayHeap b size) []
      (BitVec.ofNat 32 size).toNat := roomy_oneChunk (by decide) (by rw [hnat]; bv_omega)
  rwa [hnat] at hroomy

theorem strayHeap_mem (b : Byte) {x : Word} (hx : x.toNat < 0x20000 ∨ 0x20010 ≤ x.toNat) :
    (strayHeap b size).mem x = if x = 0 then b else 0 := by
  apply oneChunk_frame
  rw [inRange_toNat (by decide)]
  simp only [BitVec.reduceToNat]
  omega

/-- Variables above the heap. -/
theorem strayHeap_cell {a : Word} (hsize : size < 2 ^ 25) (ha : 0xB0000000 ≤ a.toNat)
    (ha' : a.toNat + 4 ≤ 2 ^ 32) : StableCell 0x20000 (0x20010 + size) [] a := by
  intro x hx
  rw [inRange_toNat ha'] at hx
  exact Or.inr (Or.inl (by omega))

/-- The rest of the loop, when all pointers it reads are zero: the last cluster is the one that
stays at address 0. -/
theorem readClusters_astray (hpos : 0 < fs.clusterBytes) (hn : n ≤ 256) (hi : i < n)
    (hcount : m.load32 len = BitVec.ofNat 32 n) (hlen : ∀ x, InRange len 4 x → 2 ^ 17 ≤ x.toNat)
    (hcells : ∀ j < n, i ≤ j → m.load32 (buffer + 4 * (fs.clusterSize * BitVec.ofNat 32 j)) = 0)
    (hfar : ∀ j < n, ∀ x, InRange (buffer + 4 * (fs.clusterSize * BitVec.ofNat 32 j)) 4 x →
      2 ^ 17 ≤ x.toNat)
    (hstored : ∀ k < n, clusters (BitVec.ofNat 32 k) = (cs.getD k 0).setWidth 32)
    (hfuel : n - i < fuel) :
    ∃ m', readClusters fs disk clusters buffer len fuel (BitVec.ofNat 32 i) m = .ok m' ∧
      m' 0 = clusterByte fs disk (cs.getD (n - 1) 0) 0 := by
  induction fuel generalizing i m with
  | zero => omega
  | succ fuel ih =>
    have hlt := fs.clusterBytes_lt
    have hnext : BitVec.ofNat 32 i < m.load32 len := by
      rw [hcount]
      bv_omega
    rw [readClusters_next hnext, hcells i hi le_rfl, hstored i hi, setWidth_cluster]
    obtain ⟨hout, hin⟩ := ataReadInto_cluster fs disk m 0 (cs.getD i 0)
    generalize ataReadInto disk (fat12ClusterLba fs (cs.getD i 0)) fs.sectorsPerCluster.toNat m 0 =
      m₁ at hout hin
    -- the cluster lies below the variables
    have hkeep : ∀ a, (∀ x, InRange a 4 x → 2 ^ 17 ≤ x.toNat) → m₁.load32 a = m.load32 a := by
      intro a ha
      apply Mem.load32_congr
      intro x hx
      apply hout
      have := ha x hx
      unfold InRange
      bv_omega
    have hcount₁ : m₁.load32 len = BitVec.ofNat 32 n := (hkeep len hlen).trans hcount
    have hstep : BitVec.ofNat 32 i + 1 = BitVec.ofNat 32 (i + 1) := by bv_omega
    rw [hstep]
    by_cases hlast : i + 1 = n
    · refine ⟨m₁, readClusters_done (by omega) (by rw [hcount₁, hlast]; exact BitVec.le_refl _), ?_⟩
      have hzero := hin 0 hpos
      rw [BitVec.add_zero] at hzero
      rw [← hlast, Nat.add_sub_cancel]
      exact hzero
    · apply ih (by omega) hcount₁ _ (by omega)
      intro j hj hij
      rw [hkeep _ (hfar j hj), hcells j hj (by omega)]

/-- The bytes of the pointer that is read for cluster `j`. -/
theorem strayCell_toNat {j : Nat} {x : Word} (h512 : fs.Sectors512) (hj : j < 256)
    (hx : InRange (0xC0000000 + 4 * (fs.clusterSize * BitVec.ofNat 32 j)) 4 x) :
    0xC0000000 + 4 * (fs.clusterBytes * j) ≤ x.toNat := by
  have hlt := fs.clusterBytes_lt
  have hmul : fs.clusterBytes * j ≤ 2 ^ 17 * 256 := by gcongr
  have hword : (fs.clusterSize * BitVec.ofNat 32 j).toNat = fs.clusterBytes * j := by
    rw [BitVec.toNat_mul, h512.clusterSize_toNat, BitVec.toNat_ofNat,
      Nat.mod_eq_of_lt (show j < 2 ^ 32 by omega), Nat.mod_eq_of_lt (by omega)]
  generalize fs.clusterSize * BitVec.ofNat 32 j = w at hword hx
  have haddr : (0xC0000000 + 4 * w : Word).toNat = 0xC0000000 + 4 * w.toNat := by bv_omega
  rw [inRange_toNat (by omega)] at hx
  omega

/-- The state after the first cluster has been read, which goes to the block. -/
theorem Prepared.first {b : Byte} {heap₁ : Heap} {ptr : Word} (disk : Disk)
    (hlong : 2 ≤ cs.length) (hlength : cs.length ≤ 256)
    (hsize : cs.length * fs.clusterBytes < 2 ^ 25)
    (hp : Prepared fs cs 0x20000 (0x20010 + cs.length * fs.clusterBytes) []
      (strayHeap b (cs.length * fs.clusterBytes)) 0xC0000000 0xB0000000 heap₁ ptr clusters) :
    ∃ m₁, readClusters fs disk clusters 0xC0000000 0xB0000000 (2 ^ 32) 0 heap₁.mem =
        readClusters fs disk clusters 0xC0000000 0xB0000000 (2 ^ 32 - 1) 1 m₁ ∧
      ∀ x : Word, 0xB0000000 ≤ x.toNat → m₁ x = heap₁.mem x := by
  have hstored : clusters 0 = (cs.getD 0 0).setWidth 32 := hp.stored 0 (by omega)
  have hdest : (0xC0000000 : Word) + 4 * (fs.clusterSize * 0) = 0xC0000000 := by simp
  have hfirst : (0 : Word) < heap₁.mem.load32 0xB0000000 := by
    rw [hp.count]
    bv_omega
  obtain ⟨hout, -⟩ := ataReadInto_cluster fs disk heap₁.mem ptr (cs.getD 0 0)
  refine ⟨_, ?_, fun x hx => hout x fun hin => ?_⟩
  · rw [show (2 ^ 32 : Nat) = 2 ^ 32 - 1 + 1 from rfl, readClusters_next hfirst, hstored,
      setWidth_cluster, hdest, hp.target]
    rfl
  · apply hp.ledger.not_inRange (x := x) (Or.inr (Or.inl (by omega)))
    rw [BitVec.toNat_ofNat, Nat.mod_eq_of_lt (by omega)]
    exact Nat.lt_of_lt_of_le hin (Nat.le_mul_of_pos_left _ (by omega))

/-- A chain of two or more clusters, with zero memory behind the caller's variable: the last
cluster is written to address 0. -/
theorem fat12ReadClusterChain_astray (hchain : ClusterChain fs disk cs) (h512 : fs.Sectors512)
    (hlength : cs.length ≤ 256) (hlong : 2 ≤ cs.length) (clusters : Word → Word) (b : Byte) :
    ∃ heap', fat12ReadClusterChain fs disk clusters
        (strayHeap b (cs.length * fs.clusterBytes)) 0xC0000000 0xB0000000 (cs.headD 0) =
          .ok heap' ∧
      heap'.mem 0 = clusterByte fs disk (cs.getD (cs.length - 1) 0) 0 := by
  obtain ⟨-, hsize⟩ := hchain.size_bounds h512 hlength
  have hap : Apart (0xC0000000 : Word) 4 0xB0000000 4 := by
    unfold Apart
    decide
  obtain ⟨heap₁, ptr, clusters', hp, hrun⟩ := fat12ReadClusterChain_prepared hchain h512 hlength
    clusters (strayHeap_roomy b hsize) (strayHeap_cell hsize (by decide) (by decide))
    (strayHeap_cell hsize (by decide) (by decide)) hap
  obtain ⟨m₁, hfirst, hkeep⟩ := hp.first disk hlong hlength hsize
  have hlen : ∀ x, InRange (0xB0000000 : Word) 4 x → 0xB0000000 ≤ x.toNat := fun x hx =>
    ((inRange_toNat (by decide)).mp hx).1
  have hcount : m₁.load32 0xB0000000 = BitVec.ofNat 32 cs.length :=
    (Mem.load32_congr fun x hx => hkeep x (hlen x hx)).trans hp.count
  have hfar : ∀ j < cs.length, ∀ x : Word,
      InRange (0xC0000000 + 4 * (fs.clusterSize * BitVec.ofNat 32 j)) 4 x →
      0xC0000000 + 4 * (fs.clusterBytes * j) ≤ x.toNat := by
    intro j hj x hx
    exact strayCell_toNat h512 (by omega) hx
  have hcells : ∀ j < cs.length, 1 ≤ j →
      m₁.load32 (0xC0000000 + 4 * (fs.clusterSize * BitVec.ofNat 32 j)) = 0 := by
    intro j hj hpos
    have hsector := h512.sectorsPerCluster
    have hbehind : 512 ≤ fs.clusterBytes * j := by
      calc 512 = 512 * 1 * 1 := rfl
        _ ≤ fs.clusterBytes * j := by
          unfold Fat12.clusterBytes
          gcongr
          exact hsector
    apply Mem.load32_of_zero
    intro x hx
    have hx' := hfar j hj x hx
    rw [hkeep x (by omega), hp.frame x (Or.inr (Or.inl (by omega))), strayHeap_mem b (by omega),
      if_neg (by rintro rfl; simp at hx')]
    · rw [inRange_toNat (by decide)]
      simp only [BitVec.reduceToNat]
      omega
    · rw [inRange_toNat (by decide)]
      simp only [BitVec.reduceToNat]
      omega
  obtain ⟨m', hloop, hzero⟩ := readClusters_astray h512.pos hlength hlong hcount
    (fun x hx => le_trans (by decide) (hlen x hx)) hcells
    (fun j hj x hx => by have := hfar j hj x hx; omega) hp.stored
    (show cs.length - 1 < 2 ^ 32 - 1 by omega)
  refine ⟨{ heap₁ with mem := m' }, ?_, hzero⟩
  have hread := hfirst.trans hloop
  rw [hrun, hread]
  rfl

theorem not_chainReadWhole_of_long (hchain : ClusterChain fs disk cs) (h512 : fs.Sectors512)
    (hlength : cs.length ≤ 256) (hlong : 2 ≤ cs.length) :
    ¬ ChainReadWhole fs disk (cs.headD 0) cs := by
  intro hwhole
  obtain ⟨-, hsize⟩ := hchain.size_bounds h512 hlength
  let b := ~~~ clusterByte fs disk (cs.getD (cs.length - 1) 0) 0
  obtain ⟨heap', hrun, hastray⟩ :=
    fat12ReadClusterChain_astray hchain h512 hlength hlong (fun _ => 0) b
  obtain ⟨heap'', hrun', -, -, hframe⟩ := hwhole _ _ _ _ (fun _ => 0) 0xC0000000 0xB0000000
    (strayHeap_roomy b hsize) (strayHeap_cell hsize (by decide) (by decide))
    (strayHeap_cell hsize (by decide) (by decide)) (by unfold Apart; decide)
  obtain rfl := Except.ok.inj (hrun.symm.trans hrun')
  have hkept := hframe 0 (Or.inl (by decide)) (by decide) (by decide)
  rw [hastray, strayHeap_mem b (Or.inl (by decide)), if_pos rfl] at hkept
  have hnot : ∀ v : Byte, v ≠ ~~~ v := by decide
  exact hnot _ hkept

end

/-- A chain of one to 256 clusters, and the directory in it, is read whole exactly when it is one
cluster long. -/
theorem fat12ReadClusterChain_whole_iff (fs : Fat12) (disk : Disk) (c : Half) (rest : List Half)
    (h512 : fs.Sectors512) (hchain : ClusterChain fs disk (c :: rest))
    (hlength : (c :: rest).length ≤ 256) :
    (ChainReadWhole fs disk c (c :: rest) ∧ DirectoryReadWhole fs disk c (c :: rest)) ↔
      (c :: rest).length = 1 := by
  constructor
  · rintro ⟨hwhole, -⟩
    by_contra hne
    have hlong : 2 ≤ (c :: rest).length := by
      have := hchain.length_pos
      omega
    exact not_chainReadWhole_of_long hchain h512 hlength hlong hwhole
  · intro hone
    obtain rfl : rest = [] := by simpa using hone
    have hwhole := chainReadWhole_single hchain h512
    have hvalid : fat12ValidCluster c = true := by
      cases hchain
      assumption
    exact ⟨hwhole, hwhole.directory h512 hvalid hlength⟩

theorem sectors512_floppy : (fat12Init floppyBpb).Sectors512 := ⟨rfl, by decide⟩

/-- A FAT filled with `0xFF` ends every chain after its first cluster. -/
theorem clusterChain_one : ClusterChain (fat12Init floppyBpb) (fun _ _ => 0xFF) [2] :=
  .last (by decide) (fatLink_of_not_split (fun _ _ => 0xFF) rfl (by decide)) (by decide)

theorem fat12ReadClusterChain_whole_iff_one :
    ClusterChain (fat12Init floppyBpb) (fun _ _ => 0xFF) [2] ∧
    ((ChainReadWhole (fat12Init floppyBpb) (fun _ _ => 0xFF) 2 [2] ∧
      DirectoryReadWhole (fat12Init floppyBpb) (fun _ _ => 0xFF) 2 [2]) ↔
      [(2 : Half)].length = 1) :=
  ⟨clusterChain_one, fat12ReadClusterChain_whole_iff (fat12Init floppyBpb) (fun _ _ => 0xFF) 2 []
    sectors512_floppy clusterChain_one (by decide)⟩

theorem clusterChain_two : ClusterChain (fat12Init floppyBpb) twoClusterDisk [2, 3] := by
  have hlink₂ : FatLink (fat12Init floppyBpb) twoClusterDisk 2 3 :=
    fatLink_of_not_split twoClusterDisk rfl (by decide)
  have hlink₃ : FatLink (fat12Init floppyBpb) twoClusterDisk 3 0xFFF :=
    fatLink_of_not_split twoClusterDisk rfl (by decide)
  exact .cons (by decide) hlink₂ (.last (by decide) hlink₃ (by decide))

/-- The second of two clusters is written to address 0. -/
theorem fat12ReadClusterChain_two_clusters :
    ClusterChain (fat12Init floppyBpb) twoClusterDisk [2, 3] ∧
    (∃ heap', fat12ReadClusterChain (fat12Init floppyBpb) twoClusterDisk (fun _ => 0)
        (strayHeap 0 1024) 0xC0000000 0xB0000000 2 = .ok heap' ∧
      (strayHeap 0 1024).mem 0 = 0 ∧ heap'.mem 0 = 0xAA) ∧
    ¬ ChainReadWhole (fat12Init floppyBpb) twoClusterDisk 2 [2, 3] := by
  obtain ⟨heap', hrun, hzero⟩ := fat12ReadClusterChain_astray clusterChain_two sectors512_floppy
    (by decide) (by decide) (fun _ => 0) 0
  exact ⟨clusterChain_two, ⟨heap', hrun, strayHeap_mem 0 (Or.inl (by decide)), hzero⟩,
    not_chainReadWhole_of_long clusterChain_two sectors512_floppy (by decide) (by decide)⟩

end Hjortron
