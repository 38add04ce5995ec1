import Hjortron.Filesystem.Fat12
import Mathlib.Logic.Function.Iterate
import Mathlib.Tactic.Linarith

/-!
# What `fat12_read` delivers

The contents of a file are the clusters of its chain one after the other. A read that starts at
offset `o` and asks for `m` bytes of the file copies a slice of every cluster from the first to
the last. The clusters in between are copied with the slice of the first one, so the read is
exact when it starts at a cluster border or touches two clusters at most (`ReadExact`); any
other read advances by too little.
-/

namespace Hjortron

/-- The size of a cluster in bytes, with sectors of 512 bytes. -/
def Fat12.clusterBytes (fs : Fat12) : Nat := 512 * fs.bpb.sectorsPerCluster.toNat

/-- Sectors of 512 bytes and at least one sector per cluster. -/
structure Fat12.Sectors512 (fs : Fat12) : Prop where
  bytesPerSector : fs.bpb.bytesPerSector = 512
  sectorsPerCluster : 0 < fs.bpb.sectorsPerCluster.toNat

/-- Cluster number `i` of the chain that starts at `ref`. -/
def chainCluster (readFat : Half → Half) (ref : Word) (i : Nat) : Half :=
  readFat^[i] (ref.setWidth 16)

/-- The chain has a valid cluster for every byte below `len`. -/
def ValidChain (fs : Fat12) (readFat : Half → Half) (ref : Word) (len : Nat) : Prop :=
  ∀ i, i * fs.clusterBytes < len → fat12ValidCluster (chainCluster readFat ref i) = true

/-- Byte `k` of a cluster. -/
def clusterByte (fs : Fat12) (disk : Disk) (cluster : Half) (k : Nat) : Byte :=
  disk (fat12ClusterLba fs cluster + BitVec.ofNat 32 (k / 512)) (k % 512)

/-- Byte `p` of the file that starts at `ref`. -/
def fileByte (fs : Fat12) (disk : Disk) (readFat : Half → Half) (ref : Word) (p : Nat) : Byte :=
  clusterByte fs disk (chainCluster readFat ref (p / fs.clusterBytes)) (p % fs.clusterBytes)

/-- A read of `m` bytes at offset `o` needs no slice of a cluster between its first and its
last, or copies these whole because it starts at a cluster border. -/
def ReadExact (fs : Fat12) (o m : Nat) : Prop :=
  o % fs.clusterBytes = 0 ∨ (o + m) / fs.clusterBytes ≤ o / fs.clusterBytes + 1

instance (fs : Fat12) (o m : Nat) : Decidable (ReadExact fs o m) :=
  inferInstanceAs (Decidable (_ ∨ _))

section

variable {fs : Fat12} {disk : Disk} {readFat : Half → Half} {src : Nat → Byte} {ref buffer : Word}
  {mem : Mem} {st st' : ReadState} {span : ReadSpan} {i n o m : Nat}

theorem Fat12.Sectors512.pos (h : fs.Sectors512) : 0 < fs.clusterBytes := by
  have := h.sectorsPerCluster
  unfold Fat12.clusterBytes
  omega

theorem Fat12.clusterBytes_lt : fs.clusterBytes < 2 ^ 17 := by
  have := fs.bpb.sectorsPerCluster.isLt
  unfold Fat12.clusterBytes
  omega

theorem Fat12.sectorsPerCluster_toNat :
    fs.sectorsPerCluster.toNat = fs.bpb.sectorsPerCluster.toNat := by
  unfold Fat12.sectorsPerCluster
  bv_omega

theorem Fat12.Sectors512.clusterSize_toNat (h : fs.Sectors512) :
    fs.clusterSize.toNat = fs.clusterBytes := by
  have h1 := fs.bpb.sectorsPerCluster.isLt
  rw [Fat12.clusterSize, h.bytesPerSector, BitVec.toNat_mul, Fat12.sectorsPerCluster_toNat,
    Fat12.clusterBytes, show ((512 : Half).setWidth 32).toNat = 512 by decide]
  exact Nat.mod_eq_of_lt (by omega)

/-! ## The span of a read -/

theorem Fat12.Sectors512.clusterOf (h : fs.Sectors512) (x : Word) :
    (x / fs.bpb.bytesPerSector.setWidth 32 / fs.sectorsPerCluster).toNat =
      x.toNat / fs.clusterBytes := by
  rw [BitVec.toNat_udiv, BitVec.toNat_udiv, h.bytesPerSector, Fat12.sectorsPerCluster_toNat,
    show ((512 : Half).setWidth 32).toNat = 512 by decide, Nat.div_div_eq_div_mul,
    Fat12.clusterBytes]

theorem Fat12.Sectors512.offsetOf (h : fs.Sectors512) (x : Word) :
    (x % fs.clusterSize).toNat = x.toNat % fs.clusterBytes := by
  rw [BitVec.toNat_umod, h.clusterSize_toNat]

/-- The span of a read as numbers: `o` is the offset and `t` the end of the read. -/
structure SpanOf (fs : Fat12) (span : ReadSpan) (o t : Nat) : Prop where
  clusterBegin : span.clusterBegin.toNat = o / fs.clusterBytes
  offsetBegin : span.offsetBegin.toNat = o % fs.clusterBytes
  clusterEnd : span.clusterEnd.toNat = t / fs.clusterBytes
  offsetEnd : span.offsetEnd.toNat = t % fs.clusterBytes

theorem Fat12.Sectors512.spanOf (h : fs.Sectors512) (offset len : Word) :
    SpanOf fs (readSpan fs offset len) offset.toNat (offset + len).toNat :=
  ⟨h.clusterOf offset, h.offsetOf offset, h.clusterOf _, h.offsetOf _⟩

/-- The slices of the clusters before the last, and the part of the last, add up to the read up
to the bytes that are skipped in every cluster between. -/
theorem slices_add {cs w k ob oe m o : Nat} (hcs : cs = w + ob) (hk : 1 ≤ k)
    (hm : o + m = cs * (o / cs + k) + oe) (ho : o = cs * (o / cs) + ob) :
    w * k + oe + (k - 1) * ob = m := by
  obtain ⟨k, rfl⟩ := Nat.exists_eq_add_of_le hk
  have hm' : cs * (o / cs) + ob + m = cs * (o / cs) + cs * (1 + k) + oe := by
    rw [← ho, hm, Nat.mul_add]
  subst hcs
  rw [Nat.add_sub_cancel_left]
  nlinarith

/-! ## One iteration -/

theorem ataRead_cluster {cluster : Half} {k : Nat} (hk : k < fs.clusterBytes) :
    ataRead disk (fat12ClusterLba fs cluster) fs.sectorsPerCluster.toNat src k =
      clusterByte fs disk cluster k := by
  rw [ataRead, Fat12.sectorsPerCluster_toNat]
  exact if_pos hk

theorem readLoop_invalid {i : Word}
    (hv : fat12ValidCluster (st.cluster.setWidth 16) = false) :
    readLoop fs disk readFat span buffer (n + 1) i st = (st, false) := by
  rw [readLoop, if_pos hv]

theorem readLoop_walk {i : Word} (hv : fat12ValidCluster (st.cluster.setWidth 16) = true)
    (hb : i < span.clusterBegin) (hne : i ≠ span.clusterEnd) :
    readLoop fs disk readFat span buffer (n + 1) i st =
      readLoop fs disk readFat span buffer n (i + 1)
        { st with cluster := (readFat (st.cluster.setWidth 16)).setWidth 32 } := by
  have hnot : ¬ (span.clusterBegin ≤ i ∧ i ≤ span.clusterEnd) := by
    rintro ⟨h, -⟩
    bv_omega
  simp only [readLoop, hv, Bool.true_eq_false, if_false, if_neg hnot, if_pos hne]

theorem readLoop_copy {i : Word} (hv : fat12ValidCluster (st.cluster.setWidth 16) = true)
    (hb : span.clusterBegin ≤ i) (he : i < span.clusterEnd) :
    readLoop fs disk readFat span buffer (n + 1) i st =
      readLoop fs disk readFat span buffer n (i + 1)
        { readCluster fs disk span buffer i st with
          cluster := (readFat (st.cluster.setWidth 16)).setWidth 32 } := by
  have hle : i ≤ span.clusterEnd := by bv_omega
  have hne : i ≠ span.clusterEnd := by bv_omega
  have hin : span.clusterBegin ≤ i ∧ i ≤ span.clusterEnd := ⟨hb, hle⟩
  simp only [readLoop, hv, Bool.true_eq_false, if_false, if_pos hin, if_pos hne]
  rfl

theorem readLoop_last (hv : fat12ValidCluster (st.cluster.setWidth 16) = true)
    (hb : span.clusterBegin ≤ span.clusterEnd) :
    readLoop fs disk readFat span buffer 1 span.clusterEnd st =
      (readCluster fs disk span buffer span.clusterEnd st, true) := by
  have hin : span.clusterBegin ≤ span.clusterEnd ∧ span.clusterEnd ≤ span.clusterEnd :=
    ⟨hb, BitVec.le_refl _⟩
  simp only [readLoop, hv, Bool.true_eq_false, if_false, if_pos hin, ne_eq, not_true_eq_false]

/-- The read has delivered `f 0`, …, `f (d - 1)`. -/
structure Delivered (mem : Mem) (buffer : Word) (o : Nat) (f : Nat → Byte) (d : Nat)
    (st : ReadState) : Prop where
  destOffset : st.destOffset = BitVec.ofNat 32 d
  offset : st.offset = BitVec.ofNat 32 (o + d)
  mem : st.mem = mem.blit buffer f d

theorem Delivered.congr {f g : Nat → Byte} {d : Nat} (h : Delivered mem buffer o f d st)
    (hfg : ∀ k < d, f k = g k) : Delivered mem buffer o g d st :=
  ⟨h.destOffset, h.offset, h.mem.trans (Mem.blit_congr hfg)⟩

/-- Copying a slice that lies inside its cluster. -/
theorem Delivered.readCluster {f : Nat → Byte} {d so sl : Nat} {i : Word} {cluster : Half}
    (h : Delivered mem buffer o f d st) (hcl : st.cluster.setWidth 16 = cluster)
    (hslice : readSlice fs span i st = (BitVec.ofNat 32 so, BitVec.ofNat 32 sl))
    (hle : so + sl ≤ fs.clusterBytes) (hd : d + sl < 2 ^ 32) :
    Delivered mem buffer o
      (fun k => if k < d then f k else clusterByte fs disk cluster (so + (k - d))) (d + sl)
      (readCluster fs disk span buffer i st) := by
  have hcs := fs.clusterBytes_lt
  have hso : (BitVec.ofNat 32 so).toNat = so := Nat.mod_eq_of_lt (by omega)
  have hsl : (BitVec.ofNat 32 sl).toNat = sl := Nat.mod_eq_of_lt (by omega)
  have hsrc : ∀ k < sl, ataRead disk (fat12ClusterLba fs (st.cluster.setWidth 16))
      fs.sectorsPerCluster.toNat st.src (so + k) = clusterByte fs disk cluster (so + k) := by
    intro k hk
    rw [hcl, ataRead_cluster (by omega)]
  refine ⟨?_, ?_, ?_⟩
  · simp only [Hjortron.readCluster, hslice, h.destOffset]
    bv_omega
  · simp only [Hjortron.readCluster, hslice, h.offset]
    bv_omega
  · simp only [Hjortron.readCluster, hslice, h.destOffset, h.mem, hso, hsl]
    rw [Mem.blit_congr hsrc, Mem.blit_blit (by omega) (by omega)]

/-! ## The loop -/

/-- What the clusters from the first on deliver while all are copied with the first slice. -/
def sliceByte (fs : Fat12) (disk : Disk) (readFat : Half → Half) (ref : Word) (o k : Nat) : Byte :=
  let w := fs.clusterBytes - o % fs.clusterBytes
  clusterByte fs disk (chainCluster readFat ref (o / fs.clusterBytes + k / w))
    (o % fs.clusterBytes + k % w)

/-- The loop variables before cluster number `i`, the first cluster being behind. -/
structure AtCluster (fs : Fat12) (disk : Disk) (readFat : Half → Half) (ref : Word) (mem : Mem)
    (buffer : Word) (o i : Nat) (st : ReadState) : Prop where
  cluster : st.cluster.setWidth 16 = chainCluster readFat ref i
  srcOffset : st.srcOffset = BitVec.ofNat 32 (o % fs.clusterBytes)
  srcLen : st.srcLen = BitVec.ofNat 32 (fs.clusterBytes - o % fs.clusterBytes)
  delivered : Delivered mem buffer o (sliceByte fs disk readFat ref o)
    ((fs.clusterBytes - o % fs.clusterBytes) * (i - o / fs.clusterBytes)) st

theorem chainCluster_succ : chainCluster readFat ref (i + 1) =
    readFat (chainCluster readFat ref i) :=
  Function.iterate_succ_apply' readFat i _

theorem setWidth_half (c : Half) : (c.setWidth 32).setWidth 16 = c := by
  bv_omega

theorem SpanOf.lt {t : Nat} (hspan : SpanOf fs span o t) :
    o / fs.clusterBytes < 2 ^ 32 ∧ t / fs.clusterBytes < 2 ^ 32 := by
  rw [← hspan.clusterBegin, ← hspan.clusterEnd]
  exact ⟨span.clusterBegin.isLt, span.clusterEnd.isLt⟩

theorem ofNat_toNat_of_lt (hi : i < 2 ^ 32) : (BitVec.ofNat 32 i).toNat = i :=
  Nat.mod_eq_of_lt hi

theorem eq_ofNat {x : Word} (h : x.toNat = n) : x = BitVec.ofNat 32 n := by
  rw [← h]
  bv_omega

/-- The clusters before the first one are only followed. -/
theorem readLoop_to_begin (disk : Disk) (buffer : Word) (st : ReadState) {t : Nat}
    (hspan : SpanOf fs span o t)
    (hbe : o / fs.clusterBytes ≤ t / fs.clusterBytes)
    (hv : ∀ j < o / fs.clusterBytes, fat12ValidCluster (chainCluster readFat ref j) = true)
    (hi : i ≤ o / fs.clusterBytes) (hcl : st.cluster.setWidth 16 = chainCluster readFat ref i) :
    ∃ c : Word, c.setWidth 16 = chainCluster readFat ref (o / fs.clusterBytes) ∧
      readLoop fs disk readFat span buffer (t / fs.clusterBytes + 1 - i) (BitVec.ofNat 32 i) st =
        readLoop fs disk readFat span buffer (t / fs.clusterBytes + 1 - o / fs.clusterBytes)
          (BitVec.ofNat 32 (o / fs.clusterBytes)) { st with cluster := c } := by
  obtain ⟨hb, he⟩ := hspan.lt
  induction hk : o / fs.clusterBytes - i generalizing i st with
  | zero =>
    obtain rfl : i = o / fs.clusterBytes := by omega
    exact ⟨st.cluster, hcl, rfl⟩
  | succ k ih =>
    have hlt : BitVec.ofNat 32 i < span.clusterBegin := by
      rw [BitVec.lt_def, hspan.clusterBegin, ofNat_toNat_of_lt (by omega)]
      omega
    have hne : BitVec.ofNat 32 i ≠ span.clusterEnd := by
      intro heq
      have := congrArg BitVec.toNat heq
      rw [hspan.clusterEnd, ofNat_toNat_of_lt (by omega)] at this
      omega
    obtain ⟨c, hc, hrun⟩ := @ih (i + 1)
      { st with cluster := (readFat (st.cluster.setWidth 16)).setWidth 32 } (by omega)
      (by rw [setWidth_half, hcl, chainCluster_succ]) (by omega)
    refine ⟨c, hc, ?_⟩
    rw [show t / fs.clusterBytes + 1 - i = t / fs.clusterBytes + 1 - (i + 1) + 1 by omega,
      readLoop_walk (hcl ▸ hv i (by omega)) hlt hne,
      show BitVec.ofNat 32 i + 1 = BitVec.ofNat 32 (i + 1) by bv_omega, hrun]

/-- The bytes that a read over several clusters delivers. -/
def readByte (fs : Fat12) (disk : Disk) (readFat : Half → Half) (ref : Word) (o t k : Nat) : Byte :=
  let d := (fs.clusterBytes - o % fs.clusterBytes) * (t / fs.clusterBytes - o / fs.clusterBytes)
  if k < d then
    sliceByte fs disk readFat ref o k
  else
    clusterByte fs disk (chainCluster readFat ref (t / fs.clusterBytes)) (k - d)

/-- The slice of cluster number `i` is the next part of `sliceByte`. -/
theorem sliceByte_eq {k w b : Nat} (hw : fs.clusterBytes - o % fs.clusterBytes = w)
    (hb : o / fs.clusterBytes = b) (hi : b ≤ i) (hlo : w * (i - b) ≤ k)
    (hhi : k < w * (i - b) + w) :
    sliceByte fs disk readFat ref o k =
      clusterByte fs disk (chainCluster readFat ref i)
        (o % fs.clusterBytes + (k - w * (i - b))) := by
  have hdiv : k / w = i - b := by
    refine Nat.div_eq_of_lt_le ?_ ?_
    · rw [Nat.mul_comm]
      exact hlo
    · rw [Nat.mul_comm, Nat.mul_succ]
      exact hhi
  have hmod : k % w = k - w * (i - b) := by
    rw [Nat.mod_def, hdiv]
  simp only [sliceByte, hw, hb, hdiv, hmod, Nat.add_sub_cancel' hi]

/-- The iteration of a cluster between the first and the last. -/
theorem AtCluster.succ {t : Nat} (hfs : fs.Sectors512) (hspan : SpanOf fs span o t)
    (h : AtCluster fs disk readFat ref mem buffer o i st) (hi : o / fs.clusterBytes < i)
    (hie : i < t / fs.clusterBytes)
    (hd : (fs.clusterBytes - o % fs.clusterBytes) * (i + 1 - o / fs.clusterBytes) < 2 ^ 32) :
    AtCluster fs disk readFat ref mem buffer o (i + 1)
      { readCluster fs disk span buffer (BitVec.ofNat 32 i) st with
        cluster := (readFat (st.cluster.setWidth 16)).setWidth 32 } := by
  obtain ⟨hb, he⟩ := hspan.lt
  have hnat := ofNat_toNat_of_lt (i := i) (by omega)
  have hslice : readSlice fs span (BitVec.ofNat 32 i) st = (st.srcOffset, st.srcLen) := by
    have h1 : BitVec.ofNat 32 i ≠ span.clusterBegin := by
      intro heq
      rw [heq, hspan.clusterBegin] at hnat
      omega
    have h2 : BitVec.ofNat 32 i ≠ span.clusterEnd := by
      intro heq
      rw [heq, hspan.clusterEnd] at hnat
      omega
    simp [readSlice, h1, h2]
  have hmod := Nat.mod_lt o hfs.pos
  generalize hw : fs.clusterBytes - o % fs.clusterBytes = w at *
  generalize hbd : o / fs.clusterBytes = b at *
  have hsum : w * (i + 1 - b) = w * (i - b) + w := by
    rw [show i + 1 - b = i - b + 1 by omega, Nat.mul_succ]
  rw [h.srcOffset, h.srcLen, hw] at hslice
  have hdel := h.delivered
  rw [hw, hbd] at hdel
  have hnext : Delivered mem buffer o _ _ (readCluster fs disk span buffer _ st) :=
    hdel.readCluster h.cluster hslice (by omega) (by omega)
  refine ⟨?_, ?_, ?_, ?_⟩
  · rw [setWidth_half, h.cluster, chainCluster_succ]
  · simp only [readCluster, hslice]
  · simp only [readCluster, hslice, hw]
  · rw [hw, hbd, hsum]
    refine Delivered.congr ⟨hnext.destOffset, hnext.offset, hnext.mem⟩ fun k hk => ?_
    split
    · rfl
    · exact (sliceByte_eq hw hbd hi.le (by omega) hk).symm

/-- The iteration of the last cluster, which may lie behind the end of the chain when nothing of
it is needed. -/
theorem AtCluster.finish {t : Nat} (hfs : fs.Sectors512) (hspan : SpanOf fs span o t)
    (h : AtCluster fs disk readFat ref mem buffer o (t / fs.clusterBytes) st)
    (hbe : o / fs.clusterBytes < t / fs.clusterBytes)
    (hv : fat12ValidCluster (chainCluster readFat ref (t / fs.clusterBytes)) = true ∨
      t % fs.clusterBytes = 0)
    (hd : (fs.clusterBytes - o % fs.clusterBytes) * (t / fs.clusterBytes - o / fs.clusterBytes) +
      t % fs.clusterBytes < 2 ^ 32) :
    Delivered mem buffer o (readByte fs disk readFat ref o t)
      ((fs.clusterBytes - o % fs.clusterBytes) * (t / fs.clusterBytes - o / fs.clusterBytes) +
        t % fs.clusterBytes)
      (readLoop fs disk readFat span buffer 1 (BitVec.ofNat 32 (t / fs.clusterBytes)) st).1 := by
  have hfirst := h.delivered.congr (g := readByte fs disk readFat ref o t) fun k hk => by
    rw [readByte, if_pos hk]
  rw [← eq_ofNat hspan.clusterEnd]
  by_cases hval : fat12ValidCluster (chainCluster readFat ref (t / fs.clusterBytes)) = true
  · have hslice : readSlice fs span span.clusterEnd st =
        (BitVec.ofNat 32 0, BitVec.ofNat 32 (t % fs.clusterBytes)) := by
      have hne : span.clusterEnd ≠ span.clusterBegin := by
        intro heq
        have := congrArg BitVec.toNat heq
        rw [hspan.clusterBegin, hspan.clusterEnd] at this
        omega
      simp [readSlice, hne, ← eq_ofNat hspan.offsetEnd]
    have hle : span.clusterBegin ≤ span.clusterEnd := by
      rw [BitVec.le_def, hspan.clusterBegin, hspan.clusterEnd]
      exact hbe.le
    rw [readLoop_last (h.cluster ▸ hval) hle]
    refine (hfirst.readCluster h.cluster hslice ?_ hd).congr fun k hk => ?_
    · have := Nat.mod_lt t hfs.pos
      omega
    · split
      · rfl
      · rename_i hk'
        rw [readByte, if_neg hk', Nat.zero_add]
  · have h0 : t % fs.clusterBytes = 0 := hv.resolve_left hval
    rw [readLoop_invalid (h.cluster ▸ (by simpa using hval)), h0, Nat.add_zero]
    exact hfirst

/-- The rest of the loop from a cluster behind the first. -/
theorem AtCluster.run {t : Nat} (hfs : fs.Sectors512) (hspan : SpanOf fs span o t)
    (h : AtCluster fs disk readFat ref mem buffer o i st) (hi : o / fs.clusterBytes < i)
    (hie : i ≤ t / fs.clusterBytes)
    (hvalid : ∀ j < t / fs.clusterBytes, fat12ValidCluster (chainCluster readFat ref j) = true)
    (hv : fat12ValidCluster (chainCluster readFat ref (t / fs.clusterBytes)) = true ∨
      t % fs.clusterBytes = 0)
    (hd : (fs.clusterBytes - o % fs.clusterBytes) * (t / fs.clusterBytes - o / fs.clusterBytes) +
      t % fs.clusterBytes < 2 ^ 32) :
    Delivered mem buffer o (readByte fs disk readFat ref o t)
      ((fs.clusterBytes - o % fs.clusterBytes) * (t / fs.clusterBytes - o / fs.clusterBytes) +
        t % fs.clusterBytes)
      (readLoop fs disk readFat span buffer (t / fs.clusterBytes + 1 - i) (BitVec.ofNat 32 i)
        st).1 := by
  obtain ⟨hb, he⟩ := hspan.lt
  induction hk : t / fs.clusterBytes - i generalizing i st with
  | zero =>
    obtain rfl : i = t / fs.clusterBytes := by omega
    rw [Nat.add_sub_cancel_left]
    exact h.finish hfs hspan hi hv hd
  | succ k ih =>
    have hnat := ofNat_toNat_of_lt (i := i) (by omega)
    have hle : span.clusterBegin ≤ BitVec.ofNat 32 i := by
      rw [BitVec.le_def, hspan.clusterBegin, hnat]
      exact hi.le
    have hlt : BitVec.ofNat 32 i < span.clusterEnd := by
      rw [BitVec.lt_def, hspan.clusterEnd, hnat]
      omega
    have hmono : (fs.clusterBytes - o % fs.clusterBytes) * (i + 1 - o / fs.clusterBytes) ≤
        (fs.clusterBytes - o % fs.clusterBytes) *
          (t / fs.clusterBytes - o / fs.clusterBytes) := Nat.mul_le_mul_left _ (by omega)
    have hnext := h.succ hfs hspan hi (by omega) (by omega)
    rw [show t / fs.clusterBytes + 1 - i = t / fs.clusterBytes + 1 - (i + 1) + 1 by omega,
      readLoop_copy (h.cluster ▸ hvalid i (by omega)) hle hlt,
      show BitVec.ofNat 32 i + 1 = BitVec.ofNat 32 (i + 1) by bv_omega]
    exact ih hnext (by omega) (by omega) (by omega)

/-- The iteration of the first cluster, when others follow. -/
theorem atCluster_first (disk : Disk) {t : Nat} {f : Nat → Byte} (hfs : fs.Sectors512)
    (hspan : SpanOf fs span o t) (h : Delivered mem buffer o f 0 st)
    (hcl : st.cluster.setWidth 16 = chainCluster readFat ref (o / fs.clusterBytes))
    (hbe : o / fs.clusterBytes < t / fs.clusterBytes) :
    AtCluster fs disk readFat ref mem buffer o (o / fs.clusterBytes + 1)
      { readCluster fs disk span buffer span.clusterBegin st with
        cluster := (readFat (st.cluster.setWidth 16)).setWidth 32 } := by
  have hcs := fs.clusterBytes_lt
  have hmod := Nat.mod_lt o hfs.pos
  have hne : span.clusterBegin ≠ span.clusterEnd := by
    intro heq
    have := congrArg BitVec.toNat heq
    rw [hspan.clusterBegin, hspan.clusterEnd] at this
    omega
  have hsize : fs.clusterSize - span.offsetBegin =
      BitVec.ofNat 32 (fs.clusterBytes - o % fs.clusterBytes) := by
    have h1 := hfs.clusterSize_toNat
    have h2 := hspan.offsetBegin
    bv_omega
  have hslice : readSlice fs span span.clusterBegin st =
      (BitVec.ofNat 32 (o % fs.clusterBytes),
        BitVec.ofNat 32 (fs.clusterBytes - o % fs.clusterBytes)) := by
    simp [readSlice, hne, hsize, ← eq_ofNat hspan.offsetBegin]
  have hnext : Delivered mem buffer o _ _ (readCluster fs disk span buffer _ st) :=
    h.readCluster hcl hslice (by omega) (by omega)
  refine ⟨?_, ?_, ?_, ?_⟩
  · rw [setWidth_half, hcl, chainCluster_succ]
  · simp only [readCluster, hslice]
  · simp only [readCluster, hslice]
  · rw [Nat.add_sub_cancel_left, Nat.mul_one]
    rw [Nat.zero_add] at hnext
    refine Delivered.congr ⟨hnext.destOffset, hnext.offset, hnext.mem⟩ fun k hk => ?_
    rw [if_neg (Nat.not_lt_zero k), sliceByte_eq rfl rfl le_rfl (by simp) (by simpa using hk)]
    simp

/-- A read inside one cluster. -/
theorem Delivered.single (disk : Disk) {t : Nat} {f : Nat → Byte} (hfs : fs.Sectors512)
    (hspan : SpanOf fs span o t) (h : Delivered mem buffer o f 0 st)
    (hcl : st.cluster.setWidth 16 = chainCluster readFat ref (o / fs.clusterBytes))
    (hv : fat12ValidCluster (chainCluster readFat ref (o / fs.clusterBytes)) = true)
    (hbe : o / fs.clusterBytes = t / fs.clusterBytes)
    (hle : o % fs.clusterBytes ≤ t % fs.clusterBytes) :
    Delivered mem buffer o (fun k => clusterByte fs disk
        (chainCluster readFat ref (o / fs.clusterBytes)) (o % fs.clusterBytes + k))
      (t % fs.clusterBytes - o % fs.clusterBytes)
      (readLoop fs disk readFat span buffer 1 span.clusterEnd st).1 := by
  have hcs := fs.clusterBytes_lt
  have hmod := Nat.mod_lt t hfs.pos
  have heq : span.clusterEnd = span.clusterBegin := by
    apply BitVec.eq_of_toNat_eq
    rw [hspan.clusterBegin, hspan.clusterEnd, hbe]
  have hsize : span.offsetEnd - span.offsetBegin =
      BitVec.ofNat 32 (t % fs.clusterBytes - o % fs.clusterBytes) := by
    have h1 := hspan.offsetBegin
    have h2 := hspan.offsetEnd
    bv_omega
  have hslice : readSlice fs span span.clusterEnd st =
      (BitVec.ofNat 32 (o % fs.clusterBytes),
        BitVec.ofNat 32 (t % fs.clusterBytes - o % fs.clusterBytes)) := by
    simp [readSlice, heq, hsize, ← eq_ofNat hspan.offsetBegin]
  rw [readLoop_last (hcl ▸ hv) (heq ▸ BitVec.le_refl _)]
  have hnext : Delivered mem buffer o _ _ (Hjortron.readCluster fs disk span buffer _ st) :=
    h.readCluster hcl hslice (by omega) (by omega)
  rw [Nat.zero_add] at hnext
  refine hnext.congr fun k _ => ?_
  rw [if_neg (Nat.not_lt_zero k), Nat.sub_zero]

/-- An exact read over several clusters delivers the bytes of the file. -/
theorem readByte_eq_fileByte {k : Nat} (hfs : fs.Sectors512) (hex : ReadExact fs o m)
    (hbe : o / fs.clusterBytes < (o + m) / fs.clusterBytes) (hk : k < m) :
    readByte fs disk readFat ref o (o + m) k = fileByte fs disk readFat ref (o + k) := by
  have hcs := hfs.pos
  have ho := Nat.div_add_mod o fs.clusterBytes
  have ht := Nat.div_add_mod (o + m) fs.clusterBytes
  have hmod := Nat.mod_lt o hcs
  have hmod' := Nat.mod_lt (o + m) hcs
  simp only [readByte, fileByte]
  generalize hb : o / fs.clusterBytes = b at *
  generalize hob : o % fs.clusterBytes = ob at *
  generalize he : (o + m) / fs.clusterBytes = e at *
  generalize hoe : (o + m) % fs.clusterBytes = oe at *
  -- where the part of the last cluster begins
  have hborder : o + (fs.clusterBytes - ob) * (e - b) = fs.clusterBytes * e := by
    rcases hex with h0 | h1
    · obtain rfl : ob = 0 := hob.symm.trans h0
      rw [Nat.sub_zero, ← ho, Nat.add_zero, ← Nat.mul_add, Nat.add_sub_cancel' hbe.le]
    · obtain rfl : e = b + 1 := by omega
      rw [Nat.add_sub_cancel_left, Nat.mul_one, Nat.mul_succ]
      omega
  have hpos : ∀ i j, j < fs.clusterBytes → o + k = fs.clusterBytes * i + j →
      (o + k) / fs.clusterBytes = i ∧ (o + k) % fs.clusterBytes = j := by
    intro i j hj hsum
    rw [hsum, Nat.mul_add_div hcs, Nat.div_eq_of_lt hj, Nat.mul_add_mod, Nat.mod_eq_of_lt hj]
    exact ⟨rfl, rfl⟩
  split
  · rename_i hlt
    rcases hex with h0 | h1
    · obtain rfl : ob = 0 := hob.symm.trans h0
      have hdm := Nat.div_add_mod k fs.clusterBytes
      obtain ⟨hq, hr⟩ := hpos (b + k / fs.clusterBytes) (k % fs.clusterBytes)
        (Nat.mod_lt k hcs) (by rw [Nat.mul_add]; omega)
      simp [sliceByte, hb, hob, hq, hr]
    · obtain rfl : e = b + 1 := by omega
      rw [Nat.add_sub_cancel_left, Nat.mul_one] at hlt
      obtain ⟨hq, hr⟩ := hpos b (ob + k) (by omega) (by omega)
      simp [sliceByte, hb, hob, hq, hr, Nat.div_eq_of_lt hlt, Nat.mod_eq_of_lt hlt]
  · rename_i hge
    obtain ⟨hq, hr⟩ := hpos e (k - (fs.clusterBytes - ob) * (e - b)) (by omega) (by omega)
    rw [hq, hr]

theorem not_readExact (hn : ¬ ReadExact fs o m) :
    0 < o % fs.clusterBytes ∧ o / fs.clusterBytes + 1 < (o + m) / fs.clusterBytes := by
  obtain ⟨h0, h1⟩ := not_or.mp hn
  omega

/-- The state after a read of `m` bytes at `o`: all of them are delivered if it is exact, and
fewer otherwise. -/
def ReadOutcome (fs : Fat12) (disk : Disk) (readFat : Half → Half) (ref : Word) (mem : Mem)
    (buffer : Word) (o m : Nat) (st : ReadState) : Prop :=
  ∃ f d, Delivered mem buffer o f d st ∧
    (ReadExact fs o m → d = m ∧ ∀ k < m, f k = fileByte fs disk readFat ref (o + k)) ∧
    (¬ ReadExact fs o m → d < m)

/-- A read that stays inside one cluster. -/
theorem Delivered.outcome_one (disk : Disk) {f : Nat → Byte} (hfs : fs.Sectors512)
    (hspan : SpanOf fs span o (o + m)) (h : Delivered mem buffer o f 0 st)
    (hcl : st.cluster.setWidth 16 = chainCluster readFat ref (o / fs.clusterBytes))
    (hv : fat12ValidCluster (chainCluster readFat ref (o / fs.clusterBytes)) = true)
    (hbe : o / fs.clusterBytes = (o + m) / fs.clusterBytes) :
    ReadOutcome fs disk readFat ref mem buffer o m
      (readLoop fs disk readFat span buffer 1 span.clusterEnd st).1 := by
  have hdm := Nat.div_add_mod o fs.clusterBytes
  have hdm' := Nat.div_add_mod (o + m) fs.clusterBytes
  rw [← hbe] at hdm'
  have hd : (o + m) % fs.clusterBytes - o % fs.clusterBytes = m := by omega
  refine ⟨_, _, h.single disk hfs hspan hcl hv hbe (by omega), fun _ => ⟨hd, fun k hk => ?_⟩,
    fun hn => ?_⟩
  · have hmod := Nat.mod_lt (o + m) hfs.pos
    have hsum : o + k = fs.clusterBytes * (o / fs.clusterBytes) + (o % fs.clusterBytes + k) := by
      omega
    have hj : o % fs.clusterBytes + k < fs.clusterBytes := by omega
    rw [fileByte, hsum, Nat.mul_add_div hfs.pos, Nat.div_eq_of_lt hj, Nat.mul_add_mod,
      Nat.mod_eq_of_lt hj, Nat.add_zero]
  · have := not_readExact hn
    omega

/-- A read that touches several clusters, from the first of them on. -/
theorem Delivered.outcome_several (disk : Disk) {f : Nat → Byte} (hfs : fs.Sectors512)
    (hspan : SpanOf fs span o (o + m)) (h : Delivered mem buffer o f 0 st)
    (hcl : st.cluster.setWidth 16 = chainCluster readFat ref (o / fs.clusterBytes))
    (hv : ∀ j < (o + m) / fs.clusterBytes,
      fat12ValidCluster (chainCluster readFat ref j) = true)
    (hve : fat12ValidCluster (chainCluster readFat ref ((o + m) / fs.clusterBytes)) = true ∨
      (o + m) % fs.clusterBytes = 0)
    (h32 : o + m < 2 ^ 32) (hbe : o / fs.clusterBytes < (o + m) / fs.clusterBytes) :
    ReadOutcome fs disk readFat ref mem buffer o m
      (readLoop fs disk readFat span buffer
        ((o + m) / fs.clusterBytes + 1 - o / fs.clusterBytes)
        (BitVec.ofNat 32 (o / fs.clusterBytes)) st).1 := by
  have hdm := Nat.div_add_mod o fs.clusterBytes
  have hdm' := Nat.div_add_mod (o + m) fs.clusterBytes
  have hmod := Nat.mod_lt o hfs.pos
  have hslices := slices_add (k := (o + m) / fs.clusterBytes - o / fs.clusterBytes)
    (w := fs.clusterBytes - o % fs.clusterBytes) (by omega) (by omega)
    (by rw [Nat.add_sub_cancel' hbe.le]; exact hdm'.symm) hdm.symm
  have hlt : span.clusterBegin < span.clusterEnd := by
    rw [BitVec.lt_def, hspan.clusterBegin, hspan.clusterEnd]
    exact hbe
  have hrun := (atCluster_first disk hfs hspan h hcl hbe).run hfs hspan (Nat.lt_succ_self _) hbe
    hv hve (by omega)
  rw [show (o + m) / fs.clusterBytes + 1 - o / fs.clusterBytes =
      (o + m) / fs.clusterBytes + 1 - (o / fs.clusterBytes + 1) + 1 by omega,
    ← eq_ofNat hspan.clusterBegin, readLoop_copy (by rw [hcl]; exact hv _ hbe) (BitVec.le_refl _)
      hlt,
    show span.clusterBegin + 1 = BitVec.ofNat 32 (o / fs.clusterBytes + 1) by
      have := hspan.clusterBegin
      bv_omega]
  refine ⟨_, _, hrun, fun hex => ?_, fun hn => ?_⟩
  · have hskip : ((o + m) / fs.clusterBytes - o / fs.clusterBytes - 1) *
        (o % fs.clusterBytes) = 0 := by
      rcases hex with h0 | h1
      · rw [h0, Nat.mul_zero]
      · rw [show (o + m) / fs.clusterBytes - o / fs.clusterBytes - 1 = 0 by omega, Nat.zero_mul]
    exact ⟨by omega, fun k hk => readByte_eq_fileByte hfs hex hbe hk⟩
  · obtain ⟨h0, h1⟩ := not_readExact hn
    have := Nat.mul_pos (show 0 < (o + m) / fs.clusterBytes - o / fs.clusterBytes - 1 by omega) h0
    omega

/-- What the whole loop delivers. -/
theorem readLoop_delivers (disk : Disk) (buffer : Word) (st : ReadState) {len : Nat}
    (hfs : fs.Sectors512) (hspan : SpanOf fs span o (o + m))
    (hchain : ValidChain fs readFat ref len) (hm : 0 < m) (hlen : o + m ≤ len)
    (h32 : o + m < 2 ^ 32) (hcl : st.cluster = ref) (hdest : st.destOffset = 0)
    (hoff : st.offset = BitVec.ofNat 32 o) (hmem : st.mem = mem) :
    ReadOutcome fs disk readFat ref mem buffer o m
      (readLoop fs disk readFat span buffer ((o + m) / fs.clusterBytes + 1) 0 st).1 := by
  have hvalid : ∀ j, j * fs.clusterBytes < o + m →
      fat12ValidCluster (chainCluster readFat ref j) = true := fun j hj =>
    hchain j (hj.trans_le hlen)
  have hmul : ∀ j < (o + m) / fs.clusterBytes, j * fs.clusterBytes < o + m := fun j hj =>
    (Nat.mul_lt_mul_of_pos_right hj hfs.pos).trans_le (Nat.div_mul_le_self _ _)
  have hbe : o / fs.clusterBytes ≤ (o + m) / fs.clusterBytes := Nat.div_le_div_right (by omega)
  obtain ⟨c, hc, hwalk⟩ := readLoop_to_begin (i := 0) disk buffer st hspan hbe
    (fun j hj => hvalid j (hmul j (by omega))) (Nat.zero_le _) (by rw [hcl]; rfl)
  have hstart : Delivered mem buffer o (fun _ => 0) 0 { st with cluster := c } :=
    ⟨by simpa using hdest, by simpa using hoff, hmem⟩
  rw [Nat.sub_zero] at hwalk
  change readLoop fs disk readFat span buffer _ 0 st = _ at hwalk
  rw [hwalk]
  rcases hbe.eq_or_lt with heq | hlt
  · have hvb : fat12ValidCluster (chainCluster readFat ref (o / fs.clusterBytes)) = true := by
      apply hvalid
      have := Nat.div_mul_le_self o fs.clusterBytes
      omega
    rw [← eq_ofNat hspan.clusterBegin, show span.clusterBegin = span.clusterEnd from
      BitVec.eq_of_toNat_eq (by rw [hspan.clusterBegin, hspan.clusterEnd, heq]),
      ← heq, Nat.add_sub_cancel_left]
    exact hstart.outcome_one disk hfs hspan hc hvb heq
  · have hve : fat12ValidCluster (chainCluster readFat ref ((o + m) / fs.clusterBytes)) = true ∨
        (o + m) % fs.clusterBytes = 0 := by
      rcases Nat.eq_zero_or_pos ((o + m) % fs.clusterBytes) with h0 | h0
      · exact Or.inr h0
      · refine Or.inl (hvalid _ ?_)
        have hdm' := Nat.div_add_mod (o + m) fs.clusterBytes
        rw [Nat.mul_comm]
        omega
    exact hstart.outcome_several disk hfs hspan hc (fun j hj => hvalid j (hmul j hj)) hve h32 hlt

end

end Hjortron
