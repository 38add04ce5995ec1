import Hjortron.Filesystem.Proofs.Cursor
import Hjortron.Filesystem.Proofs.DriverHeap

/-!
# `fat12_read` on the heap

`fat12_read` copies by way of a heap block, moves the offset in the handle and follows the chain
with the help of other blocks. All the while the loop variables, the offset and the destination are
those of the loop without the heap (`Reading`): every slice lies inside its cluster, and all of them
together inside the bytes that have been asked for (`InSlices`).
-/

namespace Hjortron

/-! ## Copying a cluster -/

section

variable {fs : Fat12} {disk : Disk} {m : Mem} {src file dest cluster so sl x : Word}

/-- Intervals without a common byte are apart. -/
theorem apart_of_disjoint {a b : Word} {n : Nat} (hn : 0 < n)
    (h : ∀ x, InRange a n x → ¬ InRange b n x) : Apart a n b n := by
  have hself (c : Word) : InRange c n c := by
    unfold InRange
    bv_omega
  have ha := h a (hself a)
  have hb : ¬ InRange a n b := fun hin => h b hin (hself b)
  unfold InRange at ha hb
  exact ⟨Nat.le_of_not_lt hb, Nat.le_of_not_lt ha⟩

/-- A cluster is read into its buffer. -/
theorem ataReadInto_cluster_apply (cluster : Half) (m : Mem) (src x : Word) :
    ataReadInto disk (fat12ClusterLba fs cluster) fs.sectorsPerCluster.toNat m src x =
      if InRange src fs.clusterBytes x then clusterByte fs disk cluster (x - src).toNat
      else m x := by
  have hcs := fs.clusterBytes_lt
  have hsize : 512 * fs.sectorsPerCluster.toNat = fs.clusterBytes := by
    rw [Fat12.sectorsPerCluster_toNat]
    rfl
  rw [ataReadInto, hsize, Mem.blit_apply (by omega)]
  rfl

/-- What a copied cluster leaves as it was. -/
theorem copyCluster_frame (hsrc : ¬ InRange src fs.clusterBytes x)
    (hdest : ¬ InRange dest sl.toNat x) (hfile : ¬ InRange (file + 260) 4 x) :
    Driver.copyCluster fs disk src file dest cluster so sl m x = m x := by
  unfold Driver.copyCluster memcpy
  rw [Mem.store32_of_not_inRange hfile, Mem.copy_of_not_inRange (Nat.le_of_lt sl.isLt) hdest,
    ataReadInto_cluster_apply, if_neg hsrc]

/-- What a copied cluster delivers. -/
theorem copyCluster_dest (hslice : so.toNat + sl.toNat ≤ fs.clusterBytes)
    (hsrc : ∀ x, InRange dest sl.toNat x → ¬ InRange src fs.clusterBytes x)
    (hfile : ∀ x, InRange dest sl.toNat x → ¬ InRange (file + 260) 4 x) {k : Nat}
    (hk : k < sl.toNat) :
    Driver.copyCluster fs disk src file dest cluster so sl m (dest + BitVec.ofNat 32 k) =
      clusterByte fs disk (cluster.setWidth 16) (so.toNat + k) := by
  have hcs := fs.clusterBytes_lt
  have hin : InRange dest sl.toNat (dest + BitVec.ofNat 32 k) :=
    inRange_add hk (Nat.le_of_lt sl.isLt)
  have hpart : ∀ x, InRange (src + so) sl.toNat x → InRange src fs.clusterBytes x :=
    fun x hx => inRange_member hslice hx
  have hapart : Apart dest sl.toNat (src + so) sl.toNat :=
    apart_of_disjoint (by omega) fun x hx hx' => hsrc x hx (hpart x hx')
  have hbyte : InRange src fs.clusterBytes (src + so + BitVec.ofNat 32 k) :=
    hpart _ (inRange_add hk (Nat.le_of_lt sl.isLt))
  have hsub : (src + so + BitVec.ofNat 32 k - src).toNat = so.toNat + k := by bv_omega
  unfold Driver.copyCluster memcpy
  rw [Mem.store32_of_not_inRange (hfile _ hin), Mem.copy_apply sl.isLt hapart hk,
    ataReadInto_cluster_apply, if_pos hbyte, hsub]

/-- The offset in the handle moves on. -/
theorem copyCluster_offset
    (hsrc : ∀ x, InRange (file + 260) 4 x → ¬ InRange src fs.clusterBytes x)
    (hdest : ∀ x, InRange dest sl.toNat x → ¬ InRange (file + 260) 4 x) :
    (Driver.copyCluster fs disk src file dest cluster so sl m).load32 (file + 260) =
      m.load32 (file + 260) + sl := by
  have hbefore : (memcpy (ataReadInto disk (fat12ClusterLba fs (cluster.setWidth 16))
      fs.sectorsPerCluster.toNat m src) dest (src + so) sl).load32 (file + 260) =
      m.load32 (file + 260) := by
    apply Mem.load32_congr
    intro y hy
    unfold memcpy
    rw [Mem.copy_of_not_inRange (Nat.le_of_lt sl.isLt) fun hin => hdest y hin hy,
      ataReadInto_cluster_apply, if_neg (hsrc y hy)]
  unfold Driver.copyCluster
  rw [Mem.load32_store32_self, hbefore]

end

/-! ## Slices -/

/-- The variables of the loop that say what is copied, before cluster number `i` of a read of
`m` bytes at `o`. -/
structure InSlices (fs : Fat12) (o i : Nat) (st : ReadState) : Prop where
  before : i ≤ o / fs.clusterBytes → st.destOffset = 0
  srcOffset : o / fs.clusterBytes < i → st.srcOffset = BitVec.ofNat 32 (o % fs.clusterBytes)
  srcLen : o / fs.clusterBytes < i →
    st.srcLen = BitVec.ofNat 32 (fs.clusterBytes - o % fs.clusterBytes)
  destOffset : o / fs.clusterBytes < i → st.destOffset =
    BitVec.ofNat 32 ((fs.clusterBytes - o % fs.clusterBytes) * (i - o / fs.clusterBytes))

/-- A pass of the loop over a valid cluster. -/
def readPass (fs : Fat12) (disk : Disk) (readFat : Half → Half) (span : ReadSpan) (buffer i : Word)
    (st : ReadState) : ReadState :=
  let st :=
    if span.clusterBegin ≤ i ∧ i ≤ span.clusterEnd then
      readCluster fs disk span buffer i st
    else
      st
  if i ≠ span.clusterEnd then
    { st with cluster := (readFat (st.cluster.setWidth 16)).setWidth 32 }
  else
    st

section

variable {fs : Fat12} {disk : Disk} {readFat : Half → Half} {span : ReadSpan} {buffer : Word}
  {st : ReadState} {o m n i : Nat}

theorem readLoop_pass {i : Word} (hv : fat12ValidCluster (st.cluster.setWidth 16) = true) :
    readLoop fs disk readFat span buffer (n + 1) i st =
      readLoop fs disk readFat span buffer n (i + 1)
        (readPass fs disk readFat span buffer i st) := by
  simp only [readLoop, hv, Bool.true_eq_false, if_false, readPass]

/-- The number of a cluster, compared with the first and the last. -/
theorem SpanOf.clusterBegin_iff {t : Nat} (hspan : SpanOf fs span o t) (hi : i < 2 ^ 32) :
    BitVec.ofNat 32 i = span.clusterBegin ↔ i = o / fs.clusterBytes := by
  rw [← BitVec.toNat_inj, hspan.clusterBegin, ofNat_toNat_of_lt hi]

theorem SpanOf.clusterEnd_iff {t : Nat} (hspan : SpanOf fs span o t) (hi : i < 2 ^ 32) :
    BitVec.ofNat 32 i = span.clusterEnd ↔ i = t / fs.clusterBytes := by
  rw [← BitVec.toNat_inj, hspan.clusterEnd, ofNat_toNat_of_lt hi]

theorem SpanOf.inside_iff {t : Nat} (hspan : SpanOf fs span o t) (hi : i < 2 ^ 32) :
    (span.clusterBegin ≤ BitVec.ofNat 32 i ∧ BitVec.ofNat 32 i ≤ span.clusterEnd) ↔
      o / fs.clusterBytes ≤ i ∧ i ≤ t / fs.clusterBytes := by
  rw [BitVec.le_def, BitVec.le_def, hspan.clusterBegin, hspan.clusterEnd, ofNat_toNat_of_lt hi]

/-- The slices of the clusters add up to no more than the read. -/
theorem slices_le (hpos : 0 < fs.clusterBytes)
    (hbe : o / fs.clusterBytes < (o + m) / fs.clusterBytes) :
    (fs.clusterBytes - o % fs.clusterBytes) * ((o + m) / fs.clusterBytes - o / fs.clusterBytes) +
      (o + m) % fs.clusterBytes ≤ m := by
  have hdm := Nat.div_add_mod o fs.clusterBytes
  have hdm' := Nat.div_add_mod (o + m) fs.clusterBytes
  have hmod := Nat.mod_lt o hpos
  have hadd := slices_add (k := (o + m) / fs.clusterBytes - o / fs.clusterBytes)
    (w := fs.clusterBytes - o % fs.clusterBytes) (by omega) (by omega)
    (by rw [Nat.add_sub_cancel' hbe.le]; exact hdm'.symm) hdm.symm
  omega

theorem InSlices.start {ref offset : Word} {src : Nat → Byte} {mem : Mem} :
    InSlices fs o 0 ⟨ref, 0, 0, 0, src, offset, mem⟩ :=
  ⟨fun _ => rfl, fun h => absurd h (Nat.not_lt_zero _), fun h => absurd h (Nat.not_lt_zero _),
    fun h => absurd h (Nat.not_lt_zero _)⟩

/-- The slices before cluster number `i`. -/
theorem InSlices.destOffset_eq (h : InSlices fs o i st) (hb : o / fs.clusterBytes ≤ i) :
    st.destOffset = BitVec.ofNat 32
      ((fs.clusterBytes - o % fs.clusterBytes) * (i - o / fs.clusterBytes)) := by
  rcases Nat.lt_or_eq_of_le hb with hbi | hbi
  · exact h.destOffset hbi
  · rw [h.before hbi.ge, hbi, Nat.sub_self, Nat.mul_zero]
    rfl

/-- All slices but the last are as long as the first. -/
theorem InSlices.slice_of_lt (h : InSlices fs o i st) (hfs : fs.Sectors512)
    (hspan : SpanOf fs span o (o + m)) (hb : o / fs.clusterBytes ≤ i)
    (he : i < (o + m) / fs.clusterBytes) :
    readSlice fs span (BitVec.ofNat 32 i) st =
      (BitVec.ofNat 32 (o % fs.clusterBytes),
        BitVec.ofNat 32 (fs.clusterBytes - o % fs.clusterBytes)) := by
  have hlt := hspan.lt.2
  have hend : ¬ BitVec.ofNat 32 i = span.clusterEnd := by
    rw [hspan.clusterEnd_iff (by omega)]
    omega
  rw [readSlice, if_neg fun hboth => hend hboth.2, if_neg hend]
  by_cases hfirst : i = o / fs.clusterBytes
  · have hsize : fs.clusterSize - span.offsetBegin =
        BitVec.ofNat 32 (fs.clusterBytes - o % fs.clusterBytes) := by
      have h1 := hfs.clusterSize_toNat
      have h2 := hspan.offsetBegin
      have h3 := Nat.mod_lt o hfs.pos
      bv_omega
    rw [if_pos ((hspan.clusterBegin_iff (by omega)).mpr hfirst), hsize, eq_ofNat hspan.offsetBegin]
  · rw [if_neg fun heq => hfirst ((hspan.clusterBegin_iff (by omega)).mp heq),
      h.srcOffset (by omega), h.srcLen (by omega)]

/-- The slice of a cluster lies inside it, and inside the read. -/
theorem InSlices.slice_fits (h : InSlices fs o i st) (hfs : fs.Sectors512)
    (hspan : SpanOf fs span o (o + m)) (hb : o / fs.clusterBytes ≤ i)
    (he : i ≤ (o + m) / fs.clusterBytes) :
    ∃ so sl, readSlice fs span (BitVec.ofNat 32 i) st = (BitVec.ofNat 32 so, BitVec.ofNat 32 sl) ∧
      so + sl ≤ fs.clusterBytes ∧
      (fs.clusterBytes - o % fs.clusterBytes) * (i - o / fs.clusterBytes) + sl ≤ m := by
  have hlt := hspan.lt.2
  have hmod := Nat.mod_lt o hfs.pos
  have hmod' := Nat.mod_lt (o + m) hfs.pos
  rcases Nat.lt_or_eq_of_le he with hie | hie
  · refine ⟨_, _, h.slice_of_lt hfs hspan hb hie, by omega, ?_⟩
    have hle := slices_le hfs.pos (Nat.lt_of_le_of_lt hb hie)
    have hstep : (fs.clusterBytes - o % fs.clusterBytes) * (i - o / fs.clusterBytes) +
        (fs.clusterBytes - o % fs.clusterBytes) ≤
        (fs.clusterBytes - o % fs.clusterBytes) *
          ((o + m) / fs.clusterBytes - o / fs.clusterBytes) := by
      rw [← Nat.mul_succ]
      exact Nat.mul_le_mul_left _ (by omega)
    omega
  · have hend := (hspan.clusterEnd_iff (by omega)).mpr hie
    rcases Nat.lt_or_eq_of_le hb with hbi | hbi
    · have hbegin : ¬ BitVec.ofNat 32 i = span.clusterBegin := by
        rw [hspan.clusterBegin_iff (by omega)]
        omega
      refine ⟨0, (o + m) % fs.clusterBytes, ?_, by omega, ?_⟩
      · rw [readSlice, if_neg fun hboth => hbegin hboth.1, if_neg hbegin, if_pos hend,
          eq_ofNat hspan.offsetEnd]
        rfl
      · rw [hie]
        exact slices_le hfs.pos (by omega)
    · have hbegin := (hspan.clusterBegin_iff (by omega)).mpr hbi.symm
      have hdm := Nat.div_add_mod o fs.clusterBytes
      have hdm' := Nat.div_add_mod (o + m) fs.clusterBytes
      rw [← hie, ← hbi] at hdm'
      have hsize : span.offsetEnd - span.offsetBegin =
          BitVec.ofNat 32 ((o + m) % fs.clusterBytes - o % fs.clusterBytes) := by
        have h1 := hspan.offsetBegin
        have h2 := hspan.offsetEnd
        bv_omega
      refine ⟨o % fs.clusterBytes, (o + m) % fs.clusterBytes - o % fs.clusterBytes, ?_, by omega,
        ?_⟩
      · rw [readSlice, if_pos ⟨hbegin, hend⟩, hsize, eq_ofNat hspan.offsetBegin]
      · rw [hbi, Nat.sub_self, Nat.mul_zero]
        omega

/-- The slice of a cluster of the span, from where the slices before it end. -/
theorem InSlices.fits (h : InSlices fs o i st) (hfs : fs.Sectors512)
    (hspan : SpanOf fs span o (o + m)) (hi : i < 2 ^ 32) (hm : m < 2 ^ 32)
    (hin : span.clusterBegin ≤ BitVec.ofNat 32 i ∧ BitVec.ofNat 32 i ≤ span.clusterEnd) :
    ∃ so sl, readSlice fs span (BitVec.ofNat 32 i) st = (BitVec.ofNat 32 so, BitVec.ofNat 32 sl) ∧
      so + sl ≤ fs.clusterBytes ∧ st.destOffset.toNat + sl ≤ m := by
  have hspanned := (hspan.inside_iff hi).mp hin
  rcases h.slice_fits hfs hspan hspanned.1 hspanned.2 with ⟨so, sl, hslice, hso, hsl⟩
  refine ⟨so, sl, hslice, hso, ?_⟩
  rwa [h.destOffset_eq hspanned.1, ofNat_toNat_of_lt (by omega)]

/-- A pass over a cluster that is not the last. -/
theorem InSlices.pass (h : InSlices fs o i st) (hfs : fs.Sectors512)
    (hspan : SpanOf fs span o (o + m)) (he : i < (o + m) / fs.clusterBytes) :
    InSlices fs o (i + 1) (readPass fs disk readFat span buffer (BitVec.ofNat 32 i) st) := by
  have hlt := hspan.lt.2
  have hend : BitVec.ofNat 32 i ≠ span.clusterEnd := by
    rw [ne_eq, hspan.clusterEnd_iff (by omega)]
    omega
  unfold readPass
  rw [if_pos hend]
  by_cases hb : o / fs.clusterBytes ≤ i
  · have hslice := h.slice_of_lt hfs hspan hb he
    rw [if_pos ((hspan.inside_iff (by omega)).mpr ⟨hb, he.le⟩)]
    refine ⟨fun hle => absurd hle (by omega), fun _ => ?_, fun _ => ?_, fun _ => ?_⟩
    · simp only [readCluster, hslice]
    · simp only [readCluster, hslice]
    · simp only [readCluster, hslice]
      rw [h.destOffset_eq hb, Nat.succ_sub hb, Nat.mul_succ, BitVec.ofNat_add]
  · rw [if_neg fun hin => hb ((hspan.inside_iff (by omega)).mp hin).1]
    exact ⟨fun _ => h.before (by omega), fun hlt => absurd hlt (by omega),
      fun hlt => absurd hlt (by omega), fun hlt => absurd hlt (by omega)⟩

end

/-! ## The loop -/

/-- The bytes that a read may change: `m` bytes from `buffer` on, and the offset of the handle. -/
def ReadTouches (file buffer : Word) (m : Nat) (x : Word) : Prop :=
  InRange buffer m x ∨ InRange (file + 260) 4 x

namespace Driver

open Logged

/-- The loop on the heap has come to where the loop without the heap is. -/
structure Reading (lo hi : Nat) (live : List (Word × Word)) (fs : Fat12) (heap heap' : Heap)
    (srcBuffer file buffer : Word) (m : Nat) (vars : ReadVars) (st : ReadState) : Prop where
  keeps : Keeps lo hi live (ReadTouches file buffer m) heap heap' [(srcBuffer, fs.clusterSize)]
  cluster : vars.cluster = st.cluster
  destOffset : vars.destOffset = st.destOffset
  srcOffset : vars.srcOffset = st.srcOffset
  srcLen : vars.srcLen = st.srcLen
  offset : heap'.mem.load32 (file + 260) = st.offset
  dest : ∀ x, InRange buffer m x → heap'.mem x = st.mem x

section

variable {lo hi : Nat} {live : List (Word × Word)} {fs : Fat12} {disk : Disk}
  {readFat : Half → Half} {span : ReadSpan} {heap heap₁ heap₂ : Heap} {log : List DriverEvent}
  {srcBuffer file buffer : Word} {vars vars' : ReadVars} {st : ReadState} {o m n i : Nat}

/-- The slice of a cluster is copied. Nothing is written outside the live blocks. -/
theorem Reading.readCluster {i : Word}
    (h : Reading lo hi live fs heap heap₁ srcBuffer file buffer m vars st) (hfs : fs.Sectors512)
    (htouch : ∀ x, ReadTouches file buffer m x → Stable lo hi live x)
    (hfile : ∀ x, InRange buffer m x → ¬ InRange (file + 260) 4 x)
    (hfit : span.clusterBegin ≤ i ∧ i ≤ span.clusterEnd → ∃ so sl,
      Hjortron.readSlice fs span i st = (BitVec.ofNat 32 so, BitVec.ofNat 32 sl) ∧
        so + sl ≤ fs.clusterBytes ∧ st.destOffset.toNat + sl ≤ m)
    (hrun : (readCluster fs disk span srcBuffer file buffer i vars).Runs heap₁ vars' heap₂ log) :
    Reading lo hi live fs heap heap₂ srcBuffer file buffer m vars'
      (if span.clusterBegin ≤ i ∧ i ≤ span.clusterEnd then
        Hjortron.readCluster fs disk span buffer i st
      else
        st) ∧
      ∀ size, Roomy lo hi heap₁ ((srcBuffer, fs.clusterSize) :: live) size →
        Roomy lo hi heap₂ ((srcBuffer, fs.clusterSize) :: live) size := by
  rw [Driver.readCluster] at hrun
  by_cases hin : span.clusterBegin ≤ i ∧ i ≤ span.clusterEnd
  · rw [if_pos hin] at hrun ⊢
    rcases hfit hin with ⟨so, sl, hslice, hso, hsl⟩
    have hsame : readSlice fs span i vars = (BitVec.ofNat 32 so, BitVec.ofNat 32 sl) := by
      rw [← hslice, readSlice, Hjortron.readSlice, h.srcOffset, h.srcLen]
    rw [hsame] at hrun
    rcases runs_bind_iff.mp hrun with ⟨_, heap₃, _, _, hwrite, hreturn, rfl⟩
    rcases runs_pure_iff.mp hreturn with ⟨rfl, rfl, rfl⟩
    have hcs := fs.clusterBytes_lt
    have hso' : (BitVec.ofNat 32 so).toNat = so := ofNat_toNat_of_lt (by omega)
    have hsl' : (BitVec.ofNat 32 sl).toNat = sl := ofNat_toNat_of_lt (by omega)
    have hsrc : ∀ x, ReadTouches file buffer m x → ¬ InRange srcBuffer fs.clusterBytes x := by
      intro x hx
      rw [← hfs.clusterSize_toNat]
      exact h.keeps.not_inRange (List.mem_singleton_self _) (htouch x hx)
    have hdest : ∀ x, InRange (buffer + vars.destOffset) (BitVec.ofNat 32 sl).toNat x →
        InRange buffer m x := by
      intro x hx
      rw [hsl', h.destOffset] at hx
      exact inRange_member hsl hx
    have hheap := (runs_write_iff.mp hwrite).1
    have hmem : heap₃.mem = _ := congrArg Heap.mem hheap
    have hframe : ∀ x, ¬ ReadTouches file buffer m x →
        ¬ InRange srcBuffer fs.clusterSize.toNat x →
        copyCluster fs disk srcBuffer file (buffer + vars.destOffset) vars.cluster
          (BitVec.ofNat 32 so) (BitVec.ofNat 32 sl) heap₁.mem x = heap₁.mem x := by
      intro x hx hout
      rw [hfs.clusterSize_toNat] at hout
      apply copyCluster_frame hout
      · exact fun hin => hx (.inl (hdest x hin))
      · exact fun hin => hx (.inr hin)
    refine ⟨⟨h.keeps.write htouch ?_ hwrite, h.cluster, ?_, ?_, ?_, ?_, ?_⟩, ?_⟩
    · intro x hx hown
      exact hframe x hx (hown _ (List.mem_singleton_self _))
    · simp only [Hjortron.readCluster, hslice, h.destOffset]
    · simp only [Hjortron.readCluster, hslice]
    · simp only [Hjortron.readCluster, hslice]
    · rw [hmem, copyCluster_offset (fun x hx => hsrc x (.inr hx)) fun x hx => hfile x (hdest x hx)]
      simp only [Hjortron.readCluster, hslice, h.offset]
    · intro x hx
      rw [hmem]
      simp only [Hjortron.readCluster, hslice, hso', hsl']
      rw [Mem.blit_apply (by omega), ← h.destOffset, ← h.cluster]
      by_cases hcopied : (x - (buffer + vars.destOffset)).toNat < sl
      · have hbyte : (x - (buffer + vars.destOffset)).toNat < (BitVec.ofNat 32 sl).toNat := by
          rwa [hsl']
        have haddr : x = buffer + vars.destOffset +
            BitVec.ofNat 32 (x - (buffer + vars.destOffset)).toNat := by bv_omega
        rw [if_pos hcopied, ataRead_cluster (by omega)]
        conv_lhs => rw [haddr]
        rw [copyCluster_dest (by omega) (fun x hx => hsrc x (.inl (hdest x hx)))
          (fun x hx => hfile x (hdest x hx)) hbyte, hso']
      · have hout : ¬ InRange (buffer + vars.destOffset) (BitVec.ofNat 32 sl).toNat x := by
          rwa [hsl']
        rw [if_neg hcopied, copyCluster_frame (hsrc x (.inl hx)) hout (hfile x hx)]
        exact h.dest x hx
    · intro size hroomy
      rw [hheap]
      apply hroomy.write
      intro x hx
      apply hframe x
      · exact fun hin => hx ((htouch x hin).cons _)
      · exact fun hin => hx (.inr (.inr ⟨_, List.mem_cons_self, hin⟩))
  · rw [if_neg hin] at hrun ⊢
    rcases runs_pure_iff.mp hrun with ⟨rfl, rfl, -⟩
    exact ⟨h, fun _ hroomy => hroomy⟩

/-- The next cluster is looked up. -/
theorem Reading.nextCluster {i : Word}
    (h : Reading lo hi live fs heap heap₁ srcBuffer file buffer m vars st)
    (htouch : ∀ x, ReadTouches file buffer m x → Stable lo hi live x)
    (hrun : (nextCluster fs readFat span i vars).Runs heap₁ vars' heap₂ log) :
    Reading lo hi live fs heap heap₂ srcBuffer file buffer m vars'
      (if i ≠ span.clusterEnd then
        { st with cluster := (readFat (st.cluster.setWidth 16)).setWidth 32 }
      else
        st) := by
  rw [Driver.nextCluster] at hrun
  by_cases hend : i ≠ span.clusterEnd
  · rw [if_pos hend] at hrun ⊢
    rcases runs_bind_iff.mp hrun with ⟨next, heap₃, _, _, hfat, hreturn, rfl⟩
    rcases runs_pure_iff.mp hreturn with ⟨rfl, rfl, rfl⟩
    rcases runs_bind_iff.mp hfat with ⟨ptr, heap₄, _, _, hmalloc, hrest, rfl⟩
    rcases runs_bind_iff.mp hrest with ⟨_, heap₅, _, _, hfree, hnext, rfl⟩
    rcases runs_pure_iff.mp hnext with ⟨rfl, rfl, rfl⟩
    rcases h.keeps.malloc hmalloc with ⟨hmade, hframe⟩
    rcases hmade.free [] _ hfree with ⟨hfreed, hframe'⟩
    have hsame (x : Word) (hx : ReadTouches file buffer m x) : heap₅.mem x = heap₁.mem x := by
      have hstable := Keeps.stable [(srcBuffer, fs.clusterSize)] (htouch x hx)
      rw [hframe' x hstable, hframe x hstable]
    refine ⟨hfreed, ?_, h.destOffset, h.srcOffset, h.srcLen, ?_, ?_⟩
    · simp only [h.cluster]
    · rw [← h.offset]
      exact Mem.load32_congr fun y hy => hsame y (.inr hy)
    · intro x hx
      rw [hsame x (.inl hx)]
      exact h.dest x hx
  · rw [if_neg hend] at hrun ⊢
    rcases runs_pure_iff.mp hrun with ⟨rfl, rfl, -⟩
    exact h

/-- The loop on the heap does what the loop without the heap does. -/
theorem Reading.loop (h : Reading lo hi live fs heap heap₁ srcBuffer file buffer m vars st)
    (hslices : InSlices fs o i st) (hfs : fs.Sectors512) (hspan : SpanOf fs span o (o + m))
    (htouch : ∀ x, ReadTouches file buffer m x → Stable lo hi live x)
    (hfile : ∀ x, InRange buffer m x → ¬ InRange (file + 260) 4 x) (hm : m < 2 ^ 32)
    (hn : i + n = (o + m) / fs.clusterBytes + 1) {done : Bool}
    (hrun : (readLoop fs disk readFat span srcBuffer file buffer n (BitVec.ofNat 32 i) vars).Runs
      heap₁ done heap₂ log) :
    ∃ vars, Reading lo hi live fs heap heap₂ srcBuffer file buffer m vars
      (Hjortron.readLoop fs disk readFat span buffer n (BitVec.ofNat 32 i) st).1 := by
  induction n generalizing i vars st heap₁ log with
  | zero =>
    rcases runs_pure_iff.mp hrun with ⟨-, rfl, -⟩
    exact ⟨vars, h⟩
  | succ n ih =>
    have hlt := hspan.lt.2
    rw [Driver.readLoop, h.cluster] at hrun
    by_cases hvalid : fat12ValidCluster (st.cluster.setWidth 16) = false
    · rw [if_pos hvalid] at hrun
      rcases runs_pure_iff.mp hrun with ⟨-, rfl, -⟩
      rw [readLoop_invalid hvalid]
      exact ⟨vars, h⟩
    · rw [if_neg hvalid] at hrun
      rcases runs_bind_iff.mp hrun with ⟨vars₁, heap₃, _, _, hread, hrest, rfl⟩
      rcases runs_bind_iff.mp hrest with ⟨vars₂, heap₄, _, _, hnext, hloop, rfl⟩
      have hfit := hslices.fits hfs hspan (by omega : i < 2 ^ 32) hm
      have hpassed := (h.readCluster hfs htouch hfile hfit hread).1.nextCluster htouch hnext
      rw [readLoop_pass (by simpa using hvalid)]
      have hcount : BitVec.ofNat 32 i + 1 = BitVec.ofNat 32 (i + 1) := by bv_omega
      rw [hcount] at hloop ⊢
      cases n with
      | zero =>
        rcases runs_pure_iff.mp hloop with ⟨-, rfl, -⟩
        exact ⟨vars₂, hpassed⟩
      | succ n => exact ih hpassed (hslices.pass hfs hspan (by omega)) (by omega) hloop

/-- The handle after a read has the bytes of the offset changed only. -/
theorem fileAt_of_offset {m m' : Mem}
    (h : ∀ x, InRange file 284 x → ¬ InRange (file + 260) 4 x → m' x = m x) :
    fileAt m' file = { fileAt m file with offset := m'.load32 (file + 260) } := by
  have hload (i : Word) (hi : i.toNat + 4 ≤ 260 ∨ 264 ≤ i.toNat) (hi' : i.toNat + 4 ≤ 284) :
      m'.load32 (file + i) = m.load32 (file + i) := by
    apply Mem.load32_congr
    intro y hy
    apply h y
    · exact inRange_member hi' hy
    · unfold InRange at hy ⊢
      bv_omega
  have hname : (List.range 256).map (fun k => m' (file + BitVec.ofNat 32 k)) =
      (List.range 256).map fun k => m (file + BitVec.ofNat 32 k) := by
    apply List.map_congr_left
    intro k hk
    have hlt := List.mem_range.mp hk
    apply h
    · exact inRange_add (by omega) (by decide)
    · unfold InRange
      bv_omega
  unfold fileAt
  rw [hname, hload 256 (by decide) (by decide), hload 264 (by decide) (by decide)]

/-- Before the loop, when the buffer has been made. -/
theorem Reading.start {handle : FsFile} (hledger : Ledger lo hi heap live)
    (hhandle : fileAt heap.mem file = handle)
    (htouch : ∀ x, ReadTouches file buffer m x → Stable lo hi live x)
    (hmalloc : (malloc fs.clusterSize).Runs heap srcBuffer heap₁ log) :
    Reading lo hi live fs heap heap₁ srcBuffer file buffer m ⟨handle.ref, 0, 0, 0⟩
      ⟨handle.ref, 0, 0, 0, fun _ => 0, handle.offset, heap.mem⟩ := by
  have hstart : Keeps lo hi live (ReadTouches file buffer m) heap heap [] := .refl hledger
  rcases hstart.malloc hmalloc with ⟨hmade, hframe⟩
  refine ⟨hmade, rfl, rfl, rfl, rfl, ?_, fun x hx => hframe x (htouch x (.inl hx))⟩
  rw [← hhandle]
  exact Mem.load32_congr fun y hy => hframe y (htouch y (.inr hy))

/-- The divisions of `fat12_read` do not fail. -/
theorem not_divideError (hfs : fs.Sectors512) :
    ¬ (fs.bytesPerSector = 0 ∨ fs.sectorsPerCluster = 0) := by
  have hsectors := hfs.sectorsPerCluster
  have hwidth := fs.sectorsPerCluster_toNat
  unfold Fat12.bytesPerSector
  rw [hfs.bytesPerSector]
  rintro (h | h)
  · exact absurd h (by decide)
  · rw [h] at hwidth
    change 0 = _ at hwidth
    omega

/-- The span of a request that does not wrap around. -/
theorem spanOf_clampLen {handle : FsFile} {len : Word} (hfs : fs.Sectors512)
    (hchain : handle.offset.toNat ≤ handle.len.toNat)
    (h32 : handle.offset.toNat + len.toNat < 2 ^ 32)
    (hm : min len.toNat (handle.len.toNat - handle.offset.toNat) = m) :
    SpanOf fs (readSpan fs handle.offset (clampLen handle len)) handle.offset.toNat
      (handle.offset.toNat + m) := by
  have hclamp := clampLen_toNat hchain h32
  rw [hm] at hclamp
  have hsum : (handle.offset + clampLen handle len).toNat = handle.offset.toNat + m := by
    rw [BitVec.toNat_add, hclamp]
    exact Nat.mod_eq_of_lt (by omega)
  have hspan := hfs.spanOf handle.offset (clampLen handle len)
  rwa [hsum] at hspan

/-- The bytes that a read may change belong to the caller and to the handle. -/
theorem ReadTouches.stable (hopen : (file, sizeofFsFile) ∈ live)
    (hbuffer : ∀ x, InRange buffer m x → Stable lo hi live x) :
    ∀ x, ReadTouches file buffer m x → Stable lo hi live x := by
  rintro x (hx | hx)
  · exact hbuffer x hx
  · have hin : InRange file 284 x := inRange_member (by decide) hx
    exact .inr (.inr ⟨_, hopen, hin⟩)

/-- `fat12_read` on the heap does what it does without the heap: to the handle, and to the bytes
that have been asked for. It may lose its buffer, and it changes nothing else. -/
theorem fat12Read_reads {len : Word} {u : Unit} {handle : FsFile} (hledger : Ledger lo hi heap live)
    (hhandle : fileAt heap.mem file = handle) (hfs : fs.Sectors512)
    (hchain : handle.offset.toNat ≤ handle.len.toNat)
    (h32 : handle.offset.toNat + len.toNat < 2 ^ 32)
    (hm : min len.toNat (handle.len.toNat - handle.offset.toNat) = m)
    (hopen : (file, sizeofFsFile) ∈ live)
    (hbuffer : ∀ x, InRange buffer m x → Stable lo hi live x ∧ ¬ InRange file 284 x)
    (hrun : (fat12Read fs disk readFat file buffer len).Runs heap u heap₂ log) :
    ∃ own, Keeps lo hi live (ReadTouches file buffer m) heap heap₂ own ∧
      fileAt heap₂.mem file =
        (Hjortron.fat12Read fs disk readFat (fun _ => 0) handle heap.mem buffer len).file ∧
      ∀ x, InRange buffer m x → heap₂.mem x =
        (Hjortron.fat12Read fs disk readFat (fun _ => 0) handle heap.mem buffer len).mem x := by
  have htouch := ReadTouches.stable hopen fun x hx => (hbuffer x hx).1
  have hfile : ∀ x, InRange buffer m x → ¬ InRange (file + 260) 4 x :=
    fun x hx hin => (hbuffer x hx).2 (inRange_member (by decide) hin)
  rcases runs_bind_iff.mp hrun with ⟨handle', _, _, _, hread, hrest, rfl⟩
  rcases runs_read_iff.mp hread with ⟨rfl, rfl, rfl⟩
  rw [hhandle] at hrest
  dsimp only at hrest
  unfold Hjortron.fat12Read
  dsimp only
  by_cases h0 : clampLen handle len = 0
  · rw [if_pos h0] at hrest ⊢
    rcases runs_pure_iff.mp hrest with ⟨-, rfl, -⟩
    exact ⟨[], .refl hledger, hhandle, fun x hx => rfl⟩
  · rw [if_neg h0] at hrest ⊢
    rw [if_neg (not_divideError hfs)] at hrest
    rcases runs_bind_iff.mp hrest with ⟨srcBuffer, heap₁, _, _, hmalloc, hrest, -⟩
    rcases runs_bind_iff.mp hrest with ⟨done, heap₃, _, _, hloop, hend, -⟩
    have hspan := spanOf_clampLen hfs hchain h32 hm
    have hreading := Reading.start hledger hhandle htouch hmalloc
    rcases hreading.loop .start hfs hspan htouch hfile (by omega)
      (by rw [Nat.zero_add, hspan.clusterEnd]) hloop with ⟨vars, hdone⟩
    -- the buffer is freed or lost
    have hleft : ∃ own, Keeps lo hi live (ReadTouches file buffer m) heap heap₂ own ∧
        ∀ x, Stable lo hi live x → heap₂.mem x = heap₃.mem x := by
      cases done with
      | true =>
        rcases hdone.keeps.free [] [] hend with ⟨hfreed, hsame⟩
        exact ⟨[], hfreed, hsame⟩
      | false =>
        rcases runs_pure_iff.mp hend with ⟨-, rfl, -⟩
        exact ⟨_, hdone.keeps, fun x _ => rfl⟩
    rcases hleft with ⟨own, hkeeps, hsame⟩
    refine ⟨own, hkeeps, ?_, fun x hx => ?_⟩
    · have hoffset : heap₂.mem.load32 (file + 260) = _ :=
        (Mem.load32_congr fun y hy => hsame y (htouch y (.inr hy))).trans hdone.offset
      rw [fileAt_of_offset (m := heap.mem), hhandle, hoffset]
      · rw [hspan.clusterEnd]
        rfl
      · intro x hx hout
        apply hkeeps.frame x (.inr (.inr ⟨_, hopen, hx⟩))
        rintro (hin | hin)
        · exact (hbuffer x hin).2 hx
        · exact hout hin
    · rw [hsame x (htouch x (.inl hx)), hdone.dest x hx, hspan.clusterEnd]
      rfl

end

end Driver

end Hjortron
