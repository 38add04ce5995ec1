import Hjortron.Filesystem.ClusterChain
import Hjortron.Memory.Proofs.Ledger

/-!
# Entries of the FAT

`fat12_read_fat` reads the one sector that the first byte of an entry lies in. An entry whose
second byte lies in the next sector is completed with whatever byte follows the buffer.
-/

namespace Hjortron

open BlockList

/-- Byte `i` of the FAT on the disk. -/
def fatByte (fs : Fat12) (disk : Disk) (i : Nat) : Byte :=
  disk (fs.lbaFat1 + BitVec.ofNat 32 (i / 512)) (i % 512)

/-- The byte offset of the entry of cluster `c`. -/
def fatOffset (c : Nat) : Nat := c + c / 2

/-- Entry `c` of a packed FAT: the upper or the lower 12 bits of two bytes. -/
def fatEntry (f : Nat → Byte) (c : Nat) : Nat :=
  let w := (f (fatOffset c)).toNat + 256 * (f (fatOffset c + 1)).toNat
  if c % 2 = 1 then w >>> 4 else w &&& 0xFFF

/-- The two bytes of the entry lie in different sectors. -/
def SplitEntry (c : Nat) : Prop := fatOffset c % 512 = 511

instance (c : Nat) : Decidable (SplitEntry c) := inferInstanceAs (Decidable (_ = _))

/-- On every heap with room for a sector `fat12_read_fat` returns `next` for `cluster`. -/
def FatLink (fs : Fat12) (disk : Disk) (cluster next : Half) : Prop :=
  ∀ heap bs, HeapInv heap bs → (∃ b ∈ bs, b.Fits 512) →
    ∃ heap', fat12ReadFat fs disk heap cluster = .ok (next, heap')

variable {fs : Fat12} {disk : Disk} {heap : Heap} {lo hi size : Nat} {live : List (Word × Word)}
  {c next : Half}

/-! ## Decoding -/

theorem ofNat_div {a : Nat} (k : Word) (ha : a < 2 ^ 32) :
    BitVec.ofNat 32 a / k = BitVec.ofNat 32 (a / k.toNat) := by
  apply BitVec.eq_of_toNat_eq
  rw [BitVec.toNat_udiv, BitVec.toNat_ofNat, BitVec.toNat_ofNat, Nat.mod_eq_of_lt ha,
    Nat.mod_eq_of_lt ((Nat.div_le_self _ _).trans_lt ha)]

theorem ofNat_mod {a : Nat} (k : Word) (ha : a < 2 ^ 32) :
    BitVec.ofNat 32 a % k = BitVec.ofNat 32 (a % k.toNat) := by
  apply BitVec.eq_of_toNat_eq
  rw [BitVec.toNat_umod, BitVec.toNat_ofNat, BitVec.toNat_ofNat, Nat.mod_eq_of_lt ha,
    Nat.mod_eq_of_lt ((Nat.mod_le _ _).trans_lt ha)]

theorem append_toNat (high low : Byte) : (high ++ low).toNat = low.toNat + 256 * high.toNat := by
  have hlow := low.isLt
  rw [BitVec.toNat_append, ← Nat.shiftLeft_add_eq_or_of_lt (by omega), Nat.shiftLeft_eq]
  omega

theorem Mem.load16_toNat (m : Mem) (a : Word) :
    (m.load16 a).toNat = (m a).toNat + 256 * (m (a + 1)).toNat :=
  append_toNat _ _

theorem and_fff (w : Nat) : w &&& 0xFFF = w % 4096 := Nat.and_two_pow_sub_one_eq_mod w 12

theorem fat12NextCluster_toNat (c v : Half) :
    (fat12NextCluster c v).toNat =
      if c.toNat % 2 = 1 then v.toNat >>> 4 else v.toNat &&& 0xFFF := by
  have hodd : c &&& 1 ≠ 0 ↔ c.toNat % 2 = 1 := by
    rw [ne_eq, ← BitVec.toNat_inj, BitVec.toNat_and]
    have hand : c.toNat &&& 1 = c.toNat % 2 := Nat.and_two_pow_sub_one_eq_mod _ 1
    simp only [BitVec.reduceToNat, hand]
    omega
  unfold fat12NextCluster
  simp only [hodd]
  split
  · rw [BitVec.toNat_ushiftRight]
  · rw [BitVec.toNat_and]
    rfl

/-- Entries that differ in their second byte are different. -/
theorem fatEntry_ne {f g : Nat → Byte} {k : Nat} (hlow : f (fatOffset k) = g (fatOffset k))
    (hhigh : g (fatOffset k + 1) = ~~~ f (fatOffset k + 1)) : fatEntry f k ≠ fatEntry g k := by
  have h1 := (f (fatOffset k)).isLt
  have h2 := (f (fatOffset k + 1)).isLt
  have hnot : (~~~ f (fatOffset k + 1)).toNat = 255 - (f (fatOffset k + 1)).toNat :=
    BitVec.toNat_not
  unfold fatEntry
  rw [hhigh, ← hlow, hnot]
  simp only [Nat.shiftRight_eq_div_pow, and_fff]
  split <;> omega

/-! ## One call -/

/-- The bytes that `fat12_read_fat` takes for the FAT: the second byte of a split entry is the
byte `behind` the buffer. -/
def bytesSeen (fs : Fat12) (disk : Disk) (c : Nat) (behind : Byte) (i : Nat) : Byte :=
  if SplitEntry c ∧ i = fatOffset c + 1 then behind else fatByte fs disk i

theorem ataReadInto_frame {lba buffer x : Word} {count : Nat} {m : Mem}
    (hcount : 512 * count ≤ 2 ^ 32) (hx : ¬ InRange buffer (512 * count) x) :
    ataReadInto disk lba count m buffer x = m x := by
  rw [ataReadInto, Mem.blit_apply hcount]
  exact if_neg hx

theorem ataReadInto_apply {lba buffer : Word} {count k : Nat} {m : Mem}
    (hcount : 512 * count ≤ 2 ^ 32) (hk : k < 512 * count) :
    ataReadInto disk lba count m buffer (buffer + BitVec.ofNat 32 k) =
      disk (lba + BitVec.ofNat 32 (k / 512)) (k % 512) := by
  have hsub : (buffer + BitVec.ofNat 32 k - buffer).toNat = k := by bv_omega
  rw [ataReadInto, Mem.blit_apply hcount, hsub, if_pos hk]

theorem ataReadInto_sector (disk : Disk) (lba : Word) (m : Mem) (buffer : Word) {k : Nat}
    (hk : k ≤ 512) :
    ataReadInto disk lba 1 m buffer (buffer + BitVec.ofNat 32 k) =
      if k < 512 then disk lba k else m (buffer + BitVec.ofNat 32 k) := by
  split
  · rename_i hlt
    rw [ataReadInto_apply (by omega) (by omega), Nat.div_eq_of_lt hlt, Nat.mod_eq_of_lt hlt,
      BitVec.add_zero]
  · apply ataReadInto_frame (by omega)
    unfold InRange
    bv_omega

/-- The value that is read from the buffer. -/
theorem load16_sector (fs : Fat12) (disk : Disk) (m : Mem) (buffer : Word) (c : Half) :
    ((ataReadInto disk (fs.lbaFat1 + BitVec.ofNat 32 (fatOffset c.toNat / 512)) 1 m buffer).load16
      (buffer + BitVec.ofNat 32 (fatOffset c.toNat % 512))).toNat =
      (fatByte fs disk (fatOffset c.toNat)).toNat +
        256 * (bytesSeen fs disk c.toNat (m (buffer + 512)) (fatOffset c.toNat + 1)).toNat := by
  have hlt : fatOffset c.toNat % 512 < 512 := Nat.mod_lt _ (by omega)
  have hnext : buffer + BitVec.ofNat 32 (fatOffset c.toNat % 512) + 1 =
      buffer + BitVec.ofNat 32 (fatOffset c.toNat % 512 + 1) := by bv_omega
  rw [Mem.load16_toNat, ataReadInto_sector _ _ _ _ (by omega), if_pos hlt, hnext,
    ataReadInto_sector _ _ _ _ (by omega)]
  unfold bytesSeen SplitEntry
  by_cases hsplit : fatOffset c.toNat % 512 = 511
  · rw [if_neg (by omega), if_pos ⟨hsplit, rfl⟩, fatByte, hsplit]
    rfl
  · have hdiv : (fatOffset c.toNat + 1) / 512 = fatOffset c.toNat / 512 := by omega
    have hmod : (fatOffset c.toNat + 1) % 512 = fatOffset c.toNat % 512 + 1 := by omega
    rw [if_pos (by omega), if_neg (fun h => hsplit h.1), fatByte, fatByte, hdiv, hmod]

/-- `fat12_read_fat` decodes the bytes it has seen, and leaves the heap as it was. -/
theorem fat12ReadFat_run (disk : Disk) (c : Half) (h : Roomy lo hi heap live size)
    (hbps : fs.bpb.bytesPerSector = 512) (hsize : 512 ≤ size) :
    ∃ ptr heap₁ next heap₂, Allocated lo hi heap live 512 ptr heap₁ ∧
      fat12ReadFat fs disk heap c = .ok (next, heap₂) ∧
      next.toNat = fatEntry (bytesSeen fs disk c.toNat (heap₁.mem (ptr + 512))) c.toNat ∧
      Roomy lo hi heap₂ live size ∧ ∀ x, Stable lo hi live x → heap₂.mem x = heap.mem x := by
  have hsector : fs.bytesPerSector = 512 := by rw [Fat12.bytesPerSector, hbps]; rfl
  obtain ⟨ptr, heap₁, hm, halloc, hfree⟩ := h.borrow (show 0 < (512 : Word).toNat by decide) hsize
  have hc := c.isLt
  have hlt : fatOffset c.toNat < 2 ^ 32 := by
    unfold fatOffset
    omega
  have hoffset : (c.setWidth 32 + c.setWidth 32 / 2 : Word) =
      BitVec.ofNat 32 (fatOffset c.toNat) := by
    rw [← BitVec.ofNat_toNat, ofNat_div _ (by omega), fatOffset, BitVec.ofNat_add]
    rfl
  have hdiv : BitVec.ofNat 32 (fatOffset c.toNat) / 512 =
      BitVec.ofNat 32 (fatOffset c.toNat / 512) := ofNat_div _ hlt
  have hmod : BitVec.ofNat 32 (fatOffset c.toNat) % 512 =
      BitVec.ofNat 32 (fatOffset c.toNat % 512) := ofNat_mod _ hlt
  -- the sector is written to the buffer only
  have hwrite : ∀ x, ¬ InRange ptr 512 x →
      ataReadInto disk (fs.lbaFat1 + BitVec.ofNat 32 (fatOffset c.toNat / 512)) 1 heap₁.mem ptr x =
        heap₁.mem x := fun x hx => ataReadInto_frame (by omega) hx
  obtain ⟨heap₂, hok, hroomy, hframe⟩ := hfree _ fun x hx => hwrite x fun hin =>
    hx (Or.inr (Or.inr ⟨_, List.mem_cons_self, hin⟩))
  have hrun : fat12ReadFat fs disk heap c = .ok (fat12NextCluster c
      ((ataReadInto disk (fs.lbaFat1 + BitVec.ofNat 32 (fatOffset c.toNat / 512)) 1 heap₁.mem
        ptr).load16 (ptr + BitVec.ofNat 32 (fatOffset c.toNat % 512))), heap₂) := by
    simp only [fat12ReadFat, hsector, hoffset, hdiv, hmod, hm, hok, bind, Except.bind, pure,
      Except.pure]
    rfl
  refine ⟨ptr, heap₁, _, heap₂, halloc, hrun, ?_, hroomy, fun x hx => ?_⟩
  · rw [fat12NextCluster_toNat, load16_sector]
    have hlow : bytesSeen fs disk c.toNat (heap₁.mem (ptr + 512)) (fatOffset c.toNat) =
        fatByte fs disk (fatOffset c.toNat) := by
      rw [bytesSeen, if_neg (by omega)]
    rw [fatEntry, hlow]
  · rw [hframe x hx, hwrite x (halloc.ledger.not_inRange hx), halloc.frame x hx]

theorem bytesSeen_of_not_split {k : Nat} (hsplit : ¬ SplitEntry k) (behind : Byte) :
    bytesSeen fs disk k behind = fatByte fs disk := by
  funext i
  rw [bytesSeen, if_neg fun h => hsplit h.1]

/-- Entries that are not split are read as they are on the disk. -/
theorem fat12ReadFat_of_not_split (disk : Disk) (h : Roomy lo hi heap live size)
    (hbps : fs.bpb.bytesPerSector = 512) (hsize : 512 ≤ size) (hsplit : ¬ SplitEntry c.toNat) :
    ∃ heap', fat12ReadFat fs disk heap c =
        .ok (BitVec.ofNat 16 (fatEntry (fatByte fs disk) c.toNat), heap') ∧
      Roomy lo hi heap' live size ∧ ∀ x, Stable lo hi live x → heap'.mem x = heap.mem x := by
  obtain ⟨ptr, heap₁, next, heap₂, -, hrun, hnext, hroomy, hframe⟩ :=
    fat12ReadFat_run disk c h hbps hsize
  rw [bytesSeen_of_not_split hsplit] at hnext
  refine ⟨heap₂, ?_, hroomy, hframe⟩
  rw [hrun, ← hnext, BitVec.ofNat_toNat, BitVec.setWidth_eq]

theorem fatLink_of_not_split (disk : Disk) (hbps : fs.bpb.bytesPerSector = 512)
    (hsplit : ¬ SplitEntry c.toNat) :
    FatLink fs disk c (BitVec.ofNat 16 (fatEntry (fatByte fs disk) c.toNat)) := by
  intro heap bs hinv hroom
  obtain ⟨b, hb, hfit⟩ := hroom
  obtain ⟨live, hroomy⟩ := hinv.roomy hb hfit
  obtain ⟨heap', hrun, -⟩ := fat12ReadFat_of_not_split disk hroomy hbps le_rfl hsplit
  exact ⟨heap', hrun⟩

/-- On a heap of one chunk that a sector fills, the byte behind the buffer is the byte behind the
heap. -/
theorem fat12ReadFat_oneChunk (disk : Disk) (c : Half) (m : Mem)
    (hbps : fs.bpb.bytesPerSector = 512) :
    ∃ next heap', fat12ReadFat fs disk (oneChunk m 0x10000 512) c = .ok (next, heap') ∧
      next.toNat = fatEntry (bytesSeen fs disk c.toNat (m 0x10210)) c.toNat := by
  have hroomy : Roomy 0x10000 0x10210 (oneChunk m 0x10000 512) [] 512 :=
    roomy_oneChunk (by decide) (by decide)
  obtain ⟨ptr, heap₁, next, heap₂, halloc, hrun, hnext, -⟩ :=
    fat12ReadFat_run disk c hroomy hbps le_rfl
  have hbounds := halloc.ledger.bounds List.mem_cons_self
  have hptr : ptr + 512 = 0x10210 := by bv_omega
  have hbehind : heap₁.mem 0x10210 = m 0x10210 := by
    rw [halloc.frame _ (Or.inr (Or.inl (by decide))), oneChunk_frame (by decide)]
  rw [hptr, hbehind] at hnext
  exact ⟨next, heap₂, hrun, hnext⟩

/-- `fat12_read_fat` returns the entry of the packed FAT, whatever the heap holds, exactly when
the two bytes of the entry lie in one sector. -/
theorem fat12ReadFat_decodes_iff (fs : Fat12) (disk : Disk) (c : Half)
    (hbps : fs.bpb.bytesPerSector = 512) :
    (∀ heap bs, HeapInv heap bs → (∃ b ∈ bs, b.Fits 512) →
      ∃ next heap', fat12ReadFat fs disk heap c = .ok (next, heap') ∧
        next.toNat = fatEntry (fatByte fs disk) c.toNat) ↔
    (c.toNat + c.toNat / 2) % 512 ≠ 511 := by
  constructor
  · intro hall hsplit
    -- the byte behind the heap is not the byte of the next sector
    let m : Mem := fun _ => ~~~ fatByte fs disk (fatOffset c.toNat + 1)
    have hinv : HeapInv (oneChunk m 0x10000 512) [⟨0x10000, 512, false⟩] :=
      heapInv_oneChunk (by decide) (by decide)
    obtain ⟨next, heap', hrun, hnext⟩ :=
      hall _ _ hinv ⟨_, List.mem_singleton_self _, rfl, le_rfl⟩
    obtain ⟨next', heap'', hrun', hnext'⟩ := fat12ReadFat_oneChunk disk c m hbps
    obtain ⟨rfl, -⟩ := Prod.mk.inj (Except.ok.inj (hrun.symm.trans hrun'))
    refine fatEntry_ne ?_ ?_ (hnext.symm.trans hnext')
    · rw [bytesSeen, if_neg (by omega)]
    · rw [bytesSeen, if_pos ⟨hsplit, rfl⟩]
  · intro hsplit heap bs hinv hroom
    obtain ⟨b, hb, hfit⟩ := hroom
    obtain ⟨live, hroomy⟩ := hinv.roomy hb hfit
    obtain ⟨ptr, heap₁, next, heap₂, -, hrun, hnext, -⟩ :=
      fat12ReadFat_run disk c hroomy hbps le_rfl
    rw [bytesSeen_of_not_split hsplit] at hnext
    exact ⟨next, heap₂, hrun, hnext⟩

/-- A volume with one reserved sector and two FATs of nine sectors. -/
def floppyBpb : BiosParameterBlock := ⟨512, 1, 1, 2, 224, 9⟩

/-- A disk on which cluster 3 follows cluster 2 and ends the chain; all data is `0xAA`. -/
def twoClusterDisk : Disk := fun lba k =>
  if lba = 1 then if k = 3 then 0x03 else if k = 4 then 0xF0 else 0xFF else 0xAA

theorem fat12ReadFat_decodes_iff_floppy :
    (∀ heap bs, HeapInv heap bs → (∃ b ∈ bs, b.Fits 512) →
      ∃ next heap', fat12ReadFat (fat12Init floppyBpb) (fun _ k => BitVec.ofNat 8 k) heap 5 =
        .ok (next, heap') ∧
        next.toNat = fatEntry (fatByte (fat12Init floppyBpb) fun _ k => BitVec.ofNat 8 k) 5) ↔
    (5 + 5 / 2) % 512 ≠ 511 :=
  fat12ReadFat_decodes_iff (fat12Init floppyBpb) (fun _ k => BitVec.ofNat 8 k) 5 rfl

/-- Cluster 341 on a FAT filled with `0xFF`, where a zero byte follows the buffer: the entry is
`0xFFF`, and `0x00F` is returned. -/
theorem fat12ReadFat_split :
    HeapInv (oneChunk (fun _ => 0) 0x10000 512) [⟨0x10000, 512, false⟩] ∧
    fatEntry (fatByte (fat12Init floppyBpb) fun _ _ => 0xFF) 341 = 0xFFF ∧
    ∃ heap', fat12ReadFat (fat12Init floppyBpb) (fun _ _ => 0xFF)
      (oneChunk (fun _ => 0) 0x10000 512) 341 = .ok (0x00F, heap') := by
  have hbps : (fat12Init floppyBpb).bpb.bytesPerSector = 512 := rfl
  obtain ⟨next, heap', hrun, hnext⟩ :=
    fat12ReadFat_oneChunk (fun _ _ => 0xFF) 341 (fun _ => 0) hbps
  have hvalue : next = 0x00F := BitVec.eq_of_toNat_eq (hnext.trans (by decide))
  exact ⟨heapInv_oneChunk (by decide) (by decide), by decide, heap', hvalue ▸ hrun⟩

end Hjortron
