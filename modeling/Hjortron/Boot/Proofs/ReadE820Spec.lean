import Hjortron.Boot.ReadE820

/-!
# The memory map that the kernel finds

The destination advances by the size of an entry in a 16-bit register, so that the entries of the
BIOS stand one after the other as long as they end within the segment.
-/

namespace Hjortron

namespace E820Reply

/-- The reply is none of those that `read_e820` takes for an error. -/
def Good (reply : E820Reply) : Prop := reply.carry = false ∧ reply.eax = smap

/-- The entry that has been stored. -/
def entry (reply : E820Reply) : MemoryMapEntry := parseMapEntry fun k => reply.bytes.getD k 0

end E820Reply

/-- From the continuation value `ebx` on the BIOS lists `entries`. -/
inductive ListsMap (bios : E820Bios) : Word → List MemoryMapEntry → Prop
  | last {ebx : Word} : (bios ebx).Good → (bios ebx).ebx = 0 →
      ListsMap bios ebx [(bios ebx).entry]
  | cons {ebx : Word} {entries : List MemoryMapEntry} : (bios ebx).Good → (bios ebx).ebx ≠ 0 →
      ListsMap bios (bios ebx).ebx entries → ListsMap bios ebx ((bios ebx).entry :: entries)

/-- The BIOS stores 20 bytes, or the 24 that it is asked for. -/
def E820Bios.Sized (bios : E820Bios) : Prop :=
  ∀ ebx, 20 ≤ (bios ebx).bytes.length ∧ (bios ebx).bytes.length ≤ 24

section

variable {bios : E820Bios} {entries : List MemoryMapEntry} {fuel : Nat} {ebx mmap : Word}
  {bp di : Half} {mem m : Mem} {reply : E820Reply}

theorem parseMapEntry_congr {f g : Nat → Byte} (h : ∀ j < 20, f j = g j) :
    parseMapEntry f = parseMapEntry g := by
  simp only [parseMapEntry, h 0 (by decide), h 1 (by decide), h 2 (by decide), h 3 (by decide),
    h 4 (by decide), h 5 (by decide), h 6 (by decide), h 7 (by decide), h 8 (by decide),
    h 9 (by decide), h 10 (by decide), h 11 (by decide), h 12 (by decide), h 13 (by decide),
    h 14 (by decide), h 15 (by decide), h 16 (by decide), h 17 (by decide), h 18 (by decide),
    h 19 (by decide)]

/-! ## The loop -/

theorem readE820Loop_last (h : (bios ebx).Good) (hlast : (bios ebx).ebx = 0) :
    readE820Loop bios (fuel + 1) ebx bp di mem = .ok (some (bp + 1),
      mem.blit (di.setWidth 32) (fun k => (bios ebx).bytes.getD k 0) (bios ebx).bytes.length) := by
  rw [readE820Loop, if_neg (by simp [h.1]), if_neg (by simp [h.2]), if_pos hlast]

theorem readE820Loop_next (h : (bios ebx).Good) (hnext : (bios ebx).ebx ≠ 0) :
    readE820Loop bios (fuel + 1) ebx bp di mem =
      readE820Loop bios fuel (bios ebx).ebx (bp + 1) (di + 24)
        (mem.blit (di.setWidth 32) (fun k => (bios ebx).bytes.getD k 0)
          (bios ebx).bytes.length) := by
  rw [readE820Loop, if_neg (by simp [h.1]), if_neg (by simp [h.2]), if_neg hnext]

/-- An entry stands where the BIOS has stored it, as long as nobody writes to its bytes. -/
theorem mapEntryAt_blit {p : Word} (hlen : 20 ≤ reply.bytes.length)
    (hlen' : reply.bytes.length ≤ 24)
    (hm : ∀ x, InRange p 24 x → m x =
      mem.blit p (fun k => reply.bytes.getD k 0) reply.bytes.length x) :
    mapEntryAt m p = reply.entry := by
  apply parseMapEntry_congr
  intro j hj
  have hin : InRange p 24 (p + BitVec.ofNat 32 j) := inRange_add (by omega) (by decide)
  have hoffset : (p + BitVec.ofNat 32 j - p).toNat = j := by bv_omega
  rw [hm _ hin, Mem.blit_apply (by omega), hoffset, if_pos (by omega)]

/-- The loop stores the entries of the BIOS from `di` on. -/
theorem readE820Loop_lists (bp di : Half) (mem : Mem) (hbios : bios.Sized)
    (h : ListsMap bios ebx entries) (hfuel : entries.length ≤ fuel)
    (hdi : di.toNat + 24 * entries.length ≤ 0x10000) :
    ∃ m, readE820Loop bios fuel ebx bp di mem =
        .ok (some (bp + BitVec.ofNat 16 entries.length), m) ∧
      ((List.range entries.length).map fun i =>
        mapEntryAt m (di.setWidth 32 + BitVec.ofNat 32 (24 * i))) = entries ∧
      ∀ x, (x.toNat < di.toNat ∨ di.toNat + 24 * entries.length ≤ x.toNat) → m x = mem x := by
  induction h generalizing fuel bp di mem with
  | @last ebx hgood hlast =>
    rcases hbios ebx with ⟨hge, hle⟩
    rcases Nat.exists_eq_add_of_le' (show 1 ≤ fuel from hfuel) with ⟨fuel, rfl⟩
    rw [List.length_singleton] at hdi ⊢
    refine ⟨_, readE820Loop_last hgood hlast, ?_, ?_⟩
    · rw [List.range_one, List.map_singleton, Nat.mul_zero, BitVec.add_zero,
        mapEntryAt_blit hge hle fun _ _ => rfl]
    · intro x hx
      rw [Mem.blit_apply (by omega), if_neg]
      bv_omega
  | @cons ebx entries hgood hnext hrest ih =>
    rcases hbios ebx with ⟨hge, hle⟩
    have hpos : 0 < entries.length := by
      cases hrest with
      | last => exact Nat.one_pos
      | cons => exact Nat.succ_pos _
    rw [List.length_cons] at hfuel hdi
    rcases Nat.exists_eq_add_of_le' (show 1 ≤ fuel by omega) with ⟨fuel, rfl⟩
    have hstep : (di + 24).toNat = di.toNat + 24 := by bv_omega
    have hword : (di + 24).setWidth 32 = (di.setWidth 32 + 24 : Word) := by bv_omega
    have hfuel' : entries.length ≤ fuel := by omega
    have hdi' : (di + 24).toNat + 24 * entries.length ≤ 0x10000 := by omega
    rcases ih (bp + 1) (di + 24) (mem.blit (di.setWidth 32)
      (fun k => (bios ebx).bytes.getD k 0) (bios ebx).bytes.length) hfuel' hdi' with
      ⟨m, hrun, hentries, hkept⟩
    refine ⟨m, ?_, ?_, ?_⟩
    · have hcount : bp + 1 + BitVec.ofNat 16 entries.length =
          bp + BitVec.ofNat 16 (entries.length + 1) := by bv_omega
      rw [readE820Loop_next hgood hnext, hrun, hcount, List.length_cons]
    · rw [List.length_cons, List.range_succ_eq_map, List.map_cons, List.map_map]
      congr 1
      · rw [Nat.mul_zero, BitVec.add_zero]
        apply mapEntryAt_blit hge hle
        intro x hx
        apply hkept
        rw [inRange_toNat (by bv_omega)] at hx
        bv_omega
      · rw [← hentries]
        simp only [List.length_map, List.length_range]
        apply List.map_congr_left
        intro i _
        change mapEntryAt m (di.setWidth 32 + BitVec.ofNat 32 (24 * (i + 1))) = _
        congr 1
        rw [hword]
        bv_omega
    · intro x hx
      rw [List.length_cons] at hx
      rw [hkept x (by omega), Mem.blit_apply (by omega), if_neg]
      bv_omega

/-- The loop ends, also if the entries do not fit in the segment. -/
theorem readE820Loop_of_lists (bp di : Half) (mem : Mem) (h : ListsMap bios ebx entries) :
    ∃ fuel count m, readE820Loop bios fuel ebx bp di mem = .ok (some count, m) := by
  induction h generalizing bp di mem with
  | last hgood hlast => exact ⟨1, _, _, readE820Loop_last hgood hlast⟩
  | cons hgood hnext _ ih =>
    rcases ih (bp + 1) (di + 24) (mem.blit (di.setWidth 32)
      (fun k => (bios _).bytes.getD k 0) (bios _).bytes.length) with ⟨fuel, count, m, hrun⟩
    exact ⟨fuel + 1, count, m, (readE820Loop_next hgood hnext).trans hrun⟩

/-- Without a list of entries the loop does not end with a count. -/
theorem lists_of_readE820Loop {count : Half}
    (h : readE820Loop bios fuel ebx bp di mem = .ok (some count, m)) :
    ∃ entries, ListsMap bios ebx entries := by
  induction fuel generalizing ebx bp di mem with
  | zero => cases h
  | succ fuel ih =>
    rw [readE820Loop] at h
    split_ifs at h with hcarry hsmap hlast
    · cases h
    · cases h
    · have hgood : (bios ebx).Good := ⟨by simpa using hcarry, by simpa using hsmap⟩
      exact ⟨_, .last hgood hlast⟩
    · have hgood : (bios ebx).Good := ⟨by simpa using hcarry, by simpa using hsmap⟩
      rcases ih h with ⟨entries, hrest⟩
      exact ⟨_, .cons hgood hlast hrest⟩

/-! ## The variables -/

/-- The lower half of a variable that is zero. -/
theorem store16_of_zero {a : Word} {u : Half} (h : mem.load32 a = 0) :
    mem.store16 a u = mem.store32 a (u.setWidth 32) := by
  have hmem : mem.store32 a 0 = mem := by rw [← h, Mem.store32_load32]
  have h1 : a + 1 ≠ a + 2 := by bv_omega
  have h2 : a + 2 ≠ a + 3 := by bv_omega
  have h3 : a + 1 ≠ a + 3 := by bv_omega
  have h4 : a ≠ a + 2 := by bv_omega
  have h5 : a ≠ a + 3 := by bv_omega
  have hlow : (u.setWidth 32 : Word).extractLsb' 0 8 = u.extractLsb' 0 8 := by
    ext i hi
    simp
    omega
  have hhigh : (u.setWidth 32 : Word).extractLsb' 8 8 = u.extractLsb' 8 8 := by
    ext i hi
    simp
    omega
  have hzero : (u.setWidth 32 : Word).extractLsb' 16 8 = 0 := by
    ext i hi
    simp
  have hzero' : (u.setWidth 32 : Word).extractLsb' 24 8 = 0 := by
    ext i hi
    simp [BitVec.getLsbD_of_ge u (24 + i) (by omega)]
  funext x
  rw [Mem.store32, hlow, hhigh, hzero, hzero']
  nth_rewrite 1 [← hmem]
  simp only [Mem.store16, Mem.store32, Mem.store8]
  split_ifs <;> simp_all

theorem store16_of_not_inRange {a x : Word} {u : Half} (h : ¬ InRange a 2 x) :
    mem.store16 a u x = mem x := by
  have h0 : x ≠ a := by
    rintro rfl
    simp [InRange] at h
  have h1 : x ≠ a + 1 := by
    rintro rfl
    exact h (by unfold InRange; bv_omega)
  rw [Mem.store16, Mem.store8_of_ne h1, Mem.store8_of_ne h0]

theorem mapByte_toNat {i j n : Nat} (hi : i < n) (hj : j < 20) (hn : 0x8000 + 24 * n ≤ 0x10000) :
    (0x8000 + BitVec.ofNat 32 (24 * i) + BitVec.ofNat 32 j : Word).toNat =
      0x8000 + (24 * i + j) := by
  bv_omega

/-- The kernel finds the entries once the counter, which was 0, holds their number. -/
theorem memoryMapAt_counted (hmmap : mmap.toNat + 8 ≤ 0x8000) (hzero : m.load32 mmap = 0)
    (hpointer : memoryMapEntries m mmap = 0x8000) (hfits : 0x8000 + 24 * entries.length ≤ 0x10000)
    (hmap : ((List.range entries.length).map fun i =>
      mapEntryAt m (0x8000 + BitVec.ofNat 32 (24 * i))) = entries) :
    memoryMapAt (m.store16 mmap (0 + BitVec.ofNat 16 entries.length)) mmap = entries := by
  have hcount : (0 + BitVec.ofNat 16 entries.length : Half).setWidth 32 =
      BitVec.ofNat 32 entries.length := by bv_omega
  have hpointer' : memoryMapEntries (m.store32 mmap (BitVec.ofNat 32 entries.length)) mmap =
      0x8000 := by
    rw [← hpointer]
    apply Mem.load32_congr
    intro x hx
    apply Mem.store32_of_not_inRange
    unfold InRange at hx ⊢
    bv_omega
  have hlength : (memoryMapLen (m.store32 mmap (BitVec.ofNat 32 entries.length)) mmap).toNat =
      entries.length := by
    rw [memoryMapLen, Mem.load32_store32_self, BitVec.toNat_ofNat, Nat.mod_eq_of_lt (by omega)]
  rw [store16_of_zero hzero, hcount, memoryMapAt, hlength, hpointer']
  nth_rewrite 3 [← hmap]
  apply List.map_congr_left
  intro i hi
  have hlt := List.mem_range.mp hi
  apply parseMapEntry_congr
  intro j hj
  apply Mem.store32_of_not_inRange
  have hbyte := mapByte_toNat hlt hj hfits
  unfold InRange
  generalize (0x8000 + BitVec.ofNat 32 (24 * i) + BitVec.ofNat 32 j : Word) = x at hbyte ⊢
  bv_omega

/-- **The memory map reaches the kernel.** `read_e820` succeeds exactly if the BIOS lists a map
without an error. Then the kernel finds this map, entry by entry, as long as it ends within the
first 64 KiB, and nothing else but the counter has changed. -/
theorem readE820_exact (mem : Mem) (mmap : Word) (hmmap : mmap.toNat + 8 ≤ 0x8000)
    (hlen : memoryMapLen mem mmap = 0) (hentries : memoryMapEntries mem mmap = 0x8000)
    (hbios : bios.Sized) :
    ((∃ fuel m, readE820 bios mmap fuel mem = .ok (true, m)) ↔ ∃ entries, ListsMap bios 0 entries) ∧
      ∀ entries, ListsMap bios 0 entries → 0x8000 + 24 * entries.length ≤ 0x10000 →
        ∃ fuel m, readE820 bios mmap fuel mem = .ok (true, m) ∧ memoryMapAt m mmap = entries ∧
          ∀ x, ¬ InRange mmap 2 x → ¬ InRange 0x8000 (24 * entries.length) x → m x = mem x := by
  have hdi : (memoryMapEntries mem mmap).setWidth 16 = (0x8000 : Half) := by
    rw [hentries]
    rfl
  refine ⟨⟨?_, ?_⟩, ?_⟩
  · rintro ⟨fuel, m, h⟩
    rcases bind_eq_ok.mp h with ⟨⟨count, m'⟩, hrun, hrest⟩
    cases count with
    | none => cases hrest
    | some count => exact lists_of_readE820Loop hrun
  · rintro ⟨entries, h⟩
    rcases readE820Loop_of_lists 0 0x8000 mem h with ⟨fuel, count, m, hrun⟩
    refine ⟨fuel, m.store16 mmap count, ?_⟩
    rw [readE820, hdi, hrun]
    rfl
  · intro entries h hfits
    rcases readE820Loop_lists 0 0x8000 mem hbios h le_rfl hfits with
      ⟨m, hrun, hmap, hkept⟩
    have hstart : (0x8000 : Half).toNat = 0x8000 := rfl
    have hvariables : ∀ x, InRange mmap 8 x → m x = mem x := by
      intro x hx
      apply hkept
      rw [inRange_toNat (by omega)] at hx
      exact Or.inl (by omega)
    have hzero : m.load32 mmap = 0 := by
      rw [← hlen]
      apply Mem.load32_congr
      intro x hx
      apply hvariables
      unfold InRange at hx ⊢
      omega
    have hpointer : memoryMapEntries m mmap = 0x8000 := by
      rw [← hentries]
      apply Mem.load32_congr
      intro x hx
      apply hvariables
      unfold InRange at hx ⊢
      bv_omega
    refine ⟨entries.length, m.store16 mmap (0 + BitVec.ofNat 16 entries.length), ?_,
      memoryMapAt_counted hmmap hzero hpointer hfits hmap, ?_⟩
    · rw [readE820, hdi, hrun]
      rfl
    · intro x hx hout
      rw [store16_of_not_inRange hx]
      apply hkept
      unfold InRange at hout
      bv_omega

end

/-- A BIOS that lists low memory in 20 bytes and one MiB from 1 MiB on in 24. -/
def smallBios : E820Bios := fun ebx =>
  if ebx = 0 then
    ⟨false, smap, 1, [0, 0, 0, 0, 0, 0, 0, 0, 0, 0xFC, 0x09, 0, 0, 0, 0, 0, 1, 0, 0, 0]⟩
  else
    ⟨false, smap, 0,
      [0, 0, 0x10, 0, 0, 0, 0, 0, 0, 0, 0x10, 0, 0, 0, 0, 0, 1, 0, 0, 0, 1, 0, 0, 0]⟩

theorem smallBios_sized : smallBios.Sized := by
  intro ebx
  unfold smallBios
  split <;> decide

theorem readE820_exact_small :
    ∃ fuel m, readE820 smallBios 0x1000 fuel (Mem.store32 (fun _ => 0) 0x1004 0x8000) =
        .ok (true, m) ∧
      memoryMapAt m 0x1000 = [⟨0, 0x9FC00, 1⟩, ⟨0x100000, 0x100000, 1⟩] := by
  have hlists : ListsMap smallBios 0 [⟨0, 0x9FC00, 1⟩, ⟨0x100000, 0x100000, 1⟩] :=
    .cons ⟨rfl, rfl⟩ (by decide) (.last ⟨rfl, rfl⟩ rfl)
  have hexact := readE820_exact (Mem.store32 (fun _ => 0) 0x1004 0x8000) 0x1000 (by decide)
    (by decide) (by decide) smallBios_sized
  rcases hexact.2 _ hlists (by decide) with ⟨fuel, m, hrun, hmap, -⟩
  exact ⟨fuel, m, hrun, hmap⟩

end Hjortron
