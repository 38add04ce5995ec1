import Hjortron.Filesystem.Proofs.Leaks
import Mathlib.Data.List.GetD

/-!
# The driver among other users of the heap

A call of the driver starts on a heap whose live blocks belong to others or to open handles. It
makes blocks of its own, writes those and what it has been given, and leaves every other live byte
as it is (`Keeps`). With this, `fat12_open` on the heap returns the handle that it returns as a
value.
-/

namespace Hjortron

/-- Freeing a live block changes memory only. -/
theorem Ledger.free_statics {lo hi : Nat} {heap heap' : Heap} {live : List (Word × Word)}
    {p n : Word} (h : Ledger lo hi heap live) (hp : (p, n) ∈ live)
    (hf : Hjortron.free heap p = .ok heap') : heap' = { heap with mem := heap'.mem } := by
  rcases h with ⟨bs, hs, -⟩
  rcases hs.sound (p, n) hp with ⟨b, hb, hu, rfl, -⟩
  rcases free_of_mem heap hs.heap.chunks hs.heap.initialized hb hu with ⟨mem, hfree, -, -⟩
  rw [Except.ok.inj (hf.symm.trans hfree)]

/-! ## Blocks of its own -/

/-- From `heap`, whose live blocks are `live`, a call has come to `heap'`: it has the blocks `own`,
and it may have changed the bytes `T` of the others. -/
structure Keeps (lo hi : Nat) (live : List (Word × Word)) (T : Word → Prop) (heap heap' : Heap)
    (own : List (Word × Word)) : Prop where
  ledger : Ledger lo hi heap' (own ++ live)
  frame : ∀ x, Stable lo hi live x → ¬ T x → heap'.mem x = heap.mem x
  statics : heap' = { heap with mem := heap'.mem }

namespace Keeps

open Driver

variable {lo hi : Nat} {live own : List (Word × Word)} {T : Word → Prop}
  {heap heap₁ heap₂ : Heap} {p n x len : Word} {log : List DriverEvent}

theorem refl (h : Ledger lo hi heap live) : Keeps lo hi live T heap heap [] :=
  ⟨h, fun _ _ _ => rfl, rfl⟩

/-- The bytes of the others lie outside the own blocks. -/
theorem not_inRange (h : Keeps lo hi live T heap heap₁ own) (hp : (p, n) ∈ own)
    (hx : Stable lo hi live x) : ¬ InRange p n.toNat x := by
  have hmem : (p, n) ∈ own ++ live := List.mem_append_left _ hp
  rcases hx with hlo | hhi | ⟨e, he, hin⟩
  · exact h.ledger.not_inRange_outside hmem (.inl hlo)
  · exact h.ledger.not_inRange_outside hmem (.inr hhi)
  · have hnd := h.ledger.nodup
    rw [List.map_append, List.nodup_append] at hnd
    have hne : p ≠ e.1 :=
      hnd.2.2 p (List.mem_map_of_mem (f := Prod.fst) hp) e.1 (List.mem_map_of_mem he)
    have hapart := h.ledger.apart hmem (List.mem_append_right _ he) hne
    exact hapart.not_inRange hin

theorem stable (own : List (Word × Word)) (hx : Stable lo hi live x) :
    Stable lo hi (own ++ live) x :=
  hx.mono fun _ he => List.mem_append_right _ he

theorem malloc (h : Keeps lo hi live T heap heap₁ own)
    (hrun : (Driver.malloc len).Runs heap₁ p heap₂ log) :
    Keeps lo hi live T heap heap₂ ((p, len) :: own) ∧
      ∀ x, Stable lo hi (own ++ live) x → heap₂.mem x = heap₁.mem x := by
  have hm := (runs_malloc_iff.mp hrun).1
  have halloc := h.ledger.malloc hm
  have hstatics : heap₂ = { heap₁ with mem := heap₂.mem } := by
    rcases h.ledger with ⟨bs, hs, -⟩
    rcases malloc_eq_ok hs.heap.chunks hs.heap.initialized hm with ⟨_, _, mem, -, -, -, rfl, -⟩
    rfl
  refine ⟨⟨halloc.ledger, fun x hx hT => ?_, ?_⟩, halloc.frame⟩
  · rw [halloc.frame x (stable own hx), h.frame x hx hT]
  · rw [hstatics, h.statics]

/-- A write to own blocks and to the bytes that have been given. -/
theorem write {f : Mem → Mem} {u : Unit} (h : Keeps lo hi live T heap heap₁ own)
    (hT : ∀ x, T x → Stable lo hi live x)
    (hf : ∀ x, ¬ T x → (∀ b ∈ own, ¬ InRange b.1 b.2.toNat x) → f heap₁.mem x = heap₁.mem x)
    (hrun : (Driver.write f).Runs heap₁ u heap₂ log) : Keeps lo hi live T heap heap₂ own := by
  rcases runs_write_iff.mp hrun with ⟨rfl, rfl⟩
  refine ⟨h.ledger.write ?_, fun x hx hnot => ?_, ?_⟩
  · intro x hx
    apply hf x
    · intro hTx
      exact hx (stable own (hT x hTx))
    · intro b hb hin
      exact hx (.inr (.inr ⟨b, List.mem_append_left _ hb, hin⟩))
  · exact (hf x hnot fun b hb => h.not_inRange hb hx).trans (h.frame x hx hnot)
  · rw [h.statics]

theorem free {u : Unit} (pre post : List (Word × Word))
    (h : Keeps lo hi live T heap heap₁ (pre ++ (p, n) :: post))
    (hrun : (Driver.free p).Runs heap₁ u heap₂ log) :
    Keeps lo hi live T heap heap₂ (pre ++ post) ∧
      ∀ x, Stable lo hi (pre ++ post ++ live) x → heap₂.mem x = heap₁.mem x := by
  have hf := (runs_free_iff.mp hrun).1
  have hledger := h.ledger
  rw [List.append_assoc, List.cons_append] at hledger
  rcases hledger.free_at with ⟨heap', hfree, hledger', hframe⟩
  obtain rfl : heap' = heap₂ := Except.ok.inj (hfree.symm.trans hf)
  rw [← List.append_assoc] at hledger' hframe
  have hblock : (p, n) ∈ pre ++ (p, n) :: (post ++ live) := by simp
  have hstatics : heap' = { heap₁ with mem := heap'.mem } := hledger.free_statics hblock hfree
  refine ⟨⟨hledger', fun x hx hT => ?_, ?_⟩, hframe⟩
  · rw [hframe x (stable _ hx), h.frame x hx hT]
  · rw [hstatics, h.statics]

/-- The caller writes to blocks that are live afterwards. -/
theorem ledger_write {m : Mem} (h : Keeps lo hi live T heap heap₁ own)
    (hm : ∀ x, ¬ Stable lo hi (own ++ live) x → m x = heap₁.mem x) :
    Ledger lo hi { heap with mem := m } (own ++ live) := by
  have hwritten := h.ledger.write hm
  rw [h.statics] at hwritten
  exact hwritten

end Keeps

/-! ## Handles -/

section

variable {buf src dest name : List Byte} {c : Byte} {m m' : Mem} {file : Word} {k len : Nat}
  {entry : DirectoryEntry}

theorem length_strtrim : (strtrim buf c).length = buf.length := by
  unfold strtrim
  induction strlen buf generalizing buf with
  | zero => rfl
  | succ i ih =>
    rw [strtrimFrom]
    split_ifs
    · rw [ih, List.length_set]
    · rfl

theorem length_copyInto (hk : k + len ≤ dest.length) (hlen : len ≤ src.length) :
    (copyInto dest k src len).length = dest.length := by
  simp only [copyInto, List.length_append, List.length_take, List.length_drop]
  omega

/-- A string ends at the latest where there is a NUL. -/
theorem strlen_le_of_nul (h : buf[k]? = some 0) : strlen buf ≤ k := by
  by_contra hlt
  have hk : k < (cstr buf).length := Nat.lt_of_not_le hlt
  have hget : (cstr buf)[k] = 0 := by
    have hinit : cstr buf <+: buf := List.takeWhile_prefix _
    rw [hinit.getElem hk]
    exact (List.getElem?_eq_some_iff.mp h).2
  have hmem : (0 : Byte) ∈ cstr buf := hget ▸ List.getElem_mem hk
  have hne := List.mem_takeWhile_imp hmem
  simp at hne

theorem strtrim_nul (h : buf[k]? = some 0) : (strtrim buf c)[k]? = some 0 := by
  unfold strtrim
  induction strlen buf generalizing buf with
  | zero => exact h
  | succ i ih =>
    rw [strtrimFrom]
    split_ifs
    · apply ih
      rw [List.getElem?_set]
      split_ifs with hik hlt
      · rfl
      · exact absurd (List.getElem?_eq_some_iff.mp h).1 (hik ▸ hlt)
      · exact h
    · exact h

/-- A name fills its field. -/
theorem length_fat12FormatFileName (h : src.length = 11) :
    (fat12FormatFileName src emptyName).length = 256 := by
  have hempty : emptyName.length = 256 := List.length_replicate
  have hname : (copyInto emptyName 0 src 8).length = 256 :=
    (length_copyInto (by omega) (by omega)).trans hempty
  have hnul : (copyInto emptyName 0 src 8)[8]? = some 0 := by
    rw [copyInto, List.take_zero, List.nil_append, List.getElem?_append_right (by simp),
      List.getElem?_drop, emptyName, List.getElem?_replicate]
    simp [h]
  have hlen : strlen (strtrim (copyInto emptyName 0 src 8) (ascii ' ')) ≤ 8 :=
    strlen_le_of_nul (strtrim_nul hnul)
  unfold fat12FormatFileName
  rw [length_copyInto, List.length_set, length_strtrim, hname]
  · rw [List.length_set, length_strtrim, hname]
    omega
  · rw [List.length_drop]
    omega

/-- The bytes that a handle is read off. -/
theorem fileAt_congr_members (h : ∀ x, InRange file 268 x → m' x = m x) :
    Driver.fileAt m' file = Driver.fileAt m file := by
  have hload (i : Word) (hi : i.toNat + 4 ≤ 268) : m'.load32 (file + i) = m.load32 (file + i) :=
    Mem.load32_member_congr hi h
  have hname : (List.range 256).map (fun k => m' (file + BitVec.ofNat 32 k)) =
      (List.range 256).map fun k => m (file + BitVec.ofNat 32 k) := by
    apply List.map_congr_left
    intro k hk
    have hlt := List.mem_range.mp hk
    exact h _ (inRange_add (by omega) (by decide))
  unfold Driver.fileAt
  rw [hname, hload 256 (by decide), hload 260 (by decide), hload 264 (by decide)]

/-- A handle is read off its own bytes. -/
theorem fileAt_congr (h : ∀ x, InRange file 284 x → m' x = m x) :
    Driver.fileAt m' file = Driver.fileAt m file :=
  fileAt_congr_members fun x hx => h x (Nat.lt_trans hx (by decide))

/-- The member `driver` is no part of what the driver reads. -/
theorem fileAt_store_driver (driver : Word) :
    Driver.fileAt (m.store32 (file + 280) driver) file = Driver.fileAt m file := by
  apply fileAt_congr_members
  intro x hx
  apply Mem.store32_of_not_inRange
  unfold InRange at hx ⊢
  bv_omega

/-- The handle that `fat12_open` makes. -/
theorem fileAt_storeFile : Driver.fileAt (Driver.storeFile m file entry) file =
    ⟨fat12FormatFileName entry.filename emptyName, entry.size, 0, entry.cluster⟩ := by
  have hlength : (fat12FormatFileName entry.filename emptyName).length = 256 :=
    length_fat12FormatFileName entry.length_filename
  have hload (m : Mem) (f : Nat → Byte) (i : Word) (hi : 256 ≤ i.toNat) (hi' : i.toNat ≤ 280) :
      (m.blit file f 256).load32 (file + i) = m.load32 (file + i) := by
    apply Mem.load32_congr
    intro y hy
    rw [Mem.blit_apply (by decide), if_neg]
    unfold InRange at hy
    bv_omega
  have hname : (List.range 256).map (fun k => Driver.storeFile m file entry
      (file + BitVec.ofNat 32 k)) = fat12FormatFileName entry.filename emptyName := by
    apply List.ext_getElem
    · rw [List.length_map, List.length_range, hlength]
    · intro k hk hk'
      rw [List.getElem_map, List.getElem_range, Driver.storeFile, Mem.blit_apply (by decide)]
      have hsub : (file + BitVec.ofNat 32 k - file).toNat = k := by
        rw [hlength] at hk'
        bv_omega
      rw [hsub, if_pos (by omega), List.getD_eq_getElem _ _ hk']
  have hstore (m : Mem) (i j v : Word) (hi : i.toNat + 4 ≤ 2 ^ 32) (hj : j.toNat + 4 ≤ 2 ^ 32)
      (hij : i.toNat + 4 ≤ j.toNat ∨ j.toNat + 4 ≤ i.toNat) :
      (m.store32 (file + i) v).load32 (file + j) = m.load32 (file + j) :=
    Mem.load32_store32_member hi hj hij
  unfold Driver.fileAt
  rw [hname]
  unfold Driver.storeFile
  simp only [hload _ _ 256 (by decide) (by decide), hload _ _ 260 (by decide) (by decide),
    hload _ _ 264 (by decide) (by decide), Mem.load32_store32_self]
  rw [hstore _ 260 256 _ (by decide) (by decide) (by decide), Mem.load32_store32_self,
    hstore _ 260 264 _ (by decide) (by decide) (by decide),
    hstore _ 256 264 _ (by decide) (by decide) (by decide), Mem.load32_store32_self]

end

end Hjortron
