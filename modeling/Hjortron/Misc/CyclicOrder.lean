import Mathlib.Data.List.Nodup
import Mathlib.Data.List.Perm.Basic
import Mathlib.Data.List.Rotate

/-!
# Going round a list

The elements of a list without duplicates in cyclic order: `rotation l x` are the others, from
the one that follows `x` on, and `ahead l x q` those of them that come before `q`. Moving from
`x` to an element ahead of it shrinks what is ahead, and so does deleting an element.
-/

namespace Hjortron

variable {α : Type*} [DecidableEq α] {l pre post a b : List α} {x y z q : α}

/-- The elements that follow `x`, up to the end of the list and on from its start. -/
def rotation (l : List α) (x : α) : List α :=
  (l.dropWhile (· ≠ x)).tail ++ l.takeWhile (· ≠ x)

/-- The elements that come before `q` on the way round from `x`. -/
def ahead (l : List α) (x q : α) : List α :=
  (rotation l x).takeWhile (· ≠ q)

theorem takeWhile_ne_append_cons (hq : q ∉ a) : (a ++ q :: b).takeWhile (· ≠ q) = a := by
  rw [List.takeWhile_append_of_pos (by simpa using fun c hc => ne_of_mem_of_not_mem hc hq)]
  simp

theorem dropWhile_ne_append_cons (hq : q ∉ a) : (a ++ q :: b).dropWhile (· ≠ q) = q :: b := by
  rw [List.dropWhile_append_of_pos (by simpa using fun c hc => ne_of_mem_of_not_mem hc hq)]
  simp

theorem rotation_append_cons (hx : x ∉ pre) : rotation (pre ++ x :: post) x = post ++ pre := by
  rw [rotation, takeWhile_ne_append_cons hx, dropWhile_ne_append_cons hx, List.tail_cons]

omit [DecidableEq α] in
/-- Cutting a duplicate-free list at one of its elements. -/
theorem exists_split (hl : l.Nodup) (hx : x ∈ l) :
    ∃ pre post, l = pre ++ x :: post ∧ x ∉ pre ∧ x ∉ post ∧ (post ++ pre).Nodup := by
  obtain ⟨pre, post, rfl⟩ := List.append_of_mem hx
  have hnd := List.nodup_append_comm.mp hl
  rw [List.cons_append, List.nodup_cons, List.mem_append, not_or] at hnd
  exact ⟨pre, post, rfl, hnd.1.2, hnd.1.1, hnd.2⟩

/-- Going round the list from `x` and ending with `x` is a rotation of the list. -/
theorem rotate_idxOf_succ (hx : x ∈ l) : l.rotate (l.idxOf x + 1) = rotation l x ++ [x] := by
  obtain ⟨pre, post, rfl, hpre⟩ := List.eq_append_cons_of_mem hx
  have hidx : (pre ++ x :: post).idxOf x = pre.length := by
    rw [List.idxOf_append_of_notMem hpre, List.idxOf_cons_self, Nat.add_zero]
  have hcut : pre ++ x :: post = (pre ++ [x]) ++ post := by simp
  have hlength : pre.length + 1 = (pre ++ [x]).length := by simp
  rw [hidx, rotation_append_cons hpre, hcut, hlength, List.rotate_append_length_eq,
    List.append_assoc]

theorem nodup_rotation (hl : l.Nodup) (hx : x ∈ l) : (rotation l x).Nodup := by
  obtain ⟨pre, post, rfl, hpre, -, hnd⟩ := exists_split hl hx
  rwa [rotation_append_cons hpre]

theorem mem_rotation (hl : l.Nodup) (hx : x ∈ l) : y ∈ rotation l x ↔ y ∈ l ∧ y ≠ x := by
  obtain ⟨pre, post, rfl, hpre, hpost, -⟩ := exists_split hl hx
  rw [rotation_append_cons hpre]
  constructor
  · intro hy
    refine ⟨by grind, ?_⟩
    rintro rfl
    exact (List.mem_append.mp hy).elim hpost hpre
  · rintro ⟨hy, hne⟩
    grind

/-- Going on from an element further round. -/
theorem rotation_of_rotation (hl : l.Nodup) (hx : x ∈ l) (h : rotation l x = a ++ y :: b) :
    rotation l y = b ++ x :: a := by
  obtain ⟨pre, post, rfl, hpre, hpost, hnd⟩ := exists_split hl hx
  rw [rotation_append_cons hpre] at h
  rw [h, List.nodup_middle, List.nodup_cons, List.mem_append, not_or] at hnd
  obtain ⟨⟨hya, hyb⟩, -⟩ := hnd
  have hyx : y ≠ x := by
    rintro rfl
    have hy : y ∈ post ++ pre := by simp [h]
    exact (List.mem_append.mp hy).elim hpost hpre
  -- `y` follows `x` in the list, or the way round passes the end of the list
  rcases List.append_eq_append_iff.mp h with ⟨c, rfl, hc⟩ | ⟨c, rfl, hc⟩
  · rw [hc, List.append_assoc, List.cons_append]
    rw [rotation_append_cons (by grind)]
    simp
  · cases c with
    | nil =>
      obtain rfl : pre = y :: b := hc.symm
      simp [rotation]
    | cons d c =>
      obtain ⟨rfl, rfl⟩ := List.cons.inj hc
      rw [show pre ++ x :: (a ++ y :: c) = (pre ++ x :: a) ++ y :: c by simp]
      rw [rotation_append_cons (by grind)]
      simp

theorem ahead_eq (hl : l.Nodup) (hx : x ∈ l) (h : rotation l x = a ++ q :: b) :
    ahead l x q = a := by
  have hnd := nodup_rotation hl hx
  rw [h, List.nodup_middle, List.nodup_cons, List.mem_append, not_or] at hnd
  rw [ahead, h, takeWhile_ne_append_cons hnd.1.1]

/-- The way round from `x`, cut at `q`. -/
theorem rotation_eq_ahead (hl : l.Nodup) (hx : x ∈ l) (hq : q ∈ l) (hne : q ≠ x) :
    ∃ b, rotation l x = ahead l x q ++ q :: b := by
  obtain ⟨a, b, h⟩ := List.append_of_mem ((mem_rotation hl hx).mpr ⟨hq, hne⟩)
  exact ⟨b, by rw [ahead_eq hl hx h]; exact h⟩

theorem mem_of_mem_ahead (hl : l.Nodup) (hx : x ∈ l) (hy : y ∈ ahead l x q) : y ∈ l ∧ y ≠ x :=
  (mem_rotation hl hx).mp (List.takeWhile_sublist _ |>.subset hy)

/-- What is ahead of an element further round was ahead before, and that element is not. -/
theorem ahead_of_mem_ahead (hl : l.Nodup) (hx : x ∈ l) (hq : q ∈ l) (hne : q ≠ x)
    (hy : y ∈ ahead l x q) (hz : z ∈ ahead l y q) : z ∈ ahead l x q ∧ z ≠ y := by
  obtain ⟨b, h⟩ := rotation_eq_ahead hl hx hq hne
  obtain ⟨c, d, hcd⟩ := List.append_of_mem hy
  rw [hcd, List.append_assoc, List.cons_append] at h
  have hyl : y ∈ l := ((mem_rotation hl hx).mp (by simp [h])).1
  have hround := rotation_of_rotation hl hx h
  rw [List.append_assoc, List.cons_append] at hround
  rw [ahead_eq hl hyl hround] at hz
  refine ⟨by simp [hcd, hz], ?_⟩
  rintro rfl
  have hnd := nodup_rotation hl hx
  rw [h] at hnd
  grind

theorem rotation_erase (hl : l.Nodup) (hx : x ∈ l) (hne : x ≠ z) :
    rotation (l.erase z) x = (rotation l x).erase z := by
  obtain ⟨pre, post, rfl, hpre, hpost, hnd⟩ := exists_split hl hx
  rw [rotation_append_cons hpre]
  by_cases hz : z ∈ pre
  · have hz' : z ∉ post := fun h => List.disjoint_of_nodup_append hnd h hz
    rw [List.erase_append_left _ hz, List.erase_append_right _ hz',
      rotation_append_cons fun h => hpre (List.mem_of_mem_erase h)]
  · rw [List.erase_append_right _ hz, List.erase_cons_tail (by simpa using hne),
      rotation_append_cons hpre]
    by_cases hz' : z ∈ post
    · rw [List.erase_append_left _ hz']
    · rw [List.erase_append_right _ hz', List.erase_of_not_mem hz, List.erase_of_not_mem hz']

/-- Deleting an element brings nothing new ahead. -/
theorem ahead_erase_subset (hl : l.Nodup) (hx : x ∈ l) (hq : q ∈ l) (hqx : q ≠ x) (hxz : x ≠ z)
    (hqz : q ≠ z) : ahead (l.erase z) x q ⊆ ahead l x q := by
  obtain ⟨b, h⟩ := rotation_eq_ahead hl hx hq hqx
  have hx' : x ∈ l.erase z := (List.mem_erase_of_ne hxz).mpr hx
  have he := rotation_erase hl hx hxz
  by_cases hz : z ∈ ahead l x q
  · rw [h, List.erase_append_left _ hz] at he
    rw [ahead_eq (hl.erase z) hx' he]
    exact List.erase_subset
  · rw [h, List.erase_append_right _ hz, List.erase_cons_tail (by simpa using hqz)] at he
    rw [ahead_eq (hl.erase z) hx' he]
    exact List.Subset.refl _

section Search

variable {w : α → Bool}

omit [DecidableEq α] in
/-- The first hit is a given one, or comes before it. -/
theorem find_append_cons (hw : w q) :
    ∃ y, (a ++ q :: b).find? w = some y ∧ (y = q ∨ y ∈ a) := by
  rw [List.find?_append]
  cases hf : a.find? w with
  | none => exact ⟨q, by simp [hw], .inl rfl⟩
  | some y => exact ⟨y, rfl, .inr (List.mem_of_find?_eq_some hf)⟩

/-- The first hit on the way round is ahead of any other hit. -/
theorem find_rotation (hl : l.Nodup) (hx : x ∈ l) (hq : q ∈ l) (hqx : q ≠ x) (hw : w q) :
    ∃ y, (rotation l x).find? w = some y ∧ (y = q ∨ y ∈ ahead l x q) := by
  obtain ⟨b, h⟩ := rotation_eq_ahead hl hx hq hqx
  rw [h]
  exact find_append_cons hw

/-- A search that starts after the first element of the list and not after `x` finds something
ahead of the hit `q` as well, if nothing it passes before it comes to `x` is a hit, or `q` is
there. The elements `mid` stand for `x`, which may have been deleted. -/
theorem find_restart (mid : List α) (hl : (y :: (pre ++ x :: post)).Nodup)
    (hq : q ∈ y :: (pre ++ post)) (hw : w q) (hpre : q ∉ pre → ∀ z ∈ pre, ¬ w z)
    (hmid : ∀ z ∈ mid, ¬ w z) :
    ∃ z, (pre ++ mid ++ post ++ [y]).find? w = some z ∧
      (z = q ∨ z ∈ ahead (y :: (pre ++ x :: post)) x q) := by
  have hx : x ∉ y :: pre := by
    intro hx
    exact List.disjoint_of_nodup_append hl hx List.mem_cons_self
  have hmem : x ∈ y :: (pre ++ x :: post) := by simp
  have hround : rotation (y :: (pre ++ x :: post)) x = post ++ y :: pre := by
    rw [← List.cons_append]
    exact rotation_append_cons hx
  by_cases hqpre : q ∈ pre
  · obtain ⟨a, b, rfl⟩ := List.append_of_mem hqpre
    have hahead := ahead_eq hl hmem (hround.trans (by simp :
      post ++ y :: (a ++ q :: b) = (post ++ y :: a) ++ q :: b))
    obtain ⟨z, hz, h⟩ := find_append_cons (a := a) (b := b ++ mid ++ post ++ [y]) hw
    refine ⟨z, by simpa using hz, h.imp_right fun hza => ?_⟩
    rw [hahead]
    simp [hza]
  · have hq' : q ∈ post ++ [y] := by grind
    obtain ⟨a, b, hab⟩ := List.append_of_mem hq'
    have hahead := ahead_eq hl hmem (hround.trans (by
      rw [show post ++ y :: pre = post ++ [y] ++ pre by simp, hab]
      simp : post ++ y :: pre = a ++ q :: (b ++ pre)))
    have hnone : (pre ++ mid).find? w = none := by
      rw [List.find?_eq_none]
      intro z hz
      exact (List.mem_append.mp hz).elim (hpre hqpre z) (hmid z)
    obtain ⟨z, hz, h⟩ := find_append_cons (a := a) (b := b) hw
    refine ⟨z, ?_, by rwa [hahead]⟩
    rw [List.append_assoc, List.find?_append, hnone, hab, hz]
    rfl

/-- The same when the first element of the list has been deleted. -/
theorem find_restart_head (hl : (x :: y :: post).Nodup) (hq : q ∈ y :: post) (hw : w q)
    (hpost : q = y → ∀ z ∈ post, ¬ w z) :
    ∃ z, (post ++ [y]).find? w = some z ∧ (z = q ∨ z ∈ ahead (x :: y :: post) x q) := by
  by_cases hqy : q = y
  · subst hqy
    refine ⟨q, ?_, .inl rfl⟩
    rw [List.find?_append, List.find?_eq_none.mpr (hpost rfl)]
    simp [hw]
  · obtain ⟨a, b, rfl⟩ := List.append_of_mem (List.mem_of_ne_of_mem hqy hq)
    have hahead := ahead_eq hl List.mem_cons_self (show
      rotation (x :: y :: (a ++ q :: b)) x = (y :: a) ++ q :: b by simp [rotation])
    obtain ⟨z, hz, h⟩ := find_append_cons (a := a) (b := b ++ [y]) hw
    refine ⟨z, by simpa using hz, h.imp_right fun hza => ?_⟩
    rw [hahead]
    exact List.mem_cons_of_mem y hza

end Search

end Hjortron
