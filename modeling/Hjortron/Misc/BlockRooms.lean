import Hjortron.Misc.BlockList

/-!
# Rooms that are filled from the bottom

As long as nothing is released, first fit cuts each region from the bottom: what it has handed out
lies below one free rest. A `Room` keeps only the numbers of a region, so that where a sequence of
requests ends up is told by sums of their sizes.
-/

namespace Hjortron.BlockList

/-- A region: its first address, where the free rest starts, where the region ends, and the first
address behind all bytes that were handed out or belong to a header that was written. -/
structure Room where
  start : Nat
  next : Nat
  stop : Nat
  reach : Nat
  deriving DecidableEq, Repr

/-- A region that is all free. -/
def Room.empty (start stop : Nat) : Room := ⟨start, start, stop, start⟩

/-- The header at the start of the first room is written. -/
def touchFirst (h : Nat) : List Room → List Room
  | [] => []
  | r :: rooms => { r with reach := max r.reach (r.start + h) } :: rooms

/-- A request of `n` bytes takes `h + n` bytes from the first room that has them left, or all that
is left there when no more than a header would remain. -/
def serve (h n : Nat) : List Room → List Room
  | [] => []
  | r :: rooms =>
    if r.next + h + n ≤ r.stop then
      if r.next + h + n + h < r.stop then
        { r with next := r.next + h + n, reach := r.next + h + n + h } :: touchFirst h rooms
      else
        { r with next := r.stop, reach := r.next + h + n } :: rooms
    else
      r :: serve h n rooms

/-- The address is in the part of a room that was handed out or written. -/
def Filled (rooms : List Room) (x : Nat) : Prop := ∃ r ∈ rooms, r.start ≤ x ∧ x < r.reach

/-- The free rest of the room. -/
def Room.rest (h : Nat) (r : Room) : List Block :=
  if r.next + h ≤ r.stop then [⟨r.next, r.stop - r.next - h, false⟩] else []

/-- The blocks of a room. -/
structure Room.Cut (h : Nat) (r : Room) (bs : List Block) : Prop where
  blocks : ∃ used, (∀ b ∈ used, b.used = true) ∧ bs = used ++ r.rest h
  head : ∃ b ∈ bs.head?, b.addr = r.start
  start_le : r.start ≤ r.next ∧ r.start ≤ r.reach
  reach_le : r.next + h ≤ r.stop → r.next ≤ r.reach ∧ r.reach ≤ r.next + h

/-- What is written or handed out when `b`, before the blocks `post`, serves `n` bytes: its header
and the bytes, and when a rest is cut off the headers of the rest and of the block behind it. -/
def Served (h n : Nat) (b : Block) (post : List Block) (x : Nat) : Prop :=
  b.addr ≤ x ∧ x < b.addr + h + n ∨
    n + h < b.len ∧ (b.addr + h + n ≤ x ∧ x < b.addr + h + n + h ∨
      ∃ c ∈ post.head?, c.addr ≤ x ∧ x < c.addr + h)

variable {h n x : Nat} {r : Room} {rooms : List Room} {b : Block} {bs xs ys pre post : List Block}
  {bss : List (List Block)}

theorem Room.cut_empty {start stop : Nat} (hroom : start + h ≤ stop) :
    (Room.empty start stop).Cut h [⟨start, stop - start - h, false⟩] where
  blocks := ⟨[], by simp, (if_pos hroom).symm⟩
  head := ⟨_, rfl, rfl⟩
  start_le := ⟨le_rfl, le_rfl⟩
  reach_le _ := ⟨le_rfl, Nat.le_add_right _ _⟩

/-- The first element with a property is behind all elements without it. -/
theorem first_append {p : Block → Prop} (hcut : xs ++ ys = pre ++ b :: post)
    (hxs : ∀ x ∈ xs, ¬ p x) (hb : p b) : ∃ pre', pre = xs ++ pre' ∧ ys = pre' ++ b :: post := by
  rcases List.append_eq_append_iff.mp hcut with ⟨pre', hpre, hys⟩ | ⟨zs, hzs, hrest⟩
  · exact ⟨pre', hpre, hys⟩
  · cases zs with
    | nil => exact ⟨[], by simpa using hzs.symm, hrest.symm⟩
    | cons z zs =>
      obtain ⟨rfl, -⟩ := List.cons.inj hrest
      exact absurd hb (hxs b (by simp [hzs]))

theorem filled_cons : Filled (r :: rooms) x ↔ r.start ≤ x ∧ x < r.reach ∨ Filled rooms x := by
  simp [Filled]

/-- The header that is written behind the last room that was cut. -/
theorem filled_touchFirst (hcut : List.Forall₂ (Room.Cut h) rooms bss) :
    Filled (touchFirst h rooms) x ↔
      Filled rooms x ∨ ∃ c ∈ bss.flatten.head?, c.addr ≤ x ∧ x < c.addr + h := by
  cases hcut with
  | nil => simp [touchFirst, Filled]
  | @cons r bs rooms bss hr hrest =>
    rcases hr.head with ⟨b, hb, haddr⟩
    rcases List.head?_eq_some_iff.mp hb with ⟨bs, rfl⟩
    have hstart := hr.start_le.2
    rw [touchFirst, filled_cons, filled_cons]
    simp only [List.flatten_cons, List.cons_append, List.head?_cons, Option.mem_def,
      Option.some.injEq, exists_eq_left', haddr]
    have hwide : r.start ≤ x ∧ x < max r.reach (r.start + h) ↔
        (r.start ≤ x ∧ x < r.reach) ∨ r.start ≤ x ∧ x < r.start + h := by omega
    rw [hwide, or_right_comm]

theorem cut_touchFirst (hcut : List.Forall₂ (Room.Cut h) rooms bss) :
    List.Forall₂ (Room.Cut h) (touchFirst h rooms) bss := by
  cases hcut with
  | nil => exact .nil
  | @cons r bs rooms bss hr hrest =>
    have hstart := hr.start_le
    refine .cons ⟨hr.blocks, hr.head, ⟨hstart.1, ?_⟩, fun hroom => ?_⟩ hrest
    · exact hstart.2.trans (Nat.le_max_left _ _)
    · have hreach := hr.reach_le hroom
      dsimp only
      omega

/-- A room with enough left serves the request from its rest. -/
theorem Room.Cut.serves (hr : r.Cut h bs) (hh : 0 < h) (hn : 1 ≤ n)
    (hfit : r.next + h + n ≤ r.stop) :
    ∃ used, (∀ b ∈ used, b.used = true) ∧ bs = used ++ [⟨r.next, r.stop - r.next - h, false⟩] ∧
      (r.next + h + n + h < r.stop →
        Room.Cut h { r with next := r.next + h + n, reach := r.next + h + n + h }
          (used ++ take h n ⟨r.next, r.stop - r.next - h, false⟩)) ∧
      (¬ r.next + h + n + h < r.stop →
        Room.Cut h { r with next := r.stop, reach := r.next + h + n }
          (used ++ take h n ⟨r.next, r.stop - r.next - h, false⟩)) := by
  rcases hr.blocks with ⟨used, hused, hbs⟩
  rw [Room.rest, if_pos (by omega)] at hbs
  have hstart := hr.start_le
  have hhead : ∀ c cs, c.addr = r.next → ∃ b ∈ (used ++ c :: cs).head?, b.addr = r.start := by
    intro c cs hc
    rcases hr.head with ⟨b, hb, haddr⟩
    rw [hbs] at hb
    cases used with
    | nil =>
      obtain rfl := Option.some.inj hb
      exact ⟨c, rfl, hc.trans haddr⟩
    | cons d ds => exact ⟨b, hb, haddr⟩
  refine ⟨used, hused, hbs, fun hsplit => ?_, fun hwhole => ?_⟩
  · rw [take, if_pos (by dsimp only; omega)]
    refine ⟨⟨used ++ [⟨r.next, n, true⟩], ?_, ?_⟩, hhead _ _ rfl, ?_, fun _ => ?_⟩
    · simpa [or_imp, forall_and] using hused
    · rw [Room.rest, if_pos (by dsimp only; omega), List.append_assoc]
      simp only [List.singleton_append, List.append_cancel_left_eq, List.cons.injEq,
        Block.mk.injEq, and_true, true_and]
      omega
    · dsimp only
      omega
    · dsimp only
      omega
  · rw [take, if_neg (by dsimp only; omega)]
    refine ⟨⟨used ++ [⟨r.next, r.stop - r.next - h, true⟩], ?_, ?_⟩, hhead _ _ rfl, ?_,
      fun hroom => ?_⟩
    · simpa [or_imp, forall_and] using hused
    · rw [Room.rest, if_neg (by dsimp only; omega), List.append_nil]
    · dsimp only
      omega
    · dsimp only at hroom ⊢
      omega

/-- A room without enough left has no block for the request. -/
theorem Room.Cut.not_fits (hr : r.Cut h bs) (hfit : ¬ r.next + h + n ≤ r.stop) :
    ∀ b ∈ bs, ¬ b.Fits n := by
  rcases hr.blocks with ⟨used, hused, rfl⟩
  intro b hb hb'
  rcases List.mem_append.mp hb with hb | hb
  · exact Bool.false_ne_true (hb'.1.symm.trans (hused b hb))
  · rw [Room.rest] at hb
    split_ifs at hb with hroom
    · obtain rfl := List.mem_singleton.mp hb
      have hlen := hb'.2
      dsimp only at hlen
      omega
    · exact absurd hb List.not_mem_nil

/-- First fit on the blocks is `serve` on the rooms. -/
theorem cut_serve (hh : 0 < h) (hn : 1 ≤ n) (hcut : List.Forall₂ (Room.Cut h) rooms bss)
    (hbss : bss.flatten = pre ++ b :: post) (hpre : ∀ x ∈ pre, ¬ x.Fits n) (hb : b.Fits n) :
    ∃ bss', List.Forall₂ (Room.Cut h) (serve h n rooms) bss' ∧
      bss'.flatten = pre ++ (take h n b ++ post) ∧
      ∀ x, Filled (serve h n rooms) x ↔ Filled rooms x ∨ Served h n b post x := by
  induction hcut generalizing pre with
  | nil => exact absurd hbss (by simp)
  | @cons r bs rooms bss hr hrest ih =>
    rw [List.flatten_cons] at hbss
    by_cases hfit : r.next + h + n ≤ r.stop
    · rcases hr.serves hh hn hfit with ⟨used, hused, rfl, hsplit, hwhole⟩
      have hnot : ∀ c ∈ used, ¬ c.Fits n := fun c hc hfits =>
        Bool.false_ne_true (hfits.1.symm.trans (hused c hc))
      rw [List.append_assoc] at hbss
      rcases first_append hbss hnot hb with ⟨pre', rfl, hrest'⟩
      -- the rest of the room is the block that serves the request
      cases pre' with
      | cons c pre' =>
        obtain ⟨rfl, -⟩ := List.cons.inj hrest'
        refine absurd ⟨rfl, ?_⟩ (hpre ⟨r.next, r.stop - r.next - h, false⟩ (by simp))
        dsimp only
        omega
      | nil =>
        obtain ⟨rfl, rfl⟩ := List.cons.inj hrest'
        have hstart := hr.start_le
        have hreach := hr.reach_le (by omega)
        rw [serve, if_pos hfit]
        by_cases hcutoff : r.next + h + n + h < r.stop
        · rw [if_pos hcutoff]
          refine ⟨_, .cons (hsplit hcutoff) (cut_touchFirst hrest), by simp, fun x => ?_⟩
          have hlen : n + h < r.stop - r.next - h := by omega
          have hrange : r.start ≤ x ∧ x < r.next + h + n + h ↔
              (r.start ≤ x ∧ x < r.reach) ∨ (r.next ≤ x ∧ x < r.next + h + n) ∨
                r.next + h + n ≤ x ∧ x < r.next + h + n + h := by omega
          rw [filled_cons, filled_cons, filled_touchFirst hrest, Served, and_iff_right hlen, hrange]
          exact iff_of_eq (by ac_rfl)
        · rw [if_neg hcutoff]
          refine ⟨_, .cons (hwhole hcutoff) hrest, by simp, fun x => ?_⟩
          have hlen : ¬ n + h < r.stop - r.next - h := by omega
          have hrange : r.start ≤ x ∧ x < r.next + h + n ↔
              (r.start ≤ x ∧ x < r.reach) ∨ r.next ≤ x ∧ x < r.next + h + n := by omega
          rw [filled_cons, filled_cons, Served, hrange, or_right_comm]
          simp only [hlen, false_and, or_false]
    · have hnot := hr.not_fits hfit
      rcases first_append hbss hnot hb with ⟨pre', rfl, hrest'⟩
      rcases ih hrest' fun c hc => hpre c (by simp [hc]) with ⟨bss', hcut', hflat, hfilled⟩
      rw [serve, if_neg hfit]
      refine ⟨bs :: bss', .cons hr hcut', ?_, fun x => ?_⟩
      · rw [List.flatten_cons, hflat, List.append_assoc]
      · rw [filled_cons, filled_cons, hfilled x, or_assoc]

end Hjortron.BlockList
