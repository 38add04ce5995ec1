import Hjortron.Misc.BlockList

/-!
# Contiguous regions of blocks

A region without gaps (`Tiled`) in which no two neighbours are free (`Coalesced`) stays so
under `allocate` and `release`. Its footprint is then a constant, an allocation is undone by
the matching release, and the list without blocks in use is the one free block it started
from. In any list, a block that is allocated and released again takes no room away.
-/

namespace Hjortron.BlockList

variable {h n lo hi : Nat} {b : Block} {bs pre post : List Block}

/-! ## No gaps -/

theorem tiled_append {xs ys : List Block} :
    Tiled h lo (xs ++ ys) hi ↔ ∃ mid, Tiled h lo xs mid ∧ Tiled h mid ys hi := by
  induction xs generalizing lo with
  | nil => simp [Tiled]
  | cons x xs ih => simp [Tiled, ih, and_assoc]

/-- Replacing part of a tiling by blocks that tile the same interval. -/
theorem Tiled.replace {xs ys : List Block} (ht : Tiled h lo (pre ++ (ys ++ post)) hi)
    (hxy : ∀ l u, Tiled h l ys u → Tiled h l xs u) : Tiled h lo (pre ++ (xs ++ post)) hi := by
  obtain ⟨l, hpre, hmid⟩ := tiled_append.mp ht
  obtain ⟨u, hys, hpost⟩ := tiled_append.mp hmid
  exact tiled_append.mpr ⟨l, hpre, tiled_append.mpr ⟨u, hxy l u hys, hpost⟩⟩

theorem Tiled.le (ht : Tiled h lo bs hi) : lo ≤ hi := by
  induction bs generalizing lo with
  | nil => exact (show lo = hi from ht).le
  | cons b bs ih =>
    obtain ⟨rfl, hrest⟩ := ht
    have := ih hrest
    simp only [Block.stop] at this
    omega

theorem Tiled.within (ht : Tiled h lo bs hi) : ∀ b ∈ bs, lo ≤ b.addr ∧ b.stop h ≤ hi := by
  induction bs generalizing lo with
  | nil => simp
  | cons b bs ih =>
    obtain ⟨rfl, hrest⟩ := ht
    intro x hx
    rcases List.mem_cons.mp hx with rfl | hx
    · exact ⟨le_refl _, hrest.le⟩
    · obtain ⟨hlo, hhi⟩ := ih hrest x hx
      refine ⟨le_trans ?_ hlo, hhi⟩
      simp only [Block.stop]
      omega

theorem Tiled.ordered (ht : Tiled h lo bs hi) : Ordered h bs := by
  induction bs generalizing lo with
  | nil => exact List.Pairwise.nil
  | cons b bs ih =>
    obtain ⟨-, hrest⟩ := ht
    exact List.pairwise_cons.mpr ⟨fun x hx => (hrest.within x hx).1, ih hrest⟩

theorem Tiled.footprint (ht : Tiled h lo bs hi) : lo + footprint h bs = hi := by
  induction bs generalizing lo with
  | nil => simpa [BlockList.footprint] using (show lo = hi from ht)
  | cons b bs ih =>
    obtain ⟨rfl, hrest⟩ := ht
    have := ih hrest
    simp only [BlockList.footprint, Block.stop, List.foldr_cons] at this ⊢
    omega

theorem Tiled.take (hfit : b.Fits n) {l u : Nat} (ht : Tiled h l [b] u) :
    Tiled h l (take h n b) u := by
  obtain ⟨rfl, hu⟩ := ht
  have hlen := hfit.2
  unfold BlockList.take
  split
  · simp only [Tiled, Block.stop, true_and] at hu ⊢
    omega
  · exact ⟨rfl, hu⟩

theorem Tiled.merge {x : Block} {ys : List Block} (hm : Merge h b ys x) {l u : Nat}
    (ht : Tiled h l ys u) : Tiled h l [x] u := by
  cases hm with
  | alone => exact ht
  | left p hp =>
    obtain ⟨rfl, hb, hu⟩ := ht
    simp only [Tiled, Block.stop, Block.join, true_and] at hb hu ⊢
    omega
  | right d hd =>
    obtain ⟨rfl, hd, hu⟩ := ht
    simp only [Tiled, Block.stop, Block.join, Block.freed, true_and] at hd hu ⊢
    omega
  | both p d hp hd =>
    obtain ⟨rfl, hb, hd, hu⟩ := ht
    simp only [Tiled, Block.stop, Block.join, true_and] at hb hd hu ⊢
    omega

theorem Tiled.allocate {r : List Block × Nat} (ht : Tiled h lo bs hi)
    (hr : allocate h n bs = some r) : Tiled h lo r.1 hi := by
  obtain ⟨pre, b, post, rfl, -, hfit, rfl⟩ := allocate_cases hr
  rw [← List.singleton_append] at ht
  exact ht.replace fun l u => Tiled.take hfit

theorem Tiled.release (hh : 0 < h) (ht : Tiled h lo bs hi) (hb : b ∈ bs) :
    Tiled h lo (release h b.addr bs) hi := by
  obtain ⟨pre, ys, x, post, rfl, hm, hrel, -⟩ :=
    release_cases (h := h) hb (ht.ordered.nodup_addr hh)
  rw [hrel, ← List.singleton_append]
  exact ht.replace fun l u => Tiled.merge hm

/-! ## No free neighbours -/

theorem coalesced_append {xs ys : List Block} :
    Coalesced (xs ++ ys) ↔ Coalesced xs ∧ Coalesced ys ∧
      ∀ x ∈ xs.getLast?, ∀ y ∈ ys.head?, x.used = true ∨ y.used = true :=
  List.isChain_append

theorem Coalesced.allocate {r : List Block × Nat} (hc : Coalesced bs)
    (hr : allocate h n bs = some r) : Coalesced r.1 := by
  obtain ⟨pre, b, post, rfl, -, hfit, rfl⟩ := allocate_cases hr
  obtain ⟨hpre, hbpost, hcross⟩ := coalesced_append.mp hc
  rw [← List.singleton_append, coalesced_append] at hbpost
  obtain ⟨-, hpost, hnext⟩ := hbpost
  have hpost_used : ∀ y ∈ post.head?, y.used = true := by
    intro y hy
    simpa [hfit.1] using hnext b (by simp) y hy
  rw [coalesced_append, coalesced_append]
  refine ⟨hpre, ⟨?_, hpost, fun x _ y hy => Or.inr (hpost_used y hy)⟩, ?_⟩
  · unfold BlockList.take
    split <;> simp [Coalesced]
  · intro x _ y hy
    right
    unfold BlockList.take at hy
    split at hy
    · simp at hy
      rw [← hy]
    · simp at hy
      rw [← hy]

theorem Coalesced.release (hh : 0 < h) (ho : Ordered h bs) (hc : Coalesced bs) (hb : b ∈ bs) :
    Coalesced (release h b.addr bs) := by
  obtain ⟨pre, ys, x, post, rfl, hm, hrel, hleft, hright⟩ :=
    release_cases (h := h) hb (ho.nodup_addr hh)
  obtain ⟨hpre, hyspost, hcross⟩ := coalesced_append.mp hc
  obtain ⟨hys, hpost, hnext⟩ := coalesced_append.mp hyspost
  -- the ends of the merged cluster meet blocks in use: either they were not free before,
  -- or they were free and their outer neighbour had to be in use
  have hbefore : ∀ p ∈ pre.getLast?, p.used = true := by
    intro p hp
    cases hm with
    | alone => exact hleft rfl p hp
    | left q hq => simpa [hq] using hcross p hp q (by simp)
    | right d hd => exact hleft rfl p hp
    | both q d hq hd => simpa [hq] using hcross p hp q (by simp)
  have hafter : ∀ d ∈ post.head?, d.used = true := by
    intro d hd
    cases hm with
    | alone => exact hright rfl d hd
    | left q hq => exact hright rfl d hd
    | right e he => simpa [he] using hnext e (by simp) d hd
    | both q e hq he => simpa [he] using hnext e (by simp) d hd
  rw [hrel, ← List.singleton_append, coalesced_append, coalesced_append]
  refine ⟨hpre, ⟨by simp [Coalesced], hpost, ?_⟩, ?_⟩
  · intro _ _ d hd
    exact Or.inr (hafter d hd)
  · intro p hp _ _
    exact Or.inl (hbefore p hp)

/-- Releasing what was just allocated restores the list. -/
theorem release_allocate_of_coalesced {r : List Block × Nat} (hh : 0 < h) (ho : Ordered h bs)
    (hc : Coalesced bs) (hr : allocate h n bs = some r) : release h r.2 r.1 = bs := by
  obtain ⟨pre, b, post, rfl, -, hfit, rfl⟩ := allocate_cases hr
  obtain ⟨-, hbpost, hcross⟩ := coalesced_append.mp hc
  rw [← List.singleton_append, coalesced_append] at hbpost
  have hbefore : ∀ p ∈ pre.getLast?, p.used = true := by
    intro p hp
    simpa [hfit.1] using hcross p hp b (by simp)
  have hafter : ∀ d ∈ post.head?, d.used = true := by
    intro d hd
    simpa [hfit.1] using hbpost.2.2 b (by simp) d hd
  have hpre : ∀ x ∈ pre, x.addr ≠ b.addr := by
    intro x hx heq
    have := (List.pairwise_append.mp ho).2.2 x hx b List.mem_cons_self
    simp only [Block.stop] at this
    omega
  have hjoin : ∀ c : Block, joinNext h c post = c :: post := by
    intro c
    rcases joinNext_cases h c post with ⟨hj, -⟩ | ⟨d, ds, rfl, hd, -⟩
    · exact hj
    · simp [hd] at hafter
  have hlen := hfit.2
  have hbf : b.used = false := hfit.1
  simp only [BlockList.take]
  split
  · have hrel := release_of_used_before (h := h) (b := ⟨b.addr, n, true⟩)
      (⟨b.addr + h + n, b.len - n - h, false⟩ :: post) hpre hbefore
    simp only [List.cons_append, List.nil_append]
    rw [hrel]
    simp only [joinNext, Block.join, Block.freed, Bool.false_eq_true, if_false]
    rw [show n + (b.len - n - h + h) = b.len by omega, ← hbf]
  · have hrel := release_of_used_before (h := h) (b := { b with used := true }) post hpre hbefore
    simp only [List.cons_append, List.nil_append]
    rw [hrel, hjoin, Block.freed]
    simp only [← hbf]

/-- A coalesced region without blocks in use is one free block. -/
theorem eq_singleton_of_coalesced (hlt : lo < hi) (ht : Tiled h lo bs hi) (hc : Coalesced bs)
    (hfree : ∀ b ∈ bs, b.used = false) : bs = [⟨lo, hi - (lo + h), false⟩] := by
  cases bs with
  | nil => exact absurd (show lo = hi from ht) hlt.ne
  | cons b bs =>
    cases bs with
    | nil =>
      obtain ⟨rfl, hstop⟩ := ht
      have hb : b.used = false := hfree b (by simp)
      obtain ⟨addr, len, used⟩ := b
      simp only [Tiled, Block.stop] at hstop hb
      simp only [hb, List.cons.injEq, Block.mk.injEq, true_and, and_true]
      omega
    | cons c cs =>
      have hbc : b.used = true ∨ c.used = true := by
        simpa using (List.isChain_cons_cons.mp hc).1
      simp [hfree b (by simp), hfree c (by simp)] at hbc

/-! ## Room for a request -/

/-- Joining a free block with its successor loses no room. -/
theorem joinNext_room {x y : Block} (hx : x.used = false) (hy : y ∈ x :: bs) (hfit : y.Fits n) :
    ∃ z ∈ joinNext h x bs, z.Fits n := by
  rcases joinNext_cases h x bs with ⟨hj, -⟩ | ⟨c, cs, rfl, hc, hj⟩
  · exact ⟨y, by rw [hj]; exact hy, hfit⟩
  · rw [hj]
    have hjoin : n ≤ x.len ∨ n ≤ c.len → (x.join h c).Fits n := by
      intro hlen
      refine ⟨hx, ?_⟩
      simp only [Block.join]
      omega
    simp only [List.mem_cons] at hy
    rcases hy with rfl | rfl | hy
    · exact ⟨_, List.mem_cons_self, hjoin (Or.inl hfit.2)⟩
    · exact ⟨_, List.mem_cons_self, hjoin (Or.inr hfit.2)⟩
    · exact ⟨y, List.mem_cons_of_mem _ hy, hfit⟩

/-- Releasing a block loses no room. -/
theorem release_room {x y : Block} (hh : 0 < h) (ho : Ordered h bs) (hx : x ∈ bs)
    (hu : x.used = true) (hy : y ∈ bs) (hfit : y.Fits n) : ∃ z ∈ release h x.addr bs, z.Fits n := by
  obtain ⟨pre, post, rfl⟩ := List.append_of_mem hx
  have hpre : ∀ p ∈ pre, p.addr ≠ x.addr := by
    intro p hp heq
    have hlt := (List.pairwise_append.mp ho).2.2 p hp x List.mem_cons_self
    simp only [Block.stop] at hlt
    omega
  have hpost : y ∈ pre ∨ y ∈ post := by
    rcases List.mem_append.mp hy with hy | hy
    · exact .inl hy
    · rcases List.mem_cons.mp hy with rfl | hy
      · have hfree := hfit.1
        rw [hu] at hfree
        cases hfree
      · exact .inr hy
  by_cases hlast : ∀ p ∈ pre.getLast?, p.used = true
  · rw [release_of_used_before _ hpre hlast]
    rcases hpost with hy | hy
    · exact ⟨y, List.mem_append_left _ hy, hfit⟩
    · obtain ⟨z, hz, hzfit⟩ := joinNext_room (x := x.freed) rfl (List.mem_cons_of_mem _ hy) hfit
      exact ⟨z, List.mem_append_right _ hz, hzfit⟩
  · obtain ⟨p, hp, hfree⟩ : ∃ p ∈ pre.getLast?, p.used = false := by simpa using hlast
    obtain ⟨init, rfl⟩ := List.getLast?_eq_some_iff.mp hp
    have hinit : ∀ q ∈ init, q.addr ≠ x.addr := fun q hq => hpre q (by simp [hq])
    rw [List.append_assoc, List.singleton_append,
      release_of_free_before hinit (hpre p (by simp)) hfree]
    have hjoined : ∀ y ∈ p.join h x :: post, y.Fits n →
        ∃ z ∈ init ++ joinNext h (p.join h x) post, z.Fits n := by
      intro y hy hfit
      obtain ⟨z, hz, hzfit⟩ := joinNext_room (x := p.join h x) hfree hy hfit
      exact ⟨z, List.mem_append_right _ hz, hzfit⟩
    rcases hpost with hy | hy
    · rw [List.mem_append, List.mem_singleton] at hy
      rcases hy with hy | rfl
      · exact ⟨y, List.mem_append_left _ hy, hfit⟩
      · apply hjoined _ List.mem_cons_self
        refine ⟨hfree, hfit.2.trans ?_⟩
        simp only [Block.join]
        omega
    · exact hjoined y (List.mem_cons_of_mem _ hy) hfit

/-- A free block `x` that has taken in the served part of `b` takes in its remainder too. -/
theorem joinNext_take_room {k : Nat} {x y : Block} (hx : x.used = false)
    (hlen : (served h k b).len ≤ x.len) (hy : y ∈ x :: b :: post) (hfit : y.Fits n) :
    ∃ z ∈ joinNext h x ((take h k b).tail ++ post), z.Fits n := by
  unfold take served at *
  split
  · rename_i hsplit
    rw [if_pos hsplit] at hlen
    simp only [List.mem_cons] at hy
    simp only [List.tail_cons, List.cons_append, List.nil_append, joinNext, Bool.false_eq_true,
      if_false]
    rcases hy with rfl | rfl | hy
    · refine ⟨_, List.mem_cons_self, hx, ?_⟩
      have := hfit.2
      simp only [Block.join]
      omega
    · refine ⟨_, List.mem_cons_self, hx, ?_⟩
      have := hfit.2
      simp only [Block.join] at hlen ⊢
      omega
    · exact ⟨y, List.mem_cons_of_mem _ hy, hfit⟩
  · rename_i hwhole
    rw [if_neg hwhole] at hlen
    rw [List.tail_cons, List.nil_append]
    simp only [List.mem_cons] at hy
    rcases hy with rfl | rfl | hy
    · exact joinNext_room hx List.mem_cons_self hfit
    · exact joinNext_room hx List.mem_cons_self ⟨hx, hfit.2.trans hlen⟩
    · exact joinNext_room hx (List.mem_cons_of_mem _ hy) hfit

theorem take_eq_served_cons {k : Nat} : take h k b = served h k b :: (take h k b).tail := by
  unfold take served
  split <;> rfl

/-- A block that is allocated and released again leaves room for what there was room for. -/
theorem release_allocate_room {k : Nat} {r : List Block × Nat} {y : Block} (hh : 0 < h)
    (ho : Ordered h bs) (hr : allocate h k bs = some r) (hy : y ∈ bs) (hfit : y.Fits n) :
    ∃ z ∈ release h r.2 r.1, z.Fits n := by
  obtain ⟨pre, b, post, rfl, -, -, rfl⟩ := allocate_cases hr
  have hpre : ∀ x ∈ pre, x.addr ≠ (served h k b).addr := by
    intro x hx heq
    have := (List.pairwise_append.mp ho).2.2 x hx b List.mem_cons_self
    rw [served_addr] at heq
    simp only [Block.stop] at this
    omega
  rw [take_eq_served_cons, ← served_addr (h := h) (n := k) (b := b), List.cons_append]
  rw [List.mem_append] at hy
  by_cases hlast : ∀ p ∈ pre.getLast?, p.used = true
  · rw [release_of_used_before _ hpre hlast]
    rcases hy with hy | hy
    · exact ⟨y, List.mem_append_left _ hy, hfit⟩
    · obtain ⟨z, hz, hzfit⟩ := joinNext_take_room (x := (served h k b).freed) rfl le_rfl
        (List.mem_cons_of_mem _ hy) hfit
      exact ⟨z, List.mem_append_right _ hz, hzfit⟩
  · obtain ⟨p, hp, hu⟩ : ∃ p ∈ pre.getLast?, p.used = false := by simpa using hlast
    obtain ⟨init, rfl⟩ := List.getLast?_eq_some_iff.mp hp
    have hinit : ∀ x ∈ init, x.addr ≠ (served h k b).addr := fun x hx => hpre x (by simp [hx])
    rw [List.append_assoc, List.singleton_append,
      release_of_free_before hinit (hpre p (by simp)) hu]
    have hgrows : p.len ≤ (p.join h (served h k b)).len ∧
        (served h k b).len ≤ (p.join h (served h k b)).len := by
      simp only [Block.join]
      omega
    have hfree : (p.join h (served h k b)).used = false := hu
    have hroom : ∀ y ∈ p.join h (served h k b) :: b :: post, y.Fits n →
        ∃ z ∈ init ++ joinNext h (p.join h (served h k b)) ((take h k b).tail ++ post),
          z.Fits n := by
      intro y hy hfit
      obtain ⟨z, hz, hzfit⟩ := joinNext_take_room hfree hgrows.2 hy hfit
      exact ⟨z, List.mem_append_right _ hz, hzfit⟩
    rcases hy with hy | hy
    · rw [List.mem_append, List.mem_singleton] at hy
      rcases hy with hy | rfl
      · exact ⟨y, List.mem_append_left _ hy, hfit⟩
      · exact hroom _ List.mem_cons_self ⟨hfree, hfit.2.trans hgrows.1⟩
    · exact hroom y (List.mem_cons_of_mem _ hy) hfit

/-- What is left of the room after a request. -/
theorem allocate_rest {k : Nat} {r : List Block × Nat} {y : Block}
    (hr : allocate h n bs = some r) (hy : y ∈ bs) (hfit : y.Fits (n + h + k)) (hk : 0 < k) :
    ∃ z ∈ r.1, z.Fits k := by
  obtain ⟨pre, b, post, rfl, -, -, rfl⟩ := allocate_cases hr
  have hle : k ≤ y.len := by
    have := hfit.2
    omega
  rcases List.mem_append.mp hy with hy | hy
  · exact ⟨y, List.mem_append_left _ hy, hfit.1, hle⟩
  rcases List.mem_cons.mp hy with rfl | hy
  · refine ⟨⟨y.addr + h + n, y.len - n - h, false⟩, List.mem_append_right _
      (List.mem_append_left _ ?_), rfl, ?_⟩
    · have hlt : n + h < y.len := by
        have := hfit.2
        omega
      rw [take, if_pos hlt]
      simp
    · have := hfit.2
      show k ≤ y.len - n - h
      omega
  · exact ⟨y, List.mem_append_right _ (List.mem_append_right _ hy), hfit.1, hle⟩

end Hjortron.BlockList
