import Hjortron.Misc.BlockList

/-!
# The order of releases

Releases of different blocks commute, also where free blocks stand next to each other unjoined:
a release joins at most one block on either side, and the block between two released ones ends up
in the same join whichever of them comes first. Releasing a set of blocks therefore leads to the
same list in every order.
-/

namespace Hjortron.BlockList

variable {h a : Nat} {b c p q x y : Block} {bs pre mid post : List Block}

theorem join_assoc : (b.join h c).join h p = b.join h (c.join h p) := by
  simp only [Block.join, Block.mk.injEq, and_true, true_and]
  omega

theorem join_freed : b.join h c.freed = b.join h c := rfl

/-- Joining with a block that has been joined with its own successor. -/
theorem joinNext_joinNext (hy : y.used = false) :
    joinNext h x (joinNext h y post) = joinNext h (x.join h y) post := by
  cases post with
  | nil => simp [joinNext, hy]
  | cons c cs =>
    cases hc : c.used with
    | true => simp [joinNext, hc, hy]
    | false =>
      have hyc : (y.join h c).used = false := hy
      simp [joinNext, hc, hyc, join_assoc]

/-- What a release does on its left side does not depend on what follows. -/
theorem release_left (hpre : ∀ x ∈ pre, x.addr ≠ b.addr) :
    ∃ pre' x, x.used = false ∧ (∀ y ∈ pre', y ∈ pre) ∧
      (x.addr = b.addr ∨ ∃ y ∈ pre, x.addr = y.addr) ∧
      ∀ post, release h b.addr (pre ++ b :: post) = pre' ++ joinNext h x post := by
  by_cases hlast : ∀ p ∈ pre.getLast?, p.used = true
  · refine ⟨pre, b.freed, rfl, fun _ hy => hy, Or.inl rfl, fun post => ?_⟩
    exact release_of_used_before post hpre hlast
  · obtain ⟨p, hp, hu⟩ : ∃ p ∈ pre.getLast?, p.used = false := by simpa using hlast
    obtain ⟨init, rfl⟩ := List.getLast?_eq_some_iff.mp hp
    have hinit : ∀ x ∈ init, x.addr ≠ b.addr := fun x hx => hpre x (by simp [hx])
    refine ⟨init, p.join h b, hu, fun y hy => by simp [hy], Or.inr ⟨p, by simp, rfl⟩,
      fun post => ?_⟩
    rw [List.append_assoc, List.singleton_append]
    exact release_of_free_before hinit (hpre p (by simp)) hu

/-- A release leaves what comes before the neighbour of its block as it is. -/
theorem release_append (hpre : ∀ x ∈ pre, x.addr ≠ a) (hc : c.addr ≠ a) :
    release h a (pre ++ c :: post) = pre ++ release h a (c :: post) := by
  induction pre with
  | nil => rfl
  | cons x xs ih =>
    have hx : x.addr ≠ a := hpre x List.mem_cons_self
    have htail := ih fun y hy => hpre y (List.mem_cons_of_mem _ hy)
    cases xs with
    | nil => exact release_skip hx (Or.inl hc)
    | cons y ys =>
      have hy : y.addr ≠ a := hpre y (by simp)
      simp only [List.cons_append] at htail ⊢
      rw [release_skip hx (Or.inl hy), htail]

/-- Releasing `q` behind a free block `x` that has been joined with its successor, when it would
turn the blocks `mid` and `q` into `rs` behind a block in use. -/
def Joins (h : Nat) (q : Block) (mid post rs : List Block) : Prop :=
  ∀ pre x, (∀ y ∈ pre, y.addr ≠ q.addr) → x.addr ≠ q.addr → x.used = false →
    release h q.addr (pre ++ joinNext h x (mid ++ q :: post)) = pre ++ joinNext h x rs

theorem joins_nil (hq : q.used = true) : Joins h q [] post (joinNext h q.freed post) := by
  intro pre x hpre hx hu
  have hjoin : joinNext h x (q :: post) = x :: q :: post := by simp [joinNext, hq]
  rw [List.nil_append, hjoin, release_of_free_before hpre hx hu, joinNext_joinNext rfl, join_freed]

/-- A block in use between the two keeps them apart. -/
theorem joins_used (hc : c.used = true) (hca : c.addr ≠ q.addr)
    (hrel : release h q.addr (c :: (mid ++ q :: post)) = c :: bs) :
    Joins h q (c :: mid) post (c :: bs) := by
  intro pre x hpre hx hu
  have hjoin : ∀ zs, joinNext h x (c :: zs) = x :: c :: zs := fun zs => by simp [joinNext, hc]
  rw [List.cons_append, hjoin, hjoin, release_append hpre hx, release_skip hx (Or.inl hca), hrel]

/-- Two blocks between them: the free block next to `x` is joined with `x` either way. -/
theorem joins_cons_cons (hca : c.addr ≠ q.addr) (hb : b.addr ≠ q.addr) :
    Joins h q (c :: b :: mid) post (c :: release h q.addr (b :: (mid ++ q :: post))) := by
  cases hc : c.used with
  | true => exact joins_used hc hca (release_skip hca (Or.inl hb))
  | false =>
    intro pre x hpre hx hu
    have hjoin : ∀ zs, joinNext h x (c :: zs) = x.join h c :: zs := fun zs => by simp [joinNext, hc]
    have hx' : (x.join h c).addr ≠ q.addr := hx
    rw [List.cons_append, hjoin, hjoin, List.cons_append, release_append hpre hx',
      release_skip hx' (Or.inl hb)]

/-- A single block between them: a free one is joined with both. -/
theorem joins_singleton (hca : c.addr ≠ q.addr) :
    Joins h q [c] post (release h q.addr (c :: q :: post)) := by
  cases hc : c.used with
  | true =>
    have hrel : release h q.addr (c :: ([] ++ q :: post)) = c :: joinNext h q.freed post := by
      rw [List.nil_append, release_skip hca (Or.inr hc), release_self]
    rw [List.nil_append] at hrel
    rw [hrel]
    exact joins_used hc hca hrel
  | false =>
    intro pre x hpre hx hu
    have hjoin : joinNext h x (c :: q :: post) = x.join h c :: q :: post := by simp [joinNext, hc]
    have hrel : release h q.addr ([] ++ c :: q :: post) = [] ++ joinNext h (c.join h q) post :=
      release_of_free_before (by simp) hca hc
    have hx' : (x.join h c).addr ≠ q.addr := hx
    have hcq : (c.join h q).used = false := hc
    rw [List.nil_append, List.nil_append] at hrel
    rw [List.singleton_append, hjoin, release_of_free_before hpre hx' hu, hrel,
      joinNext_joinNext hcq, join_assoc]

/-- What releasing `q` does behind a block `p` in use. -/
theorem release_behind (post : List Block) (hp : p.used = true) (hq : q.used = true)
    (hpre : ∀ x ∈ pre, x.addr ≠ q.addr) (hpq : p.addr ≠ q.addr)
    (hmid : ∀ m ∈ mid, m.addr ≠ q.addr) :
    ∃ rs, release h q.addr (pre ++ p :: (mid ++ q :: post)) = pre ++ p :: rs ∧
      Joins h q mid post rs := by
  rw [release_append hpre hpq]
  match mid, hmid with
  | [], _ => exact ⟨_, by rw [List.nil_append, release_skip hpq (Or.inr hp), release_self],
      joins_nil hq⟩
  | [c], hmid =>
    have hca := hmid c (by simp)
    exact ⟨_, by rw [List.singleton_append, release_skip hpq (Or.inl hca)], joins_singleton hca⟩
  | c :: b :: ms, hmid =>
    have hca := hmid c (by simp)
    have hb := hmid b (by simp)
    refine ⟨_, ?_, joins_cons_cons hca hb⟩
    rw [List.cons_append, release_skip hpq (Or.inl hca), List.cons_append,
      release_skip hca (Or.inl hb)]

/-- The two releases commute when `p` comes before `q`. -/
theorem release_comm_of_before (hp : p.used = true) (hq : q.used = true)
    (hnd : ((pre ++ p :: (mid ++ q :: post)).map Block.addr).Nodup) :
    release h q.addr (release h p.addr (pre ++ p :: (mid ++ q :: post))) =
      release h p.addr (release h q.addr (pre ++ p :: (mid ++ q :: post))) := by
  simp only [List.map_append, List.map_cons, List.nodup_append, List.nodup_cons, List.mem_append,
    List.mem_cons, List.mem_map, not_or] at hnd
  obtain ⟨-, ⟨⟨-, hpq, -⟩, -, -, hmidq⟩, hcross⟩ := hnd
  have hprep : ∀ x ∈ pre, x.addr ≠ p.addr := fun x hx =>
    hcross x.addr ⟨x, hx, rfl⟩ p.addr (Or.inl rfl)
  have hpreq : ∀ x ∈ pre, x.addr ≠ q.addr := fun x hx =>
    hcross x.addr ⟨x, hx, rfl⟩ q.addr (Or.inr (Or.inr (Or.inl rfl)))
  have hmid : ∀ m ∈ mid, m.addr ≠ q.addr := fun m hm =>
    hmidq m.addr ⟨m, hm, rfl⟩ q.addr (Or.inl rfl)
  obtain ⟨pre', x, hx, hpre', hxaddr, hleft⟩ := release_left (h := h) hprep
  have hxq : x.addr ≠ q.addr := by
    rcases hxaddr with heq | ⟨y, hy, heq⟩
    · rw [heq]
      exact hpq
    · rw [heq]
      exact hpreq y hy
  obtain ⟨rs, hrel, hjoins⟩ := release_behind (h := h) post hp hq hpreq hpq hmid
  rw [hrel, hleft, hleft]
  exact hjoins pre' x (fun y hy => hpreq y (hpre' y hy)) hxq hx

/-- Releases of different blocks commute. -/
theorem release_comm (hh : 0 < h) (ho : Ordered h bs) (hpm : p ∈ bs) (hqm : q ∈ bs)
    (hp : p.used = true) (hq : q.used = true) (hne : p ≠ q) :
    release h q.addr (release h p.addr bs) = release h p.addr (release h q.addr bs) := by
  have hnd := ho.nodup_addr hh
  obtain ⟨pre, post, rfl⟩ := List.append_of_mem hpm
  simp only [List.mem_append, List.mem_cons] at hqm
  rcases hqm with hqm | heq | hqm
  · obtain ⟨xs, ys, rfl⟩ := List.append_of_mem hqm
    rw [List.append_assoc, List.cons_append] at hnd ⊢
    exact (release_comm_of_before hq hp hnd).symm
  · exact absurd heq.symm hne
  · obtain ⟨xs, ys, rfl⟩ := List.append_of_mem hqm
    exact release_comm_of_before hp hq hnd

/-! ## Sets of blocks -/

/-- The list after the blocks `xs` have been released one after another. -/
def releaseAll (h : Nat) (xs bs : List Block) : List Block :=
  xs.foldl (fun bs x => release h x.addr bs) bs

/-- `xs` are different blocks of `bs` in use. -/
structure Releasable (bs xs : List Block) : Prop where
  nodup : xs.Nodup
  mem : ∀ x ∈ xs, x ∈ bs ∧ x.used = true

theorem Releasable.tail {xs : List Block} (hh : 0 < h) (ho : Ordered h bs)
    (hr : Releasable bs (x :: xs)) : Releasable (release h x.addr bs) xs := by
  obtain ⟨hx, hnd⟩ := List.nodup_cons.mp hr.nodup
  refine ⟨hnd, fun y hy => ?_⟩
  obtain ⟨hyb, hyu⟩ := hr.mem y (List.mem_cons_of_mem x hy)
  have hne : y ≠ x := fun heq => hx (heq ▸ hy)
  exact (mem_release_used hh ho (hr.mem x List.mem_cons_self).1 y).mpr ⟨hyb, hyu, hne⟩

/-- The order in which a set of blocks is released does not matter. -/
theorem releaseAll_perm {xs ys : List Block} (hh : 0 < h) (ho : Ordered h bs)
    (hr : Releasable bs xs) (hperm : xs.Perm ys) : releaseAll h xs bs = releaseAll h ys bs := by
  induction hperm generalizing bs with
  | nil => rfl
  | cons x _ ih =>
    exact ih (ho.release hh (hr.mem x List.mem_cons_self).1) (hr.tail hh ho)
  | swap x y l =>
    obtain ⟨hy, hyu⟩ := hr.mem y (by simp)
    obtain ⟨hx, hxu⟩ := hr.mem x (by simp)
    have hne : y ≠ x := fun heq => (List.nodup_cons.mp hr.nodup).1 (by simp [heq])
    simp only [releaseAll, List.foldl_cons]
    rw [release_comm hh ho hy hx hyu hxu hne]
  | trans hxy _ ih₁ ih₂ =>
    rw [ih₁ ho hr]
    apply ih₂ ho
    exact ⟨hxy.nodup_iff.mp hr.nodup, fun z hz => hr.mem z (hxy.mem_iff.mpr hz)⟩

end Hjortron.BlockList
