import Mathlib.Data.List.Basic
import Mathlib.Data.List.Chain

/-!
# Boundary-tag block lists

An address space is cut into blocks, each with a header of `h` bytes in front of its
payload. Blocks are kept in address order; `allocate` is first fit with splitting, and
`release` marks a block free and joins it with the neighbour on either side that is free.
Addresses are unbounded naturals here: a client that computes in machine words shows that
its sums stay below the word size.

The joins look at list neighbours only. `Ordered` therefore survives them even when the
neighbours are not contiguous, whereas `Tiled` (no gaps) and `Coalesced` (no two free
neighbours) describe a single contiguous region.
-/

namespace Hjortron.BlockList

/-- A block: header at `addr`, then `len` payload bytes. -/
structure Block where
  addr : Nat
  len : Nat
  used : Bool
  deriving DecidableEq, Repr

namespace Block

/-- The first address after the payload. -/
def stop (h : Nat) (b : Block) : Nat := b.addr + h + b.len

/-- `b` extended by the payload of `c` and by `c`'s header. -/
def join (h : Nat) (b c : Block) : Block := { b with len := b.len + (c.len + h) }

/-- The block marked free. -/
def freed (b : Block) : Block := { b with used := false }

/-- The block can serve a request of `n` bytes. -/
def Fits (n : Nat) (b : Block) : Prop := b.used = false ∧ n ≤ b.len

instance (n : Nat) (b : Block) : Decidable (b.Fits n) :=
  inferInstanceAs (Decidable (_ ∧ _))

end Block

variable {h n a : Nat} {b c d : Block} {bs cs pre post : List Block}

/-- The pieces a block is cut into when it serves `n` bytes: the remainder becomes a free
block of its own when more than a header is left over. -/
def take (h n : Nat) (b : Block) : List Block :=
  if n + h < b.len then
    [⟨b.addr, n, true⟩, ⟨b.addr + h + n, b.len - n - h, false⟩]
  else
    [{ b with used := true }]

/-- First fit: the new list and the address of the block that serves the request. -/
def allocate (h n : Nat) : List Block → Option (List Block × Nat)
  | [] => none
  | b :: bs =>
    if b.Fits n then
      some (take h n b ++ bs, b.addr)
    else
      (allocate h n bs).map fun r => (b :: r.1, r.2)

/-- A free block joined with the block after it when that one is free as well. -/
def joinNext (h : Nat) (b : Block) : List Block → List Block
  | [] => [b]
  | c :: cs => if c.used then b :: c :: cs else b.join h c :: cs

/-- Marks the block at address `a` free and joins it with its free neighbours. -/
def release (h a : Nat) : List Block → List Block
  | [] => []
  | b :: bs =>
    if b.addr = a then
      joinNext h b.freed bs
    else
      match bs with
      | [] => [b]
      | c :: cs =>
        if c.addr = a ∧ b.used = false then
          joinNext h (b.join h c) cs
        else
          b :: release h a (c :: cs)

/-- Blocks in address order without overlap; gaps are allowed. -/
def Ordered (h : Nat) (bs : List Block) : Prop :=
  bs.Pairwise fun b c => b.stop h ≤ c.addr

/-- Blocks that cover `[lo, hi)` without gaps. -/
def Tiled (h : Nat) : Nat → List Block → Nat → Prop
  | lo, [], hi => lo = hi
  | lo, b :: bs, hi => b.addr = lo ∧ Tiled h (b.stop h) bs hi

/-- No two neighbours are both free. -/
def Coalesced (bs : List Block) : Prop :=
  bs.IsChain fun b c => b.used = true ∨ c.used = true

/-- Header and payload bytes of all blocks together. -/
def footprint (h : Nat) (bs : List Block) : Nat :=
  bs.foldr (fun b n => b.len + h + n) 0

/-! ## What the two operations do -/

/-- The only way an allocation succeeds: the first fitting block is cut. -/
theorem allocate_cases {r : List Block × Nat} (hr : allocate h n bs = some r) :
    ∃ pre b post, bs = pre ++ b :: post ∧ (∀ x ∈ pre, ¬ x.Fits n) ∧ b.Fits n ∧
      r = (pre ++ (take h n b ++ post), b.addr) := by
  induction bs generalizing r with
  | nil => simp [allocate] at hr
  | cons b bs ih =>
    unfold allocate at hr
    split at hr
    · rename_i hfit
      cases hr
      exact ⟨[], b, bs, rfl, by simp, hfit, rfl⟩
    · rename_i hno
      obtain ⟨r', hr', rfl⟩ := Option.map_eq_some_iff.mp hr
      obtain ⟨pre, c, post, rfl, hpre, hfit, rfl⟩ := ih hr'
      refine ⟨b :: pre, c, post, rfl, ?_, hfit, rfl⟩
      intro x hx
      rcases List.mem_cons.mp hx with rfl | hx
      · exact hno
      · exact hpre x hx

theorem allocate_eq_none_iff : allocate h n bs = none ↔ ∀ b ∈ bs, ¬ b.Fits n := by
  induction bs with
  | nil => simp [allocate]
  | cons b bs ih =>
    unfold allocate
    split
    · rename_i hfit
      simpa using fun hno => absurd hfit hno
    · rename_i hno
      simpa [hno] using ih

@[simp] theorem release_self : release h b.addr (b :: bs) = joinNext h b.freed bs := by
  unfold release
  simp

/-- Skipping a block that neither is the released one nor absorbs it. -/
theorem release_skip (hb : b.addr ≠ a) (hc : c.addr ≠ a ∨ b.used = true) :
    release h a (b :: c :: cs) = b :: release h a (c :: cs) := by
  have : ¬ (c.addr = a ∧ b.used = false) := by
    rintro ⟨hca, hbu⟩
    rcases hc with hc | hc
    · exact hc hca
    · simp [hbu] at hc
  rw [release, if_neg hb]
  simp [this]

/-- The released block has no free block before it. -/
theorem release_of_used_before (post : List Block) (hpre : ∀ x ∈ pre, x.addr ≠ b.addr)
    (hlast : ∀ x ∈ pre.getLast?, x.used = true) :
    release h b.addr (pre ++ b :: post) = pre ++ joinNext h b.freed post := by
  induction pre with
  | nil => simp
  | cons x xs ih =>
    have hx : x.addr ≠ b.addr := hpre x List.mem_cons_self
    cases xs with
    | nil =>
      have hu : x.used = true := hlast x (by simp)
      simp only [List.cons_append, List.nil_append]
      rw [release_skip hx (Or.inr hu), release_self]
    | cons y ys =>
      have hy : y.addr ≠ b.addr := hpre y (by simp)
      have htail := ih (fun z hz => hpre z (List.mem_cons_of_mem _ hz)) (by simpa using hlast)
      simp only [List.cons_append] at htail ⊢
      rw [release_skip hx (Or.inl hy), htail]

/-- The released block is absorbed by the free block before it. -/
theorem release_of_free_before (hpre : ∀ x ∈ pre, x.addr ≠ b.addr)
    (hca : c.addr ≠ b.addr) (hc : c.used = false) :
    release h b.addr (pre ++ c :: b :: post) = pre ++ joinNext h (c.join h b) post := by
  induction pre with
  | nil => simp [release, hca, hc]
  | cons x xs ih =>
    have hx : x.addr ≠ b.addr := hpre x List.mem_cons_self
    have htail := ih fun z hz => hpre z (List.mem_cons_of_mem _ hz)
    cases xs with
    | nil =>
      simp only [List.cons_append, List.nil_append] at htail ⊢
      rw [release_skip hx (Or.inl hca), htail]
    | cons y ys =>
      have hy : y.addr ≠ b.addr := hpre y (by simp)
      simp only [List.cons_append] at htail ⊢
      rw [release_skip hx (Or.inl hy), htail]

theorem joinNext_cases (h : Nat) (b : Block) (bs : List Block) :
    (joinNext h b bs = b :: bs ∧ ∀ c ∈ bs.head?, c.used = true) ∨
      ∃ c cs, bs = c :: cs ∧ c.used = false ∧ joinNext h b bs = b.join h c :: cs := by
  cases bs with
  | nil => exact Or.inl ⟨rfl, by simp⟩
  | cons c cs =>
    cases hc : c.used with
    | true => exact Or.inl ⟨by simp [joinNext, hc], by simp [hc]⟩
    | false => exact Or.inr ⟨c, cs, rfl, hc, by simp [joinNext, hc]⟩

/-- `Merge h b ys x`: releasing `b` replaces the neighbouring blocks `ys` by `x`. -/
inductive Merge (h : Nat) (b : Block) : List Block → Block → Prop
  | alone : Merge h b [b] b.freed
  | left (p : Block) : p.used = false → Merge h b [p, b] (p.join h b)
  | right (d : Block) : d.used = false → Merge h b [b, d] (b.freed.join h d)
  | both (p d : Block) : p.used = false → d.used = false →
      Merge h b [p, b, d] ((p.join h b).join h d)

/-- Everything a release can do: one to three neighbours become one free block, and the
blocks next to an unmerged end are in use. -/
theorem release_cases (hb : b ∈ bs) (hnd : (bs.map Block.addr).Nodup) :
    ∃ pre ys x post, bs = pre ++ (ys ++ post) ∧ Merge h b ys x ∧
      release h b.addr bs = pre ++ x :: post ∧
      (ys.head? = some b → ∀ p ∈ pre.getLast?, p.used = true) ∧
      (ys.getLast? = some b → ∀ d ∈ post.head?, d.used = true) := by
  obtain ⟨pre, post, rfl⟩ := List.append_of_mem hb
  have hpre : ∀ x ∈ pre, x.addr ≠ b.addr := by
    intro x hx heq
    rw [List.map_append, List.map_cons, List.nodup_append] at hnd
    exact hnd.2.2 x.addr (List.mem_map_of_mem hx) b.addr List.mem_cons_self heq
  have hpost : ∀ x ∈ post, x ≠ b := by
    rintro x hx rfl
    rw [List.map_append, List.map_cons, List.nodup_append, List.nodup_cons] at hnd
    exact hnd.2.1.1 (List.mem_map_of_mem hx)
  by_cases hlast : ∀ p ∈ pre.getLast?, p.used = true
  · rw [release_of_used_before _ hpre hlast]
    rcases joinNext_cases h b.freed post with ⟨hjoin, hd⟩ | ⟨d, ds, rfl, hd, hjoin⟩
    · exact ⟨pre, [b], _, post, rfl, .alone, by rw [hjoin], fun _ => hlast, fun _ => hd⟩
    · refine ⟨pre, [b, d], _, ds, rfl, .right d hd, by rw [hjoin], fun _ => hlast, ?_⟩
      intro hb'
      exact absurd (by simpa using hb') (hpost d List.mem_cons_self)
  · -- the block before `b` is free and absorbs it
    obtain ⟨p, hp, hu⟩ : ∃ p ∈ pre.getLast?, p.used = false := by simpa using hlast
    obtain ⟨init, rfl⟩ := List.getLast?_eq_some_iff.mp hp
    have hne : p.addr ≠ b.addr := hpre p (by simp)
    have hinit : ∀ x ∈ init, x.addr ≠ b.addr := fun x hx => hpre x (by simp [hx])
    have hpb : ¬ (p = b) := fun e => hne (by rw [e])
    rw [List.append_assoc, List.singleton_append, release_of_free_before hinit hne hu]
    rcases joinNext_cases h (p.join h b) post with ⟨hjoin, hd⟩ | ⟨d, ds, rfl, hd, hjoin⟩
    · exact ⟨init, [p, b], _, post, rfl, .left p hu, by rw [hjoin], by simp [hpb], fun _ => hd⟩
    · refine ⟨init, [p, b, d], _, ds, rfl, .both p d hu hd, by rw [hjoin], by simp [hpb], ?_⟩
      intro hb'
      exact absurd (by simpa using hb') (hpost d List.mem_cons_self)

/-! ## Address order -/

theorem take_bounds {x : Block} (hx : x ∈ take h n b) (hfit : b.Fits n) :
    b.addr ≤ x.addr ∧ x.stop h ≤ b.stop h := by
  have hlen := hfit.2
  unfold take at hx
  split at hx
  · simp only [List.mem_cons, List.not_mem_nil, or_false] at hx
    rcases hx with rfl | rfl
    · simp only [Block.stop]
      omega
    · simp only [Block.stop]
      omega
  · simp only [List.mem_cons, List.not_mem_nil, or_false] at hx
    subst hx
    simp [Block.stop]

theorem take_ordered : Ordered h (take h n b) := by
  unfold take Ordered
  split
  · simp [Block.stop]
  · simp

/-- Replacing the blocks `ys` by ordered blocks `xs` that stay between the first and the
last address of `ys` keeps the order. -/
theorem Ordered.replace {ys : List Block} (xs : List Block) (ho : Ordered h (pre ++ (ys ++ post)))
    (hxs : Ordered h xs) (hlo : ∀ x ∈ xs, ∃ y ∈ ys, y.addr ≤ x.addr)
    (hhi : ∀ x ∈ xs, ∃ y ∈ ys, x.stop h ≤ y.stop h) : Ordered h (pre ++ (xs ++ post)) := by
  simp only [Ordered, List.pairwise_append, List.mem_append] at ho hxs ⊢
  obtain ⟨hpre, ⟨-, hpost, hyp⟩, hcross⟩ := ho
  refine ⟨hpre, ⟨hxs, hpost, ?_⟩, ?_⟩
  · intro x hx q hq
    obtain ⟨y, hy, hle⟩ := hhi x hx
    exact hle.trans (hyp y hy q hq)
  · rintro p hp x (hx | hx)
    · obtain ⟨y, hy, hle⟩ := hlo x hx
      exact (hcross p hp y (Or.inl hy)).trans hle
    · exact hcross p hp x (Or.inr hx)

theorem Ordered.allocate {r : List Block × Nat} (ho : Ordered h bs)
    (hr : allocate h n bs = some r) : Ordered h r.1 := by
  obtain ⟨pre, b, post, rfl, -, hfit, rfl⟩ := allocate_cases hr
  rw [← List.singleton_append] at ho
  exact ho.replace _ take_ordered (fun x hx => ⟨b, by simp, (take_bounds hx hfit).1⟩)
    (fun x hx => ⟨b, by simp, (take_bounds hx hfit).2⟩)

/-- The merged block starts where the first of its parts starts and, since the parts may
lie apart, ends no later than the last one. -/
theorem Merge.bounds {x : Block} {ys : List Block} (hm : Merge h b ys x) (ho : Ordered h ys) :
    (∃ y ∈ ys, y.addr = x.addr) ∧ ∃ y ∈ ys, x.stop h ≤ y.stop h := by
  cases hm with
  | alone => exact ⟨⟨b, by simp, rfl⟩, b, by simp, le_refl _⟩
  | left p hp =>
    have hpb : p.stop h ≤ b.addr := by simpa [Ordered] using ho
    refine ⟨⟨p, by simp, rfl⟩, b, by simp, ?_⟩
    simp only [Block.stop, Block.join] at hpb ⊢
    omega
  | right d hd =>
    have hbd : b.stop h ≤ d.addr := by simpa [Ordered] using ho
    refine ⟨⟨b, by simp, rfl⟩, d, by simp, ?_⟩
    simp only [Block.stop, Block.join, Block.freed] at hbd ⊢
    omega
  | both p d hp hd =>
    obtain ⟨⟨hpb, -⟩, hbd⟩ : (p.stop h ≤ b.addr ∧ p.stop h ≤ d.addr) ∧ b.stop h ≤ d.addr := by
      simpa [Ordered] using ho
    refine ⟨⟨p, by simp, rfl⟩, d, by simp, ?_⟩
    simp only [Block.stop, Block.join] at hpb hbd ⊢
    omega

/-- With a header of at least one byte, ordered blocks have distinct addresses. -/
theorem Ordered.nodup_addr (hh : 0 < h) (ho : Ordered h bs) : (bs.map Block.addr).Nodup := by
  rw [List.Nodup, List.pairwise_map]
  refine List.Pairwise.imp ?_ ho
  intro b c hbc heq
  simp only [Block.stop] at hbc
  omega

/-- Of two distinct blocks one ends before the other starts. -/
theorem Ordered.stop_le_or (ho : Ordered h bs) (hb : b ∈ bs) (hc : c ∈ bs) (hne : b ≠ c) :
    b.stop h ≤ c.addr ∨ c.stop h ≤ b.addr := by
  induction bs with
  | nil => simp at hb
  | cons x xs ih =>
    obtain ⟨hx, hrest⟩ := List.pairwise_cons.mp ho
    rcases List.mem_cons.mp hb with rfl | hb'
    · rcases List.mem_cons.mp hc with rfl | hc'
      · exact absurd rfl hne
      · exact Or.inl (hx c hc')
    · rcases List.mem_cons.mp hc with rfl | hc'
      · exact Or.inr (hx b hb')
      · exact ih hrest hb' hc'

theorem Ordered.middle (pre ys post : List Block) (ho : Ordered h (pre ++ (ys ++ post))) :
    Ordered h ys :=
  (List.pairwise_append.mp (List.pairwise_append.mp ho).2.1).1

theorem Ordered.release (hh : 0 < h) (ho : Ordered h bs) (hb : b ∈ bs) :
    Ordered h (release h b.addr bs) := by
  obtain ⟨pre, ys, x, post, rfl, hm, hrel, -⟩ := release_cases (h := h) hb (ho.nodup_addr hh)
  obtain ⟨⟨y, hy, hlo⟩, z, hz, hhi⟩ := hm.bounds (ho.middle pre ys post)
  rw [hrel, ← List.singleton_append]
  exact ho.replace [x] (by simp [Ordered]) (by simpa using ⟨y, hy, hlo.le⟩)
    (by simpa using ⟨z, hz, hhi⟩)

/-- Every block after an allocation lies between addresses of blocks before it. -/
theorem allocate_within {r : List Block × Nat} {lo hi : Nat} (hr : allocate h n bs = some r)
    (hw : ∀ b ∈ bs, lo ≤ b.addr ∧ b.stop h ≤ hi) : ∀ b ∈ r.1, lo ≤ b.addr ∧ b.stop h ≤ hi := by
  obtain ⟨pre, b, post, rfl, -, hfit, rfl⟩ := allocate_cases hr
  intro x hx
  simp only [List.mem_append] at hx
  rcases hx with hx | hx | hx
  · exact hw x (by simp [hx])
  · have hb := hw b (by simp)
    have hxb := take_bounds hx hfit
    exact ⟨hb.1.trans hxb.1, hxb.2.trans hb.2⟩
  · exact hw x (by simp [hx])

/-- Every block after a release lies between addresses of blocks before it. -/
theorem release_within {lo hi : Nat} (hh : 0 < h) (ho : Ordered h bs) (hb : b ∈ bs)
    (hw : ∀ b ∈ bs, lo ≤ b.addr ∧ b.stop h ≤ hi) :
    ∀ x ∈ release h b.addr bs, lo ≤ x.addr ∧ x.stop h ≤ hi := by
  obtain ⟨pre, ys, x, post, rfl, hm, hrel, -⟩ := release_cases (h := h) hb (ho.nodup_addr hh)
  obtain ⟨⟨y, hy, hlo⟩, z, hz, hhi⟩ := hm.bounds (ho.middle pre ys post)
  rw [hrel]
  intro w hwm
  simp only [List.mem_append, List.mem_cons] at hwm
  rcases hwm with hwm | rfl | hwm
  · exact hw w (by simp [hwm])
  · exact ⟨(hw y (by simp [hy])).1.trans hlo.le, hhi.trans (hw z (by simp [hz])).2⟩
  · exact hw w (by simp [hwm])

/-- A release puts no block where there was none. -/
theorem release_addr (hh : 0 < h) (ho : Ordered h bs) (hb : b ∈ bs) :
    ∀ x ∈ release h b.addr bs, ∃ c ∈ bs, c.addr = x.addr := by
  obtain ⟨pre, ys, x, post, rfl, hm, hrel, -⟩ := release_cases (h := h) hb (ho.nodup_addr hh)
  obtain ⟨⟨y, hy, haddr⟩, -⟩ := hm.bounds (ho.middle pre ys post)
  rw [hrel]
  intro w hwm
  simp only [List.mem_append, List.mem_cons] at hwm
  rcases hwm with hwm | rfl | hwm
  · exact ⟨w, by simp [hwm], rfl⟩
  · exact ⟨y, by simp [hy], haddr⟩
  · exact ⟨w, by simp [hwm], rfl⟩

/-- Ordered blocks below `hi` number at most `hi / h`. -/
theorem Ordered.length_mul_le {lo hi : Nat} (ho : Ordered h bs)
    (hw : ∀ b ∈ bs, lo ≤ b.addr ∧ b.stop h ≤ hi) (hlo : lo ≤ hi) :
    lo + bs.length * h ≤ hi := by
  induction bs generalizing lo with
  | nil => simpa using hlo
  | cons b bs ih =>
    obtain ⟨hb, hrest⟩ := List.pairwise_cons.mp ho
    obtain ⟨hlob, hbhi⟩ := hw b List.mem_cons_self
    have htail := ih hrest
      (fun x hx => ⟨hb x hx, (hw x (List.mem_cons_of_mem _ hx)).2⟩) hbhi
    simp only [Block.stop] at htail
    simp only [List.length_cons, Nat.add_mul, Nat.one_mul]
    omega

/-! ## Blocks in use -/

/-- The block that serves a request after it has been cut. -/
def served (h n : Nat) (b : Block) : Block :=
  if n + h < b.len then ⟨b.addr, n, true⟩ else { b with used := true }

theorem served_addr : (served h n b).addr = b.addr := by
  unfold served
  split <;> rfl

theorem served_used : (served h n b).used = true := by
  unfold served
  split <;> rfl

theorem served_len (hfit : b.Fits n) : n ≤ (served h n b).len := by
  unfold served
  split
  · exact le_refl n
  · exact hfit.2

/-- The served block is new: the one it was cut from was free. -/
theorem Ordered.served_not_mem (hh : 0 < h) (ho : Ordered h bs) (hb : b ∈ bs)
    (hfit : b.Fits n) : served h n b ∉ bs := by
  intro hmem
  have hne : served h n b ≠ b := by
    intro heq
    have := congrArg Block.used heq
    simp [served_used, hfit.1] at this
  have hcut := ho.stop_le_or hmem hb hne
  simp only [Block.stop, served_addr] at hcut
  omega

theorem mem_take_used {x : Block} : x ∈ take h n b ∧ x.used = true ↔ x = served h n b := by
  unfold take served
  split <;> simp only [List.mem_cons, List.not_mem_nil, or_false]
  · constructor
    · rintro ⟨rfl | rfl, hu⟩
      · rfl
      · simp at hu
    · rintro rfl
      exact ⟨Or.inl rfl, rfl⟩
  · constructor
    · rintro ⟨rfl, -⟩
      rfl
    · rintro rfl
      exact ⟨rfl, rfl⟩

/-- An allocation adds exactly the served block to the blocks in use. -/
theorem mem_allocate_used {r : List Block × Nat} (hr : allocate h n bs = some r) :
    ∃ b ∈ bs, b.Fits n ∧ r.2 = b.addr ∧ ∀ x, x ∈ r.1 ∧ x.used = true ↔
      (x ∈ bs ∧ x.used = true) ∨ x = served h n b := by
  obtain ⟨pre, b, post, rfl, -, hfit, rfl⟩ := allocate_cases hr
  refine ⟨b, by simp, hfit, rfl, fun x => ?_⟩
  simp only [List.mem_append, List.mem_cons]
  rw [← mem_take_used (h := h) (n := n)]
  have hbu := hfit.1
  constructor
  · rintro ⟨hx | hx | hx, hu⟩
    · exact Or.inl ⟨Or.inl hx, hu⟩
    · exact Or.inr ⟨hx, hu⟩
    · exact Or.inl ⟨Or.inr (Or.inr hx), hu⟩
  · rintro (⟨hx | rfl | hx, hu⟩ | ⟨hx, hu⟩)
    · exact ⟨Or.inl hx, hu⟩
    · simp [hbu] at hu
    · exact ⟨Or.inr (Or.inr hx), hu⟩
    · exact ⟨Or.inr (Or.inl hx), hu⟩

theorem Merge.used_eq_false {x : Block} {ys : List Block} (hm : Merge h b ys x) :
    x.used = false := by
  cases hm with
  | alone => rfl
  | left p hp => exact hp
  | right d hd => rfl
  | both p d hp hd => exact hp

theorem Merge.mem_used {x c : Block} {ys : List Block} (hm : Merge h b ys x) (hc : c ∈ ys)
    (hu : c.used = true) : c = b := by
  cases hm with
  | alone => simpa using hc
  | left p hp =>
    rcases List.mem_pair.mp hc with rfl | rfl
    · simp [hp] at hu
    · rfl
  | right d hd =>
    rcases List.mem_pair.mp hc with rfl | rfl
    · rfl
    · simp [hd] at hu
  | both p d hp hd =>
    simp only [List.mem_cons, List.not_mem_nil, or_false] at hc
    rcases hc with rfl | rfl | rfl
    · simp [hp] at hu
    · rfl
    · simp [hd] at hu

theorem Merge.mem_self {x : Block} {ys : List Block} (hm : Merge h b ys x) : b ∈ ys := by
  cases hm <;> simp

/-- A release removes exactly the released block from the blocks in use. -/
theorem mem_release_used (hh : 0 < h) (ho : Ordered h bs) (hb : b ∈ bs) (x : Block) :
    x ∈ release h b.addr bs ∧ x.used = true ↔ x ∈ bs ∧ x.used = true ∧ x ≠ b := by
  have hnd := ho.nodup_addr hh
  obtain ⟨pre, ys, m, post, rfl, hm, hrel, -⟩ := release_cases (h := h) hb hnd
  have hself := hm.mem_self
  rw [hrel]
  simp only [List.map_append, List.nodup_append, List.mem_append, List.mem_map] at hnd
  simp only [List.mem_append, List.mem_cons]
  constructor
  · rintro ⟨hx | rfl | hx, hu⟩
    · refine ⟨Or.inl hx, hu, ?_⟩
      rintro rfl
      exact hnd.2.2 x.addr ⟨x, hx, rfl⟩ x.addr (Or.inl ⟨x, hself, rfl⟩) rfl
    · simp [hm.used_eq_false] at hu
    · refine ⟨Or.inr (Or.inr hx), hu, ?_⟩
      rintro rfl
      exact hnd.2.1.2.2 x.addr ⟨x, hself, rfl⟩ x.addr ⟨x, hx, rfl⟩ rfl
  · rintro ⟨hx | hx | hx, hu, hne⟩
    · exact ⟨Or.inl hx, hu⟩
    · exact absurd (hm.mem_used hx hu) hne
    · exact ⟨Or.inr (Or.inr hx), hu⟩

end Hjortron.BlockList
