import Hjortron.Misc.BlockList

/-!
# Blocks in separate regions

Where the addresses belong to several regions, `Regional` says that every block lies in one of
them and that list neighbours of one region are contiguous. `allocate` keeps this. `release`
keeps it when the free neighbours that it joins are of the same region (`JoinsWithin`), and then
joins contiguous blocks only.
-/

namespace Hjortron.BlockList

variable {ι : Type*} {h n : Nat} {region : Nat → Option ι} {b c : Block}
  {bs pre post ys : List Block}

/-- All addresses of the block are in region `i`. -/
def Block.InRegion (h : Nat) (region : Nat → Option ι) (i : ι) (b : Block) : Prop :=
  ∀ a, b.addr ≤ a → a < b.stop h → region a = some i

/-- Every block lies in one region, and neighbours of one region are contiguous. -/
structure Regional (h : Nat) (region : Nat → Option ι) (bs : List Block) : Prop where
  inside : ∀ b ∈ bs, ∃ i, b.InRegion h region i
  contiguous : bs.IsChain fun b c => region b.addr = region c.addr → b.stop h = c.addr

/-- The free neighbours of `b` are of its region. -/
def JoinsWithin (region : Nat → Option ι) (bs : List Block) (b : Block) : Prop :=
  ∀ pre post, bs = pre ++ b :: post →
    (∀ p ∈ pre.getLast?, p.used = false → region p.addr = region b.addr) ∧
      ∀ d ∈ post.head?, d.used = false → region b.addr = region d.addr

/-- The free neighbours of `b` are contiguous with it. -/
def JoinsContiguous (h : Nat) (bs : List Block) (b : Block) : Prop :=
  ∀ pre post, bs = pre ++ b :: post →
    (∀ p ∈ pre.getLast?, p.used = false → p.stop h = b.addr) ∧
      ∀ d ∈ post.head?, d.used = false → b.stop h = d.addr

theorem Block.InRegion.addr {i : ι} (hh : 0 < h) (hb : b.InRegion h region i) :
    region b.addr = some i := by
  refine hb b.addr le_rfl ?_
  simp only [Block.stop]
  omega

theorem Block.InRegion.mono {i : ι} (hb : b.InRegion h region i) (hlo : b.addr ≤ c.addr)
    (hhi : c.stop h ≤ b.stop h) : c.InRegion h region i :=
  fun a ha ha' => hb a (hlo.trans ha) (ha'.trans_le hhi)

/-- Two contiguous blocks of one region. -/
theorem Block.InRegion.join {i : ι} {x : Block} (hb : b.InRegion h region i)
    (hc : c.InRegion h region i) (hadj : b.stop h = c.addr) (hx : x.addr = b.addr)
    (hstop : x.stop h = c.stop h) : x.InRegion h region i := by
  intro a ha ha'
  by_cases hlt : a < b.stop h
  · exact hb a (hx ▸ ha) hlt
  · exact hc a (by omega) (hstop ▸ ha')

theorem Regional.joinsContiguous (hr : Regional h region bs) (hj : JoinsWithin region bs b) :
    JoinsContiguous h bs b := by
  rintro pre post rfl
  obtain ⟨hleft, hright⟩ := hj pre post rfl
  obtain ⟨-, hbpost, hcross⟩ := List.isChain_append.mp hr.contiguous
  constructor
  · intro p hp hu
    exact hcross p hp b (by simp) (hleft p hp hu)
  · intro d hd hu
    obtain ⟨ds, rfl⟩ := List.head?_eq_some_iff.mp hd
    exact (List.isChain_cons_cons.mp hbpost).1 (hright d hd hu)

/-- Exchanging neighbouring blocks `ys` for blocks `xs` that are contiguous, start where `ys`
starts and end where `ys` ends, in the same region. -/
theorem Regional.replace {xs : List Block} {i : ι} (hr : Regional h region (pre ++ (ys ++ post)))
    (hxs : ∀ x ∈ xs, x.InRegion h region i)
    (hchain : xs.IsChain fun b c => region b.addr = region c.addr → b.stop h = c.addr)
    (hhead : ∀ x ∈ xs.head?, ∃ y ∈ ys.head?, x.addr = y.addr)
    (hlast : ∀ x ∈ xs.getLast?, ∃ y ∈ ys.getLast?, x.stop h = y.stop h ∧
      region x.addr = region y.addr) (hne : xs ≠ []) :
    Regional h region (pre ++ (xs ++ post)) := by
  constructor
  · intro z hz
    simp only [List.mem_append] at hz
    rcases hz with hz | hz | hz
    · exact hr.inside z (by simp [hz])
    · exact ⟨i, hxs z hz⟩
    · exact hr.inside z (by simp [hz])
  · obtain ⟨hpre, hyspost, hcross⟩ := List.isChain_append.mp hr.contiguous
    obtain ⟨-, hpost, hnext⟩ := List.isChain_append.mp hyspost
    refine List.isChain_append.mpr ⟨hpre, List.isChain_append.mpr ⟨hchain, hpost, ?_⟩, ?_⟩
    · intro x hx d hd heq
      obtain ⟨y, hy, hstop, hreg⟩ := hlast x hx
      exact hstop.trans (hnext y hy d hd (hreg.symm.trans heq))
    · intro p hp x hx heq
      have hx' : x ∈ xs.head? := by
        cases xs with
        | nil => exact absurd rfl hne
        | cons z zs => simpa using hx
      obtain ⟨y, hy, haddr⟩ := hhead x hx'
      have hy' : y ∈ (ys ++ post).head? := by
        cases ys with
        | nil => simp at hy
        | cons z zs => simpa using hy
      rw [haddr] at heq ⊢
      exact hcross p hp y hy' heq

theorem Regional.allocate {r : List Block × Nat} (hh : 0 < h) (hr : Regional h region bs)
    (ha : allocate h n bs = some r) : Regional h region r.1 := by
  obtain ⟨pre, b, post, rfl, -, hfit, rfl⟩ := allocate_cases ha
  obtain ⟨i, hb⟩ := hr.inside b (by simp)
  have hxs : ∀ x ∈ take h n b, x.InRegion h region i := fun x hx =>
    hb.mono (take_bounds hx hfit).1 (take_bounds hx hfit).2
  have hlen := hfit.2
  rw [← List.singleton_append] at hr
  refine hr.replace hxs ?_ ?_ ?_ ?_
  · unfold take
    split
    · simp [Block.stop]
    · simp
  · unfold take
    split <;> simp
  · intro x hx
    refine ⟨b, by simp, ?_, ?_⟩
    · unfold take at hx
      split at hx
      · simp at hx
        subst hx
        simp only [Block.stop]
        omega
      · simp at hx
        subst hx
        rfl
    · rw [(hxs x (List.mem_of_getLast? hx)).addr hh, hb.addr hh]
  · unfold take
    split <;> simp

/-- The joined block is in the region of the blocks that it replaces. -/
theorem Merge.inRegion {x : Block} (hm : Merge h b ys x)
    (hchain : ys.IsChain fun b c => b.stop h = c.addr) {i : ι}
    (hys : ∀ y ∈ ys, y.InRegion h region i) : x.InRegion h region i := by
  cases hm with
  | alone => exact (hys b (by simp)).mono le_rfl le_rfl
  | left p hp =>
    have hpb : p.stop h = b.addr := by simpa using hchain
    refine (hys p (by simp)).join (hys b (by simp)) hpb rfl ?_
    simp only [Block.stop, Block.join] at hpb ⊢
    omega
  | right d hd =>
    have hbd : b.stop h = d.addr := by simpa using hchain
    refine (hys b (by simp)).join (hys d (by simp)) hbd rfl ?_
    simp only [Block.stop, Block.join, Block.freed] at hbd ⊢
    omega
  | both p d hp hd =>
    obtain ⟨hpb, hbd⟩ : p.stop h = b.addr ∧ b.stop h = d.addr := by simpa using hchain
    simp only [Block.stop] at hpb hbd
    have hpbi : (p.join h b).InRegion h region i := by
      refine (hys p (by simp)).join (hys b (by simp)) hpb rfl ?_
      simp only [Block.stop, Block.join]
      omega
    refine hpbi.join (hys d (by simp)) ?_ rfl ?_
    · simp only [Block.stop, Block.join]
      omega
    · simp only [Block.stop, Block.join]
      omega

theorem Merge.stop_eq {x : Block} (hm : Merge h b ys x)
    (hchain : ys.IsChain fun b c => b.stop h = c.addr) :
    ∀ y ∈ ys.getLast?, x.stop h = y.stop h := by
  cases hm with
  | alone => simp [Block.stop, Block.freed]
  | left p hp =>
    simp [Block.stop, Block.join] at hchain ⊢
    omega
  | right d hd =>
    simp [Block.stop, Block.join, Block.freed] at hchain ⊢
    omega
  | both p d hp hd =>
    simp [Block.stop, Block.join] at hchain ⊢
    omega

theorem Merge.addr_eq {x : Block} (hm : Merge h b ys x) : ∃ y ∈ ys.head?, x.addr = y.addr := by
  cases hm with
  | alone => exact ⟨b, by simp, rfl⟩
  | left p hp => exact ⟨p, by simp, rfl⟩
  | right d hd => exact ⟨b, by simp, rfl⟩
  | both p d hp hd => exact ⟨p, by simp, rfl⟩

/-- A relation between a block and its free neighbours links the blocks that are joined. -/
theorem Merge.isChain {x : Block} {R : Block → Block → Prop} (hm : Merge h b ys x)
    (hR : ∀ pre' post', pre ++ (ys ++ post) = pre' ++ b :: post' →
      (∀ p ∈ pre'.getLast?, p.used = false → R p b) ∧ ∀ d ∈ post'.head?, d.used = false → R b d) :
    ys.IsChain R := by
  cases hm with
  | alone => simp
  | left p hp =>
    obtain ⟨hleft, -⟩ := hR (pre ++ [p]) post (by simp)
    simpa using hleft p (by simp) hp
  | right d hd =>
    obtain ⟨-, hright⟩ := hR pre (d :: post) (by simp)
    simpa using hright d (by simp) hd
  | both p d hp hd =>
    obtain ⟨hleft, hright⟩ := hR (pre ++ [p]) (d :: post) (by simp)
    simpa using ⟨hleft p (by simp) hp, hright d (by simp) hd⟩

theorem Regional.release (hh : 0 < h) (ho : Ordered h bs) (hr : Regional h region bs) (hb : b ∈ bs)
    (hj : JoinsWithin region bs b) : Regional h region (release h b.addr bs) := by
  have hcont := hr.joinsContiguous hj
  obtain ⟨pre, ys, x, post, rfl, hm, hrel, -⟩ := release_cases (h := h) hb (ho.nodup_addr hh)
  have hsame : ys.IsChain fun y z => region y.addr = region z.addr := hm.isChain hj
  have hadj : ys.IsChain fun y z => y.stop h = z.addr := hm.isChain hcont
  -- all blocks of the cluster are in the region of `b`
  obtain ⟨i, hbi⟩ := hr.inside b hb
  have hregion : ∀ y ∈ ys, region y.addr = region b.addr := by
    cases hm with
    | alone => simp
    | left p hp => simpa using hsame
    | right d hd =>
      have hbd : region b.addr = region d.addr := by simpa using hsame
      simp [hbd]
    | both p d hp hd =>
      obtain ⟨hpb, hbd⟩ : region p.addr = region b.addr ∧ region b.addr = region d.addr := by
        simpa using hsame
      simp [hpb, hbd]
  have hys : ∀ y ∈ ys, y.InRegion h region i := by
    intro y hy
    obtain ⟨k, hk⟩ := hr.inside y (by simp [hy])
    have hki : some k = some i := by rw [← hk.addr hh, ← hbi.addr hh, hregion y hy]
    exact Option.some.inj hki ▸ hk
  have hx : x.InRegion h region i := hm.inRegion hadj hys
  rw [hrel, ← List.singleton_append]
  refine hr.replace (by simpa using hx) (by simp) ?_ ?_ (by simp)
  · simpa using hm.addr_eq
  · intro z hz
    obtain rfl : x = z := by simpa using hz
    obtain ⟨y, hy⟩ : ∃ y, y ∈ ys.getLast? := by
      cases hm <;> simp
    refine ⟨y, hy, hm.stop_eq hadj y hy, ?_⟩
    rw [hx.addr hh, (hys y (List.mem_of_getLast? hy)).addr hh]

end Hjortron.BlockList
