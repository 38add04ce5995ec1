import Hjortron.Memory.Proofs.MallocSpec

/-!
# `free` refines release on block lists

Both merges of `free` make one chunk absorb its successor in the list; `Absorbed` says so for
the headers, and `Absorbed.linked` for the chunk list. `free` is then `BlockList.release`, and
it changes header bytes only.
-/

namespace Hjortron

open BlockList

/-- From `m` to `m'`, the chunk at `x` has absorbed its successor `y`. -/
structure Absorbed (m m' : Mem) (x y : Word) : Prop where
  self : chunkHeader m' x =
    ⟨(chunkHeader m x).previous, (chunkHeader m y).next, (chunkHeader m x).allocated,
      (chunkHeader m x).len + ((chunkHeader m y).len + sizeofMemoryChunk)⟩
  next : (chunkHeader m y).next ≠ 0 → chunkHeader m' (chunkHeader m y).next =
    { chunkHeader m (chunkHeader m y).next with previous := x }
  other : ∀ d, Apart x 16 d 16 →
    ((chunkHeader m y).next ≠ 0 → Apart (chunkHeader m y).next 16 d 16) →
    chunkHeader m' d = chunkHeader m d
  frame : ∀ a, ¬ InRange x 16 a →
    ((chunkHeader m y).next ≠ 0 → ¬ InRange (chunkHeader m y).next 16 a) → m' a = m a

section

variable {m m' m₁ : Mem} {p c x y a : Word} {b d : Block} {bs pre post : List Block}

/-- A merge rewrites the header at `x` and then the back link of the chunk after `y`. -/
theorem absorbed_of_writes (m₁ : Mem)
    (hself : chunkHeader m₁ x = ⟨(chunkHeader m x).previous, (chunkHeader m y).next,
      (chunkHeader m x).allocated,
      (chunkHeader m x).len + ((chunkHeader m y).len + sizeofMemoryChunk)⟩)
    (hframe : ∀ a, ¬ InRange x 16 a → m₁ a = m a)
    (hnx : (chunkHeader m y).next ≠ 0 → Apart x 16 (chunkHeader m y).next 16) :
    Absorbed m
      (if (chunkHeader m y).next ≠ 0 then
        setPreviousChunk m₁ (chunkHeader m y).next x
      else
        m₁) x y := by
  have hother : ∀ d, Apart x 16 d 16 → chunkHeader m₁ d = chunkHeader m d := fun d hd =>
    chunkHeader_apart hd hframe
  by_cases h0 : (chunkHeader m y).next = 0
  · rw [if_neg (by simpa using h0)]
    exact ⟨hself, fun h => absurd h0 h, fun d hd _ => hother d hd, fun a ha _ => hframe a ha⟩
  · rw [if_pos h0]
    have hxn := hnx h0
    refine ⟨?_, fun _ => ?_, fun d hd hdn => ?_, fun a ha han => ?_⟩
    · rw [chunkHeader_setPreviousChunk_apart hxn.symm, hself]
    · rw [chunkHeader_setPreviousChunk_self, hother _ hxn]
    · rw [chunkHeader_setPreviousChunk_apart (hdn h0), hother d hd]
    · rw [setPreviousChunk_frame (han h0), hframe a ha]

/-- The merge with the previous chunk. -/
theorem mergePrevious_absorbed (hp : (chunkHeader m c).previous = p) (hp0 : p ≠ 0)
    (hfree : (chunkHeader m p).allocated = false) (hpc : Apart p 16 c 16)
    (hnx : (chunkHeader m c).next ≠ 0 →
      Apart p 16 (chunkHeader m c).next 16 ∧ Apart c 16 (chunkHeader m c).next 16) :
    ∃ m', mergePrevious m c = (m', p) ∧ Absorbed m m' p c := by
  obtain ⟨m₁, hm₁⟩ : ∃ m₁, m₁ = setNextChunk m p (chunkHeader m c).next := ⟨_, rfl⟩
  obtain ⟨m₂, hm₂⟩ : ∃ m₂, m₂ = setChunkLen m₁ p
      ((chunkHeader m p).len + ((chunkHeader m c).len + sizeofMemoryChunk)) := ⟨_, rfl⟩
  have h₁c : chunkHeader m₁ c = chunkHeader m c := by simp [hm₁, hpc]
  have h₁p : chunkHeader m₁ p = { chunkHeader m p with next := (chunkHeader m c).next } := by
    simp [hm₁]
  have h₂c : chunkHeader m₂ c = chunkHeader m c := by simp [hm₂, hpc, h₁c]
  refine ⟨_, ?_, absorbed_of_writes m₂ (by simp [hm₂, h₁p]) ?_ fun h => (hnx h).1⟩
  · have hcond : previousChunk m c ≠ 0 ∧ allocated m (previousChunk m c) = false := by
      rw [show previousChunk m c = p from hp]
      exact ⟨hp0, hfree⟩
    have e0 : previousChunk m c = p := hp
    have e1 : previousChunk m₁ c = p := (previousChunk_of_header h₁c).trans hp
    have e2 : chunkLen m₁ c = (chunkHeader m c).len := chunkLen_of_header h₁c
    have e3 : chunkLen m₁ p = (chunkHeader m p).len := by rw [chunkLen_of_header h₁p]
    have e4 : nextChunk m₂ c = (chunkHeader m c).next := nextChunk_of_header h₂c
    have e5 : previousChunk m₂ c = p := (previousChunk_of_header h₂c).trans hp
    have enx : nextChunk m c = (chunkHeader m c).next := rfl
    rw [mergePrevious, if_pos hcond]
    simp only [e0, enx, ← hm₁, e1, e2, e3, ← hm₂, e4, e5]
    by_cases h0 : (chunkHeader m c).next = 0
    · simp only [h0, ne_eq, not_true_eq_false, if_false, e5]
    · have e6 : previousChunk (setPreviousChunk m₂ (chunkHeader m c).next p) c = p := by
        have hap := (hnx h0).2.symm
        rw [previousChunk_of_header (chunkHeader_setPreviousChunk_apart hap), h₂c, hp]
      simp only [h0, ne_eq, not_false_eq_true, if_true, e6]
  · intro a ha
    rw [hm₂, setChunkLen_frame ha, hm₁, setNextChunk_frame ha]

/-- The merge with the next chunk. -/
theorem mergeNext_absorbed (hy : (chunkHeader m c).next = y) (hy0 : y ≠ 0)
    (hfree : (chunkHeader m y).allocated = false) (hcy : Apart c 16 y 16)
    (hnx : (chunkHeader m y).next ≠ 0 → Apart c 16 (chunkHeader m y).next 16) :
    Absorbed m (mergeNext m c) c y := by
  obtain ⟨m₁, hm₁⟩ : ∃ m₁, m₁ = setChunkLen m c
      ((chunkHeader m c).len + ((chunkHeader m y).len + sizeofMemoryChunk)) := ⟨_, rfl⟩
  obtain ⟨m₂, hm₂⟩ : ∃ m₂, m₂ = setNextChunk m₁ c (chunkHeader m y).next := ⟨_, rfl⟩
  have h₁y : chunkHeader m₁ y = chunkHeader m y := by simp [hm₁, hcy]
  have h₁c : chunkHeader m₁ c = { chunkHeader m c with
      len := (chunkHeader m c).len + ((chunkHeader m y).len + sizeofMemoryChunk) } := by
    simp [hm₁]
  have h₂c : chunkHeader m₂ c = { chunkHeader m₁ c with next := (chunkHeader m y).next } := by
    simp [hm₂]
  have hmerge : mergeNext m c = if (chunkHeader m y).next ≠ 0 then
      setPreviousChunk m₂ (chunkHeader m y).next c else m₂ := by
    have hcond : nextChunk m c ≠ 0 ∧ allocated m (nextChunk m c) = false := by
      rw [show nextChunk m c = y from hy]
      exact ⟨hy0, hfree⟩
    have e0 : nextChunk m c = y := hy
    have e1 : chunkLen m c = (chunkHeader m c).len := rfl
    have e2 : chunkLen m y = (chunkHeader m y).len := rfl
    have e3 : nextChunk m₁ c = y := (nextChunk_of_header h₁c).trans hy
    have e4 : nextChunk m₁ y = (chunkHeader m y).next := nextChunk_of_header h₁y
    have e5 : nextChunk m₂ c = (chunkHeader m y).next := by rw [nextChunk_of_header h₂c]
    rw [mergeNext, if_pos hcond]
    simp only [e0, e1, e2, ← hm₁, e3, e4, ← hm₂, e5]
  rw [hmerge]
  refine absorbed_of_writes _ (by rw [h₂c, h₁c]) ?_ hnx
  intro a ha
  rw [hm₂, setNextChunk_frame ha, hm₁, setChunkLen_frame ha]

/-! ## The chunk list after a merge -/

theorem chunkPtr_join : chunkPtr (b.join 16 d) = chunkPtr b := rfl

theorem OutsideHeaders.headPtr (hx : OutsideHeaders bs a) (hne : headPtr bs 0 ≠ 0) :
    ¬ InRange (headPtr bs 0) 16 a := by
  cases bs with
  | nil => exact absurd rfl hne
  | cons e es => exact hx e List.mem_cons_self

/-- A chunk that absorbs its successor is one joined block in the list. -/
theorem Absorbed.linked (habs : Absorbed m m' (chunkPtr b) (chunkPtr d))
    (hl : Layout (pre ++ b :: d :: post)) (hlink : Linked m 0 (pre ++ b :: d :: post) 0) :
    Linked m' 0 (pre ++ b.join 16 d :: post) 0 ∧
      ∀ a, OutsideHeaders (pre ++ b :: d :: post) a → m' a = m a := by
  obtain ⟨hpre, hb, hd, hpost⟩ := linked_append.mp hlink
  have hnext : (chunkHeader m (chunkPtr d)).next = headPtr post 0 := by rw [hd]
  have hself := habs.self
  have hrelink := habs.next
  have hother := habs.other
  have hframe := habs.frame
  rw [hnext] at hself hrelink hother hframe
  have hlpost : Layout ((pre ++ [b, d]) ++ post) := by simpa using hl
  have hlb : Layout ((pre ++ [b]) ++ (d :: post)) := by simpa using hl
  have hlen : BitVec.ofNat 32 b.len + (BitVec.ofNat 32 d.len + sizeofMemoryChunk) =
      BitVec.ofNat 32 (b.join 16 d).len := by
    simp only [Block.join]
    unfold sizeofMemoryChunk
    bv_omega
  refine ⟨linked_append.mpr ⟨hpre.frame ?_, ?_, ?_⟩, ?_⟩
  · intro x hx
    refine hother _ (hl.spread.headers_before hx) fun hne => ?_
    exact (hlpost.apart_headPtr (b := x) (by simp [hx]) hne).symm
  · rw [chunkPtr_join, hself, hb, hd, hlen]
    rfl
  · refine hpost.relink ?_ ?_
    · intro e he
      obtain ⟨es, rfl⟩ := List.head?_eq_some_iff.mp he
      exact hrelink (hl.chunkPtr_ne_zero (by simp))
    · intro e he
      have hep : e ∈ post := List.mem_of_mem_tail he
      refine hother _ (hlpost.apart (by simp) hep) fun _ => ?_
      cases post with
      | nil => simp at he
      | cons f fs =>
        have hlf : Layout ((pre ++ [b, d, f]) ++ fs) := by simpa using hl
        exact hlf.apart (by simp) he
  · intro a ha
    refine hframe a (ha b (by simp)) fun hne => ?_
    have hpost' : OutsideHeaders post a := fun e he => ha e (by simp [he])
    exact hpost'.headPtr hne

/-- The second merge of `free` on the chunk list. -/
theorem mergeNext_linked (hl : Layout (pre ++ b :: post))
    (hlink : Linked m 0 (pre ++ b :: post) 0) :
    Linked (mergeNext m (chunkPtr b)) 0 (pre ++ joinNext 16 b post) 0 ∧
      ∀ a, OutsideHeaders (pre ++ b :: post) a → mergeNext m (chunkPtr b) a = m a := by
  have hb := (linked_append.mp hlink).2.1
  rcases joinNext_cases 16 b post with ⟨hjoin, hused⟩ | ⟨d, ds, rfl, hfree, hjoin⟩
  · have hcond : ¬ (nextChunk m (chunkPtr b) ≠ 0 ∧
        allocated m (nextChunk m (chunkPtr b)) = false) := by
      rw [nextChunk_of_header hb]
      rintro ⟨hne, hfree⟩
      cases post with
      | nil => exact hne rfl
      | cons d ds =>
        have hd := (linked_append.mp hlink).2.2.1
        rw [show headPtr (d :: ds) 0 = chunkPtr d from rfl, allocated_of_header hd] at hfree
        simp [hused d (by simp)] at hfree
    rw [mergeNext, if_neg hcond, hjoin]
    exact ⟨hlink, fun _ _ => rfl⟩
  · have hd := (linked_append.mp hlink).2.2.1
    have hlb : Layout ((pre ++ [b]) ++ (d :: ds)) := by simpa using hl
    have hld : Layout ((pre ++ [b, d]) ++ ds) := by simpa using hl
    have habs : Absorbed m (mergeNext m (chunkPtr b)) (chunkPtr b) (chunkPtr d) := by
      refine mergeNext_absorbed (by rw [hb]; rfl) (hl.chunkPtr_ne_zero (by simp))
        (by rw [hd]; exact hfree) (hlb.apart (by simp) (by simp)) ?_
      rw [hd]
      exact fun hne => hld.apart_headPtr (by simp) hne
    rw [hjoin]
    exact habs.linked hl hlink

/-- The first merge of `free` when the previous chunk is free. -/
theorem mergePrevious_linked (hl : Layout (pre ++ d :: b :: post))
    (hlink : Linked m 0 (pre ++ d :: b :: post) 0) (hfree : d.used = false) :
    ∃ m', mergePrevious m (chunkPtr b) = (m', chunkPtr d) ∧
      Linked m' 0 (pre ++ d.join 16 b :: post) 0 ∧
      ∀ a, OutsideHeaders (pre ++ d :: b :: post) a → m' a = m a := by
  obtain ⟨-, hd, hb, -⟩ := linked_append.mp hlink
  have hlb : Layout ((pre ++ [d]) ++ (b :: post)) := by simpa using hl
  have hlpost : Layout ((pre ++ [d, b]) ++ post) := by simpa using hl
  obtain ⟨m', hmerge, habs⟩ := mergePrevious_absorbed (p := chunkPtr d) (by rw [hb])
    (hl.chunkPtr_ne_zero (by simp)) (by rw [hd]; exact hfree)
    (hlb.apart (b := d) (c := b) (by simp) (by simp)) (by
      rw [hb]
      exact fun hne => ⟨hlpost.apart_headPtr (by simp) hne, hlpost.apart_headPtr (by simp) hne⟩)
  exact ⟨m', hmerge, habs.linked hl hlink⟩

/-- The first merge of `free` is skipped when no chunk before is free. -/
theorem mergePrevious_skip (hlink : Linked m 0 (pre ++ b :: post) 0)
    (hused : ∀ p ∈ pre.getLast?, p.used = true) :
    mergePrevious m (chunkPtr b) = (m, chunkPtr b) := by
  obtain ⟨hpre, hb, -⟩ := linked_append.mp hlink
  have hcond : ¬ (previousChunk m (chunkPtr b) ≠ 0 ∧
      allocated m (previousChunk m (chunkPtr b)) = false) := by
    rw [previousChunk_of_header hb]
    rintro ⟨hne, hfree⟩
    rcases List.eq_nil_or_concat pre with rfl | ⟨init, p, rfl⟩
    · exact hne rfl
    · simp only [List.concat_eq_append] at hpre hused hfree
      have hp := (linked_append.mp hpre).2.1
      rw [show lastPtr 0 (init ++ [p]) = chunkPtr p by simp [lastPtr],
        allocated_of_header hp] at hfree
      simp [hused p (by simp)] at hfree
  rw [mergePrevious, if_neg hcond]

/-! ## `free` -/

/-- Exchanging neighbouring blocks for one free block between the same addresses. -/
theorem Layout.replace {x : Block} (ys : List Block) (hl : Layout (pre ++ (ys ++ post)))
    (hx : x.used = false) (hlo : ∃ y ∈ ys, y.addr ≤ x.addr)
    (hhi : ∃ y ∈ ys, x.stop 16 ≤ y.stop 16) : Layout (pre ++ x :: post) := by
  have hmem : ∀ z ∈ pre ++ x :: post, z = x ∨ z ∈ pre ++ (ys ++ post) := by
    intro z hz
    simp only [List.mem_append, List.mem_cons] at hz ⊢
    tauto
  refine ⟨?_, ?_, ?_⟩
  · exact hl.ordered.replace [x] (by simp [Ordered]) (by simpa using hlo)
      (by simpa using hhi)
  · intro z hz
    rcases hmem z hz with rfl | hz
    · obtain ⟨y, hy, hle⟩ := hlo
      obtain ⟨w, hw, hle'⟩ := hhi
      exact ⟨(hl.within y (by simp [hy])).1.trans hle, hle'.trans (hl.within w (by simp [hw])).2⟩
    · exact hl.within z hz
  · intro z hz hu
    rcases hmem z hz with rfl | hz
    · simp [hx] at hu
    · exact hl.used_pos z hz hu

theorem Layout.freed (hl : Layout (pre ++ b :: post)) : Layout (pre ++ b.freed :: post) :=
  Layout.replace [b] hl rfl ⟨b, by simp, le_refl b.addr⟩
    ⟨b, by simp, le_refl (b.stop 16)⟩

theorem Layout.join (hl : Layout (pre ++ d :: b :: post)) (hd : d.used = false) :
    Layout (pre ++ d.join 16 b :: post) := by
  obtain ⟨⟨y, hy, hlo⟩, hhi⟩ := (Merge.left (h := 16) (b := b) d hd).bounds
    (Ordered.middle pre [d, b] post hl.ordered)
  exact Layout.replace [d, b] hl hd ⟨y, hy, hlo.le⟩ hhi

theorem Layout.addr_ne (hl : Layout (pre ++ b :: post)) : ∀ x ∈ pre, x.addr ≠ b.addr := by
  intro x hx heq
  have := (List.pairwise_append.mp hl.ordered).2.2 x hx b List.mem_cons_self
  simp only [Block.stop] at this
  omega

theorem OutsideHeaders.congr {cs : List Block} (ha : OutsideHeaders bs a)
    (h : ∀ c ∈ cs, ∃ b ∈ bs, chunkPtr b = chunkPtr c) : OutsideHeaders cs a := by
  intro c hc
  obtain ⟨b, hb, heq⟩ := h c hc
  exact heq ▸ ha b hb

/-- Both merges of `free`, for a chunk that is already marked free. -/
theorem merges_linked (hl : Layout (pre ++ b :: post)) (hlink : Linked m 0 (pre ++ b :: post) 0)
    (hb : b.used = false) :
    ∃ m₁ c, mergePrevious m (chunkPtr b) = (m₁, c) ∧
      Linked (mergeNext m₁ c) 0 (release 16 b.addr (pre ++ b :: post)) 0 ∧
      ∀ a, OutsideHeaders (pre ++ b :: post) a → mergeNext m₁ c a = m a := by
  have hfreed : b.freed = b := by rw [Block.freed, ← hb]
  by_cases hlast : ∀ p ∈ pre.getLast?, p.used = true
  · obtain ⟨hmerged, hframe⟩ := mergeNext_linked hl hlink
    rw [release_of_used_before _ hl.addr_ne hlast, hfreed]
    exact ⟨m, chunkPtr b, mergePrevious_skip hlink hlast, hmerged, hframe⟩
  · obtain ⟨p, hp, hfree⟩ : ∃ p ∈ pre.getLast?, p.used = false := by simpa using hlast
    obtain ⟨init, rfl⟩ := List.getLast?_eq_some_iff.mp hp
    have haddr := hl.addr_ne
    simp only [List.append_assoc, List.singleton_append] at hl hlink ⊢
    obtain ⟨m₁, hmerge, hlink₁, hframe₁⟩ := mergePrevious_linked hl hlink hfree
    obtain ⟨hmerged, hframe⟩ := mergeNext_linked (hl.join hfree) hlink₁
    rw [release_of_free_before (fun x hx => haddr x (by simp [hx])) (haddr p (by simp)) hfree]
    refine ⟨m₁, chunkPtr p, hmerge, hmerged, fun a ha => ?_⟩
    rw [← hframe₁ a ha]
    refine hframe a (ha.congr fun c hc => ?_)
    simp only [List.mem_append, List.mem_cons] at hc
    rcases hc with hc | rfl | hc
    · exact ⟨c, by simp [hc], rfl⟩
    · exact ⟨p, by simp, rfl⟩
    · exact ⟨c, by simp [hc], rfl⟩

theorem release_freed (haddr : ∀ x ∈ pre, x.addr ≠ b.addr) :
    release 16 b.addr (pre ++ b.freed :: post) = release 16 b.addr (pre ++ b :: post) := by
  by_cases hlast : ∀ p ∈ pre.getLast?, p.used = true
  · rw [release_of_used_before _ haddr hlast]
    exact release_of_used_before (b := b.freed) _ haddr hlast
  · obtain ⟨p, hp, hfree⟩ : ∃ p ∈ pre.getLast?, p.used = false := by simpa using hlast
    obtain ⟨init, rfl⟩ := List.getLast?_eq_some_iff.mp hp
    have hinit : ∀ x ∈ init, x.addr ≠ b.addr := fun x hx => haddr x (by simp [hx])
    have hpa : p.addr ≠ b.addr := haddr p (by simp)
    simp only [List.append_assoc, List.singleton_append]
    rw [release_of_free_before hinit hpa hfree]
    exact release_of_free_before (b := b.freed) hinit hpa hfree

theorem headPtr_release (hl : Layout bs) (hb : b ∈ bs) :
    headPtr (release 16 b.addr bs) 0 = headPtr bs 0 := by
  obtain ⟨pre, ys, x, post, rfl, hm, hrel, -⟩ :=
    release_cases (h := 16) hb (hl.ordered.nodup_addr (by omega))
  rw [hrel, headPtr_append, headPtr_append, headPtr_append]
  cases hm <;> rfl

/-- `free` of a live pointer releases its block and changes header bytes only. -/
theorem free_of_mem (heap : Heap) (hc : ChunkList heap.mem heap.startChunk bs)
    (hi : heap.initialized = true) (hb : b ∈ bs) (hu : b.used = true) :
    ∃ mem, free heap (payloadPtr b) = .ok { heap with mem } ∧
      ChunkList mem heap.startChunk (release 16 b.addr bs) ∧
      ∀ x, OutsideHeaders bs x → mem x = heap.mem x := by
  have hne : (payloadPtr b != 0) = true := by simpa using hc.layout.payloadPtr_ne_zero hb hu
  have hl' := hc.layout.release hb
  have hhead := headPtr_release hc.layout hb
  obtain ⟨pre, post, rfl⟩ := List.append_of_mem hb
  obtain ⟨hpre, hhd, hpost⟩ := linked_append.mp hc.linked
  have halloc : allocated heap.mem (chunkPtr b) = true := (allocated_of_header hhd).trans hu
  have hl := hc.layout
  -- the chunk is marked free, then merged
  have hlink₀ : Linked (setAllocated heap.mem (chunkPtr b) false) 0 (pre ++ b.freed :: post) 0 := by
    refine linked_append.mpr ⟨hpre.frame ?_, ?_, hpost.frame ?_⟩
    · exact fun x hx => chunkHeader_setAllocated_apart (hl.spread.headers_before hx)
    · change chunkHeader (setAllocated heap.mem (chunkPtr b) false) (chunkPtr b) = _
      rw [chunkHeader_setAllocated_self, hhd]
      rfl
    · exact fun x hx => chunkHeader_setAllocated_apart (hl.spread.headers_after hx)
  obtain ⟨m₁, c, hmerge, hmerged, hframe⟩ := merges_linked hl.freed hlink₀ rfl
  change mergePrevious (setAllocated heap.mem (chunkPtr b) false) (chunkPtr b) = (m₁, c) at hmerge
  change Linked (mergeNext m₁ c) 0 (release 16 b.addr (pre ++ b.freed :: post)) 0 at hmerged
  rw [release_freed hl.addr_ne] at hmerged
  refine ⟨mergeNext m₁ c, ?_, ⟨hc.start_eq.trans hhead.symm, hmerged, hl'⟩, fun x hx => ?_⟩
  · simp only [free, hi, hne, payloadPtr_sub, halloc, hmerge, assert_true, bind, Except.bind, pure,
      Except.pure]
  · rw [hframe x (hx.congr fun d hd => ?_), setAllocated_frame (hx b (by simp))]
    simp only [List.mem_append, List.mem_cons] at hd
    rcases hd with hd | rfl | hd
    · exact ⟨d, by simp [hd], rfl⟩
    · exact ⟨b, by simp, rfl⟩
    · exact ⟨d, by simp [hd], rfl⟩

end

end Hjortron
