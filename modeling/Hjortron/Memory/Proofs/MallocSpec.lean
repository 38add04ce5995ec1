import Hjortron.Memory.Proofs.ChunkList

/-!
# `malloc` refines first fit on block lists

The search ends at the first fitting block, and splitting or taking that chunk in memory is
`BlockList.take` on the list. Bytes change in chunk headers only.
-/

namespace Hjortron

open BlockList

section

variable {m m' : Mem} {p q c nx len : Word} {u : Bool} {b : Block} {bs pre post : List Block}

/-! ## The search -/

theorem fits_iff (len : Word) (hs : Spread bs) (hb : b ∈ bs)
    (hhd : chunkHeader m (chunkPtr b) = ⟨p, q, b.used, BitVec.ofNat 32 b.len⟩) :
    (!allocated m (chunkPtr b) && len ≤ chunkLen m (chunkPtr b)) = true ↔ b.Fits len.toNat := by
  have hlen := hs.len_lt hb
  rw [allocated_of_header hhd, chunkLen_of_header hhd]
  simp only [Bool.and_eq_true, Bool.not_eq_true', decide_eq_true_eq, Block.Fits,
    BitVec.le_def, BitVec.toNat_ofNat]
  rw [Nat.mod_eq_of_lt (by omega)]

/-- The walk of `malloc` ends at the first block that fits, or at `NULL`. -/
theorem findChunk_linked {fuel : Nat} (hl : Layout bs) (hlink : Linked m p bs 0)
    (hfuel : bs.length < fuel) :
    findChunk m len fuel (headPtr bs 0) =
      .ok (((bs.find? fun b => b.Fits len.toNat).map chunkPtr).getD 0) := by
  induction bs generalizing p fuel with
  | nil =>
    obtain ⟨k, rfl⟩ := Nat.exists_eq_succ_of_ne_zero (Nat.ne_of_gt hfuel)
    simp [findChunk, headPtr]
  | cons b bs ih =>
    obtain ⟨k, rfl⟩ := Nat.exists_eq_succ_of_ne_zero (Nat.ne_of_gt (Nat.zero_lt_of_lt hfuel))
    obtain ⟨hhd, hrest⟩ := hlink
    have hne := hl.chunkPtr_ne_zero (b := b) List.mem_cons_self
    have hfits := fits_iff len hl.spread List.mem_cons_self hhd
    change findChunk m len (k + 1) (chunkPtr b) = _
    rw [findChunk, if_neg hne, List.find?_cons]
    by_cases hb : b.Fits len.toNat
    · rw [if_pos (hfits.mpr hb)]
      simp [hb]
    · rw [if_neg (fun h => hb (hfits.mp h)), nextChunk_of_header hhd]
      simp only [hb, decide_false]
      exact ih hl.tail hrest (by simpa using hfuel)

/-! ## Splitting in memory -/

/-- The headers after `splitChunk`: the chunk keeps its place with the new length, the rest
becomes a chunk between it and its old successor. -/
theorem splitChunk_headers (len : Word) (hc : chunkHeader m c = ⟨p, nx, u, q⟩)
    (hcr : Apart c 16 (c + len + sizeofMemoryChunk) 16)
    (hnx : nx ≠ 0 → Apart c 16 nx 16 ∧ Apart (c + len + sizeofMemoryChunk) 16 nx 16) :
    chunkHeader (splitChunk m c len) c = ⟨p, c + len + sizeofMemoryChunk, u, len⟩ ∧
      chunkHeader (splitChunk m c len) (c + len + sizeofMemoryChunk) =
        ⟨c, nx, false, q - len - sizeofMemoryChunk⟩ ∧
      (nx ≠ 0 → chunkHeader (splitChunk m c len) nx =
        { chunkHeader m nx with previous := c + len + sizeofMemoryChunk }) ∧
      (∀ d, Apart c 16 d 16 → Apart (c + len + sizeofMemoryChunk) 16 d 16 →
        (nx ≠ 0 → Apart nx 16 d 16) → chunkHeader (splitChunk m c len) d = chunkHeader m d) ∧
      (∀ x, ¬ InRange c 16 x → ¬ InRange (c + len + sizeofMemoryChunk) 16 x →
        (nx ≠ 0 → ¬ InRange nx 16 x) → splitChunk m c len x = m x) := by
  generalize hr : c + len + sizeofMemoryChunk = r at hcr hnx
  have hrc := hcr.symm
  -- the memory after the new header has been written, and what it holds
  obtain ⟨m₁, hm₁⟩ : ∃ m₁, m₁ = setChunkLen (setAllocated (setNextChunk (setPreviousChunk m r c)
      r nx) r false) r (q - len - sizeofMemoryChunk) := ⟨_, rfl⟩
  have h₁r : chunkHeader m₁ r = ⟨c, nx, false, q - len - sizeofMemoryChunk⟩ := by simp [hm₁]
  have h₁ : ∀ d, Apart r 16 d 16 → chunkHeader m₁ d = chunkHeader m d := by
    intro d hd
    simp [hm₁, hd]
  have h₁x : ∀ x, ¬ InRange r 16 x → m₁ x = m x := by
    intro x hx
    rw [hm₁, setChunkLen_frame hx, setAllocated_frame hx, setNextChunk_frame hx,
      setPreviousChunk_frame hx]
  have hsplit : splitChunk m c len = setNextChunk (setChunkLen
      (if nx ≠ 0 then setPreviousChunk m₁ nx r else m₁) c len) c r := by
    have e1 : nextChunk (setPreviousChunk m r c) c = nx := by
      rw [nextChunk_of_header (chunkHeader_setPreviousChunk_apart hrc), hc]
    have e2 : chunkLen (setAllocated (setNextChunk (setPreviousChunk m r c) r nx) r false) c =
        q := by
      have hhd : chunkHeader (setAllocated (setNextChunk (setPreviousChunk m r c) r nx) r false) c =
          chunkHeader m c := by simp [hrc]
      rw [chunkLen_of_header hhd, hc]
    simp only [splitChunk, hr, e1, e2, ← hm₁, nextChunk_of_header h₁r]
  rw [hsplit]
  by_cases h0 : nx = 0
  · simp only [h0, ne_eq, not_true_eq_false, if_false, false_implies, true_and, forall_const]
    simp only [h0] at h₁r
    refine ⟨by simp [h₁ c hrc, hc], by simp [hcr, h₁r], ?_, ?_⟩
    · intro d hcd hrd
      simp [hcd, h₁ d hrd]
    · intro x hcx hrx
      rw [setNextChunk_frame hcx, setChunkLen_frame hcx, h₁x x hrx]
  · obtain ⟨hcn, hrn⟩ := hnx h0
    have hnc := hcn.symm
    have hnr := hrn.symm
    simp only [h0, ne_eq, not_false_eq_true, if_true, forall_const]
    refine ⟨by simp [hnc, h₁ c hrc, hc], by simp [hcr, hnr, h₁r], ?_, ?_, ?_⟩
    · simp [hcn, h₁ nx hrn]
    · intro d hcd hrd hnd
      simp [hcd, hnd, h₁ d hrd]
    · intro x hcx hrx hnx'
      rw [setNextChunk_frame hcx, setChunkLen_frame hcx, setPreviousChunk_frame hnx', h₁x x hrx]

/-! ## Taking a chunk from the list -/

theorem chunkPtr_remainder {k l : Nat} {v : Bool} (hk : k = len.toNat) :
    chunkPtr ⟨b.addr + 16 + k, l, v⟩ = chunkPtr b + len + sizeofMemoryChunk := by
  subst hk
  unfold chunkPtr sizeofMemoryChunk
  bv_omega

section

variable (hs : Spread (pre ++ b :: post)) (hlink : Linked m 0 (pre ++ b :: post) 0)

include hs

theorem Spread.headers_before {x : Block} (hx : x ∈ pre) :
    Apart (chunkPtr b) 16 (chunkPtr x) 16 :=
  (hs.headers hx List.mem_cons_self).symm

theorem Spread.headers_after {x : Block} (hx : x ∈ post) :
    Apart (chunkPtr b) 16 (chunkPtr x) 16 := by
  have hs' : Spread ((pre ++ [b]) ++ post) := by simpa using hs
  exact hs'.headers (by simp) hx

include hlink

/-- The test of `malloc` for a split does not wrap around. -/
theorem split_test_iff (hfit : b.Fits len.toNat) :
    len + sizeofMemoryChunk < chunkLen m (chunkPtr b) ↔ len.toNat + 16 < b.len := by
  obtain ⟨-, hb, -⟩ := linked_append.mp hlink
  have hlen := hs.len_lt (b := b) (by simp)
  have hfit2 := hfit.2
  rw [chunkLen_of_header hb, BitVec.lt_def, BitVec.toNat_ofNat, Nat.mod_eq_of_lt (by omega)]
  unfold sizeofMemoryChunk
  bv_omega

/-- The chunk list after a split: `c` keeps the place of `b`, and the remainder `r` stands
between it and `post`. -/
theorem splitChunk_linked {c r : Block} (hsplit : len.toNat + 16 < b.len)
    (hc : c = ⟨b.addr, len.toNat, true⟩)
    (hr : r = ⟨b.addr + 16 + len.toNat, b.len - len.toNat - 16, false⟩)
    (hs' : Spread (pre ++ c :: r :: post)) :
    Linked (setAllocated (splitChunk m (chunkPtr b) len) (chunkPtr b) true) 0
        (pre ++ c :: r :: post) 0 ∧
      ∀ x, OutsideHeaders (pre ++ c :: r :: post) x →
        setAllocated (splitChunk m (chunkPtr b) len) (chunkPtr b) true x = m x := by
  obtain ⟨hpre, hb, hpost⟩ := linked_append.mp hlink
  have hlen := hs.len_lt (b := b) (by simp)
  have hcp : chunkPtr c = chunkPtr b := by rw [hc]; rfl
  have hrp : chunkPtr r = chunkPtr b + len + sizeofMemoryChunk := by
    rw [hr, chunkPtr_remainder rfl]
  have hrl : BitVec.ofNat 32 r.len = BitVec.ofNat 32 b.len - len - sizeofMemoryChunk := by
    simp only [hr]
    unfold sizeofMemoryChunk
    bv_omega
  have hsr : Spread ((pre ++ [c, r]) ++ post) := by simpa using hs'
  have hsc : Spread ((pre ++ [c]) ++ (r :: post)) := by simpa using hs'
  have hcr : Apart (chunkPtr b) 16 (chunkPtr r) 16 := by
    rw [← hcp]
    exact hsc.headers (by simp) (by simp)
  have hnx : headPtr post 0 ≠ 0 →
      Apart (chunkPtr b) 16 (headPtr post 0) 16 ∧ Apart (chunkPtr r) 16 (headPtr post 0) 16 := by
    intro hne
    rw [← hcp]
    exact ⟨hsr.headers_headPtr (by simp) hne, hsr.headers_headPtr (by simp) hne⟩
  obtain ⟨sc, sr, sn, sd, sx⟩ := splitChunk_headers len hb (hrp ▸ hcr) (hrp ▸ hnx)
  rw [← hrp] at sc sr sn sd sx
  have hpre' : Linked m 0 pre (headPtr (c :: r :: post) 0) := by
    change Linked m 0 pre (chunkPtr c)
    rw [hcp]
    exact hpre
  refine ⟨linked_append.mpr ⟨hpre'.frame ?_, ?_, ?_, ?_⟩, ?_⟩
  · intro x hx
    rw [chunkHeader_setAllocated_apart (hs.headers_before hx)]
    refine sd _ (hs.headers_before hx) ?_ ?_
    · exact (hsc.headers (b := x) (c := r) (by simp [hx]) (by simp)).symm
    · exact fun hne => (hsr.headers_headPtr (b := x) (by simp [hx]) hne).symm
  · rw [hcp, chunkHeader_setAllocated_self, sc, hc]
    simp [headPtr]
  · rw [chunkHeader_setAllocated_apart hcr, sr, hcp, ← hrl, hr]
  · -- only the first block of `post` is relinked
    refine hpost.relink ?_ ?_
    · intro d hd
      obtain ⟨ds, rfl⟩ := List.head?_eq_some_iff.mp hd
      rw [chunkHeader_setAllocated_apart (hs.headers_after List.mem_cons_self)]
      exact sn (hs.chunkPtr_ne_zero (by simp))
    · intro d hd
      have hdp : d ∈ post := List.mem_of_mem_tail hd
      rw [chunkHeader_setAllocated_apart (hs.headers_after hdp)]
      refine sd _ (hs.headers_after hdp) (hsr.headers (by simp) hdp) fun _ => ?_
      cases post with
      | nil => simp at hd
      | cons e es =>
        have hse : Spread ((pre ++ [b, e]) ++ es) := by simpa using hs
        exact hse.headers (by simp) hd
  · intro x hx
    have hcx : ¬ InRange (chunkPtr b) 16 x := hcp ▸ hx c (by simp)
    rw [setAllocated_frame hcx]
    refine sx x hcx (hx r (by simp)) fun hne => ?_
    cases post with
    | nil => exact absurd rfl hne
    | cons e es => exact hx e (by simp)

/-- `takeChunk` on a fitting chunk is `BlockList.take` on its block. -/
theorem takeChunk_linked (hfit : b.Fits len.toNat) :
    Linked (takeChunk m (chunkPtr b) len) 0 (pre ++ (take 16 len.toNat b ++ post)) 0 ∧
      ∀ x, OutsideHeaders (pre ++ (take 16 len.toNat b ++ post)) x →
        takeChunk m (chunkPtr b) len x = m x := by
  have hs' := hs.take hfit
  have htest := split_test_iff hs hlink hfit
  by_cases hsplit : len.toNat + 16 < b.len
  · rw [takeChunk, if_pos (htest.mpr hsplit)]
    simp only [take, if_pos hsplit] at hs' ⊢
    exact splitChunk_linked hs hlink hsplit rfl rfl hs'
  · obtain ⟨hpre, hb, hpost⟩ := linked_append.mp hlink
    rw [takeChunk, if_neg (fun h => hsplit (htest.mp h))]
    simp only [take, if_neg hsplit]
    refine ⟨linked_append.mpr ⟨hpre.frame ?_, ?_, hpost.frame ?_⟩, ?_⟩
    · exact fun x hx => chunkHeader_setAllocated_apart (hs.headers_before hx)
    · change chunkHeader (setAllocated m (chunkPtr b) true) (chunkPtr b) = _
      rw [chunkHeader_setAllocated_self, hb]
      rfl
    · exact fun x hx => chunkHeader_setAllocated_apart (hs.headers_after hx)
    · exact fun x hx => setAllocated_frame (hx { b with used := true } (by simp))

end

/-! ## `malloc` -/

theorem headPtr_take {n : Nat} :
    headPtr (pre ++ (take 16 n b ++ post)) 0 = headPtr (pre ++ b :: post) 0 := by
  cases pre with
  | cons c cs => rfl
  | nil =>
    unfold take
    split <;> rfl

/-- `malloc` is first fit on the chunk list: it returns the payload of the served block and
changes header bytes only. -/
theorem malloc_of_allocate {heap : Heap} {bs' : List Block} {a : Nat}
    (hc : ChunkList heap.mem heap.startChunk bs) (hi : heap.initialized = true)
    (hlen : len ≠ 0) (ha : allocate 16 len.toNat bs = some (bs', a)) :
    ∃ mem, malloc heap len = .ok (BitVec.ofNat 32 (a + 16), { heap with mem }) ∧
      ChunkList mem heap.startChunk bs' ∧
      ∀ x, OutsideHeaders bs' x → mem x = heap.mem x := by
  have hpos : 1 ≤ len.toNat := by bv_omega
  have hl' := hc.layout.allocate hpos ha
  obtain ⟨pre, b, post, rfl, hpre, hfit, hr⟩ := allocate_cases ha
  simp only [Prod.mk.injEq] at hr
  obtain ⟨rfl, rfl⟩ := hr
  have hfind : (pre ++ b :: post).find? (fun b => b.Fits len.toNat) = some b := by
    rw [List.find?_append, List.find?_eq_none.mpr (by simpa using hpre)]
    simp [hfit]
  have hsearch : findChunk heap.mem len (2 ^ 32) heap.startChunk = .ok (chunkPtr b) := by
    rw [hc.start_eq, findChunk_linked hc.layout hc.linked hc.layout.length_lt, hfind]
    rfl
  have hne := hc.layout.chunkPtr_ne_zero (b := b) (by simp)
  obtain ⟨hlink, hframe⟩ := takeChunk_linked hc.layout.spread hc.linked hfit
  refine ⟨takeChunk heap.mem (chunkPtr b) len, ?_, ⟨?_, hlink, hl'⟩, hframe⟩
  · have h1 : (len != 0) = true := by simpa using hlen
    have h2 : (chunkPtr b != 0) = true := by simpa using hne
    have h3 : chunkPtr b + sizeofMemoryChunk = BitVec.ofNat 32 (b.addr + 16) :=
      (payloadPtr_eq (b := b)).symm
    simp only [malloc, hi, h1, hsearch, h2, h3, assert_true, bind, Except.bind, pure, Except.pure]
  · rw [hc.start_eq, headPtr_take]

/-- Without a fitting block `malloc` stops at `assert(chunk)`. -/
theorem malloc_of_not_allocate {heap : Heap} (hc : ChunkList heap.mem heap.startChunk bs)
    (hi : heap.initialized = true) (hlen : len ≠ 0) (ha : allocate 16 len.toNat bs = none) :
    malloc heap len = .error (.assertion "chunk") := by
  have hnone : bs.find? (fun b => b.Fits len.toNat) = none := by
    rw [List.find?_eq_none]
    simpa using allocate_eq_none_iff.mp ha
  have hsearch : findChunk heap.mem len (2 ^ 32) heap.startChunk = .ok 0 := by
    rw [hc.start_eq, findChunk_linked hc.layout hc.linked hc.layout.length_lt, hnone]
    rfl
  have h1 : (len != 0) = true := by simpa using hlen
  simp only [malloc, hi, h1, hsearch, assert_true, bind, Except.bind]
  rfl

/-- Every successful call of `malloc` is an allocation on the chunk list. -/
theorem malloc_eq_ok {heap heap' : Heap} {ptr : Word}
    (hc : ChunkList heap.mem heap.startChunk bs) (hi : heap.initialized = true)
    (hm : malloc heap len = .ok (ptr, heap')) :
    ∃ bs' a mem, 1 ≤ len.toNat ∧ allocate 16 len.toNat bs = some (bs', a) ∧
      ptr = BitVec.ofNat 32 (a + 16) ∧ heap' = { heap with mem } ∧
      ChunkList mem heap.startChunk bs' ∧
      ∀ x, OutsideHeaders bs' x → mem x = heap.mem x := by
  have hlen : len ≠ 0 := by
    rintro rfl
    simp [malloc, hi, bind, Except.bind] at hm
  cases ha : allocate 16 len.toNat bs with
  | none => simp [malloc_of_not_allocate hc hi hlen ha] at hm
  | some r =>
    obtain ⟨bs', a⟩ := r
    obtain ⟨mem, hok, hc', hframe⟩ := malloc_of_allocate hc hi hlen ha
    rw [hok] at hm
    simp only [Except.ok.injEq, Prod.mk.injEq] at hm
    obtain ⟨rfl, rfl⟩ := hm
    exact ⟨bs', a, mem, by bv_omega, rfl, rfl, rfl, hc', hframe⟩

end

end Hjortron
