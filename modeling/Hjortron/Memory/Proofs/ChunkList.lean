import Hjortron.Memory.Proofs.ChunkHeader
import Hjortron.Misc.BlockTiling

/-!
# The chunk list in memory

`ChunkList m start bs`: following `next_chunk` from `start` visits exactly the headers of the
blocks `bs`, `previous_chunk` leads back, and the blocks are in address order inside the
32-bit address space. This relates the flat memory of `malloc.c` to the block lists of
`Hjortron.Misc.BlockList`.
-/

namespace Hjortron

open BlockList

/-- The header of a block as a pointer. -/
def chunkPtr (b : Block) : Word := BitVec.ofNat 32 b.addr

/-- The payload of a block as a pointer: what `malloc` returns. -/
def payloadPtr (b : Block) : Word := BitVec.ofNat 32 (b.addr + 16)

/-- The pointer to the first block, or `next` when there is none. -/
def headPtr : List Block → Word → Word
  | [], next => next
  | b :: _, _ => chunkPtr b

/-- The pointer to the last block, or `previous` when there is none. -/
def lastPtr : Word → List Block → Word
  | previous, [] => previous
  | _, b :: bs => lastPtr (chunkPtr b) bs

/-- The headers of `bs` are linked in both directions, between the chunks `previous` and
`next`. -/
def Linked (m : Mem) : Word → List Block → Word → Prop
  | _, [], _ => True
  | previous, b :: bs, next =>
    chunkHeader m (chunkPtr b) = ⟨previous, headPtr bs next, b.used, BitVec.ofNat 32 b.len⟩ ∧
      Linked m (chunkPtr b) bs next

/-- The blocks lie in the address space, in order, and not at `NULL`; a block in use has a
payload. -/
structure Layout (bs : List Block) : Prop where
  ordered : Ordered 16 bs
  within : ∀ b ∈ bs, 1 ≤ b.addr ∧ b.stop 16 ≤ 2 ^ 32
  used_pos : ∀ b ∈ bs, b.used = true → 0 < b.len

/-- The blocks lie in the address space, not at `NULL` and apart from each other, in any order. -/
structure Spread (bs : List Block) : Prop where
  apart : bs.Pairwise fun b c => b.stop 16 ≤ c.addr ∨ c.stop 16 ≤ b.addr
  within : ∀ b ∈ bs, 1 ≤ b.addr ∧ b.stop 16 ≤ 2 ^ 32

/-- The chunk list that starts at `start`. -/
structure ChunkList (m : Mem) (start : Word) (bs : List Block) : Prop where
  start_eq : start = headPtr bs 0
  linked : Linked m 0 bs 0
  layout : Layout bs

/-- The list invariant of an initialized heap: its chunk list is `bs`. -/
structure HeapInv (heap : Heap) (bs : List Block) : Prop where
  initialized : heap.initialized = true
  chunks : ChunkList heap.mem heap.startChunk bs

/-- `ptr` is the payload of a chunk marked allocated. -/
def IsLive (bs : List Block) (ptr : Word) : Prop :=
  ∃ b ∈ bs, b.used = true ∧ ptr = payloadPtr b

section

variable {m m' : Mem} {p q : Word} {b c : Block} {bs cs pre post : List Block}

/-! ## Links -/

@[simp] theorem headPtr_append :
    headPtr (bs ++ cs) p = headPtr bs (headPtr cs p) := by
  cases bs <;> rfl

@[simp] theorem lastPtr_append : lastPtr p (bs ++ cs) = lastPtr (lastPtr p bs) cs := by
  induction bs generalizing p with
  | nil => rfl
  | cons b bs ih => exact ih

theorem linked_append :
    Linked m p (bs ++ cs) q ↔ Linked m p bs (headPtr cs q) ∧ Linked m (lastPtr p bs) cs q := by
  induction bs generalizing p with
  | nil => simp [Linked, lastPtr]
  | cons b bs ih => simp [Linked, lastPtr, ih, and_assoc]

/-- Links depend on the headers of their blocks only. -/
theorem Linked.frame (hl : Linked m p bs q)
    (hm : ∀ b ∈ bs, chunkHeader m' (chunkPtr b) = chunkHeader m (chunkPtr b)) :
    Linked m' p bs q := by
  induction bs generalizing p with
  | nil => trivial
  | cons b bs ih =>
    obtain ⟨hb, hrest⟩ := hl
    refine ⟨(hm b List.mem_cons_self).trans hb, ih hrest ?_⟩
    exact fun x hx => hm x (List.mem_cons_of_mem _ hx)

/-- The list after a write to the `previous_chunk` field of its first block. -/
theorem Linked.relink {p' : Word} (hl : Linked m p bs q)
    (hhead : ∀ b ∈ bs.head?, chunkHeader m' (chunkPtr b) =
      { chunkHeader m (chunkPtr b) with previous := p' })
    (htail : ∀ b ∈ bs.tail, chunkHeader m' (chunkPtr b) = chunkHeader m (chunkPtr b)) :
    Linked m' p' bs q := by
  cases bs with
  | nil => trivial
  | cons b bs =>
    obtain ⟨hb, hrest⟩ := hl
    refine ⟨?_, hrest.frame htail⟩
    rw [hhead b (by simp), hb]

/-- The list after a write to the `next_chunk` field of its last block. -/
theorem Linked.relink_last {q' : Word} (hl : Linked m p (bs ++ [b]) q)
    (hlast : chunkHeader m' (chunkPtr b) = { chunkHeader m (chunkPtr b) with next := q' })
    (hinit : ∀ c ∈ bs, chunkHeader m' (chunkPtr c) = chunkHeader m (chunkPtr c)) :
    Linked m' p (bs ++ [b]) q' := by
  obtain ⟨hbs, hb, -⟩ := linked_append.mp hl
  refine linked_append.mpr ⟨hbs.frame hinit, ?_, trivial⟩
  rw [hlast, hb]
  rfl

/-! ## Blocks in any order -/

theorem apart_chunkPtr (hbc : b.stop 16 ≤ c.addr) (hc : c.stop 16 ≤ 2 ^ 32) :
    Apart (chunkPtr b) 16 (chunkPtr c) 16 := by
  simp only [Block.stop] at hbc hc
  exact apart_of_le (by omega) (by omega) (by omega) (by omega)

/-- Blocks on the two sides of a cut have disjoint headers. -/
theorem Spread.headers (hs : Spread (pre ++ post)) (hb : b ∈ pre) (hc : c ∈ post) :
    Apart (chunkPtr b) 16 (chunkPtr c) 16 := by
  rcases (List.pairwise_append.mp hs.apart).2.2 b hb c hc with h | h
  · exact apart_chunkPtr h (hs.within c (by simp [hc])).2
  · exact (apart_chunkPtr h (hs.within b (by simp [hb])).2).symm

theorem Spread.headers_headPtr (hs : Spread (pre ++ post)) (hb : b ∈ pre)
    (hne : headPtr post 0 ≠ 0) : Apart (chunkPtr b) 16 (headPtr post 0) 16 := by
  cases post with
  | nil => exact absurd rfl hne
  | cons c cs => exact hs.headers hb List.mem_cons_self

theorem Spread.chunkPtr_ne_zero (hs : Spread bs) (hb : b ∈ bs) : chunkPtr b ≠ 0 := by
  obtain ⟨hpos, hstop⟩ := hs.within b hb
  simp only [Block.stop] at hstop
  unfold chunkPtr
  bv_omega

theorem Spread.chunkPtr_toNat (hs : Spread bs) (hb : b ∈ bs) : (chunkPtr b).toNat = b.addr := by
  obtain ⟨hpos, hstop⟩ := hs.within b hb
  simp only [Block.stop] at hstop
  rw [chunkPtr, BitVec.toNat_ofNat, Nat.mod_eq_of_lt (by omega)]

theorem Spread.len_lt (hs : Spread bs) (hb : b ∈ bs) : b.len + 16 < 2 ^ 32 := by
  obtain ⟨hpos, hstop⟩ := hs.within b hb
  simp only [Block.stop] at hstop
  omega

/-- The pieces that a block is cut into lie where the block was. -/
theorem Spread.take {n : Nat} (hs : Spread (pre ++ b :: post)) (hfit : b.Fits n) :
    Spread (pre ++ (take 16 n b ++ post)) := by
  have hpiece : ∀ x ∈ BlockList.take 16 n b, b.addr ≤ x.addr ∧ x.stop 16 ≤ b.stop 16 :=
    fun x hx => take_bounds hx hfit
  obtain ⟨hpre, hbpost, hcross⟩ := List.pairwise_append.mp hs.apart
  obtain ⟨hb, hpost⟩ := List.pairwise_cons.mp hbpost
  have hwithin := hs.within b (by simp)
  constructor
  · refine List.pairwise_append.mpr ⟨hpre, List.pairwise_append.mpr ⟨?_, hpost, ?_⟩, ?_⟩
    · exact take_ordered.imp fun h => .inl h
    · intro x hx y hy
      have hx' := hpiece x hx
      have hy' := hb y hy
      omega
    · intro x hx y hy
      rcases List.mem_append.mp hy with hy | hy
      · have hy' := hpiece y hy
        have hx' := hcross x hx b List.mem_cons_self
        omega
      · exact hcross x hx y (List.mem_cons_of_mem _ hy)
  · intro x hx
    rcases List.mem_append.mp hx with hx | hx
    · exact hs.within x (by simp [hx])
    rcases List.mem_append.mp hx with hx | hx
    · have hx' := hpiece x hx
      omega
    · exact hs.within x (by simp [hx])

/-! ## Layout -/

theorem Layout.spread (hl : Layout bs) : Spread bs :=
  ⟨hl.ordered.imp fun h => .inl h, hl.within⟩

/-- Blocks on the two sides of a cut have disjoint headers. -/
theorem Layout.apart (hl : Layout (pre ++ post)) (hb : b ∈ pre) (hc : c ∈ post) :
    Apart (chunkPtr b) 16 (chunkPtr c) 16 :=
  hl.spread.headers hb hc

theorem Layout.apart_headPtr (hl : Layout (pre ++ post)) (hb : b ∈ pre)
    (hne : headPtr post 0 ≠ 0) : Apart (chunkPtr b) 16 (headPtr post 0) 16 :=
  hl.spread.headers_headPtr hb hne

theorem Layout.of_append (pre post : List Block) (hl : Layout (pre ++ post)) :
    Layout pre ∧ Layout post := by
  obtain ⟨hpre, hpost, -⟩ := List.pairwise_append.mp hl.ordered
  exact ⟨⟨hpre, fun b hb => hl.within b (by simp [hb]), fun b hb => hl.used_pos b (by simp [hb])⟩,
    ⟨hpost, fun b hb => hl.within b (by simp [hb]), fun b hb => hl.used_pos b (by simp [hb])⟩⟩

theorem Layout.tail (hl : Layout (b :: bs)) : Layout bs :=
  (Layout.of_append [b] bs hl).2

theorem Layout.chunkPtr_ne_zero (hl : Layout bs) (hb : b ∈ bs) : chunkPtr b ≠ 0 :=
  hl.spread.chunkPtr_ne_zero hb

theorem Layout.chunkPtr_toNat (hl : Layout bs) (hb : b ∈ bs) : (chunkPtr b).toNat = b.addr :=
  hl.spread.chunkPtr_toNat hb

theorem Layout.payloadPtr_toNat (hl : Layout bs) (hb : b ∈ bs) (hu : b.used = true) :
    (payloadPtr b).toNat = b.addr + 16 := by
  have hlen := hl.used_pos b hb hu
  obtain ⟨hpos, hstop⟩ := hl.within b hb
  simp only [Block.stop] at hstop
  rw [payloadPtr, BitVec.toNat_ofNat, Nat.mod_eq_of_lt (by omega)]

theorem payloadPtr_eq : payloadPtr b = chunkPtr b + sizeofMemoryChunk := by
  unfold payloadPtr chunkPtr sizeofMemoryChunk
  bv_omega

theorem payloadPtr_sub : payloadPtr b - sizeofMemoryChunk = chunkPtr b := by
  rw [payloadPtr_eq]
  bv_omega

theorem Layout.payloadPtr_ne_zero (hl : Layout bs) (hb : b ∈ bs) (hu : b.used = true) :
    payloadPtr b ≠ 0 := by
  intro h0
  have := hl.payloadPtr_toNat hb hu
  simp [h0] at this

theorem Layout.len_lt (hl : Layout bs) (hb : b ∈ bs) : b.len + 16 < 2 ^ 32 :=
  hl.spread.len_lt hb

theorem Layout.headPtr_ne_zero (hl : Layout bs) (hne : bs ≠ []) : headPtr bs 0 ≠ 0 := by
  cases bs with
  | nil => exact absurd rfl hne
  | cons b bs => exact hl.chunkPtr_ne_zero List.mem_cons_self

/-- Fewer chunks than addresses, so a walk along the list ends. -/
theorem Layout.length_lt (hl : Layout bs) : bs.length < 2 ^ 32 := by
  have h := hl.ordered.length_mul_le hl.within (by omega)
  omega

theorem Layout.allocate {n : Nat} {r : List Block × Nat} (hn : 1 ≤ n) (hl : Layout bs)
    (hr : allocate 16 n bs = some r) : Layout r.1 := by
  refine ⟨hl.ordered.allocate hr, allocate_within hr hl.within, fun x hx hu => ?_⟩
  obtain ⟨b, -, hfit, -, hused⟩ := mem_allocate_used hr
  rcases (hused x).mp ⟨hx, hu⟩ with ⟨hx, -⟩ | rfl
  · exact hl.used_pos x hx hu
  · exact lt_of_lt_of_le hn (served_len hfit)

theorem Layout.release (hl : Layout bs) (hb : b ∈ bs) : Layout (release 16 b.addr bs) := by
  refine ⟨hl.ordered.release (by omega) hb, release_within (by omega) hl.ordered hb hl.within,
    fun x hx hu => ?_⟩
  have := (mem_release_used (by omega) hl.ordered hb x).mp ⟨hx, hu⟩
  exact hl.used_pos x this.1 hu

/-! ## Payload bytes -/

/-- `x` lies in none of the chunk headers. -/
def OutsideHeaders (bs : List Block) (x : Word) : Prop :=
  ∀ b ∈ bs, ¬ InRange (chunkPtr b) 16 x

/-- `x` is a payload byte of the block. -/
def InPayload (b : Block) (x : Word) : Prop := InRange (payloadPtr b) b.len x

theorem Layout.inPayload_toNat (hl : Layout bs) (hb : b ∈ bs) {x : Word} (hx : InPayload b x) :
    b.addr + 16 ≤ x.toNat ∧ x.toNat < b.stop 16 := by
  obtain ⟨hpos, hstop⟩ := hl.within b hb
  unfold InPayload InRange payloadPtr at hx
  simp only [Block.stop] at hstop ⊢
  bv_omega

theorem Layout.inHeader_toNat (hl : Layout bs) (hb : b ∈ bs) {x : Word}
    (hx : InRange (chunkPtr b) 16 x) : b.addr ≤ x.toNat ∧ x.toNat < b.addr + 16 := by
  obtain ⟨hpos, hstop⟩ := hl.within b hb
  unfold InRange chunkPtr at hx
  simp only [Block.stop] at hstop
  bv_omega

/-- Payloads and headers do not overlap. -/
theorem Layout.outsideHeaders (hl : Layout bs) (hb : b ∈ bs) {x : Word} (hx : InPayload b x) :
    OutsideHeaders bs x := by
  intro c hc hxc
  have h1 := hl.inPayload_toNat hb hx
  have h2 := hl.inHeader_toNat hc hxc
  by_cases hbc : b = c
  · subst hbc
    omega
  · have h3 := hl.ordered.stop_le_or hb hc hbc
    simp only [Block.stop] at h1 h3
    omega

/-- Payloads of distinct blocks do not overlap. -/
theorem Layout.not_inPayload (hl : Layout bs) (hb : b ∈ bs) (hc : c ∈ bs) (hne : b ≠ c) {x : Word}
    (hx : InPayload b x) : ¬ InPayload c x := by
  intro hxc
  have h1 := hl.inPayload_toNat hb hx
  have h2 := hl.inPayload_toNat hc hxc
  have h3 := hl.ordered.stop_le_or hb hc hne
  simp only [Block.stop] at h1 h2 h3
  omega

theorem Layout.apart_payload (hl : Layout bs) (hb : b ∈ bs) (hc : c ∈ bs) (hne : b ≠ c) {n k : Nat}
    (hn : n ≤ b.len) (hk : k ≤ c.len) (hn0 : 0 < n) (hk0 : 0 < k) :
    Apart (payloadPtr b) n (payloadPtr c) k := by
  have h1 := hl.within b hb
  have h2 := hl.within c hc
  simp only [Block.stop] at h1 h2
  rcases hl.ordered.stop_le_or hb hc hne with h | h
  · simp only [Block.stop] at h
    exact apart_of_le (by omega) (by omega) hn0 hk0
  · simp only [Block.stop] at h
    exact (apart_of_le (by omega) (by omega) hk0 hn0).symm

theorem Linked.header_of_mem (hl : Linked m p bs q) (hb : b ∈ bs) :
    ∃ previous next, chunkHeader m (chunkPtr b) =
      ⟨previous, next, b.used, BitVec.ofNat 32 b.len⟩ := by
  obtain ⟨pre, post, rfl⟩ := List.append_of_mem hb
  obtain ⟨-, hhd, -⟩ := linked_append.mp hl
  exact ⟨_, _, hhd⟩

/-- The length field of a chunk in the list. -/
theorem ChunkList.chunkLen_toNat {start : Word} (hc : ChunkList m start bs) (hb : b ∈ bs) :
    (chunkLen m (chunkPtr b)).toNat = b.len := by
  obtain ⟨previous, next, hhd⟩ := hc.linked.header_of_mem hb
  have := hc.layout.len_lt hb
  rw [chunkLen_of_header hhd, BitVec.toNat_ofNat, Nat.mod_eq_of_lt (by omega)]

/-- Writes outside the headers leave the chunk list alone. -/
theorem ChunkList.frame {start : Word} (hc : ChunkList m start bs)
    (hm : ∀ x, ¬ OutsideHeaders bs x → m' x = m x) : ChunkList m' start bs := by
  refine ⟨hc.start_eq, hc.linked.frame fun b hb => ?_, hc.layout⟩
  refine chunkHeader_congr fun x hx => hm x ?_
  exact fun hout => hout b hb hx

theorem HeapInv.layout {heap : Heap} (hinv : HeapInv heap bs) : Layout bs := hinv.chunks.layout

/-- Two lists that are linked from the same chunk on are the same. -/
theorem Linked.unique (h : Linked m p bs 0) (h' : Linked m q cs 0)
    (hhead : headPtr bs 0 = headPtr cs 0) (hl : Layout bs) (hl' : Layout cs) : bs = cs := by
  induction bs generalizing cs p q with
  | nil =>
    cases cs with
    | nil => rfl
    | cons c cs => exact absurd hhead.symm (hl'.chunkPtr_ne_zero List.mem_cons_self)
  | cons b bs ih =>
    cases cs with
    | nil => exact absurd hhead (hl.chunkPtr_ne_zero List.mem_cons_self)
    | cons c cs =>
      have hb := hl.len_lt List.mem_cons_self
      have hc := hl'.len_lt List.mem_cons_self
      have hptr : chunkPtr b = chunkPtr c := hhead
      have haddr : b.addr = c.addr := by
        rw [← hl.chunkPtr_toNat List.mem_cons_self, ← hl'.chunkPtr_toNat List.mem_cons_self, hptr]
      rcases h with ⟨hheader, hrest⟩
      rcases h' with ⟨hheader', hrest'⟩
      rw [hptr, hheader'] at hheader
      injection hheader with _ hnext hused hlen
      have hsize : b.len = c.len := by
        have hnat := congrArg BitVec.toNat hlen
        rw [BitVec.toNat_ofNat, BitVec.toNat_ofNat, Nat.mod_eq_of_lt (by omega),
          Nat.mod_eq_of_lt (by omega)] at hnat
        exact hnat.symm
      have htail : bs = cs := ih hrest hrest' hnext.symm hl.tail hl'.tail
      have hhere : b = c := by
        cases b
        cases c
        simp_all
      rw [hhere, htail]

/-- A heap has one chunk list. -/
theorem HeapInv.unique {heap : Heap} (h : HeapInv heap bs) (h' : HeapInv heap cs) : bs = cs :=
  h.chunks.linked.unique h'.chunks.linked (h.chunks.start_eq.symm.trans h'.chunks.start_eq)
    h.layout h'.layout

end

end Hjortron
