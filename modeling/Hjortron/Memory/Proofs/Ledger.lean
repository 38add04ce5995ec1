import Hjortron.Misc.BlockTiling
import Hjortron.Memory.Proofs.HeapRun

/-!
# The heap seen by its clients

The parts of the kernel that keep their data in heap blocks reason with live pointers and sizes,
not with chunks. `Ledger lo hi heap live` says that `live` are the pointers that have been handed
out and that all chunks lie between `lo` and `hi`. Bytes of live blocks and bytes beyond the
chunks are `Stable`: the allocator does not write them, and clients may. `Roomy` adds that some
free chunk is long enough for a request; a buffer that is allocated and freed again keeps it so.
-/

namespace Hjortron

open BlockList

/-- `live` are the pointers in use, with the sizes requested for them, and all chunks lie between
`lo` and `hi`. -/
def Ledger (lo hi : Nat) (heap : Heap) (live : List (Word × Word)) : Prop :=
  ∃ bs, SessionInv ⟨heap, live⟩ bs ∧ ∀ b ∈ bs, lo ≤ b.addr ∧ b.stop 16 ≤ hi

/-- The byte belongs to a live block, or lies below or above all chunks. -/
def Stable (lo hi : Nat) (live : List (Word × Word)) (x : Word) : Prop :=
  x.toNat < lo ∨ hi ≤ x.toNat ∨ ∃ e ∈ live, InRange e.1 e.2.toNat x

/-- The byte belongs to no header and to no chunk in use. -/
def Heap.Idle (heap : Heap) (x : Word) : Prop :=
  ∃ bs, HeapInv heap bs ∧ OutsideHeaders bs x ∧ ∀ b ∈ bs, b.used = true → ¬ InPayload b x

/-- A ledger with a free chunk of at least `size` bytes. -/
def Roomy (lo hi : Nat) (heap : Heap) (live : List (Word × Word)) (size : Nat) : Prop :=
  ∃ bs, SessionInv ⟨heap, live⟩ bs ∧ (∀ b ∈ bs, lo ≤ b.addr ∧ b.stop 16 ≤ hi) ∧
    ∃ b ∈ bs, b.Fits size

/-- Some chunk is free and at least that long. -/
def HasRoom (heap : Heap) (size : Nat) : Prop := ∃ bs, HeapInv heap bs ∧ ∃ b ∈ bs, b.Fits size

/-- The live pointers without `ptr`. -/
def forgetPtr (live : List (Word × Word)) (ptr : Word) : List (Word × Word) :=
  live.filter fun e => e.1 != ptr

section

variable {lo hi size : Nat} {heap heap' : Heap} {live : List (Word × Word)} {bs : List Block}
  {b : Block} {p q n k x len ptr : Word} {m : Mem}

theorem mem_forgetPtr {e : Word × Word} : e ∈ forgetPtr live ptr ↔ e ∈ live ∧ e.1 ≠ ptr := by
  simp [forgetPtr]

/-! ## Live blocks -/

theorem Ledger.nodup (h : Ledger lo hi heap live) : (live.map Prod.fst).Nodup := by
  obtain ⟨bs, hs, -⟩ := h
  exact hs.nodup

/-- A live block lies between the bounds and does not wrap. -/
theorem Ledger.bounds (h : Ledger lo hi heap live) (hp : (p, n) ∈ live) :
    lo + 16 ≤ p.toNat ∧ p.toNat + n.toNat ≤ hi ∧ p.toNat + n.toNat ≤ 2 ^ 32 := by
  obtain ⟨bs, hs, hw⟩ := h
  obtain ⟨b, hb, hu, hptr, hle⟩ := hs.sound _ hp
  have hwithin := hw b hb
  have hlayout := (hs.heap.layout.within b hb).2
  have htoNat := hs.heap.layout.payloadPtr_toNat hb hu
  simp only [Block.stop] at hwithin hlayout hptr hle
  rw [hptr, htoNat]
  omega

theorem Ledger.ne_zero (h : Ledger lo hi heap live) (hp : (p, n) ∈ live) : p ≠ 0 := by
  have hbounds := h.bounds hp
  rintro rfl
  simp at hbounds

theorem Ledger.size_unique (h : Ledger lo hi heap live) (hn : (p, n) ∈ live) (hk : (p, k) ∈ live) :
    n = k := by
  have hinj := List.inj_on_of_nodup_map h.nodup hn hk rfl
  exact (Prod.mk.inj hinj).2

/-- No live block covers the first bytes of memory when the chunks start above them. -/
theorem Ledger.null_apart (h : Ledger lo hi heap live) (hnull : 12 ≤ lo) (hp : (p, n) ∈ live) :
    Apart 0 12 p n.toNat := by
  have hbounds := h.bounds hp
  unfold Apart
  bv_omega

/-- Different live blocks do not overlap. -/
theorem Ledger.apart (h : Ledger lo hi heap live) (hp : (p, n) ∈ live) (hq : (q, k) ∈ live)
    (hne : p ≠ q) : Apart p n.toNat q k.toNat := by
  obtain ⟨bs, hs, -⟩ := h
  obtain ⟨b, hb, hbu, rfl, hbl⟩ := hs.sound _ hp
  obtain ⟨c, hc, hcu, rfl, hcl⟩ := hs.sound _ hq
  have hbc : b ≠ c := fun heq => hne (heq ▸ rfl)
  have hap := hs.heap.layout.apart_payload hb hc hbc le_rfl le_rfl
    (hs.heap.layout.used_pos b hb hbu) (hs.heap.layout.used_pos c hc hcu)
  exact ⟨hbl.trans hap.1, hcl.trans hap.2⟩

/-- Live blocks of different sizes are different blocks. -/
theorem Ledger.apart_of_size (h : Ledger lo hi heap live) (hp : (p, n) ∈ live) (hq : (q, k) ∈ live)
    (hne : n ≠ k) : Apart p n.toNat q k.toNat := by
  apply h.apart hp hq
  rintro rfl
  exact hne (h.size_unique hp hq)

/-- The newest block is not one of the others. -/
theorem Ledger.fresh (h : Ledger lo hi heap ((p, n) :: live)) : ∀ e ∈ live, e.1 ≠ p := by
  have hnd := h.nodup
  rw [List.map_cons, List.nodup_cons] at hnd
  intro e he heq
  exact hnd.1 (List.mem_map.mpr ⟨e, he, heq⟩)

/-- No live block reaches below or above the chunks. -/
theorem Ledger.not_inRange_outside (h : Ledger lo hi heap live) (hp : (p, n) ∈ live)
    (hx : x.toNat < lo ∨ hi ≤ x.toNat) : ¬ InRange p n.toNat x := by
  have hbounds := h.bounds hp
  unfold InRange
  bv_omega

/-- The newest block does not overlap the bytes that are stable without it. -/
theorem Ledger.not_inRange (h : Ledger lo hi heap ((p, n) :: live)) (hx : Stable lo hi live x) :
    ¬ InRange p n.toNat x := by
  rcases hx with hlo | hhi | ⟨e, he, hin⟩
  · exact h.not_inRange_outside List.mem_cons_self (Or.inl hlo)
  · exact h.not_inRange_outside List.mem_cons_self (Or.inr hhi)
  · have hap := h.apart List.mem_cons_self (List.mem_cons_of_mem _ he)
      (fun heq => h.fresh e he heq.symm)
    exact hap.not_inRange hin

/-- Forgetting a pointer whose place in the list is known. -/
theorem Ledger.forgetPtr_append_cons {pre post : List (Word × Word)}
    (h : Ledger lo hi heap (pre ++ (p, n) :: post)) :
    forgetPtr (pre ++ (p, n) :: post) p = pre ++ post := by
  have hnd := h.nodup
  rw [List.map_append, List.map_cons, List.nodup_append, List.nodup_cons] at hnd
  have hpre : ∀ e ∈ pre, (e.1 != p) = true := fun e he => by
    simpa using hnd.2.2 e.1 (List.mem_map_of_mem he) p List.mem_cons_self
  have hpost : ∀ e ∈ post, (e.1 != p) = true := fun e he => by
    simpa using fun heq => hnd.2.1.1 (List.mem_map.mpr ⟨e, he, heq⟩)
  rw [forgetPtr, List.filter_append, List.filter_cons_of_neg (by simp),
    List.filter_eq_self.mpr hpre, List.filter_eq_self.mpr hpost]

theorem Ledger.forgetPtr_self (h : Ledger lo hi heap ((p, n) :: live)) :
    forgetPtr ((p, n) :: live) p = live :=
  Ledger.forgetPtr_append_cons (show Ledger lo hi heap ([] ++ (p, n) :: live) from h)

/-- The order of the live blocks does not matter. -/
theorem Ledger.perm {live' : List (Word × Word)} (h : Ledger lo hi heap live)
    (hperm : live.Perm live') : Ledger lo hi heap live' := by
  obtain ⟨bs, hs, hw⟩ := h
  refine ⟨bs, ⟨hs.heap, (hperm.map _).nodup_iff.mp hs.nodup, fun e he => ?_, fun b hb hu => ?_⟩, hw⟩
  · exact hs.sound e (hperm.mem_iff.mpr he)
  · obtain ⟨len, hlen⟩ := hs.complete b hb hu
    exact ⟨len, hperm.mem_iff.mp hlen⟩

/-- Stable bytes are not in a header. -/
theorem SessionInv.outsideHeaders (hs : SessionInv ⟨heap, live⟩ bs)
    (hw : ∀ b ∈ bs, lo ≤ b.addr ∧ b.stop 16 ≤ hi) (hx : Stable lo hi live x) :
    OutsideHeaders bs x := by
  rcases hx with hlo | hhi | ⟨e, he, hin⟩
  · intro b hb hxb
    have := hs.heap.layout.inHeader_toNat hb hxb
    have := hw b hb
    omega
  · intro b hb hxb
    have := hs.heap.layout.inHeader_toNat hb hxb
    have := (hw b hb).2
    simp only [Block.stop] at this
    omega
  · obtain ⟨b, hb, -, hptr, hle⟩ := hs.sound e he
    rw [hptr] at hin
    exact hs.heap.layout.outsideHeaders hb (Nat.lt_of_lt_of_le hin hle)

theorem Stable.mono {live' : List (Word × Word)} (hsub : ∀ e ∈ live, e ∈ live')
    (hx : Stable lo hi live x) : Stable lo hi live' x := by
  rcases hx with hlo | hhi | ⟨d, hd, hin⟩
  · exact Or.inl hlo
  · exact Or.inr (Or.inl hhi)
  · exact Or.inr (Or.inr ⟨d, hsub d hd, hin⟩)

theorem Stable.cons (e : Word × Word) (hx : Stable lo hi live x) : Stable lo hi (e :: live) x :=
  hx.mono fun _ => List.mem_cons_of_mem _

theorem SessionInv.write (hs : SessionInv ⟨heap, live⟩ bs)
    (hw : ∀ b ∈ bs, lo ≤ b.addr ∧ b.stop 16 ≤ hi)
    (hm : ∀ x, ¬ Stable lo hi live x → m x = heap.mem x) :
    SessionInv ⟨{ heap with mem := m }, live⟩ bs := by
  refine ⟨⟨hs.heap.initialized, hs.heap.chunks.frame fun x hx => hm x ?_⟩, hs.nodup, hs.sound,
    hs.complete⟩
  exact fun hstable => hx (hs.outsideHeaders hw hstable)

/-- Clients may write stable bytes. -/
theorem Ledger.write (h : Ledger lo hi heap live)
    (hm : ∀ x, ¬ Stable lo hi live x → m x = heap.mem x) :
    Ledger lo hi { heap with mem := m } live := by
  obtain ⟨bs, hs, hw⟩ := h
  exact ⟨bs, hs.write hw hm, hw⟩

/-! ## Bytes that nobody uses -/

/-- Clients may write idle bytes, too. -/
theorem Ledger.write_idle (h : Ledger lo hi heap live)
    (hm : ∀ x, m x ≠ heap.mem x → Stable lo hi live x ∨ heap.Idle x) :
    Ledger lo hi { heap with mem := m } live := by
  rcases h with ⟨bs, hs, hw⟩
  have hchunks : ChunkList m heap.startChunk bs := by
    apply hs.heap.chunks.frame
    intro x hx
    by_contra hne
    rcases hm x hne with hstable | ⟨cs, h', hout, -⟩
    · exact hx (hs.outsideHeaders hw hstable)
    · rw [h'.unique hs.heap] at hout
      exact hx hout
  exact ⟨bs, ⟨⟨hs.heap.initialized, hchunks⟩, hs.nodup, hs.sound, hs.complete⟩, hw⟩

/-- Idle bytes are in no live block. -/
theorem Ledger.not_inRange_idle (h : Ledger lo hi heap live) (hp : (p, n) ∈ live)
    (hx : heap.Idle x) : ¬ InRange p n.toNat x := by
  rcases h with ⟨bs, hs, -⟩
  rcases hx with ⟨cs, h', -, hused⟩
  rw [h'.unique hs.heap] at hused
  obtain ⟨b, hb, hu, hptr, hle⟩ := hs.sound _ hp
  intro hin
  apply hused b hb hu
  rw [InPayload, ← hptr]
  exact Nat.lt_of_lt_of_le hin hle

/-- Idle bytes stay idle while clients write. -/
theorem Ledger.idle_write (h : Ledger lo hi heap live) (hx : heap.Idle x)
    (hm : ∀ x, ¬ Stable lo hi live x → m x = heap.mem x) : { heap with mem := m }.Idle x := by
  rcases h with ⟨bs, hs, hw⟩
  rcases hx with ⟨cs, h', hidle⟩
  rw [h'.unique hs.heap] at hidle
  exact ⟨bs, (hs.write hw hm).heap, hidle⟩

/-! ## `malloc` and `free` -/

/-- What a client knows after `malloc`. -/
structure Allocated (lo hi : Nat) (heap : Heap) (live : List (Word × Word)) (len ptr : Word)
    (heap' : Heap) : Prop where
  ledger : Ledger lo hi heap' ((ptr, len) :: live)
  pos : 0 < len.toNat
  frame : ∀ x, Stable lo hi live x → heap'.mem x = heap.mem x
  start : heap'.startChunk = heap.startChunk

theorem SessionInv.malloc (hs : SessionInv ⟨heap, live⟩ bs)
    (hw : ∀ b ∈ bs, lo ≤ b.addr ∧ b.stop 16 ≤ hi) (hm : malloc heap len = .ok (ptr, heap')) :
    Allocated lo hi heap live len ptr heap' ∧ ∃ bs' a, allocate 16 len.toNat bs = some (bs', a) ∧
      SessionInv ⟨heap', (ptr, len) :: live⟩ bs' ∧ ∀ b ∈ bs', lo ≤ b.addr ∧ b.stop 16 ≤ hi := by
  obtain ⟨bs', a, mem, hpos, ha, hptr, rfl, hc, hframe⟩ :=
    malloc_eq_ok hs.heap.chunks hs.heap.initialized hm
  have hcall : (⟨heap, live⟩ : HeapSession).call (.malloc len) =
      .ok ⟨{ heap with mem }, (ptr, len) :: live⟩ := by
    simp only [HeapSession.call, hm, bind, Except.bind, pure, Except.pure]
  obtain ⟨t, ht, hs'⟩ := hs.malloc_call hpos ha
  obtain rfl : _ = t := Except.ok.inj (hcall.symm.trans ht)
  have hw' := allocate_within ha hw
  refine ⟨⟨⟨bs', hs', hw'⟩, hpos, fun x hx => hframe x ?_, rfl⟩, bs', a, ha, hs', hw'⟩
  exact hs'.outsideHeaders hw' (hx.cons _)

theorem Ledger.malloc (h : Ledger lo hi heap live) (hm : malloc heap len = .ok (ptr, heap')) :
    Allocated lo hi heap live len ptr heap' := by
  obtain ⟨bs, hs, hw⟩ := h
  exact (hs.malloc hw hm).1

/-- `malloc` does not write the block that it returns, either. -/
theorem Ledger.malloc_contents (h : Ledger lo hi heap live)
    (hm : Hjortron.malloc heap len = .ok (ptr, heap')) (hx : InRange ptr len.toNat x) :
    heap'.mem x = heap.mem x := by
  obtain ⟨bs, hs, hw⟩ := h
  obtain ⟨-, bs', a, ha, hs', hw'⟩ := hs.malloc hw hm
  obtain ⟨bs₁, a₁, mem, -, ha₁, -, rfl, -, hframe⟩ :=
    malloc_eq_ok hs.heap.chunks hs.heap.initialized hm
  obtain ⟨rfl, -⟩ := Prod.mk.inj (Option.some.inj (ha.symm.trans ha₁))
  exact hframe x (hs'.outsideHeaders hw' (Or.inr (Or.inr ⟨_, List.mem_cons_self, hx⟩)))

theorem SessionInv.free (hs : SessionInv ⟨heap, live⟩ bs)
    (hw : ∀ b ∈ bs, lo ≤ b.addr ∧ b.stop 16 ≤ hi) (hb : b ∈ bs) (hu : b.used = true) :
    ∃ heap', free heap (payloadPtr b) = .ok heap' ∧
      SessionInv ⟨heap', forgetPtr live (payloadPtr b)⟩ (release 16 b.addr bs) ∧
      (∀ x, Stable lo hi live x → heap'.mem x = heap.mem x) ∧
      heap'.startChunk = heap.startChunk := by
  obtain ⟨mem, hfree, -, hframe⟩ := free_of_mem heap hs.heap.chunks hs.heap.initialized hb hu
  obtain ⟨t, ht, hs'⟩ := hs.free_call hb hu
  have hcall : (⟨heap, live⟩ : HeapSession).call (.free (payloadPtr b)) =
      .ok ⟨{ heap with mem }, forgetPtr live (payloadPtr b)⟩ := by
    simp only [HeapSession.call, hfree, bind, Except.bind, pure, Except.pure]
    rfl
  obtain rfl : _ = t := Except.ok.inj (hcall.symm.trans ht)
  exact ⟨_, hfree, hs', fun x hx => hframe x (hs.outsideHeaders hw hx), rfl⟩

/-- `free` of a live pointer succeeds. -/
theorem Ledger.free (h : Ledger lo hi heap live) (hp : (p, n) ∈ live) :
    ∃ heap', free heap p = .ok heap' ∧ Ledger lo hi heap' (forgetPtr live p) ∧
      (∀ x, Stable lo hi live x → heap'.mem x = heap.mem x) ∧
      heap'.startChunk = heap.startChunk := by
  obtain ⟨bs, hs, hw⟩ := h
  obtain ⟨b, hb, hu, rfl, -⟩ := hs.sound _ hp
  obtain ⟨heap', hfree, hs', hframe, hstart⟩ := hs.free hw hb hu
  have hw' := release_within (by omega) hs.heap.layout.ordered hb hw
  exact ⟨heap', hfree, ⟨_, hs', hw'⟩, hframe, hstart⟩

/-- The bytes of a block that is freed are idle, and idle bytes stay idle. -/
theorem Ledger.free_idle (h : Ledger lo hi heap live) (hp : (p, n) ∈ live)
    (hfree : Hjortron.free heap p = .ok heap') (hx : InRange p n.toNat x ∨ heap.Idle x) :
    heap'.Idle x := by
  obtain ⟨bs, hs, hw⟩ := h
  obtain ⟨b, hb, hu, rfl, hle⟩ := hs.sound _ hp
  obtain ⟨heap₁, hfree₁, hs', -⟩ := hs.free hw hb hu
  obtain rfl := Except.ok.inj (hfree.symm.trans hfree₁)
  have hl := hs.heap.layout
  -- the bytes of the block are outside the old headers and in no other chunk in use
  have hold : OutsideHeaders bs x ∧ ∀ c ∈ bs, c.used = true → c ≠ b → ¬ InPayload c x := by
    rcases hx with hx | ⟨cs, h', hout, hused⟩
    · have hin : InPayload b x := Nat.lt_of_lt_of_le hx hle
      exact ⟨hl.outsideHeaders hb hin, fun c hc _ hne => hl.not_inPayload hb hc hne.symm hin⟩
    · rw [h'.unique hs.heap] at hout hused
      exact ⟨hout, fun c hc hcu _ => hused c hc hcu⟩
  refine ⟨_, hs'.heap, ?_, ?_⟩
  · intro c hc
    obtain ⟨d, hd, haddr⟩ := release_addr (by omega) hl.ordered hb c hc
    rw [chunkPtr, ← haddr]
    exact hold.1 d hd
  · intro c hc hcu
    have hmem := (mem_release_used (by omega) hl.ordered hb c).mp ⟨hc, hcu⟩
    exact hold.2 c hmem.1 hcu hmem.2.2

/-- `free` of a block whose place among the live blocks is known. -/
theorem Ledger.free_at {pre post : List (Word × Word)}
    (h : Ledger lo hi heap (pre ++ (p, n) :: post)) :
    ∃ heap', Hjortron.free heap p = .ok heap' ∧ Ledger lo hi heap' (pre ++ post) ∧
      ∀ x, Stable lo hi (pre ++ post) x → heap'.mem x = heap.mem x := by
  obtain ⟨heap', hfree, hledger, hframe, -⟩ := h.free (p := p) (n := n) (by simp)
  rw [h.forgetPtr_append_cons] at hledger
  refine ⟨heap', hfree, hledger, fun x hx => hframe x (hx.mono fun e he => ?_)⟩
  rcases List.mem_append.mp he with he | he
  · exact List.mem_append_left _ he
  · exact List.mem_append_right _ (List.mem_cons_of_mem _ he)

/-- Two blocks that are freed one after the other. -/
theorem Ledger.free_two {pre post : List (Word × Word)}
    (h : Ledger lo hi heap (pre ++ (p, n) :: (q, k) :: post)) :
    ∃ heap₁ heap₂, Hjortron.free heap q = .ok heap₁ ∧ Hjortron.free heap₁ p = .ok heap₂ ∧
      Ledger lo hi heap₂ (pre ++ post) ∧
      (∀ x, Stable lo hi (pre ++ post) x → heap₂.mem x = heap.mem x) ∧
      ∀ x, InRange q k.toNat x → heap₂.Idle x := by
  rw [List.append_cons] at h
  obtain ⟨heap₁, hfree₁, h₁, hframe₁⟩ := h.free_at
  have hidle : ∀ x, InRange q k.toNat x → heap₁.Idle x :=
    fun x hx => h.free_idle (n := k) (by simp) hfree₁ (Or.inl hx)
  rw [← List.append_cons] at h₁
  obtain ⟨heap₂, hfree₂, h₂, hframe₂⟩ := h₁.free_at
  refine ⟨heap₁, heap₂, hfree₁, hfree₂, h₂, fun x hx => (hframe₂ x hx).trans (hframe₁ x ?_),
    fun x hx => h₁.free_idle (n := n) (by simp) hfree₂ (Or.inr (hidle x hx))⟩
  refine hx.mono fun e he => ?_
  rcases List.mem_append.mp he with he | he
  · exact List.mem_append_left _ (List.mem_append_left _ he)
  · exact List.mem_append_right _ he

/-- Stable bytes are not in a header that `malloc` makes, either. -/
theorem SessionInv.outsideHeaders_allocate {bs' : List Block} {a : Nat}
    (hs : SessionInv ⟨heap, live⟩ bs) (hw : ∀ b ∈ bs, lo ≤ b.addr ∧ b.stop 16 ≤ hi)
    (hlen : len ≠ 0) (ha : allocate 16 len.toNat bs = some (bs', a)) (hx : Stable lo hi live x) :
    OutsideHeaders bs' x := by
  obtain ⟨mem, hm, -⟩ := malloc_of_allocate hs.heap.chunks hs.heap.initialized hlen ha
  obtain ⟨-, bs₁, a₁, ha₁, hs₁, hw₁⟩ := hs.malloc hw hm
  obtain ⟨rfl, -⟩ := Prod.mk.inj (Option.some.inj (ha.symm.trans ha₁))
  exact hs₁.outsideHeaders hw₁ (hx.cons _)

/-- What a client knows after `realloc` of a block that it grows. -/
structure Regrown (lo hi : Nat) (heap : Heap) (live : List (Word × Word)) (p n q k : Word)
    (heap' : Heap) : Prop where
  ledger : Ledger lo hi heap' ((q, k) :: live)
  copied : ∀ i < n.toNat, heap'.mem (q + BitVec.ofNat 32 i) = heap.mem (p + BitVec.ofNat 32 i)
  frame : ∀ x, Stable lo hi live x → heap'.mem x = heap.mem x

theorem Ledger.realloc (h : Ledger lo hi heap ((p, n) :: live)) (hle : n.toNat ≤ k.toNat)
    (hr : realloc heap p k = .ok (q, heap')) : Regrown lo hi heap live p n q k heap' := by
  have hforget := h.forgetPtr_self
  obtain ⟨bs, hs, hw⟩ := h
  obtain ⟨b, hb, hu, rfl, hbn⟩ := hs.sound _ List.mem_cons_self
  have hk : k ≠ 0 := by
    rintro rfl
    rw [realloc_zero hs.heap hb hu] at hr
    cases hr
  have hcall : (⟨heap, (payloadPtr b, n) :: live⟩ : HeapSession).call
      (.realloc (payloadPtr b) k) = .ok ⟨heap', (q, k) :: live⟩ := by
    simp only [HeapSession.call, hr, bind, Except.bind, pure, Except.pure]
    conv_rhs => rw [← hforget]
    rfl
  by_cases hfit : k.toNat ≤ b.len
  · obtain ⟨t, ht, hs'⟩ := hs.realloc_call_keep hb hu (by bv_omega) hfit
    obtain rfl := Except.ok.inj (hcall.symm.trans ht)
    rw [realloc_of_le hs.heap hb hu hk hfit] at hr
    obtain ⟨rfl, rfl⟩ := Prod.mk.inj (Except.ok.inj hr)
    exact ⟨⟨bs, hs', hw⟩, fun i hi => rfl, fun x hx => rfl⟩
  · have hlt := Nat.lt_of_not_le hfit
    cases ha : allocate 16 k.toNat bs with
    | none =>
      rw [realloc_of_not_allocate hs.heap hb hu hlt ha] at hr
      cases hr
    | some r =>
      obtain ⟨bs', a⟩ := r
      obtain ⟨mem, hrealloc, -, hcopy, hframe⟩ := realloc_of_allocate hs.heap hb hu hlt ha
      obtain ⟨rfl, rfl⟩ := Prod.mk.inj (Except.ok.inj (hrealloc.symm.trans hr))
      obtain ⟨t, ht, hs'⟩ := hs.realloc_call_move hb hu hlt ha
      obtain rfl := Except.ok.inj (hcall.symm.trans ht)
      obtain ⟨x, hx, hxu, -, -, -, hused⟩ := served_mem hs.heap.layout ha
      have hb' : b ∈ bs' := ((hused b).mpr (Or.inl ⟨hb, hu⟩)).1
      have hw' := allocate_within ha hw
      have hordered := (hs.heap.layout.allocate (by omega) ha).ordered
      have hledger : Ledger lo hi { heap with mem } ((BitVec.ofNat 32 (a + 16), k) :: live) :=
        ⟨_, hs', release_within (by omega) hordered hb' hw'⟩
      refine ⟨hledger, fun i hi => hcopy i (hi.trans_le hbn), fun x hx => hframe x ?_ ?_⟩
      · exact hs.outsideHeaders_allocate hw hk ha (hx.cons _)
      · intro hin
        apply hledger.not_inRange hx
        unfold InRange at hin ⊢
        omega

/-! ## Room for a request -/

theorem Roomy.ledger (h : Roomy lo hi heap live size) : Ledger lo hi heap live := by
  obtain ⟨bs, hs, hw, -⟩ := h
  exact ⟨bs, hs, hw⟩

theorem Ledger.roomy (h : Ledger lo hi heap live) (hroom : HasRoom heap size) :
    Roomy lo hi heap live size := by
  rcases h with ⟨cs, hs, hw⟩
  rcases hroom with ⟨bs, hinv, hb⟩
  obtain rfl := hinv.unique hs.heap
  exact ⟨bs, hs, hw, hb⟩

theorem Roomy.hasRoom (h : Roomy lo hi heap live size) : HasRoom heap size := by
  rcases h with ⟨bs, hs, -, hb⟩
  exact ⟨bs, hs.heap, hb⟩

theorem Roomy.mono {size' : Nat} (h : Roomy lo hi heap live size) (hle : size' ≤ size) :
    Roomy lo hi heap live size' := by
  obtain ⟨bs, hs, hw, b, hb, hfit⟩ := h
  exact ⟨bs, hs, hw, b, hb, hfit.1, hle.trans hfit.2⟩

theorem Roomy.write (h : Roomy lo hi heap live size)
    (hm : ∀ x, ¬ Stable lo hi live x → m x = heap.mem x) :
    Roomy lo hi { heap with mem := m } live size := by
  obtain ⟨bs, hs, hw, hroom⟩ := h
  exact ⟨bs, hs.write hw hm, hw, hroom⟩

theorem Roomy.malloc (h : Roomy lo hi heap live size) (hpos : 0 < len.toNat)
    (hle : len.toNat ≤ size) :
    ∃ ptr heap', malloc heap len = .ok (ptr, heap') ∧
      Allocated lo hi heap live len ptr heap' := by
  obtain ⟨bs, hs, hw, y, hy, hfit⟩ := h
  have hne : len ≠ 0 := by
    rintro rfl
    simp at hpos
  cases ha : allocate 16 len.toNat bs with
  | none => exact absurd ⟨hfit.1, hle.trans hfit.2⟩ (allocate_eq_none_iff.mp ha y hy)
  | some r =>
    obtain ⟨mem, hm, -⟩ := malloc_of_allocate hs.heap.chunks hs.heap.initialized hne ha
    exact ⟨_, _, hm, (hs.malloc hw hm).1⟩

/-- A request that leaves room for others. -/
theorem Roomy.malloc_rest (h : Roomy lo hi heap live (len.toNat + 16 + size))
    (hpos : 0 < len.toNat) (hsize : 0 < size) :
    ∃ ptr heap', Hjortron.malloc heap len = .ok (ptr, heap') ∧
      Roomy lo hi heap' ((ptr, len) :: live) size := by
  obtain ⟨ptr, heap', hm, -⟩ := h.malloc hpos (by omega)
  obtain ⟨bs, hs, hw, y, hy, hfit⟩ := h
  obtain ⟨-, bs', a, ha, hs', hw'⟩ := hs.malloc hw hm
  exact ⟨ptr, heap', hm, bs', hs', hw', allocate_rest ha hy hfit hsize⟩

/-- A block that grows and leaves room for others. -/
theorem Roomy.realloc_rest (h : Roomy lo hi heap ((p, n) :: live) (k.toNat + 16 + size))
    (hpos : 0 < k.toNat) (hsize : 0 < size) (hle : n.toNat ≤ k.toNat) :
    ∃ q heap', Hjortron.realloc heap p k = .ok (q, heap') ∧
      Roomy lo hi heap' ((q, k) :: live) size := by
  have hledger := h.ledger
  obtain ⟨bs, hs, -, y, hy, hfit⟩ := h
  obtain ⟨b, hb, hu, rfl, hbn⟩ := hs.sound _ List.mem_cons_self
  have hk : k ≠ 0 := by
    rintro rfl
    simp at hpos
  by_cases hkeep : k.toNat ≤ b.len
  · have hr := realloc_of_le hs.heap hb hu hk hkeep
    refine ⟨_, _, hr, (hledger.realloc hle hr).ledger.roomy ⟨bs, hs.heap, y, hy, hfit.1, ?_⟩⟩
    exact le_trans (by omega) hfit.2
  · cases ha : allocate 16 k.toNat bs with
    | none => exact absurd ⟨hfit.1, le_trans (by omega) hfit.2⟩ (allocate_eq_none_iff.mp ha y hy)
    | some r =>
      obtain ⟨bs', a⟩ := r
      obtain ⟨mem, hr, hchunks, -⟩ :=
        realloc_of_allocate hs.heap hb hu (Nat.lt_of_not_le hkeep) ha
      obtain ⟨z, hz, hzfit⟩ := allocate_rest ha hy hfit hsize
      obtain ⟨c, -, -, -, -, -, hused⟩ := served_mem hs.heap.layout ha
      have hb' : b ∈ bs' := ((hused b).mpr (.inl ⟨hb, hu⟩)).1
      have hordered := (hs.heap.layout.allocate (by omega) ha).ordered
      have hroom := release_room (by omega) hordered hb' hu hz hzfit
      exact ⟨_, _, hr, (hledger.realloc hle hr).ledger.roomy
        ⟨_, ⟨hs.heap.initialized, hchunks⟩, hroom⟩⟩

/-- A buffer that is allocated, written and freed again: the live blocks, the stable bytes and the
room are as before. -/
theorem Roomy.borrow (h : Roomy lo hi heap live size) (hpos : 0 < len.toNat)
    (hle : len.toNat ≤ size) :
    ∃ ptr heap₁, Hjortron.malloc heap len = .ok (ptr, heap₁) ∧
      Allocated lo hi heap live len ptr heap₁ ∧
      ∀ m, (∀ x, ¬ Stable lo hi ((ptr, len) :: live) x → m x = heap₁.mem x) →
        ∃ heap₂, Hjortron.free { heap₁ with mem := m } ptr = .ok heap₂ ∧
          Roomy lo hi heap₂ live size ∧ ∀ x, Stable lo hi live x → heap₂.mem x = m x := by
  obtain ⟨ptr, heap₁, hm, halloc⟩ := h.malloc hpos hle
  refine ⟨ptr, heap₁, hm, halloc, fun m hframe => ?_⟩
  obtain ⟨bs, hs, hw, y, hy, hfit⟩ := h
  obtain ⟨-, bs', a, ha, hs', hw'⟩ := hs.malloc hw hm
  obtain ⟨c, hc, hcu, rfl, -, -, -⟩ := served_mem hs.heap.layout ha
  obtain rfl : ptr = payloadPtr c := by
    obtain ⟨_, _, _, -, ha', hptr, -⟩ := malloc_eq_ok hs.heap.chunks hs.heap.initialized hm
    rw [ha] at ha'
    obtain ⟨-, rfl⟩ := Prod.mk.inj (Option.some.inj ha')
    exact hptr
  obtain ⟨heap₂, hfree, hs₂, hframe₂, -⟩ := (hs'.write hw' hframe).free hw' hc hcu
  have hw₂ := release_within (by omega) hs'.heap.layout.ordered hc hw'
  rw [halloc.ledger.forgetPtr_self] at hs₂
  refine ⟨heap₂, hfree, ⟨_, hs₂, hw₂, ?_⟩, fun x hx => hframe₂ x (hx.cons _)⟩
  exact release_allocate_room (by omega) hs.heap.layout.ordered ha hy hfit

/-! ## Heaps with a ledger -/

/-- Every heap has a ledger: its clients hold the blocks in use. -/
theorem HeapInv.session (hinv : HeapInv heap bs) :
    SessionInv ⟨heap, (bs.filter Block.used).map fun b => (payloadPtr b, BitVec.ofNat 32 b.len)⟩
      bs := by
  have hlen : ∀ b ∈ bs, (BitVec.ofNat 32 b.len).toNat ≤ b.len := fun b _ => by
    rw [BitVec.toNat_ofNat]
    exact Nat.mod_le _ _
  have hnd := hinv.layout.ordered.nodup_addr (by omega)
  refine ⟨hinv, ?_, ?_, ?_⟩
  · rw [List.map_map]
    refine List.Nodup.map_on ?_ (List.Nodup.filter _ (List.Nodup.of_map _ hnd))
    intro b hb c hc heq
    rw [List.mem_filter] at hb hc
    exact hinv.layout.eq_of_payloadPtr_eq hb.1 hb.2 hc.1 hc.2 heq
  · intro e he
    obtain ⟨b, hb, rfl⟩ := List.mem_map.mp he
    rw [List.mem_filter] at hb
    exact ⟨b, hb.1, hb.2, rfl, hlen b hb.1⟩
  · intro b hb hu
    exact ⟨_, List.mem_map.mpr ⟨b, List.mem_filter.mpr ⟨hb, hu⟩, rfl⟩⟩

theorem HeapInv.roomy (hinv : HeapInv heap bs) (hb : b ∈ bs) (hfit : b.Fits size) :
    ∃ live, Roomy 0 (2 ^ 32) heap live size :=
  ⟨_, bs, hinv.session, fun c hc => ⟨Nat.zero_le _, (hinv.layout.within c hc).2⟩, b, hb, hfit⟩

/-- The heap that `malloc_init` leaves when the entry of `KERNEL_END` is the only usable one. -/
def oneChunk (mem : Mem) (chunk len : Word) : Heap where
  mem := setChunkLen (setAllocated (setPreviousChunk (setNextChunk mem chunk 0) chunk 0)
    chunk false) chunk len
  initialized := true
  startChunk := chunk
  len := len

theorem oneChunk_frame (hx : ¬ InRange ptr 16 x) : (oneChunk m ptr len).mem x = m x := by
  simp only [oneChunk]
  rw [setChunkLen_frame hx, setAllocated_frame hx, setPreviousChunk_frame hx, setNextChunk_frame hx]

theorem heapInv_oneChunk (hpos : 0 < ptr.toNat) (hstop : ptr.toNat + 16 + len.toNat ≤ 2 ^ 32) :
    HeapInv (oneChunk m ptr len) [⟨ptr.toNat, len.toNat, false⟩] := by
  refine ⟨rfl, by simp [headPtr, chunkPtr, oneChunk], ⟨?_, trivial⟩, by simp [Ordered], ?_, by simp⟩
  · simp [headPtr, chunkPtr, oneChunk]
  · simp only [List.mem_singleton, forall_eq, Block.stop]
    omega

theorem roomy_oneChunk (hpos : 0 < ptr.toNat) (hstop : ptr.toNat + 16 + len.toNat ≤ 2 ^ 32) :
    Roomy ptr.toNat (ptr.toNat + 16 + len.toNat) (oneChunk m ptr len) [] len.toNat := by
  have hinv : HeapInv (oneChunk m ptr len) _ := heapInv_oneChunk hpos hstop
  refine ⟨_, .start hinv (by simp), by simp [Block.stop], ?_⟩
  exact ⟨_, List.mem_singleton_self _, rfl, le_rfl⟩

end

end Hjortron
