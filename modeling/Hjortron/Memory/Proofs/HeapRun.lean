import Hjortron.Memory.Proofs.ReallocSpec
import Hjortron.Misc.Run

/-!
# Sequences of heap calls

A session is the heap together with the pointers its clients hold and the size last requested
for each. Calls are made on live pointers. `HeapStep.simulated` relates every successful call
to a step of the block list of `Hjortron.Misc.BlockList`; the invariants of whole sequences
are proved on block lists and carried over by it.
-/

namespace Hjortron

open BlockList

/-- The calls a client makes. -/
inductive HeapCall
  | malloc (len : Word)
  | realloc (ptr len : Word)
  | free (ptr : Word)
  deriving DecidableEq, Repr

/-- The heap, and the live pointers with the last size requested for each. -/
structure HeapSession where
  heap : Heap
  live : List (Word × Word)

/-- The session after `malloc_init`. -/
def HeapSession.start (heap : Heap) : HeapSession := ⟨heap, []⟩

/-- `ptr` is held by a client. -/
def HeapSession.Holds (s : HeapSession) (ptr : Word) : Prop := ∃ len, (ptr, len) ∈ s.live

/-- The live pointers without `ptr`. -/
def HeapSession.forget (s : HeapSession) (ptr : Word) : List (Word × Word) :=
  s.live.filter fun e => e.1 != ptr

/-- One call and the bookkeeping of its client. -/
def HeapSession.call (s : HeapSession) : HeapCall → Except Halt HeapSession
  | .malloc len => do
    let (ptr, heap) ← malloc s.heap len
    return ⟨heap, (ptr, len) :: s.live⟩
  | .realloc ptr len => do
    let (nextPtr, heap) ← realloc s.heap ptr len
    return ⟨heap, (nextPtr, len) :: s.forget ptr⟩
  | .free ptr => do
    let heap ← free s.heap ptr
    return ⟨heap, s.forget ptr⟩

/-- `realloc` and `free` are called on live pointers. -/
def HeapSession.Allows (s : HeapSession) : HeapCall → Prop
  | .malloc _ => True
  | .realloc ptr _ => s.Holds ptr
  | .free ptr => s.Holds ptr

/-- A successful call on live pointers. -/
def HeapStep (s : HeapSession) (c : HeapCall) (t : HeapSession) : Prop :=
  s.Allows c ∧ s.call c = .ok t

/-- What a call does to the list of blocks. -/
inductive BlockStep (bs : List Block) : HeapCall → List Block → Prop
  | malloc {len : Word} {bs' : List Block} {a : Nat} : 1 ≤ len.toNat →
      allocate 16 len.toNat bs = some (bs', a) → BlockStep bs (.malloc len) bs'
  | reallocKeep {b : Block} {len : Word} : b ∈ bs → b.used = true → 1 ≤ len.toNat →
      len.toNat ≤ b.len → BlockStep bs (.realloc (payloadPtr b) len) bs
  | reallocMove {b : Block} {len : Word} {bs' : List Block} {a : Nat} : b ∈ bs → b.used = true →
      b.len < len.toNat → allocate 16 len.toNat bs = some (bs', a) →
      BlockStep bs (.realloc (payloadPtr b) len) (release 16 b.addr bs')
  | free {b : Block} : b ∈ bs → b.used = true →
      BlockStep bs (.free (payloadPtr b)) (release 16 b.addr bs)

/-- The session's heap is the block list `bs`, its live pointers are the payloads of the blocks
in use, and each of these is as long as was requested. -/
structure SessionInv (s : HeapSession) (bs : List Block) : Prop where
  heap : HeapInv s.heap bs
  nodup : (s.live.map Prod.fst).Nodup
  sound : ∀ e ∈ s.live, ∃ b ∈ bs, b.used = true ∧ e.1 = payloadPtr b ∧ e.2.toNat ≤ b.len
  complete : ∀ b ∈ bs, b.used = true → s.Holds (payloadPtr b)

section

variable {s t : HeapSession} {c : HeapCall} {bs bs' : List Block} {b : Block} {ptr len : Word}
  {heap : Heap} {a : Nat}

theorem SessionInv.start (hinv : HeapInv heap bs) (hfree : ∀ b ∈ bs, b.used = false) :
    SessionInv (.start heap) bs := by
  refine ⟨hinv, by simp [HeapSession.start], by simp [HeapSession.start], ?_⟩
  intro b hb hu
  simp [hfree b hb] at hu

/-- Live pointers are the payload pointers of the blocks in use. -/
theorem SessionInv.holds_iff (hs : SessionInv s bs) : s.Holds ptr ↔ IsLive bs ptr := by
  constructor
  · rintro ⟨len, hmem⟩
    obtain ⟨b, hb, hu, hptr, -⟩ := hs.sound _ hmem
    exact ⟨b, hb, hu, hptr⟩
  · rintro ⟨b, hb, hu, rfl⟩
    exact hs.complete b hb hu

theorem mem_forget {e : Word × Word} : e ∈ s.forget ptr ↔ e ∈ s.live ∧ e.1 ≠ ptr := by
  simp [HeapSession.forget]

theorem nodup_forget (hnd : (s.live.map Prod.fst).Nodup) :
    ((s.forget ptr).map Prod.fst).Nodup :=
  hnd.sublist (List.Sublist.map _ List.filter_sublist)

/-- The session invariant after a block `x` has been handed out for `len` bytes. -/
theorem SessionInv.add {live : List (Word × Word)} {x : Block} (hheap : HeapInv heap bs')
    (hnd : (live.map Prod.fst).Nodup)
    (hsound : ∀ e ∈ live, ∃ b ∈ bs', b.used = true ∧ b ≠ x ∧ e.1 = payloadPtr b ∧ e.2.toNat ≤ b.len)
    (hcomplete : ∀ b ∈ bs', b.used = true → b ≠ x → ∃ k, (payloadPtr b, k) ∈ live)
    (hx : x ∈ bs') (hxu : x.used = true) (hlen : len.toNat ≤ x.len) :
    SessionInv ⟨heap, (payloadPtr x, len) :: live⟩ bs' := by
  refine ⟨hheap, ?_, ?_, ?_⟩
  · refine List.nodup_cons.mpr ⟨?_, hnd⟩
    rw [List.mem_map]
    rintro ⟨e, he, hptr⟩
    obtain ⟨b, hb, hbu, hne, hbe, -⟩ := hsound e he
    exact hne (hheap.layout.eq_of_payloadPtr_eq hb hbu hx hxu (hbe.symm.trans hptr))
  · intro e he
    rcases List.mem_cons.mp he with rfl | he
    · exact ⟨x, hx, hxu, rfl, hlen⟩
    · obtain ⟨b, hb, hbu, -, hbe, hk⟩ := hsound e he
      exact ⟨b, hb, hbu, hbe, hk⟩
  · intro b hb hbu
    by_cases hbx : b = x
    · exact ⟨len, by simp [hbx]⟩
    · obtain ⟨k, hk⟩ := hcomplete b hb hbu hbx
      exact ⟨k, by simp [hk]⟩

/-- Forgetting a pointer leaves exactly the entries of the other blocks. -/
theorem SessionInv.forget_spec (hs : SessionInv s bs) (hb : b ∈ bs) (hu : b.used = true) :
    (∀ e ∈ s.forget (payloadPtr b), ∃ x ∈ bs, x.used = true ∧ x ≠ b ∧ e.1 = payloadPtr x ∧
      e.2.toNat ≤ x.len) ∧
    ∀ x ∈ bs, x.used = true → x ≠ b → ∃ k, (payloadPtr x, k) ∈ s.forget (payloadPtr b) := by
  constructor
  · intro e he
    obtain ⟨he, hne⟩ := mem_forget.mp he
    obtain ⟨x, hx, hxu, hptr, hk⟩ := hs.sound e he
    refine ⟨x, hx, hxu, ?_, hptr, hk⟩
    rintro rfl
    exact hne hptr
  · intro x hx hxu hne
    obtain ⟨k, hk⟩ := hs.complete x hx hxu
    refine ⟨k, mem_forget.mpr ⟨hk, fun heq => hne ?_⟩⟩
    exact hs.heap.layout.eq_of_payloadPtr_eq hx hxu hb hu heq

/-! ## One call -/

theorem SessionInv.malloc_call (hs : SessionInv s bs) (hlen : 1 ≤ len.toNat)
    (ha : allocate 16 len.toNat bs = some (bs', a)) :
    ∃ t, s.call (.malloc len) = .ok t ∧ SessionInv t bs' := by
  have hne : len ≠ 0 := by
    rintro rfl
    simp at hlen
  obtain ⟨mem, hmalloc, hc, -⟩ := malloc_of_allocate hs.heap.chunks hs.heap.initialized hne ha
  obtain ⟨x, hx, hxu, rfl, hxl, hfresh, hused⟩ := served_mem hs.heap.layout ha
  refine ⟨⟨{ s.heap with mem }, (payloadPtr x, len) :: s.live⟩, ?_, ?_⟩
  · simp only [HeapSession.call, hmalloc, bind, Except.bind, pure, Except.pure]
    rfl
  · refine SessionInv.add ⟨hs.heap.initialized, hc⟩ hs.nodup ?_ ?_ hx hxu hxl
    · intro e he
      obtain ⟨b, hb, hbu, hptr, hk⟩ := hs.sound e he
      exact ⟨b, ((hused b).mpr (Or.inl ⟨hb, hbu⟩)).1, hbu, fun h => hfresh (h ▸ hb), hptr, hk⟩
    · intro b hb hbu hne
      rcases (hused b).mp ⟨hb, hbu⟩ with ⟨hb, -⟩ | hbx
      · exact hs.complete b hb hbu
      · exact absurd hbx hne

theorem SessionInv.free_call (hs : SessionInv s bs) (hb : b ∈ bs) (hu : b.used = true) :
    ∃ t, s.call (.free (payloadPtr b)) = .ok t ∧ SessionInv t (release 16 b.addr bs) := by
  obtain ⟨mem, hfree, hc, -⟩ := free_of_mem s.heap hs.heap.chunks hs.heap.initialized hb hu
  have hused := mem_release_used (by omega) hs.heap.layout.ordered hb
  obtain ⟨hsound, hcomplete⟩ := hs.forget_spec hb hu
  refine ⟨⟨{ s.heap with mem }, s.forget (payloadPtr b)⟩, ?_, ⟨hs.heap.initialized, hc⟩,
    nodup_forget hs.nodup, ?_, ?_⟩
  · simp only [HeapSession.call, hfree, bind, Except.bind, pure, Except.pure]
  · intro e he
    obtain ⟨x, hx, hxu, hne, hptr, hk⟩ := hsound e he
    exact ⟨x, ((hused x).mpr ⟨hx, hxu, hne⟩).1, hxu, hptr, hk⟩
  · intro x hx hxu
    obtain ⟨hx, -, hne⟩ := (hused x).mp ⟨hx, hxu⟩
    exact hcomplete x hx hxu hne

theorem SessionInv.realloc_call_keep (hs : SessionInv s bs) (hb : b ∈ bs) (hu : b.used = true)
    (hlen : 1 ≤ len.toNat) (hle : len.toNat ≤ b.len) :
    ∃ t, s.call (.realloc (payloadPtr b) len) = .ok t ∧ SessionInv t bs := by
  have hne : len ≠ 0 := by
    rintro rfl
    simp at hlen
  obtain ⟨hsound, hcomplete⟩ := hs.forget_spec hb hu
  refine ⟨⟨s.heap, (payloadPtr b, len) :: s.forget (payloadPtr b)⟩, ?_, ?_⟩
  · simp only [HeapSession.call, realloc_of_le hs.heap hb hu hne hle, bind, Except.bind, pure,
      Except.pure]
  · exact SessionInv.add hs.heap (nodup_forget hs.nodup) hsound hcomplete hb hu hle

theorem SessionInv.realloc_call_move (hs : SessionInv s bs) (hb : b ∈ bs) (hu : b.used = true)
    (hlt : b.len < len.toNat) (ha : allocate 16 len.toNat bs = some (bs', a)) :
    ∃ t, s.call (.realloc (payloadPtr b) len) = .ok t ∧
      SessionInv t (release 16 b.addr bs') := by
  obtain ⟨mem, hrealloc, hc, -⟩ := realloc_of_allocate hs.heap hb hu hlt ha
  obtain ⟨x, hx, hxu, rfl, hxl, hfresh, hused⟩ := served_mem hs.heap.layout ha
  have hb' : b ∈ bs' := ((hused b).mpr (Or.inl ⟨hb, hu⟩)).1
  have hlayout := hs.heap.layout.allocate (by omega) ha
  have hrest := mem_release_used (by omega) hlayout.ordered hb'
  have hxb : x ≠ b := fun heq => hfresh (heq ▸ hb)
  obtain ⟨hsound, hcomplete⟩ := hs.forget_spec hb hu
  refine ⟨⟨{ s.heap with mem }, (payloadPtr x, len) :: s.forget (payloadPtr b)⟩, ?_, ?_⟩
  · simp only [HeapSession.call, hrealloc, bind, Except.bind, pure, Except.pure]
    rfl
  · refine SessionInv.add ⟨hs.heap.initialized, hc⟩ (nodup_forget hs.nodup) ?_ ?_
      ((hrest x).mpr ⟨hx, hxu, hxb⟩).1 hxu hxl
    · intro e he
      obtain ⟨y, hy, hyu, hyb, hptr, hk⟩ := hsound e he
      have hy' := ((hused y).mpr (Or.inl ⟨hy, hyu⟩)).1
      exact ⟨y, ((hrest y).mpr ⟨hy', hyu, hyb⟩).1, hyu, fun h => hfresh (h ▸ hy), hptr, hk⟩
    · intro y hy hyu hyx
      obtain ⟨hy, -, hyb⟩ := (hrest y).mp ⟨hy, hyu⟩
      rcases (hused y).mp ⟨hy, hyu⟩ with ⟨hy, -⟩ | hyx'
      · exact hcomplete y hy hyu hyb
      · exact absurd hyx' hyx

/-- A step of the block list is a successful call. -/
theorem SessionInv.call_of_blockStep (hs : SessionInv s bs) (hstep : BlockStep bs c bs') :
    ∃ t, HeapStep s c t ∧ SessionInv t bs' := by
  cases hstep with
  | malloc hlen ha =>
    obtain ⟨t, ht, hinv⟩ := hs.malloc_call hlen ha
    exact ⟨t, ⟨trivial, ht⟩, hinv⟩
  | reallocKeep hb hu hlen hle =>
    obtain ⟨t, ht, hinv⟩ := hs.realloc_call_keep hb hu hlen hle
    exact ⟨t, ⟨hs.complete _ hb hu, ht⟩, hinv⟩
  | reallocMove hb hu hlt ha =>
    obtain ⟨t, ht, hinv⟩ := hs.realloc_call_move hb hu hlt ha
    exact ⟨t, ⟨hs.complete _ hb hu, ht⟩, hinv⟩
  | free hb hu =>
    obtain ⟨t, ht, hinv⟩ := hs.free_call hb hu
    exact ⟨t, ⟨hs.complete _ hb hu, ht⟩, hinv⟩

/-- A successful call is a step of the block list. -/
theorem SessionInv.blockStep_of_call (hs : SessionInv s bs) (hstep : HeapStep s c t) :
    ∃ bs', BlockStep bs c bs' := by
  obtain ⟨hallow, hcall⟩ := hstep
  cases c with
  | malloc len =>
    cases hm : malloc s.heap len with
    | error e => simp [HeapSession.call, hm, bind, Except.bind] at hcall
    | ok r =>
      obtain ⟨bs', a, -, hlen, ha, -⟩ := malloc_eq_ok hs.heap.chunks hs.heap.initialized hm
      exact ⟨bs', .malloc hlen ha⟩
  | realloc ptr len =>
    obtain ⟨b, hb, hu, rfl⟩ := hs.holds_iff.mp hallow
    have hlen : 1 ≤ len.toNat := by
      by_contra h0
      obtain rfl : len = 0 := by bv_omega
      simp only [HeapSession.call, realloc_zero hs.heap hb hu, bind, Except.bind, reduceCtorEq]
        at hcall
    by_cases hle : len.toNat ≤ b.len
    · exact ⟨bs, .reallocKeep hb hu hlen hle⟩
    · cases ha : allocate 16 len.toNat bs with
      | none =>
        have hfail := realloc_of_not_allocate hs.heap hb hu (Nat.lt_of_not_le hle) ha
        simp [HeapSession.call, hfail, bind, Except.bind] at hcall
      | some r => exact ⟨_, .reallocMove hb hu (Nat.lt_of_not_le hle) ha⟩
  | free ptr =>
    obtain ⟨b, hb, hu, rfl⟩ := hs.holds_iff.mp hallow
    exact ⟨_, .free hb hu⟩

/-- Every call of a session is matched by a step of its block list. -/
theorem HeapStep.simulated (hs : SessionInv s bs) (hstep : HeapStep s c t) :
    ∃ bs', BlockStep bs c bs' ∧ SessionInv t bs' := by
  obtain ⟨bs', hblock⟩ := hs.blockStep_of_call hstep
  obtain ⟨t', ⟨-, ht'⟩, hinv⟩ := hs.call_of_blockStep hblock
  have heq : t' = t := Except.ok.inj (ht'.symm.trans hstep.2)
  exact ⟨bs', hblock, heq ▸ hinv⟩

/-- The invariant rule for sequences of calls: `I` is kept by the block list steps whose calls
meet `P`. -/
theorem heapRun_invariant {P : HeapSession → HeapCall → Prop} {I : List Block → Prop}
    {cs : List HeapCall}
    (hstep : ∀ s bs c bs', SessionInv s bs → P s c → I bs → BlockStep bs c bs' → I bs')
    (hrun : Run (fun s c t => HeapStep s c t ∧ P s c) s cs t) (hs : SessionInv s bs) (hI : I bs) :
    ∃ bs', SessionInv t bs' ∧ I bs' := by
  refine hrun.invariant (I := fun s => ∃ bs, SessionInv s bs ∧ I bs) ?_ ⟨bs, hs, hI⟩
  rintro s c t ⟨bs, hs, hI⟩ ⟨hcall, hP⟩
  obtain ⟨bs', hblock, ht⟩ := hcall.simulated hs
  exact ⟨bs', ht, hstep s bs c bs' hs hP hI hblock⟩

/-- The rule for a property that every block list step keeps. -/
theorem heapRun_keeps {I : List Block → Prop} {cs : List HeapCall}
    (hstep : ∀ bs c bs', I bs → BlockStep bs c bs' → I bs') (hrun : Run HeapStep s cs t)
    (hs : SessionInv s bs) (hI : I bs) : ∃ bs', SessionInv t bs' ∧ I bs' := by
  have hrun' : Run (fun s c t => HeapStep s c t ∧ True) s cs t :=
    hrun.mono fun _ _ _ hcall => ⟨hcall, trivial⟩
  exact heapRun_invariant (P := fun _ _ => True) (fun _ bs c bs' _ _ => hstep bs c bs') hrun' hs hI

end

end Hjortron
