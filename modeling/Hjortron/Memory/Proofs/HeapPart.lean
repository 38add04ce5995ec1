import Hjortron.Memory.Proofs.HeapClient
import Hjortron.Memory.Proofs.Ledger
import Hjortron.Misc.FileStore

/-!
# Clients that hold part of the heap

Next to the blocks of its clients the heap holds those of drivers. A step of the clients is a step
of the store of their arrays all the same, and the other blocks keep their bytes.
-/

namespace Hjortron

open BlockList

section

variable {lo hi : Nat} {s t u : HeapSession} {bs bs' : List Block} {c : HeapCall}
  {L : List (Word × Word)} {p n : Word} {e : StoreEvent Word Byte}

/-! ## Clients -/

/-- The chunks stay where they are allowed to lie. -/
theorem BlockStep.within (hl : Layout bs) (hstep : BlockStep bs c bs')
    (hw : ∀ b ∈ bs, lo ≤ b.addr ∧ b.stop 16 ≤ hi) : ∀ b ∈ bs', lo ≤ b.addr ∧ b.stop 16 ≤ hi := by
  cases hstep with
  | malloc _ ha => exact allocate_within ha hw
  | reallocKeep => exact hw
  | @reallocMove b len bs' a hb hu hlt ha =>
    obtain ⟨x, hx, hxu, -, -, -, hused⟩ := served_mem hl ha
    have hb' : b ∈ bs' := ((hused b).mpr (.inl ⟨hb, hu⟩)).1
    exact release_within (by omega) (hl.allocate (by omega) ha).ordered hb' (allocate_within ha hw)
  | free hb hu => exact release_within (by omega) hl.ordered hb hw

/-- The pointers that clients hold. -/
def HeapSession.holds (s : HeapSession) (ptr : Word) : Bool := (s.live.lookup ptr).isSome

theorem holds_eq_true_iff : s.holds p = true ↔ s.Holds p := by
  unfold HeapSession.holds HeapSession.Holds
  constructor
  · intro h
    rcases Option.isSome_iff_exists.mp h with ⟨len, hlen⟩
    rcases List.lookup_eq_some_iff.mp hlen with ⟨pre, post, hlive, -⟩
    exact ⟨len, by simp [hlive]⟩
  · rintro ⟨len, hlen⟩
    by_contra hnone
    rw [Option.not_isSome_iff_eq_none, List.lookup_eq_none_iff] at hnone
    simpa using hnone _ hlen

/-- The arrays of some clients are part of those of all. -/
theorem arrays_restrict (hheap : s.heap = u.heap) (hsub : s.live ⊆ u.live)
    (hnd : (u.live.map Prod.fst).Nodup) : s.arrays = u.arrays.restrict s.holds := by
  funext p
  by_cases hp : s.holds p = true
  · rw [ArrayStore.restrict_of_mem hp]
    rcases Option.isSome_iff_exists.mp hp with ⟨len, hlen⟩
    rcases List.lookup_eq_some_iff.mp hlen with ⟨pre, post, hlive, -⟩
    have hmem : (p, len) ∈ s.live := by simp [hlive]
    have hall := (lookup_eq_some_iff_mem hnd).mpr (hsub hmem)
    unfold HeapSession.arrays
    rw [hlen, hall, hheap]
  · rw [ArrayStore.restrict, if_neg hp]
    exact arrays_eq_none fun h => hp (holds_eq_true_iff.mpr h)

/-- A step of clients, when all live pointers are `L`. -/
theorem ClientStep.extend (hsub : s.live ⊆ L) (hstep : ClientStep s e t) :
    ∃ L', ClientStep ⟨s.heap, L⟩ e ⟨t.heap, L'⟩ ∧ t.live ⊆ L' ∧ e.Uses s.holds ∧
      t.holds = e.keep s.holds := by
  have hforget (ptr : Word) : s.forget ptr ⊆ HeapSession.forget ⟨s.heap, L⟩ ptr := by
    intro d hd
    rw [mem_forget] at hd ⊢
    exact ⟨hsub hd.1, hd.2⟩
  have hholds {ptr : Word} (h : s.Holds ptr) : HeapSession.Holds ⟨s.heap, L⟩ ptr :=
    h.imp fun _ hlen => hsub hlen
  have hkeep (live : List (Word × Word)) (q k : Word) (x : Word) :
      (List.lookup x ((q, k) :: live)).isSome =
        if x = q then true else (live.lookup x).isSome := by
    rw [List.lookup_cons]
    by_cases hx : x = q
    · simp [hx]
    · have hne : (x == q) = false := by simpa using hx
      rw [hne, if_neg hx]
  cases hstep with
  | @malloc len ptr heap hm =>
    refine ⟨_, .malloc hm, List.cons_subset_cons _ hsub, trivial, ?_⟩
    funext x
    simp only [HeapSession.holds, hkeep, StoreEvent.keep, Function.update_apply]
  | @realloc ptr len next heap hp hr =>
    refine ⟨_, .realloc (hholds hp) hr, List.cons_subset_cons _ (hforget ptr),
      holds_eq_true_iff.mpr hp, ?_⟩
    funext x
    simp only [HeapSession.holds, hkeep, StoreEvent.keep, Function.update_apply, lookup_forget]
    split_ifs <;> rfl
  | @free ptr heap hp hf =>
    refine ⟨_, .free (hholds hp) hf, hforget ptr, holds_eq_true_iff.mpr hp, ?_⟩
    funext x
    simp only [HeapSession.holds, StoreEvent.keep, Function.update_apply, lookup_forget]
    split_ifs <;> rfl
  | @store ptr len i c hp hi =>
    exact ⟨L, .store (hsub hp) hi, hsub, holds_eq_true_iff.mpr ⟨len, hp⟩, rfl⟩
  | @load ptr len i hp hi =>
    exact ⟨L, .load (hsub hp) hi, hsub, holds_eq_true_iff.mpr ⟨len, hp⟩, rfl⟩

/-- The block list follows every step of a client. -/
theorem ClientStep.ledger (hL : Ledger lo hi s.heap s.live) (hstep : ClientStep s e t) :
    Ledger lo hi t.heap t.live := by
  obtain ⟨bs, hs, hw⟩ := hL
  have hcalled {c : HeapCall} (hcall : HeapStep s c t) : Ledger lo hi t.heap t.live := by
    rcases hcall.simulated hs with ⟨bs', hblock, ht⟩
    exact ⟨bs', ht, hblock.within hs.heap.layout hw⟩
  cases hstep with
  | @malloc len ptr heap hm =>
    apply hcalled (c := .malloc len)
    refine ⟨trivial, ?_⟩
    simp only [HeapSession.call, hm, bind, Except.bind, pure, Except.pure]
  | @realloc ptr len next heap hp hr =>
    apply hcalled (c := .realloc ptr len)
    refine ⟨hp, ?_⟩
    simp only [HeapSession.call, hr, bind, Except.bind, pure, Except.pure]
  | @free ptr heap hp hf =>
    apply hcalled (c := .free ptr)
    refine ⟨hp, ?_⟩
    simp only [HeapSession.call, hf, bind, Except.bind, pure, Except.pure]
  | store hp hi => exact ⟨bs, (hs.client_store hp hi _).2, hw⟩
  | load hp hi => exact ⟨bs, hs, hw⟩

/-- After `malloc_init` no block is live, and all chunks lie behind `KERNEL_END`. -/
theorem SaneMap.ledger {kernelEnd : Word} {mmap : List MemoryMapEntry}
    (hmap : SaneMap kernelEnd mmap) (mem : Mem) :
    ∃ heap, mallocInit kernelEnd mmap (Heap.boot mem) = .ok heap ∧
      Ledger kernelEnd.toNat (2 ^ 32) heap [] := by
  rcases hmap.sessionInv mem with ⟨heap, hinit, hs⟩
  rcases hmap.usable with ⟨entry, entries, hu, -, -⟩
  rw [hu] at hs
  refine ⟨heap, hinit, _, hs, fun b hb => ⟨?_, (hs.heap.layout.within b hb).2⟩⟩
  have hordered := hs.heap.layout.ordered
  rw [initialBlocks] at hb hordered
  rcases List.mem_cons.mp hb with rfl | hb
  · exact le_rfl
  · have hafter := (List.pairwise_cons.mp hordered).1 b hb
    exact (Nat.le_add_right_of_le (Nat.le_add_right _ _)).trans hafter

/-- The block list follows a run of clients. -/
theorem ClientStep.run_ledger {es : List (StoreEvent Word Byte)} (hL : Ledger lo hi s.heap s.live)
    (hrun : Run ClientStep s es t) : Ledger lo hi t.heap t.live :=
  hrun.invariant (I := fun s => Ledger lo hi s.heap s.live) (fun _ _ _ hs h => h.ledger hs) hL

/-- A step of clients that hold part of the blocks is a step of their store, and the other blocks
stay with their bytes. -/
theorem ClientStep.part (hL : Ledger lo hi s.heap L) (hsub : s.live ⊆ L)
    (hstep : ClientStep s e t) :
    ∃ L', Ledger lo hi t.heap L' ∧ t.live ⊆ L' ∧ ArrayStore.Step s.arrays e t.arrays ∧
      ∀ p n, (p, n) ∈ L → ¬ s.Holds p → (p, n) ∈ L' ∧ ¬ t.Holds p ∧
        bytesAt t.heap.mem p n.toNat = bytesAt s.heap.mem p n.toNat := by
  rcases hstep.extend hsub with ⟨L', hall, hsub', huse, hkeep⟩
  have hL' : Ledger lo hi t.heap L' := hall.ledger hL
  rcases hL with ⟨bs, hs, -⟩
  have hstore := (hall.simulated hs).1
  have hpart : s.arrays = ArrayStore.restrict _ s.holds :=
    arrays_restrict (u := ⟨s.heap, L⟩) rfl hsub hs.nodup
  have hpart' : t.arrays = ArrayStore.restrict _ t.holds :=
    arrays_restrict (u := ⟨t.heap, L'⟩) rfl hsub' hL'.nodup
  refine ⟨L', hL', hsub', ?_, ?_⟩
  · rw [hpart, hpart', hkeep]
    exact hstore.restrict huse
  · intro p n hp hnot
    have harray : HeapSession.arrays ⟨s.heap, L⟩ p = some (bytesAt s.heap.mem p n.toNat) :=
      hs.arrays_eq hp
    have hfalse : s.holds p = false := by
      rw [← Bool.not_eq_true, holds_eq_true_iff]
      exact hnot
    have hother := hstore.other huse hfalse (by rw [harray]; exact Option.some_ne_none _)
    rw [harray] at hother
    -- the block is live with the same size
    rcases hL' with ⟨bs', hs', -⟩
    have hlive : HeapSession.Holds ⟨t.heap, L'⟩ p := by
      by_contra hnone
      rw [arrays_eq_none hnone] at hother
      cases hother.1
    rcases hlive with ⟨k, hk⟩
    rw [hs'.arrays_eq hk] at hother
    have hbytes := Option.some.inj hother.1
    have hlen : k.toNat = n.toNat := by
      have hlength := congrArg List.length hbytes
      rwa [length_bytesAt, length_bytesAt] at hlength
    obtain rfl : k = n := BitVec.eq_of_toNat_eq hlen
    refine ⟨hk, ?_, hbytes⟩
    rw [← holds_eq_true_iff, hkeep, hother.2]
    exact Bool.false_ne_true

end

end Hjortron
