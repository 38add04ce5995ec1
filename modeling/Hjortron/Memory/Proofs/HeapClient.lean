import Hjortron.Memory.Proofs.HeapSafety
import Hjortron.Misc.ArrayStore

/-!
# The heap as its clients see it

A client calls `malloc`, `realloc` and `free` on the pointers it holds, and writes and reads the
bytes of its blocks as far as it has asked for. `HeapSession.arrays` forgets headers, free chunks
and addresses: what is left is a store of byte arrays, one for each live pointer. Every step of a
client is a step of that store, so that headers and neighbours never show through.
-/

namespace Hjortron

open BlockList

/-- The `n` bytes from `a` on. -/
def bytesAt (m : Mem) (a : Word) (n : Nat) : List Byte :=
  (List.range n).map fun i => m (a + BitVec.ofNat 32 i)

/-- The blocks of the clients by their pointers, each as long as was asked for. -/
def HeapSession.arrays (s : HeapSession) : ArrayStore Word Byte := fun ptr =>
  (s.live.lookup ptr).map fun len => bytesAt s.heap.mem ptr len.toNat

/-- The session after a client has written byte `i` of its block. -/
def HeapSession.setByte (s : HeapSession) (ptr : Word) (i : Nat) (c : Byte) : HeapSession :=
  { s with heap := { s.heap with mem := s.heap.mem.store8 (ptr + BitVec.ofNat 32 i) c } }

/-- The steps of a client. -/
inductive ClientStep : HeapSession → StoreEvent Word Byte → HeapSession → Prop
  | malloc {s : HeapSession} {len ptr : Word} {heap : Heap} :
      malloc s.heap len = .ok (ptr, heap) →
      ClientStep s (.malloc len.toNat ptr) ⟨heap, (ptr, len) :: s.live⟩
  | realloc {s : HeapSession} {ptr len next : Word} {heap : Heap} : s.Holds ptr →
      realloc s.heap ptr len = .ok (next, heap) →
      ClientStep s (.realloc ptr len.toNat next) ⟨heap, (next, len) :: s.forget ptr⟩
  | free {s : HeapSession} {ptr : Word} {heap : Heap} : s.Holds ptr →
      free s.heap ptr = .ok heap → ClientStep s (.free ptr) ⟨heap, s.forget ptr⟩
  | store {s : HeapSession} {ptr len : Word} {i : Nat} {c : Byte} : (ptr, len) ∈ s.live →
      i < len.toNat → ClientStep s (.store ptr i c) (s.setByte ptr i c)
  | load {s : HeapSession} {ptr len : Word} {i : Nat} : (ptr, len) ∈ s.live → i < len.toNat →
      ClientStep s (.load ptr i (s.heap.mem (ptr + BitVec.ofNat 32 i))) s

section

variable {s t : HeapSession} {bs : List Block} {b : Block} {m m' : Mem} {a ptr q len k : Word}
  {n i : Nat} {heap : Heap} {live : List (Word × Word)} {e : StoreEvent Word Byte}

@[simp] theorem length_bytesAt : (bytesAt m a n).length = n := by simp [bytesAt]

theorem getElem?_bytesAt (hi : i < n) :
    (bytesAt m a n)[i]? = some (m (a + BitVec.ofNat 32 i)) := by
  simp [bytesAt, hi]

theorem bytesAt_congr (h : ∀ i < n, m (a + BitVec.ofNat 32 i) = m' (a + BitVec.ofNat 32 i)) :
    bytesAt m a n = bytesAt m' a n :=
  List.map_congr_left fun i hi => h i (List.mem_range.mp hi)

theorem bytesAt_store8 (hi : i < n) (hn : n ≤ 2 ^ 32) (c : Byte) :
    bytesAt (m.store8 (a + BitVec.ofNat 32 i) c) a n = (bytesAt m a n).set i c := by
  apply List.ext_getElem (by simp)
  intro j hj _
  rw [length_bytesAt] at hj
  simp only [bytesAt, List.getElem_map, List.getElem_range, List.getElem_set]
  by_cases hij : i = j
  · subst hij
    rw [Mem.store8_self, if_pos rfl]
  · rw [Mem.store8_of_ne (by bv_omega), if_neg hij]

/-! ## Live pointers -/

theorem lookup_eq_some_iff_mem (hnd : (live.map Prod.fst).Nodup) :
    live.lookup ptr = some len ↔ (ptr, len) ∈ live := by
  induction live with
  | nil => simp
  | cons d live ih =>
    obtain ⟨hd, hnd⟩ := List.nodup_cons.mp hnd
    rw [List.lookup_cons, List.mem_cons]
    by_cases hp : ptr = d.1
    · have hnot : (ptr, len) ∉ live := fun hin =>
        hd (hp ▸ List.mem_map_of_mem (f := Prod.fst) hin)
      have heq : (ptr == d.1) = true := by simpa using hp
      rw [heq, or_iff_left hnot, Prod.ext_iff]
      simp [hp, eq_comm]
    · have hne : (ptr == d.1) = false := by simpa using hp
      rw [hne, ih hnd]
      simp [Prod.ext_iff, hp]

theorem lookup_forget :
    (s.forget ptr).lookup q = if q = ptr then none else s.live.lookup q := by
  unfold HeapSession.forget
  induction s.live with
  | nil => simp
  | cons d live ih =>
    by_cases hd : d.1 = ptr
    · rw [List.filter_cons_of_neg (by simpa using hd), ih, List.lookup_cons]
      by_cases hq : q = ptr
      · rw [if_pos hq, if_pos hq]
      · have hne : (q == d.1) = false := by simpa [hd] using hq
        rw [if_neg hq, if_neg hq, hne]
    · rw [List.filter_cons_of_pos (by simpa using hd), List.lookup_cons, List.lookup_cons, ih]
      by_cases hq : q = d.1
      · simp [hq, hd]
      · have hne : (q == d.1) = false := by simpa using hq
        rw [hne]

theorem arrays_eq_none (h : ¬ s.Holds ptr) : s.arrays ptr = none := by
  have hnone : s.live.lookup ptr = none := by
    rw [List.lookup_eq_none_iff]
    intro d hd
    rw [bne_iff_ne]
    rintro rfl
    exact h ⟨d.2, hd⟩
  rw [HeapSession.arrays, hnone]
  rfl

theorem SessionInv.arrays_eq (hs : SessionInv s bs) (hp : (ptr, len) ∈ s.live) :
    s.arrays ptr = some (bytesAt s.heap.mem ptr len.toNat) := by
  rw [HeapSession.arrays, (lookup_eq_some_iff_mem hs.nodup).mpr hp]
  rfl

/-- The arrays of a session whose live pointers are those of `s` as far as `q` goes. -/
theorem arrays_congr (hlive : t.live.lookup q = s.live.lookup q)
    (hbytes : ∀ k, (q, k) ∈ s.live → ∀ i < k.toNat,
      t.heap.mem (q + BitVec.ofNat 32 i) = s.heap.mem (q + BitVec.ofNat 32 i)) :
    t.arrays q = s.arrays q := by
  rw [HeapSession.arrays, HeapSession.arrays, hlive]
  cases hk : s.live.lookup q with
  | none => rfl
  | some k =>
    obtain ⟨pre, post, hlive, -⟩ := List.lookup_eq_some_iff.mp hk
    have hmem : (q, k) ∈ s.live := by simp [hlive]
    exact congrArg some (bytesAt_congr (hbytes k hmem))

/-- The block of a live pointer. -/
theorem SessionInv.inPayload (hs : SessionInv s bs) (hp : (ptr, len) ∈ s.live)
    (hi : i < len.toNat) : ∃ b ∈ bs, b.used = true ∧ ptr = payloadPtr b ∧
      InPayload b (ptr + BitVec.ofNat 32 i) := by
  obtain ⟨b, hb, hu, hptr, hle⟩ := hs.sound _ hp
  refine ⟨b, hb, hu, hptr, ?_⟩
  have hlen := hs.heap.layout.len_lt hb
  change ptr = payloadPtr b at hptr
  change len.toNat ≤ b.len at hle
  rw [hptr]
  exact inPayload_add (by omega) (by omega)

/-! ## The steps of a client -/

theorem SessionInv.client_malloc (hs : SessionInv s bs)
    (hm : Hjortron.malloc s.heap len = .ok (ptr, heap)) :
    ArrayStore.Step s.arrays (.malloc len.toNat ptr)
        (HeapSession.arrays ⟨heap, (ptr, len) :: s.live⟩) ∧
      ∃ bs', SessionInv ⟨heap, (ptr, len) :: s.live⟩ bs' := by
  have hcall : s.call (.malloc len) = .ok ⟨heap, (ptr, len) :: s.live⟩ := by
    simp only [HeapSession.call, hm, bind, Except.bind, pure, Except.pure]
  obtain ⟨bs', -, ht⟩ := HeapStep.simulated (c := .malloc len) hs ⟨trivial, hcall⟩
  have hfresh : ¬ s.Holds ptr := by
    rintro ⟨k, hk⟩
    exact (List.nodup_cons.mp ht.nodup).1 (List.mem_map.mpr ⟨_, hk, rfl⟩)
  have harrays : HeapSession.arrays ⟨heap, (ptr, len) :: s.live⟩ =
      Function.update s.arrays ptr (some (bytesAt heap.mem ptr len.toNat)) := by
    funext q
    by_cases hq : q = ptr
    · subst hq
      rw [Function.update_self]
      exact ht.arrays_eq List.mem_cons_self
    · rw [Function.update_of_ne hq]
      apply arrays_congr
      · have hne : (q == ptr) = false := by simpa using hq
        rw [List.lookup_cons, hne]
      · intro k hk i hi
        obtain ⟨b, hb, hu, -, hin⟩ := hs.inPayload hk hi
        exact malloc_frame hs.heap hb hu hm _ hin
  refine ⟨?_, bs', ht⟩
  have hlength : (bytesAt heap.mem ptr len.toNat).length = len.toNat := length_bytesAt
  rw [harrays]
  nth_rewrite 1 [← hlength]
  exact .malloc (arrays_eq_none hfresh)

theorem SessionInv.client_free (hs : SessionInv s bs) (hp : s.Holds ptr)
    (hf : Hjortron.free s.heap ptr = .ok heap) :
    ArrayStore.Step s.arrays (.free ptr) (HeapSession.arrays ⟨heap, s.forget ptr⟩) ∧
      ∃ bs', SessionInv ⟨heap, s.forget ptr⟩ bs' := by
  have hcall : s.call (.free ptr) = .ok ⟨heap, s.forget ptr⟩ := by
    simp only [HeapSession.call, hf, bind, Except.bind, pure, Except.pure]
  obtain ⟨bs', -, ht⟩ := HeapStep.simulated (c := .free ptr) hs ⟨hp, hcall⟩
  have harrays : HeapSession.arrays ⟨heap, s.forget ptr⟩ = Function.update s.arrays ptr none := by
    funext q
    by_cases hq : q = ptr
    · subst hq
      rw [Function.update_self]
      apply arrays_eq_none
      rintro ⟨k, hk⟩
      exact (mem_forget.mp hk).2 rfl
    · rw [Function.update_of_ne hq]
      apply arrays_congr
      · rw [lookup_forget, if_neg hq]
      · intro k hk i hi
        obtain ⟨b, hb, -, -, hin⟩ := hs.inPayload hk hi
        obtain ⟨c, hc, hcu, rfl⟩ := hs.holds_iff.mp hp
        obtain ⟨heap', hf', hframe⟩ := free_frame hs.heap hb hc hcu
        obtain rfl := Except.ok.inj (hf.symm.trans hf')
        exact hframe _ hin
  obtain ⟨k, hk⟩ := hp
  refine ⟨?_, bs', ht⟩
  rw [harrays]
  exact .free (hs.arrays_eq hk)

theorem SessionInv.client_realloc (hs : SessionInv s bs) (hp : s.Holds ptr)
    (hr : Hjortron.realloc s.heap ptr len = .ok (q, heap)) :
    ArrayStore.Step s.arrays (.realloc ptr len.toNat q)
        (HeapSession.arrays ⟨heap, (q, len) :: s.forget ptr⟩) ∧
      ∃ bs', SessionInv ⟨heap, (q, len) :: s.forget ptr⟩ bs' := by
  have hcall : s.call (.realloc ptr len) = .ok ⟨heap, (q, len) :: s.forget ptr⟩ := by
    simp only [HeapSession.call, hr, bind, Except.bind, pure, Except.pure]
  obtain ⟨bs', -, ht⟩ := HeapStep.simulated (c := .realloc ptr len) hs ⟨hp, hcall⟩
  obtain ⟨n, hn⟩ := hp
  obtain ⟨b, hb, hu, hptr, hbn⟩ := hs.sound _ hn
  change ptr = payloadPtr b at hptr
  change n.toNat ≤ b.len at hbn
  subst hptr
  obtain ⟨⟨bs₁, hspec⟩, hframe⟩ := realloc_eq_ok hs.heap hb hu hr
  -- a pointer that stays live is not the new one
  have hnew : ∀ x k, (x, k) ∈ s.live → x ≠ payloadPtr b → x ≠ q := by
    rintro x k hx hne rfl
    exact (List.nodup_cons.mp ht.nodup).1
      (List.mem_map.mpr ⟨_, mem_forget.mpr ⟨hx, hne⟩, rfl⟩)
  have harrays : HeapSession.arrays ⟨heap, (q, len) :: s.forget (payloadPtr b)⟩ =
      Function.update (Function.update s.arrays (payloadPtr b) none) q
        (some (bytesAt heap.mem q len.toNat)) := by
    funext x
    by_cases hx : x = q
    · subst hx
      rw [Function.update_self]
      exact ht.arrays_eq List.mem_cons_self
    · rw [Function.update_of_ne hx]
      have hne : (x == q) = false := by simpa using hx
      by_cases hxb : x = payloadPtr b
      · subst hxb
        rw [Function.update_self, HeapSession.arrays, List.lookup_cons, hne, lookup_forget,
          if_pos rfl]
        rfl
      · rw [Function.update_of_ne hxb]
        apply arrays_congr
        · rw [List.lookup_cons, hne, lookup_forget, if_neg hxb]
        · intro k hk i hi
          obtain ⟨c, hc, hcu, rfl, hin⟩ := hs.inPayload hk hi
          exact hframe c hc hcu (fun hcb => hxb (congrArg payloadPtr hcb)) _ hin
  refine ⟨?_, bs', ht⟩
  have hfresh : q = payloadPtr b ∨ s.arrays q = none := by
    by_cases hq : q = payloadPtr b
    · exact Or.inl hq
    · refine Or.inr (arrays_eq_none ?_)
      rintro ⟨k, hk⟩
      exact hnew q k hk hq rfl
  have hlength : (bytesAt heap.mem q len.toNat).length = len.toNat := length_bytesAt
  rw [harrays]
  nth_rewrite 1 [← hlength]
  apply ArrayStore.Step.realloc (hs.arrays_eq hn) hfresh
  intro i hi hi'
  rw [length_bytesAt] at hi hi'
  rw [getElem?_bytesAt hi, getElem?_bytesAt hi', hspec.copied i (by omega)]

theorem SessionInv.client_store (hs : SessionInv s bs) (hp : (ptr, len) ∈ s.live)
    (hi : i < len.toNat) (c : Byte) :
    ArrayStore.Step s.arrays (.store ptr i c) (s.setByte ptr i c).arrays ∧
      SessionInv (s.setByte ptr i c) bs := by
  obtain ⟨b, hb, hu, hptr, hin⟩ := hs.inPayload hp hi
  have hinv : SessionInv (s.setByte ptr i c) bs := by
    refine ⟨⟨hs.heap.initialized, hs.heap.chunks.frame fun x hx => ?_⟩, hs.nodup, hs.sound,
      hs.complete⟩
    apply Mem.store8_of_ne
    rintro rfl
    exact hx (hs.heap.layout.outsideHeaders hb hin)
  refine ⟨?_, hinv⟩
  have harrays : (s.setByte ptr i c).arrays =
      Function.update s.arrays ptr (some ((bytesAt s.heap.mem ptr len.toNat).set i c)) := by
    funext q
    by_cases hq : q = ptr
    · subst hq
      rw [Function.update_self, hinv.arrays_eq hp]
      exact congrArg some (bytesAt_store8 hi (Nat.le_of_lt len.isLt) c)
    · rw [Function.update_of_ne hq]
      apply arrays_congr (s := s) (t := s.setByte ptr i c) rfl
      intro k hk j hj
      obtain ⟨d, hd, hdu, hdptr, hdin⟩ := hs.inPayload hk hj
      have hne : d ≠ b := by
        rintro rfl
        exact hq (hdptr.trans hptr.symm)
      apply Mem.store8_of_ne
      intro heq
      rw [heq] at hdin
      exact hs.heap.layout.not_inPayload hd hb hne hdin hin
  rw [harrays]
  exact .store (hs.arrays_eq hp) (by simpa using hi)

/-- A step of a client is a step of the store, and keeps the heap in order. -/
theorem ClientStep.simulated (hs : SessionInv s bs) (hstep : ClientStep s e t) :
    ArrayStore.Step s.arrays e t.arrays ∧ ∃ bs', SessionInv t bs' := by
  cases hstep with
  | malloc hm => exact hs.client_malloc hm
  | realloc hp hr => exact hs.client_realloc hp hr
  | free hp hf => exact hs.client_free hp hf
  | store hp hi =>
    obtain ⟨h, ht⟩ := hs.client_store hp hi _
    exact ⟨h, bs, ht⟩
  | load hp hi =>
    exact ⟨.load (hs.arrays_eq hp) (getElem?_bytesAt hi), bs, hs⟩

/-! ## Calls that succeed -/

section

variable {bs' : List Block} {d : Nat}

/-- A client gets the block that the list of blocks has for it. -/
theorem SessionInv.client_mallocs (hs : SessionInv s bs) (len : Word) (hlen : 1 ≤ len.toNat)
    (ha : allocate 16 len.toNat bs = some (bs', d)) :
    ∃ t, ClientStep s (.malloc len.toNat (BitVec.ofNat 32 (d + 16))) t ∧ SessionInv t bs' := by
  have hne : len ≠ 0 := by
    rintro rfl
    simp at hlen
  obtain ⟨mem, hmalloc, -⟩ := malloc_of_allocate hs.heap.chunks hs.heap.initialized hne ha
  obtain ⟨t, hcall, ht⟩ := hs.malloc_call hlen ha
  simp only [HeapSession.call, hmalloc, bind, Except.bind, pure, Except.pure, Except.ok.injEq]
    at hcall
  subst hcall
  exact ⟨_, .malloc hmalloc, ht⟩

/-- A store leaves the blocks as they are. -/
theorem SessionInv.client_stores {c : Byte} (hs : SessionInv s bs)
    (h : ClientStep s (.store ptr i c) t) : SessionInv t bs := by
  cases h with
  | store hp hi => exact (hs.client_store hp hi c).2

theorem SessionInv.client_frees (hs : SessionInv s bs) (hb : b ∈ bs) (hu : b.used = true) :
    ∃ t, ClientStep s (.free (payloadPtr b)) t ∧ SessionInv t (release 16 b.addr bs) := by
  obtain ⟨mem, hfree, -⟩ := free_of_mem s.heap hs.heap.chunks hs.heap.initialized hb hu
  obtain ⟨t, hcall, ht⟩ := hs.free_call hb hu
  simp only [HeapSession.call, hfree, bind, Except.bind, pure, Except.pure, Except.ok.injEq]
    at hcall
  subst hcall
  exact ⟨_, .free (hs.complete b hb hu) hfree, ht⟩

/-- A block that is too short moves. -/
theorem SessionInv.client_moves (hs : SessionInv s bs) (len : Word) (hb : b ∈ bs)
    (hu : b.used = true) (hlt : b.len < len.toNat)
    (ha : allocate 16 len.toNat bs = some (bs', d)) :
    ∃ t, ClientStep s (.realloc (payloadPtr b) len.toNat (BitVec.ofNat 32 (d + 16))) t ∧
      SessionInv t (release 16 b.addr bs') := by
  obtain ⟨mem, hrealloc, -⟩ := realloc_of_allocate hs.heap hb hu hlt ha
  obtain ⟨t, hcall, ht⟩ := hs.realloc_call_move hb hu hlt ha
  simp only [HeapSession.call, hrealloc, bind, Except.bind, pure, Except.pure, Except.ok.injEq]
    at hcall
  subst hcall
  exact ⟨_, .realloc (hs.complete b hb hu) hrealloc, ht⟩

end

/-! ## Whole programs -/

variable {kernelEnd : Word} {mmap : List MemoryMapEntry} {es : List (StoreEvent Word Byte)}

/-- The run of a client is a run of the store. -/
theorem ClientStep.run_simulated (hs : SessionInv s bs) (hrun : Run ClientStep s es t) :
    Run ArrayStore.Step s.arrays es t.arrays ∧ ∃ bs', SessionInv t bs' := by
  obtain ⟨_, hstore, rfl, hinv⟩ := hrun.simulation
    (R := fun s u => u = s.arrays ∧ ∃ bs, SessionInv s bs) (by
      rintro s e t _ ⟨rfl, bs, hs⟩ hstep
      obtain ⟨hstore, hinv⟩ := hstep.simulated hs
      exact ⟨t.arrays, hstore, rfl, hinv⟩) ⟨rfl, bs, hs⟩
  exact ⟨hstore, hinv⟩

/-- Every array can be freed, and its elements can be read and written. -/
theorem SessionInv.client_progress (hs : SessionInv s bs) {xs : List Byte}
    (hp : s.arrays ptr = some xs) : (∃ t, ClientStep s (.free ptr) t) ∧
      ∀ i, (h : i < xs.length) → ClientStep s (.load ptr i xs[i]) s ∧
        ∀ c, ∃ t, ClientStep s (.store ptr i c) t := by
  by_cases hhold : s.Holds ptr
  · obtain ⟨len, hlen⟩ := hhold
    obtain rfl := Option.some.inj ((hs.arrays_eq hlen).symm.trans hp)
    obtain ⟨b, hb, hu, hptr, -⟩ := hs.sound _ hlen
    obtain ⟨heap', hf, -⟩ := free_frame hs.heap hb hb hu
    rw [← show ptr = payloadPtr b from hptr] at hf
    refine ⟨⟨_, .free ⟨len, hlen⟩ hf⟩, fun i hi => ?_⟩
    have hi' : i < len.toNat := by simpa using hi
    refine ⟨?_, fun c => ⟨_, .store hlen hi'⟩⟩
    have hstep := ClientStep.load hlen hi'
    rwa [show (bytesAt s.heap.mem ptr len.toNat)[i] = s.heap.mem (ptr + BitVec.ofNat 32 i) by
      simp [bytesAt]]
  · rw [arrays_eq_none hhold] at hp
    cases hp

/-- **The heap is a store of arrays.** Whatever clients do with the blocks they hold, they see a
store of separate byte arrays: headers, splits and merges do not show. -/
theorem heap_client_refines (hmap : SaneMap kernelEnd mmap) (mem : Mem) :
    ∃ heap, mallocInit kernelEnd mmap (Heap.boot mem) = .ok heap ∧
      ∀ es s, Run ClientStep (.start heap) es s →
        Run ArrayStore.Step ArrayStore.empty es s.arrays ∧
        ∀ ptr xs, s.arrays ptr = some xs → (∃ t, ClientStep s (.free ptr) t) ∧
          ∀ i, (h : i < xs.length) → ClientStep s (.load ptr i xs[i]) s ∧
            ∀ c, ∃ t, ClientStep s (.store ptr i c) t := by
  obtain ⟨heap, hinit, hstart⟩ := hmap.sessionInv mem
  refine ⟨heap, hinit, fun es s hrun => ?_⟩
  obtain ⟨hstore, bs, hs⟩ := ClientStep.run_simulated hstart hrun
  exact ⟨hstore, fun ptr xs hp => hs.client_progress hp⟩

/-- A client writes to its first block and moves it behind the second one. -/
def sampleEvents : List (StoreEvent Word Byte) :=
  [.malloc 16 0x20010, .store 0x20010 3 7, .malloc 32 0x20030, .realloc 0x20010 64 0x20060,
    .free 0x20030]

/-- The heap of the PC map serves these calls. -/
theorem sample_run : ∃ heap, mallocInit 0x20000 pcMap (Heap.boot fun _ => 0) = .ok heap ∧
    ∃ s, Run ClientStep (.start heap) sampleEvents s ∧
      ∃ c, ClientStep s (.load 0x20060 3 c) s := by
  obtain ⟨heap, hinit, hinv⟩ := heapInv_pcMap
  have hstart : SessionInv (.start heap)
      [⟨0x20000, 0x7fbf0, false⟩, ⟨0x100000, 0x7edfff0, false⟩] :=
    SessionInv.start hinv (by simp)
  obtain ⟨s₁, h₁, hs₁⟩ := hstart.client_mallocs (d := 0x20000) 16 (by decide) rfl
  obtain ⟨xs, hxs, hlen⟩ := (h₁.simulated hstart).1.allocated
  have hlt : 3 < xs.length := hlen ▸ by decide
  obtain ⟨s₂, h₂⟩ := ((hs₁.client_progress hxs).2 3 hlt).2 7
  have hs₂ := hs₁.client_stores h₂
  obtain ⟨s₃, h₃, hs₃⟩ := hs₂.client_mallocs (d := 0x20020) 32 (by decide) rfl
  obtain ⟨s₄, h₄, hs₄⟩ := hs₃.client_moves (b := ⟨0x20000, 16, true⟩) (d := 0x20050) 64
    List.mem_cons_self rfl (by decide) rfl
  obtain ⟨s₅, h₅, hs₅⟩ := hs₄.client_frees (b := ⟨0x20020, 32, true⟩)
    (List.mem_cons_of_mem _ List.mem_cons_self) rfl
  have hrun : Run ClientStep (.start heap) sampleEvents s₅ :=
    .cons h₁ (.cons h₂ (.cons h₃ (.cons h₄ (.cons h₅ (.nil s₅)))))
  obtain ⟨ys, hys, hget⟩ := ArrayStore.knows_of_run (ClientStep.run_simulated hstart hrun).1
    ArrayStore.knows_nothing 0x20060 3 7 rfl
  obtain ⟨hin, -⟩ := List.getElem?_eq_some_iff.mp hget
  exact ⟨heap, hinit, s₅, hrun, _, ((hs₅.client_progress hys).2 3 hin).1⟩

theorem heap_client_refines_pcMap :
    ∃ heap s t, mallocInit 0x20000 pcMap (Heap.boot fun _ => 0) = .ok heap ∧
      Run ClientStep (.start heap) sampleEvents s ∧
      Run ArrayStore.Step ArrayStore.empty sampleEvents s.arrays ∧
      ClientStep s (.free 0x20060) t := by
  obtain ⟨heap, hinit, s, hrun, -⟩ := sample_run
  obtain ⟨heap', hinit', hall⟩ := heap_client_refines saneMap_pcMap fun _ => 0
  obtain rfl : heap = heap' := Except.ok.inj (hinit.symm.trans hinit')
  obtain ⟨hstore, hprogress⟩ := hall _ s hrun
  obtain ⟨xs, hxs, -⟩ := ArrayStore.knows_of_run hstore ArrayStore.knows_nothing 0x20060 3 7 rfl
  obtain ⟨t, hfree⟩ := (hprogress _ xs hxs).1
  exact ⟨heap, s, t, hinit, hrun, hstore, hfree⟩

/-- **Reads return what was written.** A byte that a client has written or read, and has carried
along with `realloc`, reads the same until the client itself changes it, whatever the other
clients do. -/
theorem heap_client_reads_back (hmap : SaneMap kernelEnd mmap) (mem : Mem) :
    ∃ heap, mallocInit kernelEnd mmap (Heap.boot mem) = .ok heap ∧
      ∀ es s, Run ClientStep (.start heap) es s → ∀ ptr i c d t, learned es ptr i = some d →
        ClientStep s (.load ptr i c) t → c = d := by
  obtain ⟨heap, hinit, hstart⟩ := hmap.sessionInv mem
  refine ⟨heap, hinit, fun es s hrun ptr i c d t hd hload => ?_⟩
  obtain ⟨hstore, bs, hs⟩ := ClientStep.run_simulated hstart hrun
  exact ArrayStore.load_eq_learned hstore (hload.simulated hs).1 hd

/-- Byte 3 of the block that has moved is 7. -/
theorem heap_client_reads_back_pcMap :
    ∃ heap s, mallocInit 0x20000 pcMap (Heap.boot fun _ => 0) = .ok heap ∧
      Run ClientStep (.start heap) sampleEvents s ∧
      (∃ c, ClientStep s (.load 0x20060 3 c) s) ∧
      ∀ c t, ClientStep s (.load 0x20060 3 c) t → c = 7 := by
  obtain ⟨heap, hinit, s, hrun, hload⟩ := sample_run
  obtain ⟨heap', hinit', hall⟩ := heap_client_reads_back saneMap_pcMap fun _ => 0
  obtain rfl : heap = heap' := Except.ok.inj (hinit.symm.trans hinit')
  exact ⟨heap, s, hinit, hrun, hload, fun c t hload => hall _ s hrun _ _ c 7 t rfl hload⟩

end

end Hjortron
