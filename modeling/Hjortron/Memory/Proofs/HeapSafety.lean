import Hjortron.Memory.Proofs.HeapRun
import Hjortron.Memory.Proofs.InitSpec

/-!
# The heap over whole sequences of calls

`ChunksWellFormed` is the representation invariant read off the memory: links, addresses,
lengths and the live pointers of a session. It holds after every sequence of calls that starts
from the heap `malloc_init` builds. `RegionInv` is the stronger invariant that every chunk lies
inside one entry of the memory map; `free` keeps it as long as it joins chunks of one entry.
-/

namespace Hjortron

open BlockList

/-- The chunks of the heap, in the order in which `next_chunk` visits them, are `bs`. -/
structure ChunksWellFormed (s : HeapSession) (bs : List Block) : Prop where
  start : s.heap.startChunk = headPtr bs 0
  links : ∀ pre b post, bs = pre ++ b :: post →
    nextChunk s.heap.mem (chunkPtr b) = headPtr post 0 ∧
      previousChunk s.heap.mem (chunkPtr b) = lastPtr 0 pre
  fields : ∀ b ∈ bs, (chunkPtr b).toNat = b.addr ∧ chunkPtr b ≠ 0 ∧
    allocated s.heap.mem (chunkPtr b) = b.used ∧ (chunkLen s.heap.mem (chunkPtr b)).toNat = b.len
  acyclic : (bs.map chunkPtr).Nodup
  ascending : bs.Pairwise fun b c => b.addr + 16 + b.len ≤ c.addr
  noWrap : ∀ b ∈ bs, b.addr + 16 + b.len ≤ 2 ^ 32
  live : ∀ ptr, s.Holds ptr ↔ ∃ b ∈ bs, b.used = true ∧ ptr.toNat = b.addr + 16
  liveOnce : (s.live.map Prod.fst).Nodup
  liveSize : ∀ ptr len, (ptr, len) ∈ s.live →
    ∃ b ∈ bs, b.used = true ∧ ptr.toNat = b.addr + 16 ∧ len.toNat ≤ b.len
  headers : ∀ b ∈ bs, ∀ c ∈ bs, b ≠ c → ∀ x,
    InRange (chunkPtr b) 16 x → ¬ InRange (chunkPtr c) 16 x
  payloadHeaders : ∀ b ∈ bs, ∀ c ∈ bs, ∀ x, InPayload b x → ¬ InRange (chunkPtr c) 16 x
  payloads : ∀ b ∈ bs, ∀ c ∈ bs, b ≠ c → ∀ x, InPayload b x → ¬ InPayload c x

/-- The calls that the chunks `bs` can serve. -/
def Serves (s : HeapSession) (bs : List Block) : HeapCall → Prop
  | .malloc len => len ≠ 0 ∧ ∃ b ∈ bs, b.Fits len.toNat
  | .realloc ptr len => len ≠ 0 ∧
    (len ≤ chunkLen s.heap.mem (ptr - sizeofMemoryChunk) ∨ ∃ b ∈ bs, b.Fits len.toNat)
  | .free _ => True

section

variable {s t : HeapSession} {c : HeapCall} {bs bs' : List Block} {b : Block} {ptr len : Word}
  {kernelEnd : Word} {mmap : List MemoryMapEntry} {entry : MemoryMapEntry}
  {entries : List MemoryMapEntry}

theorem Layout.nodup_chunkPtr (hl : Layout bs) : (bs.map chunkPtr).Nodup := by
  have hinj : ∀ b ∈ bs, ∀ c ∈ bs, chunkPtr b = chunkPtr c → b.addr = c.addr := by
    intro b hb c hc heq
    rw [← hl.chunkPtr_toNat hb, ← hl.chunkPtr_toNat hc, heq]
  have hnd := List.pairwise_map.mp (hl.ordered.nodup_addr (by omega))
  refine List.pairwise_map.mpr (hnd.imp_of_mem ?_)
  intro b c hb hc hne heq
  exact hne (hinj b hb c hc heq)

theorem Layout.toNat_eq_iff (hl : Layout bs) (hb : b ∈ bs) (hu : b.used = true) :
    ptr.toNat = b.addr + 16 ↔ ptr = payloadPtr b := by
  rw [← hl.payloadPtr_toNat hb hu]
  exact BitVec.toNat_inj

theorem SessionInv.wellFormed (hs : SessionInv s bs) : ChunksWellFormed s bs := by
  have hl := hs.heap.layout
  have hlink := hs.heap.chunks.linked
  refine ⟨hs.heap.chunks.start_eq, ?_, ?_, hl.nodup_chunkPtr, hl.ordered,
    fun b hb => (hl.within b hb).2, ?_, hs.nodup, ?_, ?_, ?_, ?_⟩
  · rintro pre b post rfl
    obtain ⟨-, hb, -⟩ := linked_append.mp hlink
    exact ⟨nextChunk_of_header hb, previousChunk_of_header hb⟩
  · intro b hb
    obtain ⟨previous, next, hhd⟩ := hlink.header_of_mem hb
    exact ⟨hl.chunkPtr_toNat hb, hl.chunkPtr_ne_zero hb, allocated_of_header hhd,
      hs.heap.chunks.chunkLen_toNat hb⟩
  · intro ptr
    rw [hs.holds_iff]
    constructor
    · rintro ⟨b, hb, hu, hptr⟩
      exact ⟨b, hb, hu, (hl.toNat_eq_iff hb hu).mpr hptr⟩
    · rintro ⟨b, hb, hu, hptr⟩
      exact ⟨b, hb, hu, (hl.toNat_eq_iff hb hu).mp hptr⟩
  · intro ptr len hmem
    obtain ⟨b, hb, hu, hptr, hlen⟩ := hs.sound _ hmem
    exact ⟨b, hb, hu, (hl.toNat_eq_iff hb hu).mpr hptr, hlen⟩
  · intro b hb c hc hne x hxb hxc
    have h1 := hl.inHeader_toNat hb hxb
    have h2 := hl.inHeader_toNat hc hxc
    have h3 := hl.ordered.stop_le_or hb hc hne
    simp only [Block.stop] at h3
    omega
  · intro b hb c hc x hx
    exact hl.outsideHeaders hb hx c hc
  · intro b hb c hc hne x hx
    exact hl.not_inPayload hb hc hne hx

/-- A call that can be served succeeds. -/
theorem SessionInv.progress (hs : SessionInv s bs) (hallow : s.Allows c) (hserve : Serves s bs c) :
    ∃ t, HeapStep s c t := by
  have hpos : ∀ {len : Word}, len ≠ 0 → 1 ≤ len.toNat := by
    intro len hne
    bv_omega
  have hroom : ∀ {len : Word}, (∃ b ∈ bs, b.Fits len.toNat) →
      ∃ r, allocate 16 len.toNat bs = some r := by
    rintro len ⟨b, hb, hfit⟩
    cases ha : allocate 16 len.toNat bs with
    | none => exact absurd hfit (allocate_eq_none_iff.mp ha b hb)
    | some r => exact ⟨r, rfl⟩
  have hblock : ∃ bs', BlockStep bs c bs' := by
    cases c with
    | malloc len =>
      obtain ⟨⟨bs', a⟩, ha⟩ := hroom hserve.2
      exact ⟨bs', .malloc (hpos hserve.1) ha⟩
    | realloc ptr len =>
      obtain ⟨b, hb, hu, rfl⟩ := hs.holds_iff.mp hallow
      obtain ⟨hne, hfit⟩ := hserve
      rw [payloadPtr_sub, BitVec.le_def, hs.heap.chunks.chunkLen_toNat hb] at hfit
      by_cases hle : len.toNat ≤ b.len
      · exact ⟨bs, .reallocKeep hb hu (hpos hne) hle⟩
      · obtain ⟨⟨bs', a⟩, ha⟩ := hroom (hfit.resolve_left hle)
        exact ⟨_, .reallocMove hb hu (Nat.lt_of_not_le hle) ha⟩
    | free ptr =>
      obtain ⟨b, hb, hu, rfl⟩ := hs.holds_iff.mp hallow
      exact ⟨_, .free hb hu⟩
  obtain ⟨bs', hblock⟩ := hblock
  obtain ⟨t, ht, -⟩ := hs.call_of_blockStep hblock
  exact ⟨t, ht⟩

theorem initialBlocks_free : ∀ b ∈ initialBlocks kernelEnd entries, b.used = false := by
  intro b hb
  cases entries with
  | nil => simp [initialBlocks] at hb
  | cons entry entries =>
    simp only [initialBlocks, List.mem_cons, List.mem_map] at hb
    obtain rfl | ⟨e, -, rfl⟩ := hb <;> rfl

/-- The heap of `malloc_init` starts a session. -/
theorem SaneMap.sessionInv (hmap : SaneMap kernelEnd mmap) (mem : Mem) :
    ∃ heap, mallocInit kernelEnd mmap (Heap.boot mem) = .ok heap ∧
      SessionInv (.start heap) (initialBlocks kernelEnd (usableEntries kernelEnd mmap)) := by
  obtain ⟨entry, entries, hu, hsane, hroom⟩ := hmap.usable
  obtain ⟨heap, hinit, hinv⟩ := mallocInit_of_usable mem hu hsane hroom
  rw [hu]
  exact ⟨heap, hinit, SessionInv.start hinv initialBlocks_free⟩

theorem SessionInv.run {cs : List HeapCall} (hs : SessionInv s bs) (hrun : Run HeapStep s cs t) :
    ∃ bs', SessionInv t bs' := by
  obtain ⟨bs', ht, -⟩ :=
    heapRun_keeps (I := fun _ => True) (fun _ _ _ _ _ => trivial) hrun hs trivial
  exact ⟨bs', ht⟩

/-- The representation invariant holds after every sequence of calls, and a call that can be
served succeeds. -/
theorem heap_run_wellFormed (hmap : SaneMap kernelEnd mmap) (mem : Mem) :
    ∃ heap, mallocInit kernelEnd mmap (Heap.boot mem) = .ok heap ∧
      ∀ cs s, Run HeapStep (.start heap) cs s →
        ∃ bs, ChunksWellFormed s bs ∧
          ∀ c, s.Allows c → Serves s bs c → ∃ t, HeapStep s c t := by
  obtain ⟨heap, hinit, hstart⟩ := hmap.sessionInv mem
  refine ⟨heap, hinit, fun cs s hrun => ?_⟩
  obtain ⟨bs, hs⟩ := hstart.run hrun
  exact ⟨bs, hs.wellFormed, fun c => hs.progress⟩

theorem heap_run_wellFormed_pcMap :
    ∃ heap, mallocInit 0x20000 pcMap (Heap.boot fun _ => 0) = .ok heap ∧
      ∀ cs s, Run HeapStep (.start heap) cs s →
        ∃ bs, ChunksWellFormed s bs ∧
          ∀ c, s.Allows c → Serves s bs c → ∃ t, HeapStep s c t :=
  heap_run_wellFormed saneMap_pcMap _

/-! ## The contents of live blocks -/

variable {heap heap' : Heap} {q x : Block}

theorem malloc_frame (hinv : HeapInv heap bs) (hq : q ∈ bs) (hqu : q.used = true)
    (hm : malloc heap len = .ok (ptr, heap')) :
    ∀ x, InPayload q x → heap'.mem x = heap.mem x := by
  obtain ⟨bs', a, mem, -, ha, -, rfl, hc, hframe⟩ := malloc_eq_ok hinv.chunks hinv.initialized hm
  obtain ⟨_, _, _, _, _, _, hused⟩ := served_mem hinv.layout ha
  have hq' : q ∈ bs' := ((hused q).mpr (Or.inl ⟨hq, hqu⟩)).1
  exact fun x hx => hframe x (hc.layout.outsideHeaders hq' hx)

theorem free_frame (hinv : HeapInv heap bs) (hq : q ∈ bs) (hb : b ∈ bs) (hu : b.used = true) :
    ∃ heap', free heap (payloadPtr b) = .ok heap' ∧
      ∀ x, InPayload q x → heap'.mem x = heap.mem x := by
  obtain ⟨mem, hfree, -, hframe⟩ := free_of_mem heap hinv.chunks hinv.initialized hb hu
  exact ⟨_, hfree, fun x hx => hframe x (hinv.layout.outsideHeaders hq hx)⟩

/-- What `realloc` of a live block returns. -/
structure Reallocated (heap heap' : Heap) (b : Block) (len r : Word) (bs' : List Block) : Prop where
  inv : HeapInv heap' bs'
  served : ∃ c ∈ bs', c.used = true ∧ r = payloadPtr c ∧ len.toNat ≤ c.len
  copied : ∀ i < min len.toNat b.len,
    heap'.mem (r + BitVec.ofNat 32 i) = heap.mem (payloadPtr b + BitVec.ofNat 32 i)
  kept : len.toNat ≤ b.len → r = payloadPtr b
  moved : b.len < len.toNat → ¬ IsLive bs' (payloadPtr b)

theorem realloc_eq_ok (hinv : HeapInv heap bs) (hb : b ∈ bs) (hu : b.used = true)
    (hr : realloc heap (payloadPtr b) len = .ok (ptr, heap')) :
    (∃ bs', Reallocated heap heap' b len ptr bs') ∧
      ∀ q ∈ bs, q.used = true → q ≠ b → ∀ x, InPayload q x → heap'.mem x = heap.mem x := by
  by_cases h0 : len = 0
  · subst h0
    rw [realloc_zero hinv hb hu] at hr
    cases hr
  by_cases hle : len.toNat ≤ b.len
  · rw [realloc_of_le hinv hb hu h0 hle] at hr
    obtain ⟨rfl, rfl⟩ := Prod.mk.inj (Except.ok.inj hr)
    exact ⟨⟨bs, hinv, ⟨b, hb, hu, rfl, hle⟩, fun _ _ => rfl, fun _ => rfl,
      fun hlt => absurd hle (Nat.not_le_of_lt hlt)⟩, fun _ _ _ _ _ _ => rfl⟩
  have hlt := Nat.lt_of_not_le hle
  cases ha : allocate 16 len.toNat bs with
  | none =>
    rw [realloc_of_not_allocate hinv hb hu hlt ha] at hr
    cases hr
  | some r =>
    obtain ⟨bs', a⟩ := r
    obtain ⟨mem, hrealloc, hc, hcopy, hframe⟩ := realloc_of_allocate hinv hb hu hlt ha
    obtain ⟨c, hcm, hcu, rfl, hcl, hfresh, hused⟩ := served_mem hinv.layout ha
    obtain ⟨rfl, rfl⟩ := Prod.mk.inj (Except.ok.inj (hrealloc.symm.trans hr))
    have hlay' := hinv.layout.allocate (by omega) ha
    have hb' : b ∈ bs' := ((hused b).mpr (Or.inl ⟨hb, hu⟩)).1
    have hrest := mem_release_used (by omega) hlay'.ordered hb'
    have hcb : c ≠ b := fun heq => hfresh (heq ▸ hb)
    refine ⟨⟨_, ⟨hinv.initialized, hc⟩, ?_, ?_, fun h => absurd h hle, fun _ => ?_⟩, ?_⟩
    · exact ⟨c, ((hrest c).mpr ⟨hcm, hcu, hcb⟩).1, hcu, rfl, hcl⟩
    · exact fun i hi => hcopy i (by omega)
    · rintro ⟨x, hx, hxu, hptr⟩
      obtain ⟨hx, -, hne⟩ := (hrest x).mp ⟨hx, hxu⟩
      exact hne (hlay'.eq_of_payloadPtr_eq hx hxu hb' hu hptr.symm)
    · intro q hq hqu hqb x hx
      have hq' : q ∈ bs' := ((hused q).mpr (Or.inl ⟨hq, hqu⟩)).1
      have hqc : q ≠ c := fun heq => hfresh (heq ▸ hq)
      refine hframe x (hlay'.outsideHeaders hq' hx) fun hin => ?_
      refine hlay'.not_inPayload hq' hcm hqc hx ?_
      unfold InPayload
      change InRange (payloadPtr c) b.len x at hin
      unfold InRange at hin ⊢
      omega

/-- No call changes a payload byte of another live block, and `realloc` carries the contents of
its block over. -/
theorem heap_calls_keep_contents (hinv : HeapInv heap bs) (hq : q ∈ bs) (hqu : q.used = true) :
    (∀ len ptr heap', malloc heap len = .ok (ptr, heap') →
      ∀ x, InPayload q x → heap'.mem x = heap.mem x) ∧
    (∀ ptr, IsLive bs ptr → ptr ≠ payloadPtr q → ∃ heap', free heap ptr = .ok heap' ∧
      ∀ x, InPayload q x → heap'.mem x = heap.mem x) ∧
    (∀ b ∈ bs, b.used = true → ∀ len,
      ((∃ r heap', realloc heap (payloadPtr b) len = .ok (r, heap')) ↔
        len ≠ 0 ∧ (len.toNat ≤ b.len ∨ ∃ d ∈ bs, d.Fits len.toNat)) ∧
      ∀ r heap', realloc heap (payloadPtr b) len = .ok (r, heap') →
        (∃ bs', Reallocated heap heap' b len r bs') ∧
        (payloadPtr b ≠ payloadPtr q → ∀ x, InPayload q x → heap'.mem x = heap.mem x)) := by
  refine ⟨fun len ptr heap' => malloc_frame hinv hq hqu, ?_, fun b hb hu len => ⟨⟨?_, ?_⟩, ?_⟩⟩
  · rintro ptr ⟨b, hb, hu, rfl⟩ -
    exact free_frame hinv hq hb hu
  · rintro ⟨r, heap', hr⟩
    refine ⟨?_, ?_⟩
    · rintro rfl
      rw [realloc_zero hinv hb hu] at hr
      cases hr
    · by_contra hno
      obtain ⟨hlt, hfit⟩ := not_or.mp hno
      have hnone : allocate 16 len.toNat bs = none :=
        allocate_eq_none_iff.mpr fun d hd hd' => hfit ⟨d, hd, hd'⟩
      rw [realloc_of_not_allocate hinv hb hu (Nat.lt_of_not_le hlt) hnone] at hr
      cases hr
  · rintro ⟨h0, hfit⟩
    by_cases hle : len.toNat ≤ b.len
    · exact ⟨_, _, realloc_of_le hinv hb hu h0 hle⟩
    · obtain ⟨d, hd, hdfit⟩ := hfit.resolve_left hle
      cases ha : allocate 16 len.toNat bs with
      | none => exact absurd hdfit (allocate_eq_none_iff.mp ha d hd)
      | some r =>
        obtain ⟨mem, hr, -⟩ := realloc_of_allocate hinv hb hu (Nat.lt_of_not_le hle) ha
        exact ⟨_, _, hr⟩
  · intro r heap' hr
    obtain ⟨hspec, hframe⟩ := realloc_eq_ok hinv hb hu hr
    exact ⟨hspec, fun hne => hframe q hq hqu fun heq => hne (heq ▸ rfl)⟩

theorem heap_calls_keep_contents_pcMap :
    ∃ heap, HeapInv heap [⟨0x20000, 0x7fbf0, true⟩, ⟨0x100000, 0x7edfff0, false⟩] ∧
      ∃ r heap', realloc heap 0x20010 0x80000 = .ok (r, heap') ∧
        ∃ bs', Reallocated heap heap' ⟨0x20000, 0x7fbf0, true⟩ 0x80000 r bs' := by
  obtain ⟨heap, -, hinv⟩ := heapInv_pcMap
  have ha : allocate 16 0x7fbf0 [⟨0x20000, 0x7fbf0, false⟩, ⟨0x100000, 0x7edfff0, false⟩] =
      some ([⟨0x20000, 0x7fbf0, true⟩, ⟨0x100000, 0x7edfff0, false⟩], 0x20000) := by decide
  obtain ⟨mem, -, hc, -⟩ := malloc_of_allocate hinv.chunks hinv.initialized
    (by decide : (0x7fbf0 : Word) ≠ 0) ha
  have hinv' : HeapInv { heap with mem } [⟨0x20000, 0x7fbf0, true⟩, ⟨0x100000, 0x7edfff0, false⟩] :=
    ⟨hinv.initialized, hc⟩
  obtain ⟨-, -, hrealloc⟩ :=
    heap_calls_keep_contents (q := ⟨0x20000, 0x7fbf0, true⟩) hinv' (by simp) rfl
  obtain ⟨htotal, hspec⟩ := hrealloc ⟨0x20000, 0x7fbf0, true⟩ (by simp) rfl 0x80000
  obtain ⟨r, heap', hr⟩ := htotal.mpr ⟨by decide, Or.inr
    ⟨⟨0x100000, 0x7edfff0, false⟩, by simp, by decide⟩⟩
  exact ⟨_, hinv', r, heap', hr, (hspec r heap' hr).1⟩

end

end Hjortron
