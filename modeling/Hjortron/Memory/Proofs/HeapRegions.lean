import Hjortron.Memory.Proofs.HeapSafety
import Hjortron.Misc.BlockRegions

/-!
# Heap chunks and the entries of the memory map

`free` joins list neighbours, and the last chunk of one entry of the memory map is a list
neighbour of the first chunk of the next. As long as every `free` joins chunks of one entry
only, every chunk stays inside one free entry; a single join across a border is enough to hand
out the reserved memory between two entries. With one usable entry there is no border: the
chunks tile it and no two free chunks are neighbours.
-/

namespace Hjortron

open BlockList

/-- The free entry of the map that holds the address. -/
def entryOf (mmap : List MemoryMapEntry) (a : Nat) : Option MemoryMapEntry :=
  (mmap.filter MemoryMapEntry.isFree).find? fun e =>
    e.base.toNat ≤ a && a < e.base.toNat + e.len.toNat

/-- The neighbours that `free` would join with the chunk are in its entry. -/
def JoinsInside (mmap : List MemoryMapEntry) (m : Mem) (chunk : Word) : Prop :=
  (previousChunk m chunk ≠ 0 → allocated m (previousChunk m chunk) = false →
    entryOf mmap (previousChunk m chunk).toNat = entryOf mmap chunk.toNat) ∧
  (nextChunk m chunk ≠ 0 → allocated m (nextChunk m chunk) = false →
    entryOf mmap chunk.toNat = entryOf mmap (nextChunk m chunk).toNat)

/-- The neighbours that `free` would join with the chunk are contiguous with it. -/
def JoinsAdjacent (m : Mem) (chunk : Word) : Prop :=
  (previousChunk m chunk ≠ 0 → allocated m (previousChunk m chunk) = false →
    (previousChunk m chunk).toNat + 16 + (chunkLen m (previousChunk m chunk)).toNat =
      chunk.toNat) ∧
  (nextChunk m chunk ≠ 0 → allocated m (nextChunk m chunk) = false →
    chunk.toNat + 16 + (chunkLen m chunk).toNat = (nextChunk m chunk).toNat)

/-- `J` holds of the chunk that the call frees, in the memory in which it is freed. A `realloc`
that moves its block frees the old one after `malloc`. -/
def OnFree (J : Mem → Word → Prop) (s : HeapSession) : HeapCall → Prop
  | .malloc _ => True
  | .realloc ptr len => chunkLen s.heap.mem (ptr - sizeofMemoryChunk) < len →
    ∀ nextPtr heap, malloc s.heap len = .ok (nextPtr, heap) →
      J heap.mem (ptr - sizeofMemoryChunk)
  | .free ptr => J s.heap.mem (ptr - sizeofMemoryChunk)

section

variable {s t : HeapSession} {c : HeapCall} {bs bs' : List Block} {b : Block} {ptr len : Word}
  {kernelEnd : Word} {mmap : List MemoryMapEntry} {entry : MemoryMapEntry}
  {entries : List MemoryMapEntry} {m : Mem} {start : Word}

/-! ## Blocks inside their entries -/

theorem entryOf_eq_some {a : Nat} {e : MemoryMapEntry} (he : entryOf mmap a = some e) :
    e ∈ mmap ∧ e.isFree = true ∧ e.base.toNat ≤ a ∧ a < e.base.toNat + e.len.toNat := by
  have hmem := List.mem_filter.mp (List.mem_of_find?_eq_some he)
  have ha := List.find?_some he
  simp only [Bool.and_eq_true, decide_eq_true_eq] at ha
  exact ⟨hmem.1, hmem.2, ha⟩

/-- An address belongs to one entry of a sane map only. -/
theorem SaneEntries.find?_eq (hs : SaneEntries entries) {a : Nat} {e : MemoryMapEntry}
    (he : e ∈ entries) (hlo : e.base.toNat ≤ a) (hhi : a < e.base.toNat + e.len.toNat) :
    entries.find? (fun e => e.base.toNat ≤ a && a < e.base.toNat + e.len.toNat) = some e := by
  induction entries with
  | nil => simp at he
  | cons d ds ih =>
    rcases List.mem_cons.mp he with rfl | he
    · rw [List.find?_cons_of_pos (by simp [hlo, hhi])]
    · have hd := hs.head_le e he
      rw [List.find?_cons_of_neg (by simp; omega)]
      exact ih hs.tail he

theorem SaneMap.entryOf_eq (hs : SaneMap kernelEnd mmap) {a : Nat} {e : MemoryMapEntry}
    (he : e ∈ mmap.filter MemoryMapEntry.isFree) (hlo : e.base.toNat ≤ a)
    (hhi : a < e.base.toNat + e.len.toNat) : entryOf mmap a = some e :=
  hs.entries.find?_eq he hlo hhi

/-- The chunks that `malloc_init` builds lie in their entries. -/
theorem regional_initialBlocks (hs : SaneMap kernelEnd mmap) :
    Regional 16 (entryOf mmap) (initialBlocks kernelEnd (usableEntries kernelEnd mmap)) := by
  obtain ⟨e, es, hu, hsane, hroom⟩ := hs.usable
  have hsub : ∀ d ∈ e :: es, d ∈ mmap.filter MemoryMapEntry.isFree := by
    intro d hd
    exact (usable_sublist hu).subset hd
  have hke := (holdsKernelEnd_iff (hsane.below e (by simp))).mp (usableEntries_head hu).2.2
  have hstart : (startBlock kernelEnd e).InRegion 16 (entryOf mmap) e := by
    intro a hlo hhi
    simp only [startBlock, Block.stop] at hlo hhi
    exact hs.entryOf_eq (hsub e (by simp)) (by omega) (by omega)
  have hentry : ∀ d ∈ es, (entryBlock d).InRegion 16 (entryOf mmap) d := by
    intro d hd a hlo hhi
    have hroom := hsane.room d (by simp [hd])
    rw [entryBlock_stop hroom] at hhi
    exact hs.entryOf_eq (hsub d (by simp [hd])) hlo hhi
  -- blocks of different entries are in different regions
  have hneq : ∀ d ∈ e :: es, ∀ d' ∈ e :: es, d.base.toNat + d.len.toNat ≤ d'.base.toNat →
      some d ≠ some d' := by
    intro d hd d' hd' hle heq
    have hroom := hsane.room d hd
    obtain rfl := Option.some.inj heq
    omega
  rw [hu]
  constructor
  · intro b hb
    simp only [initialBlocks, List.mem_cons, List.mem_map] at hb
    rcases hb with rfl | ⟨d, hd, rfl⟩
    · exact ⟨e, hstart⟩
    · exact ⟨d, hentry d hd⟩
  · refine List.Pairwise.isChain ?_
    refine List.pairwise_cons.mpr ⟨?_, ?_⟩
    · intro b hb heq
      obtain ⟨d, hd, rfl⟩ := List.mem_map.mp hb
      rw [hstart.addr (by omega), (hentry d hd).addr (by omega)] at heq
      exact absurd heq (hneq e (by simp) d (by simp [hd]) (hsane.head_le d hd))
    · refine List.pairwise_map.mpr (hsane.tail.ascending.imp_of_mem ?_)
      intro d d' hd hd' hle heq
      rw [(hentry d hd).addr (by omega), (hentry d' hd').addr (by omega)] at heq
      exact absurd heq (hneq d (by simp [hd]) d' (by simp [hd']) hle)

/-- The condition on the memory is the one on the list of blocks. -/
theorem ChunkList.joinsWithin (hc : ChunkList m start bs)
    (hj : JoinsInside mmap m (chunkPtr b)) : JoinsWithin (entryOf mmap) bs b := by
  rintro pre post rfl
  obtain ⟨hlpre, hb, hlpost⟩ := linked_append.mp hc.linked
  have hbaddr := hc.layout.chunkPtr_toNat (b := b) (by simp)
  obtain ⟨hprev, hnext⟩ := hj
  rw [previousChunk_of_header hb, hbaddr] at hprev
  rw [nextChunk_of_header hb, hbaddr] at hnext
  constructor
  · intro p hp hu
    obtain ⟨init, rfl⟩ := List.getLast?_eq_some_iff.mp hp
    have hlast : lastPtr 0 (init ++ [p]) = chunkPtr p := by simp [lastPtr]
    obtain ⟨_, _, hhd⟩ := hlpre.header_of_mem (b := p) (by simp)
    simp only [hlast, allocated_of_header hhd, hc.layout.chunkPtr_toNat (b := p) (by simp)] at hprev
    exact hprev (hc.layout.chunkPtr_ne_zero (by simp)) hu
  · intro d hd hu
    obtain ⟨ds, rfl⟩ := List.head?_eq_some_iff.mp hd
    obtain ⟨hhd, -⟩ := hlpost
    simp only [headPtr, allocated_of_header hhd, hc.layout.chunkPtr_toNat (b := d) (by simp)]
      at hnext
    exact hnext (hc.layout.chunkPtr_ne_zero (by simp)) hu

theorem ChunkList.joinsAdjacent (hc : ChunkList m start bs) (hb : b ∈ bs)
    (hj : JoinsContiguous 16 bs b) : JoinsAdjacent m (chunkPtr b) := by
  have hbaddr := hc.layout.chunkPtr_toNat hb
  have hblen := hc.chunkLen_toNat hb
  obtain ⟨pre, post, rfl⟩ := List.append_of_mem hb
  obtain ⟨hlpre, hhd, hlpost⟩ := linked_append.mp hc.linked
  obtain ⟨hprev, hnext⟩ := hj pre post rfl
  simp only [JoinsAdjacent, previousChunk_of_header hhd, nextChunk_of_header hhd, hbaddr, hblen]
  constructor
  · intro hne hfree
    rcases List.eq_nil_or_concat pre with rfl | ⟨init, p, rfl⟩
    · exact absurd rfl hne
    · obtain ⟨_, _, hp⟩ := hlpre.header_of_mem (b := p) (by simp)
      have hlast : lastPtr 0 (init ++ [p]) = chunkPtr p := by simp [lastPtr]
      simp only [List.concat_eq_append] at hfree hprev ⊢
      rw [hlast, allocated_of_header hp] at hfree
      rw [hlast, hc.layout.chunkPtr_toNat (by simp), hc.chunkLen_toNat (by simp)]
      exact hprev p (by simp) hfree
  · intro hne hfree
    cases post with
    | nil => exact absurd rfl hne
    | cons d ds =>
      obtain ⟨hd, -⟩ := hlpost
      simp only [headPtr, allocated_of_header hd] at hfree ⊢
      rw [hc.layout.chunkPtr_toNat (b := d) (by simp)]
      exact hnext d (by simp) hfree

/-- A call that joins inside the entries keeps every block inside its entry, and joins
contiguous chunks only. -/
theorem SessionInv.regional_step (hs : SessionInv s bs)
    (hj : OnFree (JoinsInside mmap) s c) (hr : Regional 16 (entryOf mmap) bs)
    (hstep : BlockStep bs c bs') :
    Regional 16 (entryOf mmap) bs' ∧ OnFree JoinsAdjacent s c := by
  cases hstep with
  | malloc hlen ha => exact ⟨hr.allocate (by omega) ha, trivial⟩
  | reallocKeep hb hu hlen hle =>
    refine ⟨hr, fun hlt => ?_⟩
    rw [payloadPtr_sub, BitVec.lt_def, hs.heap.chunks.chunkLen_toNat hb] at hlt
    omega
  | @reallocMove b len bs₁ a hb hu hlt ha =>
    have hne : len ≠ 0 := by
      rintro rfl
      simp at hlt
    obtain ⟨mem, hmalloc, hc, -⟩ := malloc_of_allocate hs.heap.chunks hs.heap.initialized hne ha
    have hb₁ : b ∈ bs₁ := by
      obtain ⟨x, hx, hxu, hxa, hxl, hfresh, hused⟩ := served_mem hs.heap.layout ha
      exact ((hused b).mpr (Or.inl ⟨hb, hu⟩)).1
    have hlt' : chunkLen s.heap.mem (payloadPtr b - sizeofMemoryChunk) < len := by
      rw [payloadPtr_sub, BitVec.lt_def, hs.heap.chunks.chunkLen_toNat hb]
      exact hlt
    have hj' := hj hlt' _ _ hmalloc
    rw [payloadPtr_sub] at hj'
    have hr₁ : Regional 16 (entryOf mmap) bs₁ := hr.allocate (by omega) ha
    have hwithin := hc.joinsWithin hj'
    refine ⟨hr₁.release (by omega) hc.layout.ordered hb₁ hwithin, fun _ nextPtr heap hm => ?_⟩
    obtain ⟨rfl, rfl⟩ := Prod.mk.inj (Except.ok.inj (hmalloc.symm.trans hm))
    rw [payloadPtr_sub]
    exact hc.joinsAdjacent hb₁ (hr₁.joinsContiguous hwithin)
  | free hb hu =>
    rw [OnFree, payloadPtr_sub] at hj
    have hwithin := hs.heap.chunks.joinsWithin hj
    refine ⟨hr.release (by omega) hs.heap.layout.ordered hb hwithin, ?_⟩
    rw [OnFree, payloadPtr_sub]
    exact hs.heap.chunks.joinsAdjacent hb (hr.joinsContiguous hwithin)

/-- The block of a live pointer lies in one free entry, header included. -/
def InsideEntry (mmap : List MemoryMapEntry) (s : HeapSession) (ptr : Word) : Prop :=
  ∃ e ∈ mmap, e.isFree = true ∧ e.base.toNat + 16 ≤ ptr.toNat ∧
    ptr.toNat + (chunkLen s.heap.mem (ptr - sizeofMemoryChunk)).toNat ≤
      e.base.toNat + e.len.toNat

theorem SessionInv.insideEntry (hs : SessionInv s bs) (hr : Regional 16 (entryOf mmap) bs)
    (hptr : s.Holds ptr) : InsideEntry mmap s ptr := by
  obtain ⟨b, hb, hu, rfl⟩ := hs.holds_iff.mp hptr
  obtain ⟨e, he⟩ := hr.inside b hb
  have hpos := hs.heap.layout.used_pos b hb hu
  have hfirst := entryOf_eq_some (he.addr (by omega))
  have hlast := entryOf_eq_some (he (b.addr + 16 + b.len - 1) (by omega) (by
    simp only [Block.stop]
    omega))
  refine ⟨e, hfirst.1, hfirst.2.1, ?_, ?_⟩
  · rw [hs.heap.layout.payloadPtr_toNat hb hu]
    omega
  · rw [hs.heap.layout.payloadPtr_toNat hb hu, payloadPtr_sub, hs.heap.chunks.chunkLen_toNat hb]
    omega

/-- As long as every `free` joins chunks of one entry, live blocks stay inside one free entry
and `free` joins contiguous chunks only. -/
theorem heap_run_insideEntry (hmap : SaneMap kernelEnd mmap) (mem : Mem) :
    ∃ heap, mallocInit kernelEnd mmap (Heap.boot mem) = .ok heap ∧
      ∀ cs s, Run (fun s c t => HeapStep s c t ∧ OnFree (JoinsInside mmap) s c)
          (.start heap) cs s →
        (∀ ptr, s.Holds ptr → InsideEntry mmap s ptr) ∧
          ∀ c t, HeapStep s c t → OnFree (JoinsInside mmap) s c → OnFree JoinsAdjacent s c := by
  obtain ⟨heap, hinit, hstart⟩ := hmap.sessionInv mem
  refine ⟨heap, hinit, fun cs s hrun => ?_⟩
  obtain ⟨bs, hs, hr⟩ := heapRun_invariant (I := Regional 16 (entryOf mmap))
    (fun s bs c bs' hs hj hr hstep => (hs.regional_step hj hr hstep).1) hrun
    hstart (regional_initialBlocks hmap)
  refine ⟨fun ptr hptr => hs.insideEntry hr hptr, fun c t hstep hj => ?_⟩
  obtain ⟨bs', hblock, -⟩ := hstep.simulated hs
  exact (hs.regional_step hj hr hblock).2

theorem heap_run_insideEntry_pcMap :
    ∃ heap, mallocInit 0x20000 pcMap (Heap.boot fun _ => 0) = .ok heap ∧
      ∀ cs s, Run (fun s c t => HeapStep s c t ∧ OnFree (JoinsInside pcMap) s c)
          (.start heap) cs s →
        (∀ ptr, s.Holds ptr → InsideEntry pcMap s ptr) ∧
          ∀ c t, HeapStep s c t → OnFree (JoinsInside pcMap) s c → OnFree JoinsAdjacent s c :=
  heap_run_insideEntry saneMap_pcMap _

/-- Allocating the whole start chunk and freeing it joins it with the chunk at 1 MiB, across the
reserved hole; the next block then covers part of the hole. -/
theorem heap_run_leaves_entry :
    SaneMap 0x20000 pcMap ∧
      ∃ heap, mallocInit 0x20000 pcMap (Heap.boot fun _ => 0) = .ok heap ∧
        ∃ s, Run HeapStep (.start heap) [.malloc 0x7fbf0, .free 0x20010, .malloc 0x80000] s ∧
          s.Holds 0x20010 ∧ ¬ InsideEntry pcMap s 0x20010 := by
  obtain ⟨heap, hinit, hinv⟩ := heapInv_pcMap
  have hblock₁ : BlockStep [⟨0x20000, 0x7fbf0, false⟩, ⟨0x100000, 0x7edfff0, false⟩]
      (.malloc 0x7fbf0) [⟨0x20000, 0x7fbf0, true⟩, ⟨0x100000, 0x7edfff0, false⟩] :=
    .malloc (a := 0x20000) (by decide) (by decide)
  obtain ⟨s₁, hstep₁, hs₁⟩ := (SessionInv.start hinv (by simp)).call_of_blockStep hblock₁
  obtain ⟨s₂, hstep₂, hs₂⟩ := hs₁.call_of_blockStep
    (.free (b := ⟨0x20000, 0x7fbf0, true⟩) (by simp) rfl)
  rw [show release 16 0x20000 [⟨0x20000, 0x7fbf0, true⟩, ⟨0x100000, 0x7edfff0, false⟩] =
    [⟨0x20000, 0x7f5fbf0, false⟩] by decide] at hs₂
  have hblock₃ : BlockStep [⟨0x20000, 0x7f5fbf0, false⟩] (.malloc 0x80000)
      [⟨0x20000, 0x80000, true⟩, ⟨0xa0010, 0x7edfbe0, false⟩] :=
    .malloc (a := 0x20000) (by decide) (by decide)
  obtain ⟨s₃, hstep₃, hs₃⟩ := hs₂.call_of_blockStep hblock₃
  have hlen : (chunkLen s₃.heap.mem (0x20010 - sizeofMemoryChunk)).toNat = 0x80000 :=
    hs₃.heap.chunks.chunkLen_toNat (b := ⟨0x20000, 0x80000, true⟩) (by simp)
  refine ⟨saneMap_pcMap, heap, hinit, s₃, .cons hstep₁ (.cons hstep₂ (.cons hstep₃ (.nil _))),
    hs₃.complete ⟨0x20000, 0x80000, true⟩ (by simp) rfl, ?_⟩
  rintro ⟨e, he, hfree, hlo, hhi⟩
  rw [hlen] at hhi
  have hout : ∀ e ∈ pcMap, e.isFree = true → e.base.toNat + 16 ≤ (0x20010 : Word).toNat →
      ¬ (0x20010 : Word).toNat + 0x80000 ≤ e.base.toNat + e.len.toNat := by decide
  exact hout e he hfree hlo hhi

/-! ## One usable entry -/

/-- In a heap of one region the blocks tile it and no two free blocks are neighbours. -/
structure OneRegion (lo hi : Nat) (bs : List Block) : Prop where
  tiled : Tiled 16 lo bs hi
  coalesced : Coalesced bs

theorem OneRegion.release {lo hi : Nat} (h : OneRegion lo hi bs) (hb : b ∈ bs) :
    OneRegion lo hi (release 16 b.addr bs) :=
  ⟨h.tiled.release (by omega) hb, h.coalesced.release (by omega) h.tiled.ordered hb⟩

theorem OneRegion.step {lo hi : Nat} (h : OneRegion lo hi bs) (hstep : BlockStep bs c bs') :
    OneRegion lo hi bs' := by
  cases hstep with
  | malloc hlen ha => exact ⟨h.tiled.allocate ha, h.coalesced.allocate ha⟩
  | reallocKeep => exact h
  | @reallocMove b len bs₁ a hb hu hlt ha =>
    have h₁ : OneRegion lo hi bs₁ := ⟨h.tiled.allocate ha, h.coalesced.allocate ha⟩
    obtain ⟨_, _, _, _, hused⟩ := mem_allocate_used ha
    exact h₁.release ((hused b).mpr (Or.inl ⟨hb, hu⟩)).1
  | free hb hu => exact h.release hb

/-- `malloc` and `free` of its result give back the same chunks. -/
theorem SessionInv.malloc_free {lo hi : Nat} (hs : SessionInv s bs) (h : OneRegion lo hi bs)
    (hstep : HeapStep s (.malloc len) t) :
    ∃ ptr u, t.live = (ptr, len) :: s.live ∧ HeapStep t (.free ptr) u ∧ SessionInv u bs := by
  obtain ⟨bs', hblock, ht⟩ := hstep.simulated hs
  cases hblock with
  | @malloc _ _ a hlen ha =>
    obtain ⟨x, hx, hxu, rfl, -⟩ := served_mem hs.heap.layout ha
    have hback := release_allocate_of_coalesced (by omega) h.tiled.ordered h.coalesced ha
    obtain ⟨u, hu, hinv⟩ := ht.call_of_blockStep (.free hx hxu)
    refine ⟨payloadPtr x, u, ?_, hu, hback ▸ hinv⟩
    have hne : len ≠ 0 := by
      rintro rfl
      simp at hlen
    obtain ⟨mem, hmalloc, -⟩ := malloc_of_allocate hs.heap.chunks hs.heap.initialized hne ha
    have hcall := hstep.2
    simp only [HeapSession.call, hmalloc, bind, Except.bind, pure, Except.pure] at hcall
    rw [← Except.ok.inj hcall]
    rfl

theorem SessionInv.holds_after_free (hs : SessionInv s bs) (hb : b ∈ bs) (hu : b.used = true)
    (ht : SessionInv t (release 16 b.addr bs)) (ptr : Word) :
    t.Holds ptr ↔ s.Holds ptr ∧ ptr ≠ payloadPtr b := by
  have hused := mem_release_used (by omega) hs.heap.layout.ordered hb
  rw [hs.holds_iff, ht.holds_iff]
  constructor
  · rintro ⟨x, hx, hxu, rfl⟩
    obtain ⟨hx, -, hne⟩ := (hused x).mp ⟨hx, hxu⟩
    exact ⟨⟨x, hx, hxu, rfl⟩, fun heq =>
      hne (hs.heap.layout.eq_of_payloadPtr_eq hx hxu hb hu heq)⟩
  · rintro ⟨⟨x, hx, hxu, rfl⟩, hne⟩
    exact ⟨x, ((hused x).mpr ⟨hx, hxu, fun heq => hne (heq ▸ rfl)⟩).1, hxu, rfl⟩

/-- Freeing all live pointers, in any order, leaves one free block. -/
theorem SessionInv.free_all {lo hi : Nat} {ptrs : List Word} (hlt : lo < hi) (hnd : ptrs.Nodup)
    (hs : SessionInv s bs) (h : OneRegion lo hi bs) (hptrs : ∀ ptr, s.Holds ptr ↔ ptr ∈ ptrs) :
    ∃ u, Run HeapStep s (ptrs.map .free) u ∧ SessionInv u [⟨lo, hi - (lo + 16), false⟩] := by
  induction ptrs generalizing s bs with
  | nil =>
    refine ⟨s, .nil s, ?_⟩
    have hfree : ∀ b ∈ bs, b.used = false := by
      intro b hb
      by_contra hu
      exact (List.not_mem_nil ((hptrs _).mp (hs.complete b hb (by simpa using hu)))).elim
    rw [← eq_singleton_of_coalesced hlt h.tiled h.coalesced hfree]
    exact hs
  | cons ptr ptrs ih =>
    obtain ⟨hnot, hrest⟩ := List.nodup_cons.mp hnd
    obtain ⟨b, hb, hu, rfl⟩ := hs.holds_iff.mp ((hptrs ptr).mpr (by simp))
    obtain ⟨t, hstep, ht⟩ := hs.call_of_blockStep (.free hb hu)
    obtain ⟨u, hrun, hfin⟩ := ih hrest ht (h.release hb) fun q => by
      rw [hs.holds_after_free hb hu ht, hptrs, List.mem_cons]
      constructor
      · rintro ⟨rfl | hq, hne⟩
        · exact absurd rfl hne
        · exact hq
      · intro hq
        exact ⟨Or.inr hq, fun heq => hnot (heq ▸ hq)⟩
    exact ⟨u, .cons hstep hrun, hfin⟩

/-- With one usable entry no fragmentation is left behind. -/
theorem heap_run_coalesced (mem : Mem) (hu : usableEntries kernelEnd mmap = [entry])
    (hbelow : entry.base.toNat + entry.len.toNat ≤ 2 ^ 32)
    (hroom : kernelEnd.toNat + 16 ≤ entry.base.toNat + entry.len.toNat) :
    ∃ heap, mallocInit kernelEnd mmap (Heap.boot mem) = .ok heap ∧
      ChunksWellFormed (.start heap) [startBlock kernelEnd entry] ∧
      ∀ cs s, Run HeapStep (.start heap) cs s → ∃ bs, ChunksWellFormed s bs ∧
        (bs.IsChain fun b c => b.used = true ∨ c.used = true) ∧
        footprint 16 bs = footprint 16 [startBlock kernelEnd entry] ∧
        (∀ len t, HeapStep s (.malloc len) t → ∃ ptr u, t.live = (ptr, len) :: s.live ∧
          HeapStep t (.free ptr) u ∧ ChunksWellFormed u bs) ∧
        ∀ ptrs : List Word, ptrs.Perm (s.live.map Prod.fst) →
          ∃ u, Run HeapStep s (ptrs.map .free) u ∧
            ChunksWellFormed u [startBlock kernelEnd entry] := by
  have hke := (holdsKernelEnd_iff hbelow).mp (usableEntries_head hu).2.2
  have hsane : SaneEntries [entry] := by
    refine ⟨by simp, by simpa using hbelow, ?_⟩
    simp only [List.mem_singleton, forall_eq]
    omega
  obtain ⟨heap, hinit, hinv⟩ := mallocInit_of_usable mem hu hsane hroom
  have hstart := SessionInv.start hinv initialBlocks_free
  have hone : OneRegion kernelEnd.toNat (entry.base.toNat + entry.len.toNat)
      [startBlock kernelEnd entry] := by
    refine ⟨⟨rfl, ?_⟩, by simp [Coalesced]⟩
    simp only [Tiled, Block.stop, startBlock]
    omega
  refine ⟨heap, hinit, hstart.wellFormed, fun cs s hrun => ?_⟩
  obtain ⟨bs, hs, h⟩ := heapRun_keeps (fun _ _ _ => OneRegion.step) hrun hstart hone
  refine ⟨bs, hs.wellFormed, h.coalesced, ?_, ?_, ?_⟩
  · have h₁ := h.tiled.footprint
    have h₂ := hone.tiled.footprint
    omega
  · intro len t hstep
    obtain ⟨ptr, u, hlive, hfree, hinv⟩ := hs.malloc_free h hstep
    exact ⟨ptr, u, hlive, hfree, hinv.wellFormed⟩
  · intro ptrs hperm
    have hholds : ∀ ptr, s.Holds ptr ↔ ptr ∈ ptrs := by
      intro ptr
      rw [hperm.mem_iff]
      simp [HeapSession.Holds]
    obtain ⟨u, hrun, hinv⟩ :=
      hs.free_all (by omega) (hperm.nodup_iff.mpr hs.nodup) h hholds
    refine ⟨u, hrun, ?_⟩
    have hblock : (⟨kernelEnd.toNat, entry.base.toNat + entry.len.toNat - (kernelEnd.toNat + 16),
        false⟩ : Block) = startBlock kernelEnd entry := by
      rw [startBlock, Nat.sub_sub]
    rw [← hblock]
    exact hinv.wellFormed

theorem heap_run_coalesced_pcMap :
    ∃ heap, mallocInit 0x110000 pcMap (Heap.boot fun _ => 0) = .ok heap ∧
      ChunksWellFormed (.start heap) [startBlock 0x110000 ⟨0x100000, 0x7ee0000, 1⟩] := by
  obtain ⟨heap, hinit, hstart, -⟩ := heap_run_coalesced
    (fun _ => 0) (by decide : usableEntries 0x110000 pcMap = [⟨0x100000, 0x7ee0000, 1⟩])
    (by decide) (by decide)
  exact ⟨heap, hinit, hstart⟩

end

end Hjortron
