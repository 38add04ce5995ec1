import Hjortron.Memory.Proofs.ChunkList
import Mathlib.Data.List.TakeWhile

/-!
# The chunk list `malloc_init` builds

For a memory map whose free entries ascend, do not overlap, end below 4 GiB and have room for
a header, the chunk list is one free block for the rest of the entry that holds `KERNEL_END`
and one for each free entry after it.
-/

namespace Hjortron

open BlockList

/-- The entry is usable RAM. -/
def MemoryMapEntry.isFree (entry : MemoryMapEntry) : Bool := entry.type == e820EntryFree

/-- Entries in ascending order that do not overlap, lie below 4 GiB and have room for more than
a header. -/
structure SaneEntries (entries : List MemoryMapEntry) : Prop where
  ascending : entries.Pairwise fun d e => d.base.toNat + d.len.toNat ≤ e.base.toNat
  below : ∀ e ∈ entries, e.base.toNat + e.len.toNat ≤ 2 ^ 32
  room : ∀ e ∈ entries, 16 < e.len.toNat

/-- The memory maps that the allocator is written for: one of the free entries holds
`KERNEL_END` and has room for more than a header after it. -/
structure SaneMap (kernelEnd : Word) (mmap : List MemoryMapEntry) : Prop where
  entries : SaneEntries (mmap.filter MemoryMapEntry.isFree)
  kernelEntry : ∃ e ∈ mmap, e.isFree = true ∧ e.holdsKernelEnd kernelEnd = true
  kernelRoom : ∀ e ∈ mmap, e.isFree = true → e.holdsKernelEnd kernelEnd = true →
    kernelEnd.toNat + 16 < e.base.toNat + e.len.toNat

/-- The block of the entry that holds `KERNEL_END`. -/
def startBlock (kernelEnd : Word) (entry : MemoryMapEntry) : Block :=
  ⟨kernelEnd.toNat, entry.base.toNat + entry.len.toNat - kernelEnd.toNat - 16, false⟩

/-- The block of a later free entry. -/
def entryBlock (entry : MemoryMapEntry) : Block :=
  ⟨entry.base.toNat, entry.len.toNat - 16, false⟩

/-- The free entries from the one that holds `KERNEL_END` on. -/
def usableEntries (kernelEnd : Word) (mmap : List MemoryMapEntry) : List MemoryMapEntry :=
  (mmap.filter MemoryMapEntry.isFree).dropWhile fun e => !e.holdsKernelEnd kernelEnd

/-- The blocks of the usable entries. -/
def initialBlocks (kernelEnd : Word) : List MemoryMapEntry → List Block
  | [] => []
  | entry :: entries => startBlock kernelEnd entry :: entries.map entryBlock

/-- The map of a PC with 128 MiB: the hole from `0x9fc00` to 1 MiB is reserved. -/
def pcMap : List MemoryMapEntry :=
  [⟨0x0, 0x9fc00, 1⟩, ⟨0x9fc00, 0x400, 2⟩, ⟨0xf0000, 0x10000, 2⟩, ⟨0x100000, 0x7ee0000, 1⟩,
    ⟨0x7fe0000, 0x20000, 2⟩, ⟨0xfffc0000, 0x40000, 2⟩]

theorem saneMap_pcMap : SaneMap 0x20000 pcMap :=
  ⟨⟨by decide, by decide, by decide⟩, by decide, by decide⟩

section

variable {kernelEnd chunk : Word} {entry : MemoryMapEntry} {entries mmap : List MemoryMapEntry}
  {heap : Heap} {b last : Block} {bs init : List Block}

theorem holdsKernelEnd_iff (hbelow : entry.base.toNat + entry.len.toNat ≤ 2 ^ 32) :
    entry.holdsKernelEnd kernelEnd = true ↔
      entry.base.toNat < kernelEnd.toNat ∧
        kernelEnd.toNat ≤ entry.base.toNat + entry.len.toNat := by
  unfold MemoryMapEntry.holdsKernelEnd
  simp only [Bool.and_eq_true, decide_eq_true_eq]
  constructor
  · rintro ⟨h1, h2⟩
    bv_omega
  · rintro ⟨h1, h2⟩
    bv_omega

/-! ## One iteration -/

theorem mallocInitEntry_skip (hfree : entry.isFree = false) :
    mallocInitEntry kernelEnd (heap, chunk) entry = (heap, chunk) := by
  have hne : entry.type ≠ e820EntryFree := by simpa [MemoryMapEntry.isFree] using hfree
  simp [mallocInitEntry, hne]

theorem mallocInitEntry_before (hstart : heap.startChunk = 0)
    (hhold : entry.holdsKernelEnd kernelEnd = false) :
    mallocInitEntry kernelEnd (heap, chunk) entry = (heap, chunk) := by
  simp [mallocInitEntry, hstart, hhold]

/-- The memory after the iteration that finds the start chunk. -/
def startMem (kernelEnd : Word) (entry : MemoryMapEntry) (m : Mem) : Mem :=
  setChunkLen (setAllocated (setPreviousChunk (setNextChunk m kernelEnd 0) kernelEnd 0)
    kernelEnd false) kernelEnd
    ((entry.base + entry.len - kernelEnd.setWidth 64 - sizeofMemoryChunk.setWidth 64).setWidth 32)

/-- The memory after an iteration that appends a chunk. -/
def appendMem (chunk : Word) (entry : MemoryMapEntry) (m : Mem) : Mem :=
  let next := entry.base.setWidth 32
  setNextChunk (setChunkLen (setAllocated (setPreviousChunk (setNextChunk m next 0) next chunk)
    next false) next ((entry.len - sizeofMemoryChunk.setWidth 64).setWidth 32)) chunk next

/-- The iteration that finds the start chunk. -/
theorem mallocInitEntry_start (chunk : Word) (hfree : entry.isFree = true)
    (hstart : heap.startChunk = 0)
    (hbelow : entry.base.toNat + entry.len.toNat ≤ 2 ^ 32)
    (hhold : entry.holdsKernelEnd kernelEnd = true)
    (hroom : kernelEnd.toNat + 16 ≤ entry.base.toNat + entry.len.toNat) :
    ∃ mem len, mallocInitEntry kernelEnd (heap, chunk) entry =
        ({ heap with mem, startChunk := kernelEnd, len }, chunkPtr (startBlock kernelEnd entry)) ∧
      ChunkList mem kernelEnd [startBlock kernelEnd entry] := by
  have heq : entry.type = e820EntryFree := by simpa [MemoryMapEntry.isFree] using hfree
  have hke := (holdsKernelEnd_iff hbelow).mp hhold
  have hptr : chunkPtr (startBlock kernelEnd entry) = kernelEnd := by
    simp [chunkPtr, startBlock]
  have hlen : (entry.base + entry.len - kernelEnd.setWidth 64 -
      sizeofMemoryChunk.setWidth 64).setWidth 32 =
      BitVec.ofNat 32 (startBlock kernelEnd entry).len := by
    unfold sizeofMemoryChunk
    simp only [startBlock]
    bv_omega
  have hrun : mallocInitEntry kernelEnd (heap, chunk) entry =
      ({ heap with
          mem := startMem kernelEnd entry heap.mem
          startChunk := kernelEnd
          len := heap.len + chunkLen (startMem kernelEnd entry heap.mem) kernelEnd },
        kernelEnd) := by
    simp only [mallocInitEntry, heq, hstart, hhold, ne_eq, not_true_eq_false, if_false, if_true]
    rfl
  rw [hptr]
  refine ⟨_, _, hrun, hptr.symm, ⟨?_, trivial⟩, ?_, ?_, ?_⟩
  · rw [hptr, startMem, hlen]
    simp [headPtr, startBlock]
  · simp [Ordered]
  · simp only [List.mem_singleton, forall_eq, startBlock, Block.stop]
    omega
  · simp [startBlock]

/-- The block of an entry can be put after the last block when it starts behind it. -/
theorem Layout.append_entryBlock (hl : Layout (init ++ [last]))
    (hstop : last.stop 16 ≤ entry.base.toNat) (hroom : 16 < entry.len.toNat)
    (hbelow : entry.base.toNat + entry.len.toNat ≤ 2 ^ 32) :
    Layout (init ++ [last] ++ [entryBlock entry]) := by
  have hwithin := hl.within last (by simp)
  refine ⟨?_, ?_, ?_⟩
  · refine List.pairwise_append.mpr ⟨hl.ordered, by simp, ?_⟩
    intro x hx y hy
    obtain rfl : y = entryBlock entry := by simpa using hy
    have hle : x.stop 16 ≤ last.stop 16 := by
      rcases List.mem_append.mp hx with hx | hx
      · have := (List.pairwise_append.mp hl.ordered).2.2 x hx last (by simp)
        simp only [Block.stop] at this ⊢
        omega
      · obtain rfl : x = last := by simpa using hx
        exact le_refl _
    exact hle.trans hstop
  · intro x hx
    rcases List.mem_append.mp hx with hx | hx
    · exact hl.within x hx
    · obtain rfl : x = entryBlock entry := by simpa using hx
      simp only [Block.stop, entryBlock] at hstop hwithin ⊢
      omega
  · intro x hx hu
    rcases List.mem_append.mp hx with hx | hx
    · exact hl.used_pos x hx hu
    · obtain rfl : x = entryBlock entry := by simpa using hx
      simp [entryBlock] at hu

/-- An iteration that appends a chunk. -/
theorem mallocInitEntry_append (kernelEnd : Word) (hfree : entry.isFree = true)
    (hc : ChunkList heap.mem heap.startChunk (init ++ [last]))
    (hstop : last.stop 16 ≤ entry.base.toNat) (hroom : 16 < entry.len.toNat)
    (hbelow : entry.base.toNat + entry.len.toNat ≤ 2 ^ 32) :
    ∃ mem len, mallocInitEntry kernelEnd (heap, chunkPtr last) entry =
        ({ heap with mem, len }, chunkPtr (entryBlock entry)) ∧
      ChunkList mem heap.startChunk (init ++ [last] ++ [entryBlock entry]) := by
  have heq : entry.type = e820EntryFree := by simpa [MemoryMapEntry.isFree] using hfree
  have hstart : heap.startChunk ≠ 0 := by
    rw [hc.start_eq]
    exact hc.layout.headPtr_ne_zero (by simp)
  have hptr : entry.base.setWidth 32 = chunkPtr (entryBlock entry) := by
    unfold chunkPtr entryBlock
    bv_omega
  have hlen : (entry.len - sizeofMemoryChunk.setWidth 64).setWidth 32 =
      BitVec.ofNat 32 (entryBlock entry).len := by
    unfold sizeofMemoryChunk
    simp only [entryBlock]
    bv_omega
  have hl := hc.layout.append_entryBlock hstop hroom hbelow
  have hapart : ∀ x ∈ init ++ [last], Apart (chunkPtr (entryBlock entry)) 16 (chunkPtr x) 16 :=
    fun x hx => (hl.apart hx (by simp)).symm
  have hlast' := (hapart last (by simp)).symm
  have hrun : mallocInitEntry kernelEnd (heap, chunkPtr last) entry =
      ({ heap with
          mem := appendMem (chunkPtr last) entry heap.mem
          len := heap.len + chunkLen (appendMem (chunkPtr last) entry heap.mem)
            (entry.base.setWidth 32) },
        entry.base.setWidth 32) := by
    simp only [mallocInitEntry, heq, hstart, ne_eq, not_true_eq_false, if_false]
    rfl
  rw [← hptr]
  refine ⟨_, _, hrun, ?_, ?_, hl⟩
  · rw [hc.start_eq]
    cases init <;> rfl
  · rw [appendMem, hptr]
    refine linked_append.mpr ⟨hc.linked.relink_last ?_ ?_, ?_, trivial⟩
    · rw [chunkHeader_setNextChunk_self]
      simp [hlast'.symm, headPtr]
    · intro x hx
      have hxl : Apart (chunkPtr last) 16 (chunkPtr x) 16 := (hc.layout.apart hx (by simp)).symm
      have hxe := hapart x (by simp [hx])
      simp [hxl, hxe]
    · rw [chunkHeader_setNextChunk_apart hlast', hlen]
      simp [headPtr, lastPtr, entryBlock]

/-! ## The loop -/

theorem SaneEntries.tail (hs : SaneEntries (entry :: entries)) : SaneEntries entries :=
  ⟨(List.pairwise_cons.mp hs.ascending).2, fun e he => hs.below e (by simp [he]),
    fun e he => hs.room e (by simp [he])⟩

theorem SaneEntries.head_le (hs : SaneEntries (entry :: entries)) :
    ∀ e ∈ entries, entry.base.toNat + entry.len.toNat ≤ e.base.toNat :=
  (List.pairwise_cons.mp hs.ascending).1

theorem entryBlock_stop (hroom : 16 < entry.len.toNat) :
    (entryBlock entry).stop 16 = entry.base.toNat + entry.len.toNat := by
  simp only [Block.stop, entryBlock]
  omega

/-- The rest of the loop once the start chunk is found: a chunk for each free entry. -/
theorem foldl_mallocInitEntry_append (heap : Heap) (init : List Block)
    (hs : SaneEntries (mmap.filter MemoryMapEntry.isFree))
    (hc : ChunkList heap.mem heap.startChunk (init ++ [last]))
    (hstop : ∀ e ∈ mmap.filter MemoryMapEntry.isFree, last.stop 16 ≤ e.base.toNat) :
    ∃ mem len chunk, mmap.foldl (mallocInitEntry kernelEnd) (heap, chunkPtr last) =
        ({ heap with mem, len }, chunk) ∧
      ChunkList mem heap.startChunk
        (init ++ [last] ++ (mmap.filter MemoryMapEntry.isFree).map entryBlock) := by
  induction mmap generalizing heap init last with
  | nil => exact ⟨heap.mem, heap.len, _, rfl, by simpa using hc⟩
  | cons entry mmap ih =>
    rw [List.foldl_cons]
    cases hfree : entry.isFree with
    | false =>
      rw [List.filter_cons_of_neg (by simp [hfree])] at hs hstop ⊢
      rw [mallocInitEntry_skip hfree]
      exact ih heap init hs hc hstop
    | true =>
      rw [List.filter_cons_of_pos hfree] at hs hstop ⊢
      have hroom := hs.room entry (by simp)
      obtain ⟨mem, len, hrun, hc'⟩ := mallocInitEntry_append kernelEnd hfree hc
        (hstop entry (by simp)) hroom (hs.below entry (by simp))
      rw [hrun]
      obtain ⟨mem', len', chunk, hfold, hc''⟩ :=
        ih { heap with mem, len } _ hs.tail hc' fun e he => by
          rw [entryBlock_stop hroom]
          exact hs.head_le e he
      refine ⟨mem', len', chunk, hfold, ?_⟩
      simpa using hc''

/-- The whole loop. -/
theorem foldl_mallocInitEntry (heap : Heap) (chunk : Word) (hstart : heap.startChunk = 0)
    (hu : usableEntries kernelEnd mmap = entry :: entries) (hs : SaneEntries (entry :: entries))
    (hroom : kernelEnd.toNat + 16 ≤ entry.base.toNat + entry.len.toNat) :
    ∃ mem len chunk', mmap.foldl (mallocInitEntry kernelEnd) (heap, chunk) =
        ({ heap with mem, startChunk := kernelEnd, len }, chunk') ∧
      ChunkList mem kernelEnd (initialBlocks kernelEnd (entry :: entries)) := by
  induction mmap with
  | nil => simp [usableEntries] at hu
  | cons e mmap ih =>
    rw [List.foldl_cons]
    cases hfree : e.isFree with
    | false =>
      rw [mallocInitEntry_skip hfree]
      exact ih (by simpa [usableEntries, hfree] using hu)
    | true =>
      cases hke : e.holdsKernelEnd kernelEnd with
      | false =>
        rw [mallocInitEntry_before hstart hke]
        exact ih (by simpa [usableEntries, hfree, hke] using hu)
      | true =>
        obtain ⟨rfl, rfl⟩ : e = entry ∧ mmap.filter MemoryMapEntry.isFree = entries := by
          simpa [usableEntries, hfree, hke] using hu
        obtain ⟨mem, len, hrun, hc⟩ :=
          mallocInitEntry_start chunk hfree hstart (hs.below e (by simp)) hke hroom
        rw [hrun]
        obtain ⟨mem', len', chunk', hfold, hc'⟩ :=
          foldl_mallocInitEntry_append { heap with mem, startChunk := kernelEnd, len } []
            hs.tail hc fun d hd => by
              have := hs.head_le d hd
              simp only [startBlock, Block.stop]
              omega
        exact ⟨mem', len', chunk', hfold, hc'⟩

theorem usable_sublist (hu : usableEntries kernelEnd mmap = entry :: entries) :
    (entry :: entries).Sublist (mmap.filter MemoryMapEntry.isFree) := by
  rw [← hu]
  exact List.dropWhile_sublist _

theorem exists_usable (hkernel : ∃ e ∈ mmap, e.isFree = true ∧ e.holdsKernelEnd kernelEnd = true) :
    ∃ entry entries, usableEntries kernelEnd mmap = entry :: entries := by
  obtain ⟨e, he, hfree, hhold⟩ := hkernel
  cases hu : usableEntries kernelEnd mmap with
  | nil =>
    have hall := List.dropWhile_eq_nil_iff.mp hu e (List.mem_filter.mpr ⟨he, hfree⟩)
    simp [hhold] at hall
  | cons entry entries => exact ⟨entry, entries, rfl⟩

theorem usableEntries_head (hu : usableEntries kernelEnd mmap = entry :: entries) :
    entry ∈ mmap ∧ entry.isFree = true ∧ entry.holdsKernelEnd kernelEnd = true := by
  have hmem := (usable_sublist hu).subset List.mem_cons_self
  have hhold := List.head?_dropWhile_not (fun e => !e.holdsKernelEnd kernelEnd)
    (mmap.filter MemoryMapEntry.isFree)
  rw [← usableEntries, hu] at hhold
  exact ⟨(List.mem_filter.mp hmem).1, (List.mem_filter.mp hmem).2, by simpa using hhold⟩

/-- `malloc_init` builds one free chunk for each usable entry. -/
theorem mallocInit_of_usable (mem : Mem) (hu : usableEntries kernelEnd mmap = entry :: entries)
    (hs : SaneEntries (entry :: entries))
    (hroom : kernelEnd.toNat + 16 ≤ entry.base.toNat + entry.len.toNat) :
    ∃ heap, mallocInit kernelEnd mmap (Heap.boot mem) = .ok heap ∧
      HeapInv heap (initialBlocks kernelEnd (entry :: entries)) := by
  obtain ⟨mem', len, chunk, hfold, hc⟩ :=
    foldl_mallocInitEntry (Heap.boot mem) 0 rfl hu hs hroom
  have hne : (kernelEnd != 0) = true := by
    have := (holdsKernelEnd_iff (hs.below entry (by simp))).mp (usableEntries_head hu).2.2
    simp only [bne_iff_ne, ne_eq]
    bv_omega
  refine ⟨⟨mem', true, kernelEnd, len⟩, ?_, rfl, hc⟩
  simp only [mallocInit, hfold, hne, assert_true, bind, Except.bind, pure, Except.pure]

theorem SaneMap.usable (hs : SaneMap kernelEnd mmap) :
    ∃ entry entries, usableEntries kernelEnd mmap = entry :: entries ∧
      SaneEntries (entry :: entries) ∧
      kernelEnd.toNat + 16 ≤ entry.base.toNat + entry.len.toNat := by
  obtain ⟨entry, entries, hu⟩ := exists_usable hs.kernelEntry
  have hsub := usable_sublist hu
  obtain ⟨hmem, hfree, hke⟩ := usableEntries_head hu
  exact ⟨entry, entries, hu, ⟨hs.entries.ascending.sublist hsub,
    fun e he => hs.entries.below e (hsub.subset he),
    fun e he => hs.entries.room e (hsub.subset he)⟩,
    (hs.kernelRoom entry hmem hfree hke).le⟩

/-- The heap of the PC map. -/
theorem heapInv_pcMap : ∃ heap, mallocInit 0x20000 pcMap (Heap.boot fun _ => 0) = .ok heap ∧
    HeapInv heap [⟨0x20000, 0x7fbf0, false⟩, ⟨0x100000, 0x7edfff0, false⟩] := by
  obtain ⟨entry, entries, hu, hsane, hroom⟩ := saneMap_pcMap.usable
  obtain ⟨heap, hinit, hinv⟩ := mallocInit_of_usable (fun _ => 0) hu hsane hroom
  rw [← hu, show initialBlocks 0x20000 (usableEntries 0x20000 pcMap) =
    [⟨0x20000, 0x7fbf0, false⟩, ⟨0x100000, 0x7edfff0, false⟩] by decide] at hinv
  exact ⟨heap, hinit, hinv⟩

end

end Hjortron
