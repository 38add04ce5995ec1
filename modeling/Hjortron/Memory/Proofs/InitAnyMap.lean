import Hjortron.Memory.Proofs.InitSpec

/-!
# `malloc_init` on any memory map

`createdChunks` lists the chunks whose headers `malloc_init` writes for an arbitrary map, with the
lengths it stores. Bases and lengths have 64 bits and are cut to 32, and the size of a header is
subtracted without a test. A base that is cut to `NULL` ends the list of chunks: the chunk at `NULL`
and those behind it are lost. `MapFits` says for which maps the list in memory is sound.
-/

namespace Hjortron

open BlockList

/-- `KERNEL_START` (`kernel/linker.ld`). -/
def kernelStart : Nat := 0x10000

/-- The intervals `[a, b)` and `[c, d)` have an address in common. -/
def Overlap (a b c d : Nat) : Prop := max a c < min b d

instance (a b c d : Nat) : Decidable (Overlap a b c d) := inferInstanceAs (Decidable (_ < _))

/-- The end of an entry, as a number. -/
def MemoryMapEntry.stop (entry : MemoryMapEntry) : Nat := entry.base.toNat + entry.len.toNat

/-- The address of the chunk of an entry. -/
def MemoryMapEntry.ptr (entry : MemoryMapEntry) : Word := entry.base.setWidth 32

/-! ## The chunks -/

/-- A chunk that `malloc_init` creates: its address, the length that is stored, and the value of
the expression for the length in integers. -/
structure CreatedChunk where
  ptr : Word
  len : Word
  intended : Int
  deriving DecidableEq

/-- The first address behind the chunk. -/
def CreatedChunk.stop (c : CreatedChunk) : Nat := c.ptr.toNat + 16 + c.len.toNat

/-- The chunk of the entry that holds `KERNEL_END`. -/
def startCreated (kernelEnd : Word) (entry : MemoryMapEntry) : CreatedChunk where
  ptr := kernelEnd
  len :=
    (entry.base + entry.len - kernelEnd.setWidth 64 - sizeofMemoryChunk.setWidth 64).setWidth 32
  intended := entry.base.toNat + entry.len.toNat - kernelEnd.toNat - 16

/-- The chunk of a later free entry. -/
def entryCreated (entry : MemoryMapEntry) : CreatedChunk where
  ptr := entry.ptr
  len := (entry.len - sizeofMemoryChunk.setWidth 64).setWidth 32
  intended := entry.len.toNat - 16

/-- The chunk that an iteration creates. -/
def createdChunk (kernelEnd startChunk : Word) (entry : MemoryMapEntry) : Option CreatedChunk :=
  if entry.type ≠ e820EntryFree then none
  else if startChunk = 0 then
    if entry.holdsKernelEnd kernelEnd then some (startCreated kernelEnd entry) else none
  else some (entryCreated entry)

/-- The chunks that the loop creates from a given `start_chunk` on. -/
def createdChunks (kernelEnd : Word) : Word → List MemoryMapEntry → List CreatedChunk
  | _, [] => []
  | startChunk, entry :: mmap =>
    match createdChunk kernelEnd startChunk entry with
    | none => createdChunks kernelEnd startChunk mmap
    | some c => c :: createdChunks kernelEnd (if startChunk = 0 then kernelEnd else startChunk) mmap

/-- The writes of an iteration that creates `c` behind `chunk`. -/
def writeCreated (state : Heap × Word) (c : CreatedChunk) : Heap × Word :=
  let (heap, chunk) := state
  if heap.startChunk = 0 then
    let mem := setNextChunk heap.mem c.ptr 0
    let mem := setPreviousChunk mem c.ptr 0
    let mem := setAllocated mem c.ptr false
    let mem := setChunkLen mem c.ptr c.len
    ({ heap with mem, startChunk := c.ptr, len := heap.len + chunkLen mem c.ptr }, c.ptr)
  else
    let mem := setNextChunk heap.mem c.ptr 0
    let mem := setPreviousChunk mem c.ptr chunk
    let mem := setAllocated mem c.ptr false
    let mem := setChunkLen mem c.ptr c.len
    let mem := setNextChunk mem chunk c.ptr
    ({ heap with mem, len := heap.len + chunkLen mem c.ptr }, c.ptr)

/-- The created chunks up to the first at `NULL`. -/
def linkedChunks (chunks : List CreatedChunk) : List CreatedChunk :=
  chunks.takeWhile fun c => c.ptr ≠ 0

/-- The chunk at `NULL` and those that are appended to it. -/
def lostChunks (chunks : List CreatedChunk) : List CreatedChunk :=
  chunks.dropWhile fun c => c.ptr ≠ 0

/-- Following `next_chunk` from `chunk` visits the chunks `cs`, with the lengths in their headers,
and ends at `NULL`. -/
inductive ChunkWalk (m : Mem) : Word → List CreatedChunk → Prop
  | nil : ChunkWalk m 0 []
  | cons {c : CreatedChunk} {cs : List CreatedChunk} : c.ptr ≠ 0 → chunkLen m c.ptr = c.len →
    ChunkWalk m (nextChunk m c.ptr) cs → ChunkWalk m c.ptr (c :: cs)

/-- The chunks lie in free entries below 4 GiB, do not overlap each other or the kernel image, and
their lengths are those intended. -/
structure ChunksSound (kernelEnd : Word) (mmap : List MemoryMapEntry) (chunks : List CreatedChunk) :
    Prop where
  inside : ∀ c ∈ chunks, c.stop ≤ 2 ^ 32 ∧
    ∃ e ∈ mmap, e.isFree = true ∧ e.base.toNat ≤ c.ptr.toNat ∧ c.stop ≤ e.stop
  disjoint : chunks.Pairwise fun c d => ¬ Overlap c.ptr.toNat c.stop d.ptr.toNat d.stop
  kernel : ∀ c ∈ chunks, ¬ Overlap c.ptr.toNat c.stop kernelStart kernelEnd.toNat
  exact : ∀ c ∈ chunks, (c.len.toNat : Int) = c.intended

/-- The list of chunks in memory, from `start_chunk` on, is one of created chunks that are sound. -/
def HeapSound (kernelEnd : Word) (mmap : List MemoryMapEntry) (heap : Heap) : Prop :=
  ∃ chunks, chunks ⊆ createdChunks kernelEnd 0 mmap ∧
    ChunkWalk heap.mem heap.startChunk chunks ∧ ChunksSound kernelEnd mmap chunks

/-- No header of a chunk on the list is overwritten by the header of another chunk. -/
structure HeadersApart (chunks : List CreatedChunk) : Prop where
  linked : (linkedChunks chunks).Pairwise fun c d => Apart c.ptr 16 d.ptr 16
  lost : ∀ c ∈ lostChunks chunks, ∀ d ∈ linkedChunks chunks, Apart c.ptr 16 d.ptr 16

/-! ## The maps -/

/-- The base of an entry after it has been cut to 32 bits. -/
def MemoryMapEntry.lowBase (entry : MemoryMapEntry) : Nat := entry.base.toNat % 2 ^ 32

/-- The end of an entry that is moved to its cut base. -/
def MemoryMapEntry.lowStop (entry : MemoryMapEntry) : Nat := entry.lowBase + entry.len.toNat

/-- The base of the entry does not fit in 32 bits. -/
def MemoryMapEntry.IsHigh (entry : MemoryMapEntry) : Prop := 2 ^ 32 ≤ entry.base.toNat

instance (entry : MemoryMapEntry) : Decidable entry.IsHigh := inferInstanceAs (Decidable (_ ≤ _))

/-- A free entry after the one that holds `KERNEL_END`: room for a header, below 4 GiB, and beside
the kernel image. An entry with a base above 4 GiB would have to meet free memory by chance. -/
structure EntryFits (kernelEnd : Word) (mmap : List MemoryMapEntry) (start e : MemoryMapEntry) :
    Prop where
  room : 16 ≤ e.len.toNat
  below : e.lowStop ≤ 2 ^ 32
  kernel : ¬ Overlap e.lowBase e.lowStop kernelStart kernelEnd.toNat
  high : e.IsHigh → ¬ Overlap e.lowBase e.lowStop kernelEnd.toNat start.stop ∧
    ∃ d ∈ mmap, d.isFree = true ∧ d.base.toNat ≤ e.lowBase ∧ e.lowStop ≤ d.stop

/-- The entries up to the first whose chunk is at `NULL`. -/
def linkedEntries (entries : List MemoryMapEntry) : List MemoryMapEntry :=
  entries.takeWhile fun e => e.ptr ≠ 0

/-- The first entry whose chunk is at `NULL` and those after it. -/
def lostEntries (entries : List MemoryMapEntry) : List MemoryMapEntry :=
  entries.dropWhile fun e => e.ptr ≠ 0

/-- The entry that holds `KERNEL_END` has room for a header behind it and ends below 4 GiB. Every
free entry listed after it fits, up to the first whose base is cut to `NULL`; from that one on, the
headers are not written over those of the others. -/
def MapFits (kernelEnd : Word) (mmap : List MemoryMapEntry) : Prop :=
  ∃ start later, usableEntries kernelEnd mmap = start :: later ∧
    kernelEnd.toNat + 16 ≤ start.stop ∧ start.stop ≤ 2 ^ 32 ∧
    (∀ e ∈ linkedEntries later, EntryFits kernelEnd mmap start e) ∧
    ((linkedEntries later).Pairwise fun d e => d.IsHigh ∨ e.IsHigh →
      ¬ Overlap d.lowBase d.lowStop e.lowBase e.lowStop) ∧
    ∀ e ∈ lostEntries later, Apart e.ptr 16 kernelEnd 16 ∧
      ∀ d ∈ linkedEntries later, Apart e.ptr 16 d.ptr 16

section

variable {kernelEnd startChunk chunk : Word} {mmap later : List MemoryMapEntry}
  {start entry d e : MemoryMapEntry} {heap : Heap} {m : Mem} {c last : CreatedChunk}
  {cs ds : List CreatedChunk}

/-! ## The loop writes the headers of these chunks -/

theorem mallocInitEntry_eq_create :
    mallocInitEntry kernelEnd (heap, chunk) entry =
      match createdChunk kernelEnd heap.startChunk entry with
      | none => (heap, chunk)
      | some c => writeCreated (heap, chunk) c := by
  by_cases hfree : entry.type = e820EntryFree
  · by_cases hstart : heap.startChunk = 0
    · cases hhold : entry.holdsKernelEnd kernelEnd with
      | false => simp [createdChunk, mallocInitEntry, hfree, hstart, hhold]
      | true =>
        simp [createdChunk, mallocInitEntry, hfree, hstart, hhold, writeCreated, startCreated]
    · simp only [createdChunk, mallocInitEntry, hfree, hstart, writeCreated, entryCreated,
        MemoryMapEntry.ptr, ne_eq, not_true_eq_false, if_false]
  · simp [createdChunk, mallocInitEntry, hfree]

theorem writeCreated_startChunk {c : CreatedChunk} (chunk : Word)
    (hcreate : createdChunk kernelEnd heap.startChunk entry = some c) :
    (writeCreated (heap, chunk) c).1.startChunk =
      if heap.startChunk = 0 then kernelEnd else heap.startChunk := by
  unfold createdChunk at hcreate
  unfold writeCreated
  grind [startCreated]

/-- The loop of `malloc_init` writes the headers of the created chunks, one after the other. -/
theorem foldl_mallocInitEntry_eq_creates (heap : Heap) (chunk : Word) :
    mmap.foldl (mallocInitEntry kernelEnd) (heap, chunk) =
      (createdChunks kernelEnd heap.startChunk mmap).foldl writeCreated (heap, chunk) := by
  induction mmap generalizing heap chunk with
  | nil => rfl
  | cons entry mmap ih =>
    rw [List.foldl_cons, mallocInitEntry_eq_create, createdChunks]
    cases hcreate : createdChunk kernelEnd heap.startChunk entry with
    | none => exact ih heap chunk
    | some c =>
      simp only [List.foldl_cons]
      rw [← writeCreated_startChunk chunk hcreate]
      exact ih _ _

/-! ## The list in memory -/

/-- The block of a created chunk. -/
def CreatedChunk.block (c : CreatedChunk) : Block := ⟨c.ptr.toNat, c.len.toNat, false⟩

@[simp] theorem chunkPtr_block : chunkPtr c.block = c.ptr := by
  simp [chunkPtr, CreatedChunk.block]

@[simp] theorem ofNat_len_block : BitVec.ofNat 32 c.block.len = c.len := by
  simp [CreatedChunk.block]

@[simp] theorem used_block : c.block.used = false := rfl

/-- The header of a chunk that is created first. -/
theorem writeCreated_first (chunk : Word) (hstart : heap.startChunk = 0) :
    ∃ heap', writeCreated (heap, chunk) c = (heap', c.ptr) ∧ heap'.startChunk = c.ptr ∧
      Linked heap'.mem 0 [c.block] 0 := by
  rw [writeCreated, if_pos hstart]
  refine ⟨_, rfl, rfl, ?_, trivial⟩
  simp [headPtr]

/-- A chunk is created behind the last one of the list. -/
theorem writeCreated_append (hstart : heap.startChunk ≠ 0)
    (hlink : Linked heap.mem 0 ((cs ++ [last]).map CreatedChunk.block) 0)
    (hapart : (cs ++ [last, c]).Pairwise fun c d => Apart c.ptr 16 d.ptr 16) :
    ∃ heap', writeCreated (heap, last.ptr) c = (heap', c.ptr) ∧
      heap'.startChunk = heap.startChunk ∧
      Linked heap'.mem 0 ((cs ++ [last, c]).map CreatedChunk.block) 0 := by
  rcases List.pairwise_append.mp hapart with ⟨-, hlast, hcs⟩
  have hlc : Apart last.ptr 16 c.ptr 16 := (List.pairwise_cons.mp hlast).1 c (by simp)
  have hcl := hlc.symm
  rw [writeCreated, if_neg hstart]
  refine ⟨_, rfl, rfl, ?_⟩
  have happend : (cs ++ [last, c]).map CreatedChunk.block =
      cs.map CreatedChunk.block ++ [last.block] ++ [c.block] := by simp
  rw [List.map_append] at hlink
  rw [happend]
  refine linked_append.mpr ⟨hlink.relink_last ?_ ?_, ?_, trivial⟩
  · simp only [chunkPtr_block, headPtr]
    rw [chunkHeader_setNextChunk_self]
    simp [hcl]
  · intro x hx
    rcases List.mem_map.mp hx with ⟨d, hd, rfl⟩
    have hdl := (hcs d hd last (by simp)).symm
    have hdc := (hcs d hd c (by simp)).symm
    simp [hdl, hdc]
  · simp only [chunkPtr_block]
    rw [chunkHeader_setNextChunk_apart hlc]
    simp [headPtr, lastPtr]

/-- A chunk at `NULL` ends the list. -/
theorem writeCreated_null (hstart : heap.startChunk ≠ 0) (hc : c.ptr = 0)
    (hlink : Linked heap.mem 0 ((cs ++ [last]).map CreatedChunk.block) 0)
    (hapart : (cs ++ [last]).Pairwise fun c d => Apart c.ptr 16 d.ptr 16)
    (hnull : ∀ d ∈ cs ++ [last], Apart c.ptr 16 d.ptr 16) :
    ∃ heap', writeCreated (heap, last.ptr) c = (heap', c.ptr) ∧
      heap'.startChunk = heap.startChunk ∧
      Linked heap'.mem 0 ((cs ++ [last]).map CreatedChunk.block) 0 := by
  have hcs := (List.pairwise_append.mp hapart).2.2
  rw [writeCreated, if_neg hstart]
  refine ⟨_, rfl, rfl, ?_⟩
  rw [List.map_append] at hlink ⊢
  refine hlink.relink_last ?_ ?_
  · have hcl := hnull last (by simp)
    simp only [chunkPtr_block]
    rw [chunkHeader_setNextChunk_self]
    simpa [hcl] using hc
  · intro x hx
    rcases List.mem_map.mp hx with ⟨d, hd, rfl⟩
    have hdl := (hcs d hd last (by simp)).symm
    have hdc := hnull d (by simp [hd])
    simp [hdl, hdc]

/-- A chunk that is created behind a lost one leaves the list alone. -/
theorem writeCreated_lost (hstart : heap.startChunk ≠ 0)
    (hlink : Linked heap.mem 0 (cs.map CreatedChunk.block) 0)
    (hchunk : ∀ d ∈ cs, Apart chunk 16 d.ptr 16) (hc : ∀ d ∈ cs, Apart c.ptr 16 d.ptr 16) :
    ∃ heap', writeCreated (heap, chunk) c = (heap', c.ptr) ∧
      heap'.startChunk = heap.startChunk ∧ Linked heap'.mem 0 (cs.map CreatedChunk.block) 0 := by
  rw [writeCreated, if_neg hstart]
  refine ⟨_, rfl, rfl, hlink.frame ?_⟩
  intro x hx
  rcases List.mem_map.mp hx with ⟨d, hd, rfl⟩
  simp [hchunk d hd, hc d hd]

theorem foldl_writeCreated_linked (hstart : heap.startChunk ≠ 0)
    (hlink : Linked heap.mem 0 ((cs ++ [last]).map CreatedChunk.block) 0)
    (hapart : (cs ++ last :: ds).Pairwise fun c d => Apart c.ptr 16 d.ptr 16) :
    ∃ heap' init d, ds.foldl writeCreated (heap, last.ptr) = (heap', d.ptr) ∧
      cs ++ last :: ds = init ++ [d] ∧ heap'.startChunk = heap.startChunk ∧
      Linked heap'.mem 0 ((cs ++ last :: ds).map CreatedChunk.block) 0 := by
  induction ds generalizing heap cs last with
  | nil => exact ⟨heap, cs, last, rfl, rfl, rfl, hlink⟩
  | cons c ds ih =>
    have hsplit : cs ++ last :: c :: ds = (cs ++ [last]) ++ c :: ds := by simp
    have happend : cs ++ [last, c] = (cs ++ [last]) ++ [c] := by simp
    have hsub : (cs ++ [last, c]).Sublist (cs ++ last :: c :: ds) := by simp
    rcases writeCreated_append hstart hlink (hapart.sublist hsub) with
      ⟨heap₁, hwrite, hstart₁, hlink₁⟩
    rw [happend] at hlink₁
    rw [hsplit] at hapart ⊢
    rw [← hstart₁] at hstart ⊢
    rw [List.foldl_cons, hwrite]
    exact ih hstart hlink₁ hapart

theorem foldl_writeCreated_lost (hstart : heap.startChunk ≠ 0)
    (hlink : Linked heap.mem 0 (cs.map CreatedChunk.block) 0)
    (hchunk : ∀ d ∈ cs, Apart chunk 16 d.ptr 16)
    (hds : ∀ c ∈ ds, ∀ d ∈ cs, Apart c.ptr 16 d.ptr 16) :
    (ds.foldl writeCreated (heap, chunk)).1.startChunk = heap.startChunk ∧
      Linked (ds.foldl writeCreated (heap, chunk)).1.mem 0 (cs.map CreatedChunk.block) 0 := by
  induction ds generalizing heap chunk with
  | nil => exact ⟨rfl, hlink⟩
  | cons c ds ih =>
    have hc := hds c List.mem_cons_self
    rcases writeCreated_lost hstart hlink hchunk hc with ⟨heap₁, hwrite, hstart₁, hlink₁⟩
    rw [← hstart₁] at hstart ⊢
    rw [List.foldl_cons, hwrite]
    exact ih hstart hlink₁ hc fun d hd => hds d (List.mem_cons_of_mem _ hd)

/-- When no header is overwritten, the list in memory is that of the chunks up to the one at
`NULL`. -/
theorem foldl_writeCreated (mem : Mem) (hc : c.ptr ≠ 0) (hapart : HeadersApart (c :: cs)) :
    ((c :: cs).foldl writeCreated (Heap.boot mem, 0)).1.startChunk = c.ptr ∧
      Linked ((c :: cs).foldl writeCreated (Heap.boot mem, 0)).1.mem 0
        ((linkedChunks (c :: cs)).map CreatedChunk.block) 0 := by
  have hlinked : linkedChunks (c :: cs) = c :: linkedChunks cs :=
    List.takeWhile_cons_of_pos (by simpa using hc)
  have hlost : lostChunks (c :: cs) = lostChunks cs :=
    List.dropWhile_cons_of_pos (by simpa using hc)
  have hboth : linkedChunks cs ++ lostChunks cs = cs := List.takeWhile_append_dropWhile
  have hpairs := hapart.linked
  have hapart' := hapart.lost
  rw [hlinked] at hpairs hapart' ⊢
  rw [hlost] at hapart'
  rcases writeCreated_first 0 (show (Heap.boot mem).startChunk = 0 from rfl) (c := c) with
    ⟨heap₁, hfirst, hstart₁, hlink₁⟩
  have hone : Linked heap₁.mem 0 (([] ++ [c]).map CreatedChunk.block) 0 := hlink₁
  rcases foldl_writeCreated_linked (by rwa [hstart₁]) hone hpairs with
    ⟨heap₂, init, d, hfold, hlast, hstart₂, hlink₂⟩
  rw [List.nil_append] at hlast hlink₂
  have hne : heap₂.startChunk ≠ 0 := by rwa [hstart₂, hstart₁]
  rw [List.foldl_cons, hfirst, ← hboth, List.foldl_append, hfold, ← hstart₁, ← hstart₂, hboth]
  cases hrest : lostChunks cs with
  | nil => exact ⟨rfl, hlink₂⟩
  | cons e es =>
    rw [hrest] at hapart'
    have he : e.ptr = 0 := by
      have hhead := List.head?_dropWhile_not (fun c : CreatedChunk => decide (c.ptr ≠ 0)) cs
      rw [← lostChunks, hrest] at hhead
      simpa using hhead
    rw [hlast] at hlink₂ hpairs hapart' ⊢
    rcases writeCreated_null hne he hlink₂ hpairs (hapart' e List.mem_cons_self) with
      ⟨heap₃, hnull, hstart₃, hlink₃⟩
    rw [List.foldl_cons, hnull, ← hstart₃]
    rw [← hstart₃] at hne
    exact foldl_writeCreated_lost hne hlink₃ (hapart' e List.mem_cons_self)
      fun f hf => hapart' f (List.mem_cons_of_mem _ hf)

theorem Linked.chunkWalk {p : Word} (hlink : Linked m p (cs.map CreatedChunk.block) 0)
    (hne : ∀ c ∈ cs, c.ptr ≠ 0) : ChunkWalk m (headPtr (cs.map CreatedChunk.block) 0) cs := by
  induction cs generalizing p with
  | nil => exact .nil
  | cons c cs ih =>
    rcases hlink with ⟨hheader, hrest⟩
    rw [chunkPtr_block] at hheader
    have hwalk := ih hrest fun d hd => hne d (List.mem_cons_of_mem _ hd)
    rw [List.map_cons, headPtr, chunkPtr_block]
    refine .cons (hne c List.mem_cons_self) ?_ ?_
    · rw [chunkLen_of_header hheader]
      exact ofNat_len_block
    · rwa [nextChunk_of_header hheader]

/-- The walk determines the chunks up to their intended lengths. -/
theorem ChunkWalk.unique {a : Word} (h : ChunkWalk m a cs) (h' : ChunkWalk m a ds)
    (hsame : ∀ c ∈ cs, ∀ d ∈ ds, c.ptr = d.ptr → c = d) : cs = ds := by
  induction h generalizing ds with
  | nil =>
    generalize ha : (0 : Word) = a at h'
    cases h' with
    | nil => rfl
    | cons hne => exact absurd ha.symm hne
  | @cons c cs hne hlen hrest ih =>
    generalize ha : c.ptr = a at h'
    cases h' with
    | nil => exact absurd ha hne
    | @cons d ds _ _ hrest' =>
      obtain rfl := hsame c List.mem_cons_self d List.mem_cons_self ha
      rw [ih hrest' fun c hc d hd => hsame c (List.mem_cons_of_mem _ hc) d
        (List.mem_cons_of_mem _ hd)]

/-! ## One chunk -/

theorem createdChunks_started (hstart : startChunk ≠ 0) :
    createdChunks kernelEnd startChunk mmap =
      (mmap.filter MemoryMapEntry.isFree).map entryCreated := by
  induction mmap with
  | nil => rfl
  | cons entry mmap ih =>
    by_cases hfree : entry.type = e820EntryFree
    · have hcreate : createdChunk kernelEnd startChunk entry = some (entryCreated entry) := by
        rw [createdChunk, if_neg (not_not.mpr hfree), if_neg hstart]
      rw [createdChunks, hcreate, List.filter_cons_of_pos (by simp [MemoryMapEntry.isFree, hfree]),
        List.map_cons, if_neg hstart, ih]
    · simp [createdChunks, createdChunk, hfree, ih, MemoryMapEntry.isFree]

theorem holdsKernelEnd_toNat (h : entry.holdsKernelEnd kernelEnd = true) :
    entry.base.toNat < kernelEnd.toNat ∧ kernelEnd.toNat ≤ entry.stop ∧ entry.stop < 2 ^ 64 := by
  unfold MemoryMapEntry.holdsKernelEnd at h
  unfold MemoryMapEntry.stop
  simp only [Bool.and_eq_true, decide_eq_true_eq] at h
  bv_omega

/-- The chunks are those of the usable entries. -/
theorem createdChunks_eq (hu : usableEntries kernelEnd mmap = start :: later) :
    createdChunks kernelEnd 0 mmap = startCreated kernelEnd start :: later.map entryCreated := by
  induction mmap with
  | nil => simp [usableEntries] at hu
  | cons entry mmap ih =>
    by_cases hfree : entry.type = e820EntryFree
    · cases hhold : entry.holdsKernelEnd kernelEnd with
      | false =>
        have hrest := ih (by simpa [usableEntries, MemoryMapEntry.isFree, hfree, hhold] using hu)
        simpa [createdChunks, createdChunk, hfree, hhold] using hrest
      | true =>
        obtain ⟨rfl, rfl⟩ : entry = start ∧ mmap.filter MemoryMapEntry.isFree = later := by
          simpa [usableEntries, MemoryMapEntry.isFree, hfree, hhold] using hu
        have hne : kernelEnd ≠ 0 := by
          have := holdsKernelEnd_toNat hhold
          rintro rfl
          simp at this
        simp [createdChunks, createdChunk, hfree, hhold, createdChunks_started hne]
    · have hrest := ih (by simpa [usableEntries, MemoryMapEntry.isFree, hfree] using hu)
      simpa [createdChunks, createdChunk, hfree] using hrest

/-- The length of the start chunk is right exactly when there is room for its header and the
entry ends below 4 GiB. -/
theorem startCreated_exact_iff (hhold : start.holdsKernelEnd kernelEnd = true) :
    (((startCreated kernelEnd start).len.toNat : Int) = (startCreated kernelEnd start).intended ∧
      (startCreated kernelEnd start).stop ≤ 2 ^ 32) ↔
    kernelEnd.toNat + 16 ≤ start.stop ∧ start.stop ≤ 2 ^ 32 := by
  have hk := holdsKernelEnd_toNat hhold
  unfold CreatedChunk.stop MemoryMapEntry.stop at *
  simp only [startCreated, sizeofMemoryChunk]
  bv_omega

theorem startCreated_stop (hhold : start.holdsKernelEnd kernelEnd = true)
    (hroom : kernelEnd.toNat + 16 ≤ start.stop) (hbelow : start.stop ≤ 2 ^ 32) :
    (startCreated kernelEnd start).stop = start.stop := by
  have hk := holdsKernelEnd_toNat hhold
  unfold CreatedChunk.stop MemoryMapEntry.stop at *
  simp only [startCreated, sizeofMemoryChunk]
  bv_omega

theorem entryCreated_ptr : (entryCreated e).ptr.toNat = e.lowBase := by
  simp [entryCreated, MemoryMapEntry.ptr, MemoryMapEntry.lowBase]

theorem entryCreated_exact_iff :
    (((entryCreated e).len.toNat : Int) = (entryCreated e).intended ∧
      (entryCreated e).stop ≤ 2 ^ 32) ↔ 16 ≤ e.len.toNat ∧ e.lowStop ≤ 2 ^ 32 := by
  unfold CreatedChunk.stop MemoryMapEntry.lowStop
  rw [entryCreated_ptr]
  simp only [entryCreated, sizeofMemoryChunk]
  bv_omega

theorem entryCreated_stop (hroom : 16 ≤ e.len.toNat) (hbelow : e.lowStop ≤ 2 ^ 32) :
    (entryCreated e).stop = e.lowStop := by
  unfold CreatedChunk.stop MemoryMapEntry.lowStop at *
  rw [entryCreated_ptr]
  simp only [entryCreated, sizeofMemoryChunk]
  bv_omega

/-! ## All chunks -/

/-- The free entries do not overlap. -/
def FreeDisjoint (mmap : List MemoryMapEntry) : Prop :=
  (mmap.filter MemoryMapEntry.isFree).Pairwise fun d e =>
    ¬ Overlap d.base.toNat d.stop e.base.toNat e.stop

theorem lowBase_of_not_high (h : ¬ e.IsHigh) : e.lowBase = e.base.toNat ∧ e.lowStop = e.stop := by
  unfold MemoryMapEntry.IsHigh at h
  unfold MemoryMapEntry.lowStop MemoryMapEntry.stop MemoryMapEntry.lowBase
  rw [Nat.mod_eq_of_lt (by omega)]
  exact ⟨rfl, rfl⟩

theorem mem_of_usable (hu : usableEntries kernelEnd mmap = start :: later)
    (he : e ∈ start :: later) : e ∈ mmap ∧ e.isFree = true :=
  List.mem_filter.mp ((usable_sublist hu).subset he)

/-- The chunk of a later entry lies in free memory, beside the kernel image and the start chunk. -/
structure EntryPlaced (kernelEnd : Word) (mmap : List MemoryMapEntry) (start e : MemoryMapEntry) :
    Prop where
  room : 16 ≤ e.len.toNat
  below : e.lowStop ≤ 2 ^ 32
  kernel : ¬ Overlap e.lowBase e.lowStop kernelStart kernelEnd.toNat
  apart : ¬ Overlap e.lowBase e.lowStop kernelEnd.toNat start.stop
  inside : ∃ d ∈ mmap, d.isFree = true ∧ d.base.toNat ≤ e.lowBase ∧ e.lowStop ≤ d.stop

theorem overlap_comm {a b c d : Nat} : Overlap a b c d ↔ Overlap c d a b := by
  unfold Overlap
  omega

/-- Soundness in terms of the entries. -/
theorem chunksSound_iff (entries : List MemoryMapEntry)
    (hu : usableEntries kernelEnd mmap = start :: later) :
    ChunksSound kernelEnd mmap (startCreated kernelEnd start :: entries.map entryCreated) ↔
      (kernelEnd.toNat + 16 ≤ start.stop ∧ start.stop ≤ 2 ^ 32) ∧
      (∀ e ∈ entries, EntryPlaced kernelEnd mmap start e) ∧
      entries.Pairwise fun d e => ¬ Overlap d.lowBase d.lowStop e.lowBase e.lowStop := by
  have hhold := (usableEntries_head hu).2.2
  have hk := holdsKernelEnd_toNat hhold
  have hptr : (startCreated kernelEnd start).ptr = kernelEnd := rfl
  constructor
  · intro h
    obtain ⟨hdisjoint, hpairs⟩ := List.pairwise_cons.mp h.disjoint
    rw [List.pairwise_map] at hpairs
    have hstart := (startCreated_exact_iff hhold).mp
      ⟨h.exact _ List.mem_cons_self, (h.inside _ List.mem_cons_self).1⟩
    have hmem : ∀ e ∈ entries,
        entryCreated e ∈ startCreated kernelEnd start :: entries.map entryCreated :=
      fun e he => List.mem_cons_of_mem _ (List.mem_map_of_mem he)
    have hexact : ∀ e ∈ entries, 16 ≤ e.len.toNat ∧ e.lowStop ≤ 2 ^ 32 := fun e he =>
      entryCreated_exact_iff.mp ⟨h.exact _ (hmem e he), (h.inside _ (hmem e he)).1⟩
    have hstops : ∀ e ∈ entries, (entryCreated e).stop = e.lowStop := fun e he =>
      entryCreated_stop (hexact e he).1 (hexact e he).2
    refine ⟨hstart, fun e he => ⟨(hexact e he).1, (hexact e he).2, ?_, ?_, ?_⟩, ?_⟩
    · rw [← hstops e he, ← entryCreated_ptr]
      exact h.kernel _ (hmem e he)
    · rw [← hstops e he, ← entryCreated_ptr, ← startCreated_stop hhold hstart.1 hstart.2,
        overlap_comm]
      exact hdisjoint _ (List.mem_map_of_mem he)
    · rw [← hstops e he, ← entryCreated_ptr]
      exact (h.inside _ (hmem e he)).2
    · refine hpairs.imp_of_mem fun {d e} hd he hde => ?_
      rwa [hstops d hd, hstops e he, entryCreated_ptr, entryCreated_ptr] at hde
  · rintro ⟨⟨hroom, hbelow⟩, hplaced, hpairs⟩
    have hstart := (startCreated_exact_iff hhold).mpr ⟨hroom, hbelow⟩
    have hstop := startCreated_stop hhold hroom hbelow
    have hexact : ∀ e ∈ entries, _ := fun e he =>
      entryCreated_exact_iff.mpr ⟨(hplaced e he).room, (hplaced e he).below⟩
    have hstops : ∀ e ∈ entries, (entryCreated e).stop = e.lowStop := fun e he =>
      entryCreated_stop (hplaced e he).room (hplaced e he).below
    have hself := mem_of_usable hu List.mem_cons_self
    constructor
    · rw [List.forall_mem_cons, List.forall_mem_map]
      refine ⟨⟨hstart.2, start, hself.1, hself.2, by rw [hptr]; omega, hstop.le⟩, ?_⟩
      intro e he
      rw [entryCreated_ptr, hstops e he]
      exact ⟨(hplaced e he).below, (hplaced e he).inside⟩
    · rw [List.pairwise_cons, List.forall_mem_map, List.pairwise_map]
      refine ⟨fun e he => ?_, hpairs.imp_of_mem fun {d e} hd he hde => ?_⟩
      · rw [hstop, hptr, hstops e he, entryCreated_ptr, overlap_comm]
        exact (hplaced e he).apart
      · rw [hstops d hd, hstops e he, entryCreated_ptr, entryCreated_ptr]
        exact hde
    · rw [List.forall_mem_cons, List.forall_mem_map]
      refine ⟨?_, fun e he => ?_⟩
      · rw [hptr]
        unfold Overlap
        omega
      · rw [hstops e he, entryCreated_ptr]
        exact (hplaced e he).kernel
    · rw [List.forall_mem_cons, List.forall_mem_map]
      exact ⟨hstart.1, fun e he => (hexact e he).1⟩

/-- An entry below 4 GiB is its own free memory, and apart from the others. -/
theorem entryPlaced_iff (hdisjoint : FreeDisjoint mmap)
    (hu : usableEntries kernelEnd mmap = start :: later) (he : e ∈ later) :
    EntryPlaced kernelEnd mmap start e ↔ EntryFits kernelEnd mmap start e := by
  have hk := holdsKernelEnd_toNat (usableEntries_head hu).2.2
  have hmem := mem_of_usable hu (List.mem_cons_of_mem _ he)
  have hapart := (List.pairwise_cons.mp (hdisjoint.sublist (usable_sublist hu))).1 e he
  constructor
  · intro h
    exact ⟨h.room, h.below, h.kernel, fun _ => ⟨h.apart, h.inside⟩⟩
  · intro h
    by_cases hi : e.IsHigh
    · exact ⟨h.room, h.below, h.kernel, (h.high hi).1, (h.high hi).2⟩
    · obtain ⟨hbase, hstop⟩ := lowBase_of_not_high hi
      refine ⟨h.room, h.below, h.kernel, ?_, e, hmem.1, hmem.2, hbase.ge, hstop.le⟩
      rw [hbase, hstop]
      unfold Overlap at hapart ⊢
      omega

theorem linkedEntries_pairwise_iff (hdisjoint : FreeDisjoint mmap)
    (hu : usableEntries kernelEnd mmap = start :: later) :
    ((linkedEntries later).Pairwise fun d e =>
        ¬ Overlap d.lowBase d.lowStop e.lowBase e.lowStop) ↔
      (linkedEntries later).Pairwise fun d e => d.IsHigh ∨ e.IsHigh →
        ¬ Overlap d.lowBase d.lowStop e.lowBase e.lowStop := by
  have hlater := (List.pairwise_cons.mp (hdisjoint.sublist (usable_sublist hu))).2
  have hapart := hlater.sublist (List.takeWhile_sublist fun e => decide (e.ptr ≠ 0))
  rw [← linkedEntries] at hapart
  constructor
  · intro h
    refine h.imp ?_
    exact fun hde _ => hde
  · intro h
    refine (h.and hapart).imp fun {d e} hde => ?_
    by_cases hi : d.IsHigh ∨ e.IsHigh
    · exact hde.1 hi
    · rw [not_or] at hi
      obtain ⟨hd, hds⟩ := lowBase_of_not_high hi.1
      obtain ⟨he, hes⟩ := lowBase_of_not_high hi.2
      rw [hd, hds, he, hes]
      exact hde.2

/-! ## The list that `malloc_init` leaves -/

theorem kernelEnd_ne_zero (hu : usableEntries kernelEnd mmap = start :: later) :
    kernelEnd ≠ 0 := by
  have hk := holdsKernelEnd_toNat (usableEntries_head hu).2.2
  rintro rfl
  simp at hk

/-- The chunks on the list and the lost ones by their entries. -/
theorem linkedChunks_eq (hu : usableEntries kernelEnd mmap = start :: later) :
    linkedChunks (createdChunks kernelEnd 0 mmap) =
        startCreated kernelEnd start :: (linkedEntries later).map entryCreated ∧
      lostChunks (createdChunks kernelEnd 0 mmap) = (lostEntries later).map entryCreated := by
  have hne : (startCreated kernelEnd start).ptr ≠ 0 := kernelEnd_ne_zero hu
  rw [createdChunks_eq hu, linkedChunks, lostChunks,
    List.takeWhile_cons_of_pos (by simpa using hne),
    List.dropWhile_cons_of_pos (by simpa using hne), List.takeWhile_map, List.dropWhile_map]
  exact ⟨rfl, rfl⟩

theorem foldl_writeCreated_startChunk {cs : List CreatedChunk} (hstart : heap.startChunk ≠ 0) :
    (cs.foldl writeCreated (heap, chunk)).1.startChunk = heap.startChunk := by
  induction cs generalizing heap chunk with
  | nil => rfl
  | cons c cs ih =>
    have hkeep : (writeCreated (heap, chunk) c).1.startChunk = heap.startChunk := by
      rw [writeCreated, if_neg hstart]
    rw [List.foldl_cons, ih (by rwa [hkeep]), hkeep]

/-- `malloc_init` returns on every map with a free entry that holds `KERNEL_END`. -/
theorem mallocInit_of_holds (mem : Mem)
    (hkernel : ∃ e ∈ mmap, e.isFree = true ∧ e.holdsKernelEnd kernelEnd = true) :
    mallocInit kernelEnd mmap (Heap.boot mem) =
      .ok { ((createdChunks kernelEnd 0 mmap).foldl writeCreated (Heap.boot mem, 0)).1 with
        initialized := true } := by
  obtain ⟨start, later, hu⟩ := exists_usable hkernel
  have hstart : ((createdChunks kernelEnd 0 mmap).foldl writeCreated
      (Heap.boot mem, 0)).1.startChunk ≠ 0 := by
    have hne := kernelEnd_ne_zero hu
    rw [createdChunks_eq hu, List.foldl_cons, writeCreated,
      if_pos (show (Heap.boot mem).startChunk = 0 from rfl), foldl_writeCreated_startChunk hne]
    exact hne
  have hfold : mmap.foldl (mallocInitEntry kernelEnd) (Heap.boot mem, 0) =
      (createdChunks kernelEnd 0 mmap).foldl writeCreated (Heap.boot mem, 0) :=
    foldl_mallocInitEntry_eq_creates (Heap.boot mem) 0
  rw [mallocInit, hfold]
  simp only [bne_iff_ne.mpr hstart, assert_true]
  rfl

theorem linkedChunks_ne_zero {c : CreatedChunk} (hc : c ∈ linkedChunks cs) : c.ptr ≠ 0 := by
  have h := List.mem_takeWhile_imp hc
  simpa using h

/-- The headers of the chunks from `start_chunk` on, when none is overwritten. -/
theorem mallocInit_linked (mem : Mem) (hu : usableEntries kernelEnd mmap = start :: later)
    (hapart : HeadersApart (createdChunks kernelEnd 0 mmap)) :
    ∃ heap, mallocInit kernelEnd mmap (Heap.boot mem) = .ok heap ∧ heap.initialized = true ∧
      heap.startChunk = kernelEnd ∧
      Linked heap.mem 0
        ((linkedChunks (createdChunks kernelEnd 0 mmap)).map CreatedChunk.block) 0 := by
  have hhead := usableEntries_head hu
  refine ⟨_, mallocInit_of_holds mem ⟨start, hhead.1, hhead.2⟩, rfl, ?_⟩
  rw [createdChunks_eq hu] at hapart ⊢
  exact foldl_writeCreated mem (c := startCreated kernelEnd start) (kernelEnd_ne_zero hu) hapart

theorem headPtr_linkedChunks (hu : usableEntries kernelEnd mmap = start :: later) :
    headPtr ((linkedChunks (createdChunks kernelEnd 0 mmap)).map CreatedChunk.block) 0 =
      kernelEnd := by
  rw [(linkedChunks_eq hu).1, List.map_cons, headPtr, chunkPtr_block]
  rfl

/-- The chunks from `start_chunk` on, when no header is overwritten. -/
theorem mallocInit_walk (mem : Mem) (hu : usableEntries kernelEnd mmap = start :: later)
    (hapart : HeadersApart (createdChunks kernelEnd 0 mmap)) :
    ∃ heap, mallocInit kernelEnd mmap (Heap.boot mem) = .ok heap ∧
      ChunkWalk heap.mem heap.startChunk (linkedChunks (createdChunks kernelEnd 0 mmap)) := by
  rcases mallocInit_linked mem hu hapart with ⟨heap, hinit, -, hstart, hlink⟩
  have hwalk := hlink.chunkWalk fun c => linkedChunks_ne_zero
  rw [headPtr_linkedChunks hu] at hwalk
  exact ⟨heap, hinit, hstart.symm ▸ hwalk⟩

/-- Chunks whose headers are apart are told apart by their addresses. -/
theorem HeadersApart.eq_of_ptr (h : HeadersApart cs) {c d : CreatedChunk} (hc : c ∈ cs)
    (hd : d ∈ linkedChunks cs) (hptr : c.ptr = d.ptr) : c = d := by
  have hself : ¬ Apart c.ptr 16 d.ptr 16 := by
    rw [hptr]
    unfold Apart
    simp
  have hboth : linkedChunks cs ++ lostChunks cs = cs := List.takeWhile_append_dropWhile
  rw [← hboth] at hc
  rcases List.mem_append.mp hc with hc | hc
  · by_contra hne
    have hsymm : Std.Symm fun c d : CreatedChunk => Apart c.ptr 16 d.ptr 16 :=
      ⟨fun _ _ h => h.symm⟩
    exact hself (h.linked.forall hc hd hne)
  · exact absurd (h.lost c hc d hd) hself

theorem apart_of_not_overlap {a b : Word} {n k : Nat} (ha : a.toNat + 16 ≤ n) (hn : n ≤ 2 ^ 32)
    (hb : b.toNat + 16 ≤ k) (hk : k ≤ 2 ^ 32) (h : ¬ Overlap a.toNat n b.toNat k) :
    Apart a 16 b 16 := by
  unfold Overlap at h
  unfold Apart
  bv_omega

/-- On a map that fits, the chunks on the list are sound and no header is overwritten. -/
theorem MapFits.sound (hdisjoint : FreeDisjoint mmap) (h : MapFits kernelEnd mmap) :
    ChunksSound kernelEnd mmap (linkedChunks (createdChunks kernelEnd 0 mmap)) ∧
      HeadersApart (createdChunks kernelEnd 0 mmap) := by
  rcases h with ⟨start, later, hu, hroom, hbelow, hfits, hpairs, hlost⟩
  have hmem : ∀ e ∈ linkedEntries later, e ∈ later := fun e he =>
    (List.takeWhile_sublist _).subset he
  have hsound : ChunksSound kernelEnd mmap (linkedChunks (createdChunks kernelEnd 0 mmap)) := by
    rw [(linkedChunks_eq hu).1, chunksSound_iff _ hu, linkedEntries_pairwise_iff hdisjoint hu]
    exact ⟨⟨hroom, hbelow⟩,
      fun e he => (entryPlaced_iff hdisjoint hu (hmem e he)).mpr (hfits e he), hpairs⟩
  refine ⟨hsound, ?_, ?_⟩
  · refine hsound.disjoint.imp_of_mem fun {c d} hc hd hcd => ?_
    exact apart_of_not_overlap (Nat.le_add_right _ _) (hsound.inside c hc).1
      (Nat.le_add_right _ _) (hsound.inside d hd).1 hcd
  · rw [(linkedChunks_eq hu).1, (linkedChunks_eq hu).2]
    intro c hc d hd
    rcases List.mem_map.mp hc with ⟨e, he, rfl⟩
    rcases List.mem_cons.mp hd with rfl | hd
    · exact (hlost e he).1
    · rcases List.mem_map.mp hd with ⟨f, hf, rfl⟩
      exact (hlost e he).2 f hf

end

theorem mapFits_pcMap : MapFits 0x20000 pcMap := by
  refine ⟨⟨0x0, 0x9fc00, 1⟩, [⟨0x100000, 0x7ee0000, 1⟩], by decide, by decide, by decide,
    ?_, by decide, by decide⟩
  intro e he
  obtain rfl := List.mem_singleton.mp ((List.takeWhile_subset _) he)
  exact ⟨by decide, by decide, by decide, fun h => absurd h (by decide)⟩

/-- The map of a PC with 1 GiB more above 4 GiB. -/
def highMap : List MemoryMapEntry := pcMap ++ [⟨0x100010000, 0x40000000, 1⟩]

end Hjortron
