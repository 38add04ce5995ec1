import Hjortron.Memory.Proofs.InitAnyMap
import Hjortron.Memory.Proofs.MallocSpec
import Hjortron.Misc.BlockRooms
import Hjortron.Misc.Run

/-!
# The heap and the boot stack

`init32.s` sets the stack to `0x90000`, pushes the boot information and calls the kernel, so that
the eight bytes below `0x90000` are in use as long as `main` runs. `malloc_init` knows nothing of
them. From a map that fits, calls of `malloc` fill the free entries from the bottom, so that the
map, `KERNEL_END` and the sizes of the requests tell whether the stack is reached.
-/

namespace Hjortron

open BlockList

/-- The stack pointer `init32.s` sets. -/
def bootStackTop : Nat := 0x90000

/-- The stack pointer when `main` starts: an argument and a return address have been pushed. -/
def bootStackPointer : Word := 0x8FFF8

/-- One of the `n` bytes from `a` on is a byte of the boot stack. -/
def TouchesStack (a : Word) (n : Nat) : Prop :=
  ∃ x, InRange bootStackPointer 8 x ∧ InRange a n x

/-- The first chunk from `chunk` on that is free and has `len` bytes. -/
inductive FirstFit (m : Mem) (len : Word) : Word → Word → Prop
  | here {chunk : Word} : chunk ≠ 0 → allocated m chunk = false → len ≤ chunkLen m chunk →
    FirstFit m len chunk chunk
  | next {chunk found : Word} : chunk ≠ 0 → ¬ (allocated m chunk = false ∧ len ≤ chunkLen m chunk) →
    FirstFit m len (nextChunk m chunk) found → FirstFit m len chunk found

/-- The chunk that the split of `chunk` finds behind it. -/
def splitNext (m : Mem) (chunk len : Word) : Word :=
  nextChunk (setPreviousChunk m (chunk + len + sizeofMemoryChunk) chunk) chunk

/-- The chunks whose headers `malloc` writes when it takes `chunk`. -/
def mallocHeaders (m : Mem) (chunk len : Word) : List Word :=
  chunk ::
    if len + sizeofMemoryChunk < chunkLen m chunk then
      (chunk + len + sizeofMemoryChunk) ::
        if splitNext m chunk len ≠ 0 then [splitNext m chunk len] else []
    else
      []

/-- A heap with all that its calls of `malloc` have returned and written. -/
structure MallocLog where
  heap : Heap
  blocks : List (Word × Word)
  headers : List Word

def MallocLog.start (heap : Heap) : MallocLog := ⟨heap, [], []⟩

/-- A successful call of `malloc`. -/
def MallocStep (s : MallocLog) (len : Word) (t : MallocLog) : Prop :=
  ∃ ptr heap, malloc s.heap len = .ok (ptr, heap) ∧
    t = ⟨heap, (ptr, len) :: s.blocks,
      mallocHeaders s.heap.mem (ptr - sizeofMemoryChunk) len ++ s.headers⟩

/-- No block that was returned and no header that was written touches the boot stack. -/
structure MallocLog.OffStack (s : MallocLog) : Prop where
  blocks : ∀ b ∈ s.blocks, ¬ TouchesStack b.1 b.2.toNat
  headers : ∀ c ∈ s.headers, ¬ TouchesStack c 16

/-- The entries that `malloc_init` makes chunks of, from `KERNEL_END` on. -/
def mapRooms (kernelEnd : Word) (mmap : List MemoryMapEntry) : List Room :=
  match usableEntries kernelEnd mmap with
  | [] => []
  | start :: later =>
    Room.empty kernelEnd.toNat start.stop ::
      (linkedEntries later).map fun e => Room.empty e.lowBase e.lowStop

/-- Filling the entries from the bottom with the requests does not reach the boot stack. -/
def StackClear (kernelEnd : Word) (mmap : List MemoryMapEntry) (lens : List Word) : Prop :=
  ∀ r ∈ lens.foldl (fun rooms len => serve 16 len.toNat rooms) (mapRooms kernelEnd mmap),
    ¬ Overlap r.start r.reach (bootStackTop - 8) bootStackTop

instance (kernelEnd : Word) (mmap : List MemoryMapEntry) (lens : List Word) :
    Decidable (StackClear kernelEnd mmap lens) := inferInstanceAs (Decidable (∀ _ ∈ _, _))

section

variable {m : Mem} {a x chunk chunk' found len ptr kernelEnd : Word} {n : Nat} {heap heap' : Heap}
  {s t : MallocLog} {lens : List Word} {mmap : List MemoryMapEntry} {b : Block}
  {bs pre post : List Block} {start e : MemoryMapEntry}

/-! ## What a call of `malloc` takes, returns and writes -/

theorem findChunk_firstFit {fuel : Nat} (h : findChunk m len fuel chunk = .ok found)
    (hne : found ≠ 0) : FirstFit m len chunk found := by
  induction fuel generalizing chunk with
  | zero => cases h
  | succ fuel ih =>
    rw [findChunk] at h
    by_cases hz : chunk = 0
    · rw [if_pos hz] at h
      obtain rfl := Except.ok.inj h
      exact absurd hz hne
    · rw [if_neg hz] at h
      by_cases hfit : allocated m chunk = false ∧ len ≤ chunkLen m chunk
      · rw [if_pos (by simp [hfit.1, hfit.2])] at h
        obtain rfl := Except.ok.inj h
        exact .here hz hfit.1 hfit.2
      · rw [if_neg (by simpa using hfit)] at h
        exact .next hz hfit (ih h)

/-- A successful call takes the first chunk that fits. -/
theorem malloc_firstFit (h : malloc heap len = .ok (ptr, heap')) :
    len ≠ 0 ∧ ∃ chunk, FirstFit heap.mem len heap.startChunk chunk ∧
      ptr = chunk + sizeofMemoryChunk ∧
      heap' = { heap with mem := takeChunk heap.mem chunk len } := by
  obtain ⟨_, -, h⟩ := bind_eq_ok.mp h
  obtain ⟨_, hlen, h⟩ := bind_eq_ok.mp h
  obtain ⟨chunk, hfind, h⟩ := bind_eq_ok.mp h
  obtain ⟨_, hchunk, h⟩ := bind_eq_ok.mp h
  obtain ⟨rfl, rfl⟩ := Prod.mk.inj (Except.ok.inj h)
  rw [assert_eq_ok, bne_iff_ne] at hlen hchunk
  exact ⟨hlen, chunk, findChunk_firstFit hfind hchunk, rfl, rfl⟩

/-- The split changes no byte outside the headers of the chunk, its tail and the chunk behind. -/
theorem splitChunk_frame (hchunk : ¬ InRange chunk 16 x)
    (htail : ¬ InRange (chunk + len + sizeofMemoryChunk) 16 x)
    (hbehind : splitNext m chunk len ≠ 0 → ¬ InRange (splitNext m chunk len) 16 x) :
    splitChunk m chunk len x = m x := by
  have hnext : ∀ v u w, nextChunk (setChunkLen (setAllocated
      (setNextChunk (setPreviousChunk m (chunk + len + sizeofMemoryChunk) chunk)
        (chunk + len + sizeofMemoryChunk) v) (chunk + len + sizeofMemoryChunk) u)
      (chunk + len + sizeofMemoryChunk) w) (chunk + len + sizeofMemoryChunk) = v := by
    intro v u w
    change (chunkHeader _ _).next = v
    simp
  have hwritten : ∀ v u w, setChunkLen (setAllocated
      (setNextChunk (setPreviousChunk m (chunk + len + sizeofMemoryChunk) chunk)
        (chunk + len + sizeofMemoryChunk) v) (chunk + len + sizeofMemoryChunk) u)
      (chunk + len + sizeofMemoryChunk) w x = m x := by
    intro v u w
    rw [setChunkLen_frame htail, setAllocated_frame htail, setNextChunk_frame htail,
      setPreviousChunk_frame htail]
  unfold splitChunk
  simp only [hnext]
  rw [setNextChunk_frame hchunk, setChunkLen_frame hchunk]
  by_cases hne : splitNext m chunk len ≠ 0
  · rw [splitNext] at hne hbehind
    rw [if_pos hne, setPreviousChunk_frame (hbehind hne)]
    exact hwritten _ _ _
  · rw [splitNext] at hne
    rw [if_neg hne]
    exact hwritten _ _ _

theorem forall_mallocHeaders {P : Word → Prop} :
    (∀ c ∈ mallocHeaders m chunk len, P c) ↔
      P chunk ∧ (len + sizeofMemoryChunk < chunkLen m chunk →
        P (chunk + len + sizeofMemoryChunk) ∧
        (splitNext m chunk len ≠ 0 → P (splitNext m chunk len))) := by
  rw [mallocHeaders, List.forall_mem_cons]
  by_cases hsplit : len + sizeofMemoryChunk < chunkLen m chunk
  · rw [if_pos hsplit, List.forall_mem_cons]
    by_cases hne : splitNext m chunk len = 0
    · simp only [hne, ne_eq, not_true_eq_false, if_false, List.not_mem_nil, false_implies,
        implies_true, hsplit, true_implies]
    · simp only [hne, ne_eq, not_false_eq_true, if_true, List.mem_singleton, forall_eq, hsplit,
        true_implies]
  · simp only [hsplit, if_false, List.not_mem_nil, false_implies, implies_true]

/-- A call changes no byte outside the headers it writes. -/
theorem takeChunk_frame (h : ∀ c ∈ mallocHeaders m chunk len, ¬ InRange c 16 x) :
    takeChunk m chunk len x = m x := by
  obtain ⟨hchunk, hsplits⟩ := forall_mallocHeaders.mp h
  rw [takeChunk, setAllocated_frame hchunk]
  by_cases hsplit : len + sizeofMemoryChunk < chunkLen m chunk
  · rw [if_pos hsplit]
    exact splitChunk_frame hchunk (hsplits hsplit).1 (hsplits hsplit).2
  · rw [if_neg hsplit]

/-! ## The headers and the chunks of the list -/

theorem Spread.inHeader_iff (hs : Spread bs) (hb : b ∈ bs) :
    InRange (chunkPtr b) 16 x ↔ b.addr ≤ x.toNat ∧ x.toNat < b.addr + 16 := by
  have hwithin := hs.within b hb
  simp only [Block.stop] at hwithin
  rw [inRange_toNat (by rw [hs.chunkPtr_toNat hb]; omega), hs.chunkPtr_toNat hb]

/-- The search ends at the first block that fits. -/
theorem FirstFit.block {p : Word} (h : FirstFit m len chunk found) (hchunk : chunk = headPtr bs 0)
    (hlink : Linked m p bs 0) (hs : Spread bs) :
    ∃ pre b post, bs = pre ++ b :: post ∧ (∀ c ∈ pre, ¬ c.Fits len.toNat) ∧ b.Fits len.toNat ∧
      found = chunkPtr b := by
  induction bs generalizing p chunk with
  | nil =>
    cases h with
    | here hne => exact absurd hchunk hne
    | next hne => exact absurd hchunk hne
  | cons b bs ih =>
    rcases hlink with ⟨hheader, hrest⟩
    have hfits := fits_iff len hs List.mem_cons_self hheader
    obtain rfl : chunk = chunkPtr b := hchunk
    cases h with
    | here _ hfree hroom =>
      exact ⟨[], b, bs, rfl, by simp, hfits.mp (by simp [hfree, hroom]), rfl⟩
    | next _ hskip hnext =>
      have hnot : ¬ b.Fits len.toNat := fun hfit => hskip (by simpa using hfits.mpr hfit)
      have hs' : Spread bs :=
        ⟨(List.pairwise_cons.mp hs.apart).2, fun c hc => hs.within c (List.mem_cons_of_mem _ hc)⟩
      rcases ih hnext (nextChunk_of_header hheader) hrest hs' with
        ⟨pre, c, post, rfl, hpre, hfit, rfl⟩
      exact ⟨b :: pre, c, post, rfl, List.forall_mem_cons.mpr ⟨hnot, hpre⟩, hfit, rfl⟩

/-- The chunk behind the rest that a split cuts off. -/
theorem splitNext_eq (hs : Spread (pre ++ b :: post)) (hlink : Linked m 0 (pre ++ b :: post) 0)
    (hfit : b.Fits len.toNat) (hsplit : len.toNat + 16 < b.len) :
    splitNext m (chunkPtr b) len = headPtr post 0 := by
  have hpieces := hs.take hfit
  rw [take, if_pos hsplit] at hpieces
  have hsplit' : pre ++ ([⟨b.addr, len.toNat, true⟩,
      ⟨b.addr + 16 + len.toNat, b.len - len.toNat - 16, false⟩] ++ post) =
      (pre ++ [⟨b.addr, len.toNat, true⟩]) ++
        ⟨b.addr + 16 + len.toNat, b.len - len.toNat - 16, false⟩ :: post := by simp
  rw [hsplit'] at hpieces
  have hapart : Apart _ 16 (chunkPtr b) 16 := (hpieces.headers (b := ⟨b.addr, len.toNat, true⟩)
    (by simp) List.mem_cons_self).symm
  rw [chunkPtr_remainder rfl] at hapart
  rw [splitNext, nextChunk_of_header (chunkHeader_setPreviousChunk_apart hapart)]
  exact nextChunk_of_header (linked_append.mp hlink).2.1

/-- The headers that a call writes and the bytes that it hands out. -/
theorem served_iff (hs : Spread (pre ++ b :: post)) (hlink : Linked m 0 (pre ++ b :: post) 0)
    (hfit : b.Fits len.toNat) :
    (InRange (chunkPtr b + sizeofMemoryChunk) len.toNat x ∨
        ∃ c ∈ mallocHeaders m (chunkPtr b) len, InRange c 16 x) ↔
      Served 16 len.toNat b post x.toNat := by
  have hb : b ∈ pre ++ b :: post := by simp
  have hwithin := hs.within b hb
  have htake := hs.take hfit
  have htest := split_test_iff hs hlink hfit
  have hlen := hfit.2
  have hheader := hs.inHeader_iff hb (x := x)
  have hblock : InRange (chunkPtr b + sizeofMemoryChunk) len.toNat x ↔
      b.addr + 16 ≤ x.toNat ∧ x.toNat < b.addr + 16 + len.toNat := by
    simp only [Block.stop] at hwithin
    unfold chunkPtr sizeofMemoryChunk InRange
    bv_omega
  rw [mallocHeaders, Served]
  by_cases hsplit : len.toNat + 16 < b.len
  · rw [if_pos (htest.mpr hsplit), splitNext_eq hs hlink hfit hsplit,
      ← chunkPtr_remainder (l := b.len - len.toNat - 16) (v := false) rfl]
    rw [take, if_pos hsplit] at htake
    have hrest := htake.inHeader_iff (x := x)
      (b := ⟨b.addr + 16 + len.toNat, b.len - len.toNat - 16, false⟩) (by simp)
    dsimp only at hrest
    cases post with
    | nil =>
      simp only [headPtr, ne_eq, not_true_eq_false, if_false, List.mem_cons, List.not_mem_nil,
        or_false, exists_eq_or_imp, exists_eq_left, hheader, hblock, hrest, hsplit, true_and,
        List.head?_nil, Option.mem_def, reduceCtorEq, false_and, exists_false]
      omega
    | cons d ds =>
      have hd := hs.inHeader_iff (b := d) (by simp) (x := x)
      have hne := hs.chunkPtr_ne_zero (b := d) (by simp)
      simp only [headPtr, ne_eq, hne, not_false_eq_true, if_true, List.mem_cons, List.not_mem_nil,
        or_false, exists_eq_or_imp, exists_eq_left, hheader, hblock, hrest, hd, hsplit, true_and,
        List.head?_cons, Option.mem_def, Option.some.injEq, exists_eq_left']
      omega
  · rw [if_neg (mt htest.mp hsplit)]
    simp only [List.mem_singleton, exists_eq_left, hsplit, false_and, or_false, hheader, hblock]
    omega

/-! ## Runs -/

/-- The address belongs to a block that was returned or to a header that was written. -/
def MallocLog.Touches (s : MallocLog) (x : Word) : Prop :=
  (∃ b ∈ s.blocks, InRange b.1 b.2.toNat x) ∨ ∃ c ∈ s.headers, InRange c 16 x

/-- The list of chunks is that of rooms, and what was touched is the filled part of them. -/
structure RoomsInv (s : MallocLog) (rooms : List Room) : Prop where
  chunks : ∃ bss, List.Forall₂ (Room.Cut 16) rooms bss ∧ Spread bss.flatten ∧
    s.heap.startChunk = headPtr bss.flatten 0 ∧ Linked s.heap.mem 0 bss.flatten 0
  touched : ∀ x, s.Touches x ↔ Filled rooms x.toNat

/-- A call of `malloc` serves the request from the rooms. -/
theorem MallocStep.rooms {rooms : List Room} (h : MallocStep s len t) (hs : RoomsInv s rooms) :
    RoomsInv t (serve 16 len.toNat rooms) := by
  rcases h with ⟨ptr, heap, hm, rfl⟩
  rcases malloc_firstFit hm with ⟨hlen, chunk, hfirst, rfl, rfl⟩
  rcases hs.chunks with ⟨bss, hcut, hspread, hstart, hlink⟩
  rcases hfirst.block hstart hlink hspread with ⟨pre, b, post, hbss, hpre, hfit, rfl⟩
  rcases cut_serve (by decide) (show 1 ≤ len.toNat by bv_omega) hcut hbss hpre hfit with
    ⟨bss', hcut', hflat, hfilled⟩
  rw [hbss] at hspread hlink hstart
  refine ⟨⟨bss', hcut', ?_, ?_, ?_⟩, fun x => ?_⟩
  · rw [hflat]
    exact hspread.take hfit
  · rw [hflat, headPtr_take]
    exact hstart
  · rw [hflat]
    exact (takeChunk_linked hspread hlink hfit).1
  · rw [hfilled, ← hs.touched, ← served_iff hspread hlink hfit]
    unfold MallocLog.Touches
    simp only [BitVec.add_sub_cancel, List.mem_cons, List.mem_append, or_and_right, exists_or,
      exists_eq_left]
    exact iff_of_eq (by ac_rfl)

theorem mallocRun_rooms {rooms : List Room} (hrun : Run MallocStep s lens t)
    (hs : RoomsInv s rooms) :
    RoomsInv t (lens.foldl (fun rooms len => serve 16 len.toNat rooms) rooms) := by
  induction hrun generalizing rooms with
  | nil => exact hs
  | cons h _ ih => exact ih (h.rooms hs)

/-- No block and no header is on the stack when the filled part of the rooms is not. -/
theorem RoomsInv.offStack_iff {rooms : List Room} (hs : RoomsInv s rooms) :
    s.OffStack ↔ ∀ r ∈ rooms, ¬ Overlap r.start r.reach (bootStackTop - 8) bootStackTop := by
  have hstack : ∀ x, InRange bootStackPointer 8 x ↔
      bootStackTop - 8 ≤ x.toNat ∧ x.toNat < bootStackTop := by
    intro x
    unfold InRange bootStackPointer bootStackTop
    bv_omega
  have htouch : s.OffStack ↔ ∀ x, InRange bootStackPointer 8 x → ¬ s.Touches x := by
    constructor
    · intro h x hx
      rintro (⟨b, hb, hbx⟩ | ⟨c, hc, hcx⟩)
      · exact h.blocks b hb ⟨x, hx, hbx⟩
      · exact h.headers c hc ⟨x, hx, hcx⟩
    · intro h
      constructor
      · rintro b hb ⟨x, hx, hbx⟩
        exact h x hx (.inl ⟨b, hb, hbx⟩)
      · rintro c hc ⟨x, hx, hcx⟩
        exact h x hx (.inr ⟨c, hc, hcx⟩)
  rw [htouch]
  constructor
  · intro h r hr hover
    unfold Overlap at hover
    have hlt : max r.start (bootStackTop - 8) < 2 ^ 32 := by
      unfold bootStackTop at *
      omega
    have hx : (BitVec.ofNat 32 (max r.start (bootStackTop - 8))).toNat =
        max r.start (bootStackTop - 8) := by
      rw [BitVec.toNat_ofNat, Nat.mod_eq_of_lt hlt]
    apply h (BitVec.ofNat 32 (max r.start (bootStackTop - 8)))
    · rw [hstack, hx]
      unfold bootStackTop at *
      omega
    · rw [hs.touched]
      refine ⟨r, hr, ?_, ?_⟩
      · rw [hx]
        exact Nat.le_max_left _ _
      · rw [hx]
        omega
  · intro h x hx htouched
    rcases (hs.touched x).mp htouched with ⟨r, hr, hle, hlt⟩
    apply h r hr
    have hin := (hstack x).mp hx
    unfold Overlap
    omega

/-- A log off the boot stack has not changed it. -/
theorem MallocStep.keeps_stack (h : MallocStep s len t) (ht : t.OffStack)
    (hx : InRange bootStackPointer 8 x) : t.heap.mem x = s.heap.mem x := by
  obtain ⟨ptr, heap, hm, rfl⟩ := h
  obtain ⟨-, chunk, -, rfl, rfl⟩ := malloc_firstFit hm
  apply takeChunk_frame
  intro c hc hcx
  refine ht.headers c ?_ ⟨x, hx, hcx⟩
  rw [BitVec.add_sub_cancel]
  exact List.mem_append_left _ hc

theorem MallocStep.offStack_of_next (h : MallocStep s len t) (ht : t.OffStack) : s.OffStack := by
  rcases h with ⟨ptr, heap, -, rfl⟩
  exact ⟨fun b hb => ht.blocks b (List.mem_cons_of_mem _ hb),
    fun c hc => ht.headers c (List.mem_append_right _ hc)⟩

theorem mallocRun_keeps_stack (hrun : Run MallocStep s lens t) (ht : t.OffStack)
    (hx : InRange bootStackPointer 8 x) : t.heap.mem x = s.heap.mem x := by
  induction hrun with
  | nil => rfl
  | cons h hrest ih =>
    have hoff := hrest.start_of_end (fun _ _ _ h ht => h.offStack_of_next ht) ht
    rw [ih ht, h.keeps_stack hoff hx]

/-! ## From `malloc_init` on -/

/-- The blocks of sound chunks. -/
theorem ChunksSound.spread {chunks : List CreatedChunk} (h : ChunksSound kernelEnd mmap chunks)
    (hne : ∀ c ∈ chunks, c.ptr ≠ 0) : Spread (chunks.map CreatedChunk.block) := by
  constructor
  · rw [List.pairwise_map]
    refine h.disjoint.imp fun {c d} hcd => ?_
    unfold Overlap CreatedChunk.stop at hcd
    simp only [CreatedChunk.block, Block.stop]
    omega
  · intro b hb
    rcases List.mem_map.mp hb with ⟨c, hc, rfl⟩
    have hnull := hne c hc
    have hstop := (h.inside c hc).1
    unfold CreatedChunk.stop at hstop
    simp only [CreatedChunk.block, Block.stop]
    bv_omega

theorem startCreated_block (hhold : start.holdsKernelEnd kernelEnd = true)
    (hroom : kernelEnd.toNat + 16 ≤ start.stop) (hbelow : start.stop ≤ 2 ^ 32) :
    (startCreated kernelEnd start).block =
      ⟨kernelEnd.toNat, start.stop - kernelEnd.toNat - 16, false⟩ := by
  have hstop := startCreated_stop hhold hroom hbelow
  have hptr : (startCreated kernelEnd start).ptr = kernelEnd := rfl
  rw [CreatedChunk.stop, hptr] at hstop
  rw [CreatedChunk.block, hptr, ← hstop]
  congr 1
  omega

theorem entryCreated_block (hroom : 16 ≤ e.len.toNat) (hbelow : e.lowStop ≤ 2 ^ 32) :
    (entryCreated e).block = ⟨e.lowBase, e.lowStop - e.lowBase - 16, false⟩ := by
  have hstop := entryCreated_stop hroom hbelow
  rw [CreatedChunk.stop, entryCreated_ptr] at hstop
  rw [CreatedChunk.block, entryCreated_ptr, ← hstop]
  congr 1
  omega

/-- The chunks of a map that fits are its rooms. -/
theorem cut_mapRooms (hfits : MapFits kernelEnd mmap) :
    ∃ bss, List.Forall₂ (Room.Cut 16) (mapRooms kernelEnd mmap) bss ∧
      bss.flatten = (linkedChunks (createdChunks kernelEnd 0 mmap)).map CreatedChunk.block := by
  rcases hfits with ⟨start, later, hu, hroom, hbelow, hentries, -⟩
  have hstart := startCreated_block (usableEntries_head hu).2.2 hroom hbelow
  refine ⟨[(startCreated kernelEnd start).block] ::
    (linkedEntries later).map fun e => [(entryCreated e).block], ?_, ?_⟩
  · rw [mapRooms, hu, hstart]
    refine .cons (Room.cut_empty hroom) ?_
    rw [List.forall₂_map_left_iff, List.forall₂_map_right_iff, List.forall₂_same]
    intro e he
    have hfit := hentries e he
    rw [entryCreated_block hfit.room hfit.below]
    apply Room.cut_empty
    have hlen := hfit.room
    unfold MemoryMapEntry.lowStop
    omega
  · rw [(linkedChunks_eq hu).1, List.flatten_cons, List.map_cons, List.map_map,
      ← List.flatMap_def, ← List.map_eq_flatMap]
    rfl

theorem not_filled_mapRooms {x : Nat} : ¬ Filled (mapRooms kernelEnd mmap) x := by
  rintro ⟨r, hr, hle, hlt⟩
  have hempty : r.reach = r.start := by
    rw [mapRooms] at hr
    cases hu : usableEntries kernelEnd mmap with
    | nil =>
      rw [hu] at hr
      cases hr
    | cons start later =>
      rw [hu] at hr
      rcases List.mem_cons.mp hr with rfl | hr
      · rfl
      · rcases List.mem_map.mp hr with ⟨e, -, rfl⟩
        rfl
  omega

/-- `malloc_init` makes the rooms of a map that fits. -/
theorem mallocInit_rooms (mem : Mem) (hdisjoint : FreeDisjoint mmap)
    (hfits : MapFits kernelEnd mmap) :
    ∃ heap, mallocInit kernelEnd mmap (Heap.boot mem) = .ok heap ∧
      RoomsInv (.start heap) (mapRooms kernelEnd mmap) := by
  rcases hfits.sound hdisjoint with ⟨hsound, hapart⟩
  rcases cut_mapRooms hfits with ⟨bss, hcut, hflat⟩
  rcases hfits with ⟨start, later, hu, -⟩
  rcases mallocInit_linked mem hu hapart with ⟨heap, hinit, -, hstart, hlink⟩
  refine ⟨heap, hinit, ⟨bss, hcut, ?_, ?_, ?_⟩, fun x => ?_⟩
  · rw [hflat]
    exact hsound.spread fun c => linkedChunks_ne_zero
  · rw [hflat]
    exact hstart.trans (headPtr_linkedChunks hu).symm
  · rwa [hflat]
  · have hnone : ¬ (MallocLog.start heap).Touches x := by
      simp [MallocLog.Touches, MallocLog.start]
    exact iff_of_false hnone not_filled_mapRooms

end

end Hjortron
