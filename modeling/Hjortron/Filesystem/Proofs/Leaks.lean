import Hjortron.Filesystem.Driver
import Hjortron.Filesystem.Proofs.OpenName
import Hjortron.Memory.Proofs.Ledger

/-!
# Which heap blocks the driver leaves behind

A block is live from the `malloc` that returns it to its `free`. `fat12_open` and `fat12_opendir`
hold the entries of one directory at a time; they free them when they find what they look for and
forget them on every other return. `fat12_read` forgets its buffer at an invalid cluster, and
`fat12_readdir` never frees the entries.
-/

namespace Hjortron

/-- The path is the root directory or leads through directories to a directory. -/
def NamesDirectory (readDirectory : Half → List DirectoryEntry) (path : List Byte) : Prop :=
  trimPath path = [] ∨
    ∃ entries, descend readDirectory (readDirectory 0) (components (trimPath path)) = some entries

/-- The clusters of a file up to number `n` are valid. -/
def ValidUpTo (readFat : Half → Half) (ref : Word) (n : Nat) : Prop :=
  ∀ k ≤ n, fat12ValidCluster (readFat^[k] (ref.setWidth 16)) = true

/-- A handle as a set of blocks. -/
def handleBlocks (handle : Option Word) : Multiset Word := handle.elim 0 ({·})

namespace Driver

open Logged

section

variable {directory : Half → Directory} {stack : Nat → Byte} {heap heap' : Heap}
  {log log' : List DriverEvent} {live : Multiset Word} {entries len ptr : Word}
  {path buffer : List Byte} {E : List DirectoryEntry} {i n : Nat} {handle : Option Word}

/-! ## Events -/

theorem liveAfter_append :
    liveAfter live (log ++ log') = liveAfter (liveAfter live log) log' := by
  induction log generalizing live with
  | nil => rfl
  | cons e log ih => cases e <;> exact ih

theorem runs_malloc_iff : (malloc len).Runs heap ptr heap' log ↔
    Hjortron.malloc heap len = .ok (ptr, heap') ∧ log = [.malloc ptr] := by
  simp only [malloc, runs_bind_iff, runs_call_iff, runs_emit_iff, runs_pure_iff]
  constructor
  · rintro ⟨_, _, _, _, ⟨hm, rfl⟩, ⟨_, _, _, _, ⟨rfl, rfl⟩, ⟨rfl, rfl, rfl⟩, rfl⟩, rfl⟩
    exact ⟨hm, rfl⟩
  · rintro ⟨hm, rfl⟩
    exact ⟨ptr, heap', [], _, ⟨hm, rfl⟩, ⟨(), heap', _, [], ⟨rfl, rfl⟩, ⟨rfl, rfl, rfl⟩, rfl⟩, rfl⟩

theorem runs_free_iff {u : Unit} : (free ptr).Runs heap u heap' log ↔
    Hjortron.free heap ptr = .ok heap' ∧ log = [.free ptr] := by
  simp only [free, runs_bind_iff, runs_call_iff, runs_emit_iff]
  constructor
  · rintro ⟨_, _, _, _, ⟨hf, rfl⟩, ⟨rfl, rfl⟩, rfl⟩
    refine ⟨?_, rfl⟩
    cases hfree : Hjortron.free heap ptr with
    | error e =>
      rw [hfree] at hf
      cases hf
    | ok h =>
      rw [hfree] at hf
      cases hf
      rfl
  · rintro ⟨hf, rfl⟩
    refine ⟨(), heap', [], _, ⟨?_, rfl⟩, ⟨rfl, rfl⟩, rfl⟩
    rw [hf]
    rfl

theorem runs_write_iff {f : Mem → Mem} {u : Unit} : (write f).Runs heap u heap' log ↔
    heap' = { heap with mem := f heap.mem } ∧ log = [] := runs_modify_iff

theorem parseEntry_congr {f g : Nat → Byte} (h : ∀ j < 32, f j = g j) :
    parseEntry f = parseEntry g := by
  have hname : (List.range 11).map f = (List.range 11).map g :=
    List.map_congr_left fun j hj => h j (Nat.lt_trans (List.mem_range.mp hj) (by decide))
  simp only [parseEntry, hname, h 11 (by decide), h 20 (by decide), h 21 (by decide),
    h 26 (by decide), h 27 (by decide), h 28 (by decide), h 29 (by decide), h 30 (by decide),
    h 31 (by decide)]

/-- The entries of a directory stand in a new block. -/
theorem entriesAt_blit (m : Mem) (ptr : Word) (d : Directory) :
    entriesAt (m.blit ptr d.bytes (32 * d.count)) ptr (BitVec.ofNat 32 d.count) = d.entries := by
  have hcount := d.count_lt
  have htoNat : (BitVec.ofNat 32 d.count).toNat = d.count := by
    rw [BitVec.toNat_ofNat]
    exact Nat.mod_eq_of_lt (by omega)
  rw [entriesAt, Directory.entries, htoNat]
  refine List.map_congr_left fun k hk => ?_
  rw [List.mem_range] at hk
  have hbyte : ∀ j < 32, m.blit ptr d.bytes (32 * d.count) (ptr + BitVec.ofNat 32 (32 * k + j)) =
      d.bytes (32 * k + j) := by
    intro j hj
    have hsub : (ptr + BitVec.ofNat 32 (32 * k + j) - ptr).toNat = 32 * k + j := by
      rw [add_sub_cancel_left, BitVec.toNat_ofNat]
      exact Nat.mod_eq_of_lt (by omega)
    rw [Mem.blit_apply hcount.le, hsub, if_pos (by omega)]
  exact parseEntry_congr hbyte

theorem runs_readDirectory {cluster : Half} {r : Word × Word}
    (hrun : (fat12ReadDirectory directory cluster).Runs heap r heap' log) :
    log = [.malloc r.1] ∧ entriesAt heap'.mem r.1 r.2 = (directory cluster).entries := by
  obtain ⟨ptr, heap₁, _, _, hmalloc, hrest, rfl⟩ := runs_bind_iff.mp hrun
  obtain ⟨-, rfl⟩ := runs_malloc_iff.mp hmalloc
  obtain ⟨_, _, _, _, hwrite, hreturn, rfl⟩ := runs_bind_iff.mp hrest
  obtain ⟨rfl, rfl⟩ := runs_write_iff.mp hwrite
  obtain ⟨rfl, rfl, rfl⟩ := runs_pure_iff.mp hreturn
  exact ⟨rfl, entriesAt_blit _ _ _⟩

theorem runs_write (f : Mem → Mem) (heap : Heap) :
    (write f).Runs heap () { heap with mem := f heap.mem } [] := rfl

/-- With room for the entries a directory can be read, and its block can be given back. -/
theorem readDirectory_returns {lo hi size : Nat} {blocks : List (Word × Word)} (cluster : Half)
    (h : Roomy lo hi heap blocks (32 * (directory cluster).count + 16 + size))
    (hpos : 0 < (directory cluster).count) (hsize : 0 < size) :
    ∃ r heap' log, (fat12ReadDirectory directory cluster).Runs heap r heap' log ∧
      Roomy lo hi heap' ((r.1, BitVec.ofNat 32 (32 * (directory cluster).count)) :: blocks) size ∧
      ∀ room, Roomy lo hi heap blocks room → 32 * (directory cluster).count ≤ room →
        ∃ heap₂, Hjortron.free heap' r.1 = .ok heap₂ ∧ Roomy lo hi heap₂ blocks room := by
  have hcount := (directory cluster).count_lt
  have hnat : (BitVec.ofNat 32 (32 * (directory cluster).count)).toNat =
      32 * (directory cluster).count := Nat.mod_eq_of_lt hcount
  have hne : 0 < (BitVec.ofNat 32 (32 * (directory cluster).count)).toNat := by omega
  rw [← hnat] at h
  obtain ⟨ptr, heap₁, hmalloc, hrest⟩ := h.malloc_rest hne hsize
  have hframe : ∀ x, ¬ Stable lo hi
        ((ptr, BitVec.ofNat 32 (32 * (directory cluster).count)) :: blocks) x →
      heap₁.mem.blit ptr (directory cluster).bytes (32 * (directory cluster).count) x =
        heap₁.mem x := by
    intro x hx
    rw [Mem.blit_apply (Nat.le_of_lt hcount)]
    apply if_neg
    intro hin
    apply hx (.inr (.inr ⟨_, List.mem_cons_self, _⟩))
    rw [hnat]
    exact hin
  have hread : (fat12ReadDirectory directory cluster).Runs heap _ _ _ :=
    (runs_malloc_iff.mpr ⟨hmalloc, rfl⟩).bind
      ((runs_write _ heap₁).bind (runs_pure_iff.mpr ⟨rfl, rfl, rfl⟩))
  refine ⟨_, _, _, hread, hrest.write hframe, fun room hroom hle => ?_⟩
  obtain ⟨ptr', heap₁', hmalloc', -, hback⟩ := hroom.borrow hne (hnat.le.trans hle)
  obtain ⟨rfl, rfl⟩ := Prod.mk.inj (Except.ok.inj (hmalloc'.symm.trans hmalloc))
  obtain ⟨heap₂, hfree, hroomy, -⟩ := hback _ hframe
  exact ⟨heap₂, hfree, hroomy⟩

/-! ## `fat12_open` and `fat12_opendir` -/

/-- What a call does with the entries that it holds: it loses a block, or turns it into the
handle that it returns. -/
def Leaves (entries : Word) (handle : Option Word) (log : List DriverEvent) : Prop :=
  ∃ left, (∀ ptr, handle = some ptr → ptr = left) ∧
    ∀ live, liveAfter (entries ::ₘ live) log = left ::ₘ live

theorem leaves_none : Leaves entries none [] := by
  refine ⟨entries, ?_, fun live => rfl⟩
  intro ptr h
  cases h

/-- A handle is allocated and the entries are freed. -/
theorem leaves_some : Leaves entries (some ptr) [.malloc ptr, .free entries] := by
  refine ⟨ptr, fun p hp => (Option.some.inj hp).symm, fun live => ?_⟩
  change (ptr ::ₘ entries ::ₘ live).erase entries = ptr ::ₘ live
  rw [Multiset.cons_swap, Multiset.erase_cons_head]

/-- The entries are freed and those of another directory are read. -/
theorem Leaves.next {next : Word} (h : Leaves next handle log) :
    Leaves entries handle (.free entries :: .malloc next :: log) := by
  obtain ⟨left, hhandle, hleft⟩ := h
  refine ⟨left, hhandle, fun live => ?_⟩
  change liveAfter (next ::ₘ (entries ::ₘ live).erase entries) log = _
  rw [Multiset.erase_cons_head, hleft]

/-- The blocks after a call that starts with reading a directory: only a handle is new exactly
when there is one. -/
theorem Leaves.iff (h : Leaves entries handle log) (live : Multiset Word) :
    liveAfter live (.malloc entries :: log) = handleBlocks handle + live ↔
      handle.isSome = true := by
  obtain ⟨left, hhandle, hleft⟩ := h
  rw [liveAfter, hleft]
  cases handle with
  | none =>
    refine iff_of_false (fun heq => ?_) (by decide)
    have hcard := congrArg Multiset.card heq
    rw [Multiset.card_cons, handleBlocks, Option.elim_none, Multiset.card_add, Multiset.card_zero]
      at hcard
    omega
  | some ptr =>
    refine iff_of_true ?_ rfl
    rw [← hhandle ptr rfl]
    rfl

/-- Both functions end with a new handle. -/
theorem runs_handle {size : Word} {store : Word → Mem → Mem}
    (hrun : Runs (do
      let ptr ← malloc size
      write (store ptr)
      free entries
      return some ptr : Action (Option Word)) heap handle heap' log) :
    Leaves entries handle log ∧ handle.isSome = true := by
  obtain ⟨ptr, _, _, _, hmalloc, hrest, rfl⟩ := runs_bind_iff.mp hrun
  obtain ⟨-, rfl⟩ := runs_malloc_iff.mp hmalloc
  obtain ⟨_, _, _, _, hwrite, hrest', rfl⟩ := runs_bind_iff.mp hrest
  obtain ⟨-, rfl⟩ := runs_write_iff.mp hwrite
  obtain ⟨_, _, _, _, hfree, hreturn, rfl⟩ := runs_bind_iff.mp hrest'
  obtain ⟨-, rfl⟩ := runs_free_iff.mp hfree
  obtain ⟨rfl, -, rfl⟩ := runs_pure_iff.mp hreturn
  exact ⟨leaves_some, rfl⟩

/-- Both loops go on in another directory. -/
theorem runs_next {cluster : Half} (rest : Word → Word → Action (Option Word))
    (hrun : Runs (do
      free entries
      let (entries, len) ← fat12ReadDirectory directory cluster
      rest entries len) heap handle heap' log) :
    ∃ next len heap₁ log', (rest next len).Runs heap₁ handle heap' log' ∧
      entriesAt heap₁.mem next len = (directory cluster).entries ∧
      (Leaves next handle log' → Leaves entries handle log) := by
  obtain ⟨_, _, _, _, hfree, hrest, rfl⟩ := runs_bind_iff.mp hrun
  obtain ⟨-, rfl⟩ := runs_free_iff.mp hfree
  obtain ⟨⟨next, len⟩, heap₁, _, log', hread, hrest', rfl⟩ := runs_bind_iff.mp hrest
  obtain ⟨rfl, hentries⟩ := runs_readDirectory hread
  exact ⟨next, len, heap₁, log', hrest', hentries, fun h => h.next⟩

/-- Both functions look a name up in the entries that they hold. -/
theorem runs_lookup {attributes : Byte} {rest : Option DirectoryEntry → Action (Option Word)}
    (hE : entriesAt heap.mem entries len = E)
    (hrun : Runs (do
      let found ← .read fun heap => findEntry (entriesAt heap.mem entries len) attributes buffer
      rest found) heap handle heap' log) :
    (rest (findEntry E attributes buffer)).Runs heap handle heap' log := by
  obtain ⟨found, _, _, _, hread, hrest, rfl⟩ := runs_bind_iff.mp hrun
  obtain ⟨rfl, rfl, rfl⟩ := runs_read_iff.mp hread
  rw [← hE]
  exact hrest

/-- The end of the path in `fat12_open`. -/
theorem runs_openFile (hE : entriesAt heap.mem entries len = E)
    (hrun : (openFile stack entries len buffer).Runs heap handle heap' log) :
    Leaves entries handle log ∧ ∃ o, Hjortron.openFile stack E buffer = some o ∧
      o.handle.isSome = handle.isSome := by
  rw [openFile] at hrun
  rw [Hjortron.openFile]
  by_cases h0 : strlen buffer = 0
  · rw [if_pos h0] at hrun ⊢
    obtain ⟨rfl, -, rfl⟩ := runs_pure_iff.mp hrun
    exact ⟨leaves_none, _, rfl, rfl⟩
  · rw [if_neg h0] at hrun ⊢
    cases hloop : extensionLoop stack 24 1 buffer [0, 0, 0] with
    | none =>
      rw [hloop] at hrun
      exact absurd hrun not_runs_fail
    | some r =>
      obtain ⟨buffer', ext⟩ := r
      rw [hloop] at hrun
      dsimp only at hrun ⊢
      by_cases hext : ext.getD 0 0 = 0
      · rw [if_pos hext] at hrun ⊢
        obtain ⟨rfl, -, rfl⟩ := runs_pure_iff.mp hrun
        exact ⟨leaves_none, _, rfl, rfl⟩
      · rw [if_neg hext] at hrun ⊢
        have hrest := runs_lookup hE hrun
        generalize findEntry E fat12AttributeArchive buffer' = found at hrest ⊢
        cases found with
        | none =>
          obtain ⟨rfl, -, rfl⟩ := runs_pure_iff.mp hrest
          exact ⟨leaves_none, _, rfl, rfl⟩
        | some entry =>
          obtain ⟨hleaves, hsome⟩ := runs_handle hrest
          exact ⟨hleaves, _, rfl, hsome.symm⟩

/-- The loop of `fat12_open` returns what it returns without the heap. -/
theorem runs_openLoop (path : List Byte) (hE : entriesAt heap.mem entries len = E)
    (hrun : (openLoop directory stack entries len buffer i path).Runs heap handle heap' log) :
    Leaves entries handle log ∧
      ∃ o, Hjortron.openLoop (fun c => (directory c).entries) stack E buffer i path = some o ∧
        o.handle.isSome = handle.isSome := by
  induction path generalizing entries len E buffer i heap log with
  | nil => exact runs_openFile hE hrun
  | cons c path ih =>
    rw [openLoop] at hrun
    rw [Hjortron.openLoop]
    by_cases hslash : c = ascii '/'
    · rw [if_pos hslash] at hrun ⊢
      have hrest := runs_lookup hE hrun
      generalize findEntry E fat12AttributeDirectory buffer = found at hrest ⊢
      cases found with
      | none =>
        obtain ⟨rfl, -, rfl⟩ := runs_pure_iff.mp hrest
        exact ⟨leaves_none, _, rfl, rfl⟩
      | some entry =>
        obtain ⟨next, len, heap₁, log', hloop, hentries, hleaves⟩ :=
          runs_next (openLoop directory stack · · blankBuffer 0 path) hrest
        obtain ⟨hnext, ho⟩ := ih hentries hloop
        exact ⟨hleaves hnext, ho⟩
    · rw [if_neg hslash] at hrun ⊢
      by_cases h11 : i = 11
      · rw [if_pos h11] at hrun ⊢
        obtain ⟨rfl, -, rfl⟩ := runs_pure_iff.mp hrun
        exact ⟨leaves_none, _, rfl, rfl⟩
      · rw [if_neg h11] at hrun ⊢
        exact ih hE hrun

/-- `fat12_open` leaves only a handle behind exactly when the path names a file. -/
theorem fat12Open_live_iff (live : Multiset Word) (hnul : 0 ∉ path)
    (hrun : (fat12Open directory stack path).Runs heap handle heap' log) :
    liveAfter live log = handleBlocks handle + live ↔
      NamesFile (fun c => (directory c).entries) stack path := by
  obtain ⟨⟨entries, len⟩, heap₁, _, log', hread, hloop, rfl⟩ := runs_bind_iff.mp hrun
  obtain ⟨rfl, hentries⟩ := runs_readDirectory hread
  obtain ⟨hleaves, o, ho, hsome⟩ := runs_openLoop path hentries hloop
  rw [List.singleton_append, hleaves.iff live, ← fat12Open_handle_iff hnul, ← hsome,
    Option.isSome_iff_exists]
  constructor
  · rintro ⟨file, hfile⟩
    exact ⟨o, file, ho, hfile⟩
  · rintro ⟨o', file, ho', hfile⟩
    obtain rfl := Option.some.inj (ho.symm.trans ho')
    exact ⟨file, hfile⟩

/-- The end of the path in `fat12_opendir`. -/
theorem runs_openDirectory (hE : entriesAt heap.mem entries len = E)
    (hrun : (openDirectory entries len buffer).Runs heap handle heap' log) :
    Leaves entries handle log ∧
      (Hjortron.openDirectory E buffer).handle.isSome = handle.isSome := by
  rw [openDirectory] at hrun
  rw [Hjortron.openDirectory]
  by_cases h0 : strlen buffer = 0
  · rw [if_pos h0] at hrun ⊢
    obtain ⟨rfl, -, rfl⟩ := runs_pure_iff.mp hrun
    exact ⟨leaves_none, rfl⟩
  · rw [if_neg h0] at hrun ⊢
    have hrest := runs_lookup hE hrun
    generalize findEntry E fat12AttributeDirectory buffer = found at hrest ⊢
    cases found with
    | none =>
      obtain ⟨rfl, -, rfl⟩ := runs_pure_iff.mp hrest
      exact ⟨leaves_none, rfl⟩
    | some entry =>
      obtain ⟨hleaves, hsome⟩ := runs_handle hrest
      exact ⟨hleaves, hsome.symm⟩

/-- The loop of `fat12_opendir` returns what it returns without the heap. -/
theorem runs_opendirLoop (path : List Byte) (hE : entriesAt heap.mem entries len = E)
    (hrun : (opendirLoop directory entries len buffer i path).Runs heap handle heap' log) :
    Leaves entries handle log ∧
      (Hjortron.opendirLoop (fun c => (directory c).entries) E buffer i path).handle.isSome =
        handle.isSome := by
  induction path generalizing entries len E buffer i heap log with
  | nil => exact runs_openDirectory hE hrun
  | cons c path ih =>
    rw [opendirLoop] at hrun
    rw [Hjortron.opendirLoop]
    by_cases hslash : c = ascii '/' ∧ path ≠ []
    · rw [if_pos hslash] at hrun ⊢
      have hrest := runs_lookup hE hrun
      generalize findEntry E fat12AttributeDirectory buffer = found at hrest ⊢
      cases found with
      | none =>
        obtain ⟨rfl, -, rfl⟩ := runs_pure_iff.mp hrest
        exact ⟨leaves_none, rfl⟩
      | some entry =>
        obtain ⟨next, len, heap₁, log', hloop, hentries, hleaves⟩ :=
          runs_next (opendirLoop directory · · blankBuffer 0 path) hrest
        obtain ⟨hnext, ho⟩ := ih hentries hloop
        exact ⟨hleaves hnext, ho⟩
    · rw [if_neg hslash] at hrun ⊢
      by_cases h11 : i = 11
      · rw [if_pos h11] at hrun ⊢
        obtain ⟨rfl, -, rfl⟩ := runs_pure_iff.mp hrun
        exact ⟨leaves_none, rfl⟩
      · rw [if_neg h11] at hrun ⊢
        exact ih hE hrun

/-- `fat12_opendir` leaves only a handle behind exactly when the path names a directory. -/
theorem fat12Opendir_live_iff (live : Multiset Word) (hnul : 0 ∉ path)
    (hrun : (fat12Opendir directory path).Runs heap handle heap' log) :
    liveAfter live log = handleBlocks handle + live ↔
      NamesDirectory (fun c => (directory c).entries) path := by
  rw [fat12Opendir] at hrun
  by_cases h0 : trimPath path = []
  · rw [if_pos h0] at hrun
    refine iff_of_true ?_ (.inl h0)
    obtain ⟨ptr, _, _, _, hmalloc, hrest, rfl⟩ := runs_bind_iff.mp hrun
    obtain ⟨-, rfl⟩ := runs_malloc_iff.mp hmalloc
    obtain ⟨_, _, _, _, hwrite, hreturn, rfl⟩ := runs_bind_iff.mp hrest
    obtain ⟨-, rfl⟩ := runs_write_iff.mp hwrite
    obtain ⟨rfl, -, rfl⟩ := runs_pure_iff.mp hreturn
    rfl
  · rw [if_neg h0] at hrun
    obtain ⟨⟨entries, len⟩, heap₁, _, log', hread, hloop, rfl⟩ := runs_bind_iff.mp hrun
    obtain ⟨rfl, hentries⟩ := runs_readDirectory hread
    obtain ⟨hleaves, hsome⟩ := runs_opendirLoop _ hentries hloop
    have hnul' : 0 ∉ trimPath path := by
      rw [trimPath_eq hnul]
      exact not_mem_rdropWhile hnul
    rw [List.singleton_append, hleaves.iff live, ← hsome,
      opendirLoop_handle_iff hnul' (trimPath_getLast? hnul)]
    exact (or_iff_right h0).symm

/-! ## `fat12_read` -/

section

variable {fs : Fat12} {disk : Disk} {readFat : Half → Half} {span : ReadSpan}
  {srcBuffer file dest i : Word} {vars vars' : ReadVars}

theorem runs_readCluster
    (hrun : (readCluster fs disk span srcBuffer file dest i vars).Runs heap vars' heap' log) :
    log = [] ∧ vars'.cluster = vars.cluster := by
  rw [readCluster] at hrun
  split at hrun
  · obtain ⟨_, _, _, _, hwrite, hreturn, rfl⟩ := runs_bind_iff.mp hrun
    obtain ⟨-, rfl⟩ := runs_write_iff.mp hwrite
    obtain ⟨rfl, -, rfl⟩ := runs_pure_iff.mp hreturn
    exact ⟨rfl, rfl⟩
  · obtain ⟨rfl, -, rfl⟩ := runs_pure_iff.mp hrun
    exact ⟨rfl, rfl⟩

/-- `fat12_read_fat` frees its block. -/
theorem runs_nextCluster
    (hrun : (nextCluster fs readFat span i vars).Runs heap vars' heap' log) :
    (∀ live, liveAfter live log = live) ∧ (i ≠ span.clusterEnd →
      vars'.cluster.setWidth 16 = readFat (vars.cluster.setWidth 16)) := by
  rw [nextCluster] at hrun
  split at hrun
  · obtain ⟨next, _, _, _, hfat, hreturn, rfl⟩ := runs_bind_iff.mp hrun
    obtain ⟨ptr, _, _, _, hmalloc, hrest, rfl⟩ := runs_bind_iff.mp hfat
    obtain ⟨-, rfl⟩ := runs_malloc_iff.mp hmalloc
    obtain ⟨_, _, _, _, hfree, hnext, rfl⟩ := runs_bind_iff.mp hrest
    obtain ⟨-, rfl⟩ := runs_free_iff.mp hfree
    obtain ⟨rfl, -, rfl⟩ := runs_pure_iff.mp hnext
    obtain ⟨rfl, -, rfl⟩ := runs_pure_iff.mp hreturn
    exact ⟨fun live => Multiset.erase_cons_head _ _, fun _ => by simp⟩
  · rename_i hend
    obtain ⟨-, -, rfl⟩ := runs_pure_iff.mp hrun
    exact ⟨fun live => rfl, fun h => absurd h hend⟩

/-- The loop leaves no block and passes exactly the valid clusters. -/
theorem runs_readLoop {n : Nat} {done : Bool}
    (hi : i.toNat + n = span.clusterEnd.toNat + 1)
    (hrun : (readLoop fs disk readFat span srcBuffer file dest n i vars).Runs heap done heap' log) :
    (∀ live, liveAfter live log = live) ∧
      (done = true ↔
        ∀ k < n, fat12ValidCluster (readFat^[k] (vars.cluster.setWidth 16)) = true) := by
  induction n generalizing i vars heap log with
  | zero =>
    obtain ⟨rfl, -, rfl⟩ := runs_pure_iff.mp hrun
    refine ⟨fun live => rfl, iff_of_true rfl fun k hk => ?_⟩
    exact absurd hk (Nat.not_lt_zero k)
  | succ n ih =>
    rw [readLoop] at hrun
    by_cases hvalid : fat12ValidCluster (vars.cluster.setWidth 16) = false
    · rw [if_pos hvalid] at hrun
      obtain ⟨rfl, -, rfl⟩ := runs_pure_iff.mp hrun
      refine ⟨fun live => rfl, iff_of_false (by decide) fun h => ?_⟩
      have h0 := h 0 (Nat.zero_lt_succ n)
      rw [Function.iterate_zero, id, hvalid] at h0
      cases h0
    · rw [if_neg hvalid] at hrun
      obtain ⟨vars₁, _, _, _, hread, hrest, rfl⟩ := runs_bind_iff.mp hrun
      obtain ⟨rfl, hcluster⟩ := runs_readCluster hread
      obtain ⟨vars₂, _, _, _, hnext, hloop, rfl⟩ := runs_bind_iff.mp hrest
      obtain ⟨hbalanced, hfat⟩ := runs_nextCluster hnext
      rw [Nat.forall_lt_succ_left, Function.iterate_zero, id, List.nil_append]
      cases n with
      | zero =>
        obtain ⟨rfl, -, rfl⟩ := runs_pure_iff.mp hloop
        refine ⟨fun live => ?_, iff_of_true rfl ⟨by simpa using hvalid, fun k hk => ?_⟩⟩
        · rw [List.append_nil, hbalanced]
        · exact absurd hk (Nat.not_lt_zero k)
      | succ n =>
        have hend : i ≠ span.clusterEnd := by
          rintro rfl
          omega
        have hi' : (i + 1).toNat + (n + 1) = span.clusterEnd.toNat + 1 := by
          have := span.clusterEnd.isLt
          bv_omega
        obtain ⟨hloopBalanced, hdone⟩ := ih hi' hloop
        refine ⟨fun live => by rw [liveAfter_append, hbalanced, hloopBalanced], ?_⟩
        rw [hdone, hfat hend, hcluster]
        simp only [Function.iterate_succ_apply]
        exact ⟨fun h => ⟨by simpa using hvalid, h⟩, fun h => h.2⟩

/-- What `fat12_read` leaves behind: nothing when there is nothing to read or the clusters up to the
end of the request are valid, and its buffer otherwise. -/
theorem fat12Read_leaves {buffer len : Word} {u : Unit}
    (hrun : (fat12Read fs disk readFat file buffer len).Runs heap u heap' log) :
    ∃ left : Multiset Word, (∀ live, liveAfter live log = left + live) ∧ (left = 0 ↔
      clampLen (fileAt heap.mem file) len = 0 ∨ ValidUpTo readFat (fileAt heap.mem file).ref
        (readSpan fs (fileAt heap.mem file).offset
          (clampLen (fileAt heap.mem file) len)).clusterEnd.toNat) := by
  obtain ⟨handle, _, _, _, hread, hrest, rfl⟩ := runs_bind_iff.mp hrun
  obtain ⟨rfl, rfl, rfl⟩ := runs_read_iff.mp hread
  by_cases h0 : clampLen (fileAt heap.mem file) len = 0
  · dsimp only at hrest
    rw [if_pos h0] at hrest
    obtain ⟨-, -, rfl⟩ := runs_pure_iff.mp hrest
    exact ⟨0, fun live => (Multiset.zero_add live).symm, iff_of_true rfl (.inl h0)⟩
  · dsimp only at hrest
    rw [if_neg h0] at hrest
    rw [or_iff_right h0]
    split at hrest
    · exact absurd hrest not_runs_fail
    · obtain ⟨srcBuffer, _, _, _, hmalloc, hrest₁, rfl⟩ := runs_bind_iff.mp hrest
      obtain ⟨-, rfl⟩ := runs_malloc_iff.mp hmalloc
      obtain ⟨done, _, _, _, hloop, hend, rfl⟩ := runs_bind_iff.mp hrest₁
      obtain ⟨hbalanced, hdone⟩ := runs_readLoop (Nat.zero_add _) hloop
      simp only [Nat.lt_succ_iff] at hdone
      rw [ValidUpTo, ← hdone]
      simp only [List.nil_append, List.singleton_append, liveAfter, liveAfter_append, hbalanced]
      cases done with
      | true =>
        obtain ⟨-, rfl⟩ := runs_free_iff.mp hend
        refine ⟨0, fun live => ?_, iff_of_true rfl rfl⟩
        rw [Multiset.zero_add]
        exact Multiset.erase_cons_head _ _
      | false =>
        obtain ⟨-, -, rfl⟩ := runs_pure_iff.mp hend
        refine ⟨{srcBuffer}, fun live => (Multiset.singleton_add _ _).symm, ?_⟩
        exact iff_of_false (Multiset.singleton_ne_zero _) (by decide)

/-- `fat12_read` leaves no block behind exactly when there is nothing to read or the clusters up to
the end of the request are valid. -/
theorem fat12Read_live_iff {buffer len : Word} {u : Unit} (live : Multiset Word)
    (hrun : (fat12Read fs disk readFat file buffer len).Runs heap u heap' log) :
    liveAfter live log = live ↔
      clampLen (fileAt heap.mem file) len = 0 ∨ ValidUpTo readFat (fileAt heap.mem file).ref
        (readSpan fs (fileAt heap.mem file).offset
          (clampLen (fileAt heap.mem file) len)).clusterEnd.toNat := by
  obtain ⟨left, hlive, hleft⟩ := fat12Read_leaves hrun
  have hzero : left + live = 0 + live ↔ left = 0 := Multiset.add_left_inj
  rw [hlive, ← hleft, ← hzero, Multiset.zero_add]

end

/-! ## `fat12_readdir` -/

theorem runs_realloc {nextPtr : Word} (hrun : (realloc ptr len).Runs heap nextPtr heap' log) :
    Hjortron.realloc heap ptr len = .ok (nextPtr, heap') ∧
      (log = [] ∨ log = [.malloc nextPtr, .free ptr]) := by
  obtain ⟨long, _, _, _, hread, hrest, rfl⟩ := runs_bind_iff.mp hrun
  obtain ⟨-, rfl, rfl⟩ := runs_read_iff.mp hread
  obtain ⟨_, _, _, _, hcall, hrest₁, rfl⟩ := runs_bind_iff.mp hrest
  obtain ⟨hr, rfl⟩ := runs_call_iff.mp hcall
  split at hrest₁
  · obtain ⟨rfl, rfl, rfl⟩ := runs_pure_iff.mp hrest₁
    exact ⟨hr, .inl rfl⟩
  · obtain ⟨_, _, _, _, hmalloc, hrest₂, rfl⟩ := runs_bind_iff.mp hrest₁
    obtain ⟨rfl, rfl⟩ := runs_emit_iff.mp hmalloc
    obtain ⟨_, _, _, _, hfree, hreturn, rfl⟩ := runs_bind_iff.mp hrest₂
    obtain ⟨rfl, rfl⟩ := runs_emit_iff.mp hfree
    obtain ⟨rfl, rfl, rfl⟩ := runs_pure_iff.mp hreturn
    exact ⟨hr, .inr rfl⟩

theorem forget_realloc : (realloc ptr len).forget heap = Hjortron.realloc heap ptr len := by
  unfold realloc
  rw [forget_bind_read, forget_bind, forget_call]
  cases Hjortron.realloc heap ptr len with
  | error e => rfl
  | ok r =>
    by_cases hlong : len ≤ chunkLen heap.mem (ptr - sizeofMemoryChunk)
    · simp only [hlong, decide_true, if_true]
      rfl
    · simp only [hlong, decide_false, Bool.false_eq_true, if_false]
      rfl

/-- Making room allocates a block when there is none, and never frees without allocating. -/
theorem card_growDirents {dirents dirents' : Word} (live : Multiset Word)
    (hrun : (growDirents dirents len).Runs heap dirents' heap' log) :
    live.card + (if dirents = 0 then 1 else 0) ≤ (liveAfter live log).card := by
  rw [growDirents] at hrun
  by_cases h0 : dirents = 0
  · rw [if_pos h0] at hrun ⊢
    obtain ⟨-, rfl⟩ := runs_malloc_iff.mp hrun
    exact (Multiset.card_cons _ _).ge
  · rw [if_neg h0] at hrun ⊢
    obtain ⟨-, rfl | rfl⟩ := runs_realloc hrun
    · exact le_rfl
    · change live.card + 0 ≤ ((dirents' ::ₘ live).erase dirents).card
      rw [Multiset.card_erase_eq_ite, Multiset.card_cons]
      split
      · exact le_rfl
      · omega

theorem liveAfter_storeDirent {dirents : Word} {k : Nat} {u : Unit} (live : Multiset Word)
    (hrun : (storeDirent entries dirents len k).Runs heap u heap' log) :
    liveAfter live log = live := by
  obtain ⟨_, _, _, _, hread, hrest, rfl⟩ := runs_bind_iff.mp hrun
  obtain ⟨rfl, rfl, rfl⟩ := runs_read_iff.mp hread
  cases hdirent : direntFor (entryAt heap.mem entries k) with
  | none =>
    rw [hdirent] at hrest
    obtain ⟨-, -, rfl⟩ := runs_pure_iff.mp hrest
    rfl
  | some dirent =>
    rw [hdirent] at hrest
    obtain ⟨_, _, _, _, hwrite, hemit, rfl⟩ := runs_bind_iff.mp hrest
    obtain ⟨-, rfl⟩ := runs_write_iff.mp hwrite
    obtain ⟨-, rfl⟩ := runs_emit_iff.mp hemit
    rfl

/-- The loop never lowers the number of blocks. -/
theorem card_readdirLoop {dirents : Word} {k : Nat} {r : Word × Word} (live : Multiset Word)
    (hrun : (readdirLoop entries n k dirents len).Runs heap r heap' log) :
    live.card ≤ (liveAfter live log).card := by
  induction n generalizing k dirents len heap log live with
  | zero =>
    obtain ⟨-, -, rfl⟩ := runs_pure_iff.mp hrun
    exact le_rfl
  | succ n ih =>
    obtain ⟨entry, _, _, _, hread, hrest, rfl⟩ := runs_bind_iff.mp hrun
    obtain ⟨-, rfl, rfl⟩ := runs_read_iff.mp hread
    split at hrest
    · obtain ⟨dirents', _, _, _, hgrow, hrest', rfl⟩ := runs_bind_iff.mp hrest
      obtain ⟨_, _, _, _, hstore, hloop, rfl⟩ := runs_bind_iff.mp hrest'
      have hcard := card_growDirents live hgrow
      rw [List.nil_append, liveAfter_append, liveAfter_append, liveAfter_storeDirent _ hstore]
      exact (Nat.le_of_add_right_le hcard).trans (ih _ hloop)
    · exact ih live hrest

/-- With a listed entry it allocates a block. -/
theorem card_readdirLoop_listed {k : Nat} {r : Word × Word} (live : Multiset Word)
    (hlisted : ∃ j < n, isListed (entryAt heap.mem entries (k + j)) = true)
    (hrun : (readdirLoop entries n k 0 len).Runs heap r heap' log) :
    live.card + 1 ≤ (liveAfter live log).card := by
  induction n generalizing k log with
  | zero =>
    obtain ⟨j, hj, -⟩ := hlisted
    exact absurd hj (Nat.not_lt_zero j)
  | succ n ih =>
    obtain ⟨entry, _, _, _, hread, hrest, rfl⟩ := runs_bind_iff.mp hrun
    obtain ⟨rfl, rfl, rfl⟩ := runs_read_iff.mp hread
    split at hrest
    · obtain ⟨dirents', _, _, _, hgrow, hrest', rfl⟩ := runs_bind_iff.mp hrest
      obtain ⟨_, _, _, _, hstore, hloop, rfl⟩ := runs_bind_iff.mp hrest'
      have hcard := card_growDirents live hgrow
      rw [if_pos rfl] at hcard
      rw [List.nil_append, liveAfter_append, liveAfter_append, liveAfter_storeDirent _ hstore]
      exact hcard.trans (card_readdirLoop _ hloop)
    · rename_i hskip
      refine ih ?_ hrest
      obtain ⟨j, hj, hj'⟩ := hlisted
      cases j with
      | zero => exact absurd hj' hskip
      | succ j => exact ⟨j, Nat.lt_of_succ_lt_succ hj, by rwa [Nat.add_right_comm, Nat.add_assoc]⟩

/-- `fat12_readdir` always leaves the entries behind. -/
theorem fat12Readdir_live_ne {ref : Word} {r : Word × Word} (live : Multiset Word)
    (hrun : (fat12Readdir directory ref len).Runs heap r heap' log) :
    liveAfter live log ≠
      (if (directory (ref.setWidth 16)).entries.any isListed then {r.1} else 0) + live := by
  obtain ⟨⟨entries, n⟩, heap₁, _, log', hread, hloop, rfl⟩ := runs_bind_iff.mp hrun
  obtain ⟨rfl, hentries⟩ := runs_readDirectory hread
  intro heq
  have hcard := congrArg Multiset.card heq
  rw [List.singleton_append, liveAfter, Multiset.card_add] at hcard
  dsimp only at hcard
  by_cases hany : (directory (ref.setWidth 16)).entries.any isListed = true
  · have hlisted : ∃ j < n.toNat, isListed (entryAt heap₁.mem entries (0 + j)) = true := by
      rw [← hentries, List.any_eq_true] at hany
      obtain ⟨e, he, hlisted⟩ := hany
      obtain ⟨j, hj, rfl⟩ := List.mem_map.mp he
      exact ⟨j, List.mem_range.mp hj, by rwa [Nat.zero_add]⟩
    have hle := card_readdirLoop_listed (entries ::ₘ live) hlisted hloop
    rw [if_pos hany, Multiset.card_singleton] at hcard
    rw [Multiset.card_cons] at hle
    omega
  · have hle := card_readdirLoop (entries ::ₘ live) hloop
    rw [if_neg hany, Multiset.card_zero] at hcard
    rw [Multiset.card_cons] at hle
    omega

/-! ## All calls -/

/-- When a call of the driver leaves nothing behind but what it returns. -/
theorem leaves_only_result_iff (live : Multiset Word) (directory : Half → Directory)
    (heap heap' : Heap) (log : List DriverEvent) :
    (∀ stack path handle, 0 ∉ path →
      (fat12Open directory stack path).Runs heap handle heap' log →
      (liveAfter live log = handleBlocks handle + live ↔
        NamesFile (fun c => (directory c).entries) stack path)) ∧
    (∀ path handle, 0 ∉ path → (fat12Opendir directory path).Runs heap handle heap' log →
      (liveAfter live log = handleBlocks handle + live ↔
        NamesDirectory (fun c => (directory c).entries) path)) ∧
    (∀ fs disk readFat file buffer len,
      (fat12Read fs disk readFat file buffer len).Runs heap () heap' log →
      (liveAfter live log = live ↔
        clampLen (fileAt heap.mem file) len = 0 ∨ ValidUpTo readFat (fileAt heap.mem file).ref
          (readSpan fs (fileAt heap.mem file).offset
            (clampLen (fileAt heap.mem file) len)).clusterEnd.toNat)) ∧
    ∀ ref len r, (fat12Readdir directory ref len).Runs heap r heap' log →
      liveAfter live log ≠
        (if (directory (ref.setWidth 16)).entries.any isListed then {r.1} else 0) + live :=
  ⟨fun _ _ _ hnul hrun => fat12Open_live_iff live hnul hrun,
    fun _ _ hnul hrun => fat12Opendir_live_iff live hnul hrun,
    fun _ _ _ _ _ _ hrun => fat12Read_live_iff live hrun,
    fun _ _ _ hrun => fat12Readdir_live_ne live hrun⟩

/-- A directory with one entry. -/
def singleEntry (bytes : Nat → Byte) : Directory := ⟨1, bytes, by decide⟩

/-- A directory with one unused entry. -/
def unusedEntry : Directory := singleEntry fun _ => 0

/-- A heap of one free chunk of 4 KiB. -/
def smallHeap : Heap := oneChunk (fun _ => 0) 0x20000 0x1000

theorem exists_malloc (len : Word) (hpos : 0 < len.toNat) (hlen : len.toNat ≤ 0x1000) :
    ∃ ptr heap', Hjortron.malloc smallHeap len = .ok (ptr, heap') := by
  have hroom : Roomy 0x20000 0x21010 smallHeap [] 0x1000 := roomy_oneChunk (by decide) (by decide)
  obtain ⟨ptr, heap', hmalloc, -⟩ := hroom.malloc hpos hlen
  exact ⟨ptr, heap', hmalloc⟩

/-- A directory with one entry, the directory `D`. -/
def directoryEntryD : Directory :=
  singleEntry fun j => ("D          ".toList.map ascii ++ [fat12AttributeDirectory]).getD j 0

theorem storeDir_frame {m : Mem} {dir x : Word} {entry : DirectoryEntry}
    (hx : ¬ InRange dir 276 x) : storeDir m dir entry x = m x := by
  have hname : ¬ InRange dir 256 x := fun hin => hx (Nat.lt_trans hin (by decide))
  unfold storeDir
  rw [Mem.blit_apply (by decide)]
  exact (if_neg hname).trans (Mem.store32_member (by decide) hx)

/-- `fat12_opendir` makes a handle of the entry that it finds, and frees the entries. -/
theorem exists_openDirectory {lo hi size : Nat} {count : Word} {entry : DirectoryEntry}
    {heap₁ : Heap}
    (hroomy : Roomy lo hi heap₁ [(entries, len)] size) (hsize : sizeofFsDir.toNat ≤ size)
    (hname : strlen buffer ≠ 0) (hfound : findEntry (entriesAt heap₁.mem entries count)
      fat12AttributeDirectory buffer = some entry) :
    ∃ dir heap₂ log, (openDirectory entries count buffer).Runs heap₁ (some dir) heap₂ log := by
  obtain ⟨dir, heap₃, hmalloc, hallocated⟩ := hroomy.malloc (by decide) hsize
  have hledger : Ledger lo hi { heap₃ with mem := storeDir heap₃.mem dir entry }
      [(dir, sizeofFsDir), (entries, len)] := by
    apply hallocated.ledger.write
    intro x hx
    exact storeDir_frame fun hin => hx (.inr (.inr ⟨_, List.mem_cons_self, hin⟩))
  obtain ⟨heap₂, hfree, -⟩ := hledger.free (List.mem_cons_of_mem _ List.mem_cons_self)
  have hmade : (malloc sizeofFsDir).Runs heap₁ dir heap₃ _ := runs_malloc_iff.mpr ⟨hmalloc, rfl⟩
  have hstored : (write fun m => storeDir m dir entry).Runs heap₃ () _ _ :=
    runs_write_iff.mpr ⟨rfl, rfl⟩
  have hfreed : (free entries).Runs _ () heap₂ _ := runs_free_iff.mpr ⟨hfree, rfl⟩
  have hread : (Logged.read fun heap => findEntry (entriesAt heap.mem entries count)
      fat12AttributeDirectory buffer : Action _).Runs heap₁ (some entry) heap₁ [] := by
    rw [← hfound]
    exact runs_read _ heap₁
  rw [openDirectory, if_neg hname]
  exact ⟨dir, heap₂, _, hread.bind <| hmade.bind <| hstored.bind <| hfreed.bind <|
    runs_pure_iff.mpr ⟨rfl, rfl, rfl⟩⟩

/-- `fat12_opendir` finds `D`. -/
theorem exists_opendir : ∃ dir heap' log,
    (fat12Opendir (fun _ => directoryEntryD) [ascii 'D']).Runs smallHeap (some dir) heap' log := by
  have hroomy : Roomy 0x20000 0x21010 smallHeap [] 0x1000 := roomy_oneChunk (by decide) (by decide)
  let directory : Half → Directory := fun _ => directoryEntryD
  have hdirectory : Roomy 0x20000 0x21010 smallHeap [] (32 * (directory 0).count + 16 + 0x200) :=
    hroomy.mono (by decide)
  obtain ⟨⟨entries, n⟩, heap₂, log, hread, hrest, -⟩ :=
    readDirectory_returns 0 hdirectory (by decide) (by decide)
  have hentries := (runs_readDirectory hread).2
  dsimp only at hrest hentries
  obtain ⟨entry, hfound⟩ : ∃ entry, findEntry (entriesAt heap₂.mem entries n)
      fat12AttributeDirectory (blankBuffer.set 0 (ascii 'D')) = some entry := by
    rw [hentries]
    exact ⟨_, rfl⟩
  obtain ⟨dir, heap₃, log', hopen⟩ :=
    exists_openDirectory hrest (by decide) (by decide) hfound
  rw [fat12Opendir, if_neg (by decide)]
  exact ⟨dir, heap₃, _, hread.bind hopen⟩

theorem leaves_only_result_iff_directory :
    ∃ dir heap' log,
      (fat12Opendir (fun _ => directoryEntryD) [ascii 'D']).Runs smallHeap (some dir) heap' log ∧
        liveAfter 0 log = {dir} := by
  obtain ⟨dir, heap', log, hrun⟩ := exists_opendir
  refine ⟨dir, heap', log, hrun, ?_⟩
  have hnames : NamesDirectory (fun c => ((fun _ => directoryEntryD : Half → Directory) c).entries)
      [ascii 'D'] := .inr ⟨_, rfl⟩
  exact ((leaves_only_result_iff 0 _ _ _ _).2.1 _ _ (by decide) hrun).mpr hnames

/-- A name without an extension is refused, and the entries of the root directory are lost. -/
theorem leaves_entries_behind :
    ∃ heap heap' log,
      (fat12Open (fun _ => unusedEntry) (fun _ => 0) [ascii 'X']).Runs heap none heap' log ∧
        liveAfter 0 log ≠ handleBlocks none + 0 := by
  obtain ⟨ptr, heap', hmalloc⟩ := exists_malloc 32 (by decide) (by decide)
  have hread : (fat12ReadDirectory (fun _ => unusedEntry) 0).Runs smallHeap (ptr, 1)
      { heap' with mem := heap'.mem.blit ptr (fun _ => 0) 32 } [.malloc ptr] := by
    refine runs_bind_iff.mpr ⟨ptr, heap', _, [], runs_malloc_iff.mpr ⟨hmalloc, rfl⟩, ?_, rfl⟩
    rfl
  refine ⟨smallHeap, _, [.malloc ptr], runs_bind_iff.mpr ⟨_, _, _, [], hread, rfl, rfl⟩, ?_⟩
  change {ptr} ≠ (0 : Multiset Word)
  exact Multiset.singleton_ne_zero ptr

end

end Driver

end Hjortron
