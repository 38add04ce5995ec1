import Hjortron.Filesystem.Proofs.Leaks

/-!
# What `fat12_readdir` lists

The array grows by one element at a time, in place or into a new block, and the elements that are
already there move with it. Their number is the caller's `*len`, which `fat12_readdir` does not
reset, and entries of deleted files are not told from others.
-/

namespace Hjortron

/-- The first byte of the name of an entry that was never used or is deleted. -/
def DirectoryEntry.isUnused (entry : DirectoryEntry) : Bool :=
  entry.filename.head? == some 0 || entry.filename.head? == some 0xE5

/-- A file or directory other than `.` and `..`. -/
def DirectoryEntry.isNamed (entry : DirectoryEntry) : Bool :=
  (entry.attributes == fat12AttributeArchive || entry.attributes == fat12AttributeDirectory) &&
    entry.filename != dotName && entry.filename != dotDotName

/-- The element for a file or a directory. -/
def DirectoryEntry.dirent (entry : DirectoryEntry) : FsDirent :=
  if entry.attributes = fat12AttributeArchive then
    ⟨fat12FormatFileName entry.filename emptyName, .file⟩
  else
    ⟨fat12FormatDirName entry.filename emptyName, .directory⟩

/-- What a directory should be listed as. -/
def Directory.listing (d : Directory) : List FsDirent :=
  (d.entries.filter fun e => !e.isUnused && e.isNamed).map DirectoryEntry.dirent

/-- The assignments to elements of the array, in order. -/
def stores : List DriverEvent → List (Word × FsDirent)
  | [] => []
  | .dirent index value :: log => (index, value) :: stores log
  | .malloc _ :: log => stores log
  | .free _ :: log => stores log

/-- The elements `ds` stand in memory from `dirents` on. -/
def HoldsDirents (m : Mem) (dirents : Word) (ds : List FsDirent) : Prop :=
  ∀ i d, ds[i]? = some d → ∀ j < 257, m (dirents + BitVec.ofNat 32 (257 * i + j)) =
    Driver.direntByte d j

/-- The elements of `d` have been stored one after the other, they are in the array, and `*len` is
their number. -/
structure ListsExactly (d : Directory) (dirents len : Word) (m : Mem) (log : List DriverEvent) :
    Prop where
  stored : stores log = d.listing.mapIdx fun i dirent => (BitVec.ofNat 32 i, dirent)
  len : len.toNat = d.listing.length
  held : HoldsDirents m dirents d.listing

namespace Driver

open Logged

section

variable {lo hi n : Nat} {heap heap' : Heap} {live : List (Word × Word)} {m m' : Mem}
  {log log' : List DriverEvent} {entries size dirents dirents' len : Word} {ds : List FsDirent}
  {e : DirectoryEntry} {k : Nat}

/-! ## Entries -/

theorem fat12Strcmp_eq {name : List Byte} (hlen : name.length = 11) (hnul : 0 ∉ name) :
    fat12Strcmp e.filename name 11 = (e.filename == name) := by
  rw [Bool.eq_iff_iff, fat12Strcmp_iff e.length_filename.ge hlen.ge, beq_iff_eq,
    List.take_of_length_le e.length_filename.le, List.take_of_length_le hlen.le]
  constructor
  · exact fun h => h.1
  · intro h
    exact ⟨h, h ▸ hnul⟩

theorem isListed_eq : isListed e = e.isNamed := by
  rw [isListed, DirectoryEntry.isNamed, fat12Strcmp_eq rfl (by decide),
    fat12Strcmp_eq rfl (by decide), Bool.or_comm (e.attributes == _), Bool.not_or, ← Bool.and_assoc]
  rfl

theorem direntFor_eq (h : e.isNamed = true) : direntFor e = some e.dirent := by
  rw [direntFor, DirectoryEntry.dirent]
  by_cases hfile : e.attributes = fat12AttributeArchive
  · rw [if_pos hfile, if_pos hfile]
  · have hdir : e.attributes = fat12AttributeDirectory := by
      simp only [DirectoryEntry.isNamed, Bool.and_eq_true, Bool.or_eq_true, beq_iff_eq] at h
      exact h.1.1.resolve_left hfile
    rw [if_neg hfile, if_neg hfile, if_pos hdir]

/-- The entries are in a live block, which the allocator and the stores leave alone. -/
theorem entryAt_frame (hentries : (entries, size) ∈ live) (hk : 32 * (k + 1) ≤ size.toNat)
    (hframe : ∀ x, Stable lo hi live x → m' x = m x) :
    entryAt m' entries k = entryAt m entries k := by
  apply parseEntry_congr
  intro j hj
  have hin : InRange entries size.toNat (entries + BitVec.ofNat 32 (32 * k + j)) :=
    inRange_add (by omega) size.isLt.le
  exact hframe _ (Or.inr (Or.inr ⟨_, hentries, hin⟩))

/-! ## One element -/

/-- The array of the elements so far, in a block of its own once there is one. -/
structure Filled (lo hi : Nat) (live : List (Word × Word)) (heap : Heap) (dirents : Word)
    (ds : List FsDirent) : Prop where
  small : 257 * ds.length + 16 ≤ 2 ^ 32
  null : dirents = 0 ↔ ds = []
  ledger : Ledger lo hi heap
    (if ds = [] then live else (dirents, BitVec.ofNat 32 (257 * ds.length)) :: live)
  held : HoldsDirents heap.mem dirents ds

theorem Filled.empty (h : Ledger lo hi heap live) : Filled lo hi live heap 0 [] := by
  refine ⟨by decide, iff_of_true rfl rfl, h, ?_⟩
  intro i d hd
  cases hd

theorem stores_append : stores (log ++ log') = stores log ++ stores log' := by
  induction log with
  | nil => rfl
  | cons e log ih =>
    cases e with
    | dirent index value => exact congrArg _ ih
    | malloc ptr => exact ih
    | free ptr => exact ih

/-- The size of the block for one more element. -/
theorem direntsSize (k : Nat) :
    (BitVec.ofNat 32 k + 1) * sizeofFsDirent = BitVec.ofNat 32 (257 * (k + 1)) := by
  rw [Nat.mul_comm, BitVec.ofNat_mul, BitVec.ofNat_add]
  rfl

theorem Filled.grow (h : Filled lo hi live heap dirents ds)
    (hrun : (growDirents dirents (BitVec.ofNat 32 ds.length)).Runs heap dirents' heap' log) :
    Ledger lo hi heap' ((dirents', BitVec.ofNat 32 (257 * (ds.length + 1))) :: live) ∧
      HoldsDirents heap'.mem dirents' ds ∧
      (∀ x, Stable lo hi live x → heap'.mem x = heap.mem x) ∧ stores log = [] := by
  have hledger := h.ledger
  rw [growDirents] at hrun
  by_cases hds : ds = []
  · rw [if_pos (h.null.mpr hds)] at hrun
    rw [if_pos hds] at hledger
    obtain ⟨hmalloc, rfl⟩ := runs_malloc_iff.mp hrun
    have halloc := hledger.malloc hmalloc
    subst hds
    refine ⟨halloc.ledger, ?_, halloc.frame, rfl⟩
    intro i d hd
    cases hd
  · rw [if_neg fun h0 => hds (h.null.mp h0), direntsSize] at hrun
    rw [if_neg hds] at hledger
    obtain ⟨hrealloc, hlog⟩ := runs_realloc hrun
    have hstores : stores log = [] := by
      obtain rfl | rfl := hlog <;> rfl
    have hsmall := h.small
    have hlen : (BitVec.ofNat 32 (257 * ds.length)).toNat = 257 * ds.length :=
      Nat.mod_eq_of_lt (by omega)
    have hle : (BitVec.ofNat 32 (257 * ds.length)).toNat ≤
        (BitVec.ofNat 32 (257 * (ds.length + 1))).toNat := by
      rw [hlen, BitVec.toNat_ofNat, Nat.mod_eq_of_lt (by omega)]
      omega
    obtain ⟨hledger', hcopied, hframe⟩ := hledger.realloc hle hrealloc
    refine ⟨hledger', fun i d hd j hj => ?_, hframe, hstores⟩
    have hi : i < ds.length := (List.getElem?_eq_some_iff.mp hd).1
    rw [hcopied _ (by omega)]
    exact h.held i d hd j hj

/-- What filling in an element does for an entry that is listed. -/
theorem runs_storeDirent {u : Unit} (hentry : (entryAt heap.mem entries k).isNamed = true)
    (hrun : (storeDirent entries dirents len k).Runs heap u heap' log) :
    heap' = { heap with
      mem := heap.mem.blit (dirents + len * sizeofFsDirent)
        (direntByte (entryAt heap.mem entries k).dirent) 257 } ∧
      log = [.dirent len (entryAt heap.mem entries k).dirent] := by
  obtain ⟨_, _, _, _, hread, hrest, rfl⟩ := runs_bind_iff.mp hrun
  obtain ⟨rfl, rfl, rfl⟩ := runs_read_iff.mp hread
  rw [direntFor_eq hentry] at hrest
  obtain ⟨_, _, _, _, hwrite, hemit, rfl⟩ := runs_bind_iff.mp hrest
  obtain ⟨rfl, rfl⟩ := runs_write_iff.mp hwrite
  obtain ⟨rfl, rfl⟩ := runs_emit_iff.mp hemit
  exact ⟨rfl, rfl⟩

/-- Where the element behind the first `n` starts. -/
theorem direntAddr (dirents : Word) (n : Nat) :
    dirents + BitVec.ofNat 32 n * sizeofFsDirent = dirents + BitVec.ofNat 32 (257 * n) := by
  rw [Nat.mul_comm, BitVec.ofNat_mul]
  rfl

theorem blit_dirent_frame {n : Nat} {f : Nat → Byte} (hsmall : 257 * (n + 1) < 2 ^ 32)
    (hx : ¬ InRange dirents (257 * (n + 1)) x) :
    m.blit (dirents + BitVec.ofNat 32 n * sizeofFsDirent) f 257 x = m x := by
  rw [direntAddr, Mem.blit_apply (by decide), if_neg]
  unfold InRange at hx
  bv_omega

/-- One more element behind those that are there. -/
theorem holdsDirents_concat (h : HoldsDirents m dirents ds)
    (hsmall : 257 * (ds.length + 1) < 2 ^ 32) (d : FsDirent) :
    HoldsDirents (m.blit (dirents + BitVec.ofNat 32 ds.length * sizeofFsDirent) (direntByte d) 257)
      dirents (ds ++ [d]) := by
  intro i e he j hj
  have hi : i < ds.length + 1 := by
    have := (List.getElem?_eq_some_iff.mp he).1
    rwa [List.length_append, List.length_singleton] at this
  rw [direntAddr, Mem.blit_offset (by omega) (by omega)]
  by_cases hlast : i = ds.length
  · subst hlast
    rw [List.getElem?_concat_length] at he
    rw [if_pos (by omega), Nat.add_sub_cancel_left, Option.some.inj he]
  · rw [List.getElem?_append_left (by omega)] at he
    rw [if_neg (by omega)]
    exact h i e he j hj

/-- The element that `fat12_readdir` fills in is the last one of its block. -/
theorem Filled.store {u : Unit}
    (hledger : Ledger lo hi heap ((dirents, BitVec.ofNat 32 (257 * (ds.length + 1))) :: live))
    (hheld : HoldsDirents heap.mem dirents ds)
    (hsmall : 257 * (ds.length + 1) < 2 ^ 32)
    (hentry : (entryAt heap.mem entries k).isNamed = true)
    (hrun : (storeDirent entries dirents (BitVec.ofNat 32 ds.length) k).Runs heap u heap' log) :
    Filled lo hi live heap' dirents (ds ++ [(entryAt heap.mem entries k).dirent]) ∧
      (∀ x, Stable lo hi live x → heap'.mem x = heap.mem x) ∧
      stores log = [(BitVec.ofNat 32 ds.length, (entryAt heap.mem entries k).dirent)] := by
  obtain ⟨rfl, rfl⟩ := runs_storeDirent hentry hrun
  have hsize : (BitVec.ofNat 32 (257 * (ds.length + 1))).toNat = 257 * (ds.length + 1) :=
    Nat.mod_eq_of_lt hsmall
  have hbounds := hledger.bounds List.mem_cons_self
  rw [hsize] at hbounds
  have hne : ds ++ [(entryAt heap.mem entries k).dirent] ≠ [] :=
    List.append_ne_nil_of_right_ne_nil _ (List.cons_ne_nil _ _)
  refine ⟨⟨?_, ?_, ?_, ?_⟩, ?_, rfl⟩
  · rw [List.length_append, List.length_singleton]
    omega
  · exact iff_of_false (hledger.ne_zero List.mem_cons_self) hne
  · rw [if_neg hne, List.length_append, List.length_singleton]
    apply hledger.write
    intro x hx
    apply blit_dirent_frame hsmall
    intro hin
    exact hx (Or.inr (Or.inr ⟨_, List.mem_cons_self, by rwa [hsize]⟩))
  · exact holdsDirents_concat hheld hsmall _
  · intro x hx
    apply blit_dirent_frame hsmall
    rw [← hsize]
    exact hledger.not_inRange hx

/-! ## All elements -/

/-- The elements for entries that are files and directories, used or not. -/
def namedDirents (es : List DirectoryEntry) : List FsDirent :=
  (es.filter DirectoryEntry.isNamed).map DirectoryEntry.dirent

theorem namedDirents_cons (h : e.isNamed = true) (es : List DirectoryEntry) :
    namedDirents (e :: es) = e.dirent :: namedDirents es := by
  rw [namedDirents, List.filter_cons_of_pos h]
  rfl

theorem namedDirents_cons_of_not (h : ¬ e.isNamed = true) (es : List DirectoryEntry) :
    namedDirents (e :: es) = namedDirents es := by
  rw [namedDirents, List.filter_cons_of_neg h]
  rfl

/-- The loop appends the elements of the entries that it goes through. -/
theorem Filled.loop {r : Word × Word} (h : Filled lo hi live heap dirents ds)
    (hentries : (entries, size) ∈ live) (hk : 32 * (k + n) ≤ size.toNat)
    (hm : ∀ x, Stable lo hi live x → heap.mem x = m x)
    (hrun : (readdirLoop entries n k dirents (BitVec.ofNat 32 ds.length)).Runs heap r heap' log) :
    Filled lo hi live heap' r.1
        (ds ++ namedDirents ((List.range' k n).map (entryAt m entries))) ∧
      r.2 = BitVec.ofNat 32
        (ds ++ namedDirents ((List.range' k n).map (entryAt m entries))).length ∧
      stores log = (namedDirents ((List.range' k n).map (entryAt m entries))).mapIdx fun i d =>
        (BitVec.ofNat 32 (ds.length + i), d) := by
  induction n generalizing k ds dirents heap log with
  | zero =>
    obtain ⟨rfl, rfl, rfl⟩ := runs_pure_iff.mp hrun
    rw [List.range'_zero, List.map_nil, show namedDirents [] = [] from rfl, List.append_nil]
    exact ⟨h, rfl, rfl⟩
  | succ n ih =>
    obtain ⟨_, _, _, _, hread, hrest, rfl⟩ := runs_bind_iff.mp hrun
    obtain ⟨rfl, rfl, rfl⟩ := runs_read_iff.mp hread
    have hentry : entryAt heap.mem entries k = entryAt m entries k :=
      entryAt_frame hentries (by omega) hm
    rw [isListed_eq, hentry] at hrest
    rw [List.range'_succ, List.map_cons]
    by_cases hnamed : (entryAt m entries k).isNamed = true
    · rw [if_pos hnamed] at hrest
      obtain ⟨dirents₁, heap₁, _, _, hgrow, hrest₁, rfl⟩ := runs_bind_iff.mp hrest
      obtain ⟨_, heap₂, _, _, hstore, hloop, rfl⟩ := runs_bind_iff.mp hrest₁
      obtain ⟨hledger, hheld, hframe₁, hstores₁⟩ := h.grow hgrow
      have hm₁ : ∀ x, Stable lo hi live x → heap₁.mem x = m x := fun x hx =>
        (hframe₁ x hx).trans (hm x hx)
      have hentry₁ : entryAt heap₁.mem entries k = entryAt m entries k :=
        entryAt_frame hentries (by omega) hm₁
      have hsmall := h.small
      obtain ⟨hfilled, hframe₂, hstores₂⟩ :=
        Filled.store hledger hheld (by omega) (hentry₁ ▸ hnamed) hstore
      rw [hentry₁] at hfilled hstores₂
      have hlen : BitVec.ofNat 32 ds.length + 1 =
          BitVec.ofNat 32 (ds ++ [(entryAt m entries k).dirent]).length := by
        rw [List.length_append, List.length_singleton, BitVec.ofNat_add]
        rfl
      rw [hlen] at hloop
      obtain ⟨hfilled', hr, hstores⟩ := ih hfilled (by omega)
        (fun x hx => (hframe₂ x hx).trans (hm₁ x hx)) hloop
      rw [namedDirents_cons hnamed, List.append_cons]
      refine ⟨hfilled', hr, ?_⟩
      rw [List.nil_append, stores_append, stores_append, hstores₁, hstores₂, hstores,
        List.mapIdx_cons]
      simp [Nat.add_assoc, Nat.add_comm 1]
    · rw [if_neg hnamed] at hrest
      rw [namedDirents_cons_of_not hnamed]
      exact ih h (by omega) hm hrest

/-- Whatever `*len` is at the call, the first assignment goes to `(*dirents)[*len]`. -/
theorem first_store {r : Word × Word} (h : Ledger lo hi heap live)
    (hentries : (entries, size) ∈ live) (hk : 32 * (k + n) ≤ size.toNat)
    (hrun : (readdirLoop entries n k 0 len).Runs heap r heap' log) :
    namedDirents ((List.range' k n).map (entryAt heap.mem entries)) = [] ∧ r.2 = len ∨
      ∃ d rest, stores log = (len, d) :: rest := by
  induction n generalizing k log with
  | zero =>
    obtain ⟨rfl, rfl, rfl⟩ := runs_pure_iff.mp hrun
    exact .inl ⟨rfl, rfl⟩
  | succ n ih =>
    obtain ⟨_, _, _, _, hread, hrest, rfl⟩ := runs_bind_iff.mp hrun
    obtain ⟨rfl, rfl, rfl⟩ := runs_read_iff.mp hread
    rw [isListed_eq] at hrest
    rw [List.range'_succ, List.map_cons]
    by_cases hnamed : (entryAt heap.mem entries k).isNamed = true
    · rw [if_pos hnamed] at hrest
      obtain ⟨dirents₁, heap₁, _, _, hgrow, hrest₁, rfl⟩ := runs_bind_iff.mp hrest
      obtain ⟨_, heap₂, _, _, hstore, hloop, rfl⟩ := runs_bind_iff.mp hrest₁
      rw [growDirents, if_pos rfl] at hgrow
      obtain ⟨hmalloc, rfl⟩ := runs_malloc_iff.mp hgrow
      have hentry : entryAt heap₁.mem entries k = entryAt heap.mem entries k :=
        entryAt_frame hentries (by omega) (h.malloc hmalloc).frame
      obtain ⟨-, rfl⟩ := runs_storeDirent (hentry ▸ hnamed) hstore
      exact .inr ⟨_, _, rfl⟩
    · rw [if_neg hnamed] at hrest
      rw [namedDirents_cons_of_not hnamed]
      exact ih (by omega) hrest

/-- The block of a directory is one more live block. -/
theorem readDirectory_ledger {directory : Half → Directory} {cluster : Half} {r : Word × Word}
    (h : Ledger lo hi heap live)
    (hrun : (fat12ReadDirectory directory cluster).Runs heap r heap' log) :
    Ledger lo hi heap' ((r.1, BitVec.ofNat 32 (32 * (directory cluster).count)) :: live) ∧
      r.2.toNat = (directory cluster).count := by
  have hcount := (directory cluster).count_lt
  obtain ⟨ptr, heap₁, _, _, hcall, hrest, rfl⟩ := runs_bind_iff.mp hrun
  obtain ⟨hmalloc, rfl⟩ := runs_malloc_iff.mp hcall
  obtain ⟨_, _, _, _, hwrite, hreturn, rfl⟩ := runs_bind_iff.mp hrest
  obtain ⟨rfl, rfl⟩ := runs_write_iff.mp hwrite
  obtain ⟨rfl, rfl, rfl⟩ := runs_pure_iff.mp hreturn
  refine ⟨(h.malloc hmalloc).ledger.write fun x hx => ?_, Nat.mod_eq_of_lt (by omega)⟩
  rw [Mem.blit_apply hcount.le, if_neg]
  intro hin
  refine hx (Or.inr (Or.inr ⟨_, List.mem_cons_self, ?_⟩))
  rwa [InRange, BitVec.toNat_ofNat, Nat.mod_eq_of_lt hcount]

/-- Leaving out unused entries changes the list exactly when there are any. -/
theorem length_listing_iff (d : Directory) :
    d.listing.length = (namedDirents d.entries).length ↔
      ∀ e ∈ d.entries, e.isNamed = true → e.isUnused = false := by
  rw [Directory.listing, namedDirents, List.length_map, List.length_map, ← List.filter_filter,
    List.length_filter_eq_length_iff]
  simp only [List.mem_filter, Bool.not_eq_true', and_imp]

theorem listing_eq {d : Directory}
    (h : ∀ e ∈ d.entries, e.isNamed = true → e.isUnused = false) :
    d.listing = namedDirents d.entries := by
  rw [Directory.listing, namedDirents]
  congr 1
  refine List.filter_congr fun e he => ?_
  by_cases hnamed : e.isNamed = true
  · rw [h e he hnamed, hnamed]
    rfl
  · simp [hnamed]

section

variable {directory : Half → Directory} {ref : Word} {r : Word × Word}

/-- `fat12_readdir` is its loop over the entries in a block of their own. -/
theorem exists_readdirLoop (h : Ledger lo hi heap live)
    (hrun : (fat12Readdir directory ref len).Runs heap r heap' log) :
    ∃ entries size heap₁ log', stores log = stores log' ∧
      Ledger lo hi heap₁ ((entries, size) :: live) ∧
      32 * (0 + (directory (ref.setWidth 16)).count) ≤ size.toNat ∧
      (List.range' 0 (directory (ref.setWidth 16)).count).map (entryAt heap₁.mem entries) =
        (directory (ref.setWidth 16)).entries ∧
      (readdirLoop entries (directory (ref.setWidth 16)).count 0 0 len).Runs heap₁ r heap'
        log' := by
  obtain ⟨⟨entries, n⟩, heap₁, _, log', hread, hloop, rfl⟩ := runs_bind_iff.mp hrun
  obtain ⟨hledger, hn⟩ := readDirectory_ledger h hread
  obtain ⟨rfl, hentries⟩ := runs_readDirectory hread
  dsimp only at hn hloop
  rw [entriesAt, hn, List.range_eq_range'] at hentries
  rw [hn] at hloop
  refine ⟨entries, _, heap₁, log', rfl, hledger, ?_, hentries, hloop⟩
  rw [BitVec.toNat_ofNat, Nat.mod_eq_of_lt (directory (ref.setWidth 16)).count_lt, Nat.zero_add]

/-- From an empty array all files and directories are listed. -/
theorem readdir_from_zero (h : Ledger lo hi heap live)
    (hrun : (fat12Readdir directory ref 0).Runs heap r heap' log) :
    HoldsDirents heap'.mem r.1 (namedDirents (directory (ref.setWidth 16)).entries) ∧
      r.2.toNat = (namedDirents (directory (ref.setWidth 16)).entries).length ∧
      stores log = (namedDirents (directory (ref.setWidth 16)).entries).mapIdx fun i d =>
        (BitVec.ofNat 32 i, d) := by
  obtain ⟨entries, size, heap₁, log', hlog, hledger, hsize, hentries, hloop⟩ :=
    exists_readdirLoop h hrun
  obtain ⟨hfilled, hr, hstores⟩ :=
    (Filled.empty hledger).loop List.mem_cons_self hsize (fun x hx => rfl) hloop
  rw [hentries, List.nil_append] at hfilled hr
  rw [hentries] at hstores
  have hsmall := hfilled.small
  refine ⟨hfilled.held, ?_, ?_⟩
  · rw [hr, BitVec.toNat_ofNat]
    exact Nat.mod_eq_of_lt (by omega)
  · rw [hlog, hstores]
    simp

/-- A listing from index 0 needs `*len` to be 0 at the call. -/
theorem len_zero_of_listsExactly (h : Ledger lo hi heap live)
    (hrun : (fat12Readdir directory ref len).Runs heap r heap' log)
    (hexact : ListsExactly (directory (ref.setWidth 16)) r.1 r.2 heap'.mem log) : len = 0 := by
  obtain ⟨entries, size, heap₁, log', hlog, hledger, hsize, hentries, hloop⟩ :=
    exists_readdirLoop h hrun
  have hfirst := first_store hledger List.mem_cons_self hsize hloop
  rw [hentries] at hfirst
  obtain ⟨hnone, rfl⟩ | ⟨d, rest, hstores⟩ := hfirst
  · have hlen := hexact.len
    have hle : (directory (ref.setWidth 16)).listing.length ≤
        (namedDirents (directory (ref.setWidth 16)).entries).length := by
      rw [Directory.listing, namedDirents, List.length_map, List.length_map, ← List.filter_filter]
      exact List.length_filter_le _ _
    rw [hnone, List.length_nil] at hle
    bv_omega
  · have hstored := hexact.stored
    rw [hlog, hstores] at hstored
    cases hlisting : (directory (ref.setWidth 16)).listing with
    | nil =>
      rw [hlisting] at hstored
      cases hstored
    | cons d' rest' =>
      rw [hlisting, List.mapIdx_cons] at hstored
      exact (Prod.mk.inj (List.cons.inj hstored).1).1

/-- `fat12_readdir` lists the files and directories of a directory exactly when `*len` is 0 at the
call and no entry of a deleted one is left. -/
theorem fat12Readdir_lists_iff (h : Ledger lo hi heap live)
    (hrun : (fat12Readdir directory ref len).Runs heap r heap' log) :
    ListsExactly (directory (ref.setWidth 16)) r.1 r.2 heap'.mem log ↔
      len = 0 ∧ ∀ e ∈ (directory (ref.setWidth 16)).entries, e.isNamed = true →
        e.isUnused = false := by
  constructor
  · intro hexact
    obtain rfl := len_zero_of_listsExactly h hrun hexact
    obtain ⟨-, hlen, -⟩ := readdir_from_zero h hrun
    refine ⟨rfl, (length_listing_iff _).mp ?_⟩
    rw [← hlen, hexact.len]
  · rintro ⟨rfl, hused⟩
    obtain ⟨hheld, hlen, hstores⟩ := readdir_from_zero h hrun
    rw [← listing_eq hused] at hheld hlen hstores
    exact ⟨hstores, hlen, hheld⟩

/-! ## Returning -/

theorem exists_storeDirent (entries dirents len : Word) (k : Nat) (heap : Heap) :
    ∃ heap' log, (storeDirent entries dirents len k).Runs heap () heap' log := by
  have hfill : ∃ heap' log, (fillDirent dirents len
      (direntFor (entryAt heap.mem entries k))).Runs heap () heap' log := by
    cases direntFor (entryAt heap.mem entries k) with
    | none => exact ⟨_, _, rfl⟩
    | some dirent => exact ⟨_, _, rfl⟩
  obtain ⟨heap', log, hfill⟩ := hfill
  exact ⟨heap', _, (runs_read _ heap).bind hfill⟩

/-- With room for a new block and for `room` bytes there is one more element. -/
theorem Filled.grow_returns {room : Nat} (h : Filled lo hi live heap dirents ds)
    (hsmall : 257 * (ds.length + 1) < 2 ^ 32) (hpos : 0 < room)
    (hroom : HasRoom heap (257 * (ds.length + 1) + 16 + room)) :
    ∃ dirents' heap' log,
      (growDirents dirents (BitVec.ofNat 32 ds.length)).Runs heap dirents' heap' log ∧
        HasRoom heap' room := by
  have hroomy := h.ledger.roomy hroom
  rw [growDirents]
  by_cases hds : ds = []
  · subst hds
    rw [if_pos (h.null.mpr rfl)]
    obtain ⟨ptr, heap', hmalloc, hrest⟩ :=
      hroomy.malloc_rest (by decide : 0 < sizeofFsDirent.toNat) hpos
    exact ⟨ptr, heap', _, runs_malloc_iff.mpr ⟨hmalloc, rfl⟩, hrest.hasRoom⟩
  · rw [if_neg fun h0 => hds (h.null.mp h0), direntsSize]
    rw [if_neg hds] at hroomy
    have hnew : (BitVec.ofNat 32 (257 * (ds.length + 1))).toNat = 257 * (ds.length + 1) :=
      Nat.mod_eq_of_lt hsmall
    have hold : (BitVec.ofNat 32 (257 * ds.length)).toNat = 257 * ds.length :=
      Nat.mod_eq_of_lt (by omega)
    rw [← hnew] at hroomy
    obtain ⟨ptr, heap', hrealloc, hrest⟩ := hroomy.realloc_rest (by omega) hpos (by omega)
    obtain ⟨log, hrun⟩ := exists_runs (forget_realloc.trans hrealloc)
    exact ⟨ptr, heap', log, hrun, hrest.hasRoom⟩

/-- Filling in the last element leaves as much room as there was. -/
theorem storeDirent_room {u : Unit} {room : Nat}
    (hledger : Ledger lo hi heap ((dirents, BitVec.ofNat 32 (257 * (ds.length + 1))) :: live))
    (hsmall : 257 * (ds.length + 1) < 2 ^ 32)
    (hentry : (entryAt heap.mem entries k).isNamed = true)
    (hrun : (storeDirent entries dirents (BitVec.ofNat 32 ds.length) k).Runs heap u heap' log)
    (hroom : HasRoom heap room) : HasRoom heap' room := by
  have hsize : (BitVec.ofNat 32 (257 * (ds.length + 1))).toNat = 257 * (ds.length + 1) :=
    Nat.mod_eq_of_lt hsmall
  obtain ⟨rfl, -⟩ := runs_storeDirent hentry hrun
  apply ((hledger.roomy hroom).write _).hasRoom
  intro x hx
  apply blit_dirent_frame hsmall
  intro hin
  exact hx (.inr (.inr ⟨_, List.mem_cons_self, by rwa [hsize]⟩))

/-- The room for `n` more elements behind `k`. -/
def direntRoom (k n : Nat) : Nat := n * (257 * (k + n) + 16) + 1

theorem direntRoom_succ (k n : Nat) :
    direntRoom k n ≤ direntRoom k (n + 1) ∧
      257 * (k + 1) + 16 + direntRoom (k + 1) n ≤ direntRoom k (n + 1) := by
  unfold direntRoom
  have hstep : n * (257 * (k + 1 + n) + 16) + (257 * (k + 1 + n) + 16) =
      (n + 1) * (257 * (k + (n + 1)) + 16) := by
    rw [Nat.add_right_comm k 1 n]
    exact (Nat.succ_mul n _).symm
  have hless : n * (257 * (k + n) + 16) ≤ n * (257 * (k + 1 + n) + 16) :=
    Nat.mul_le_mul_left n (by omega)
  omega

/-- The loop returns when there is room for an element for each entry. -/
theorem Filled.loop_returns (h : Filled lo hi live heap dirents ds)
    (hentries : (entries, size) ∈ live) (hk : 32 * (k + n) ≤ size.toNat)
    (hsmall : 257 * (ds.length + n) + 16 < 2 ^ 32)
    (hroom : HasRoom heap (direntRoom ds.length n)) :
    ∃ r heap' log,
      (readdirLoop entries n k dirents (BitVec.ofNat 32 ds.length)).Runs heap r heap' log := by
  induction n generalizing k ds dirents heap with
  | zero => exact ⟨_, heap, [], rfl⟩
  | succ n ih =>
    have hmore := direntRoom_succ ds.length n
    have hroomy := h.ledger.roomy hroom
    have hread : (Logged.read fun heap => entryAt heap.mem entries k : Action _).Runs heap
        (entryAt heap.mem entries k) heap [] := runs_read _ heap
    rw [readdirLoop]
    by_cases hlisted : isListed (entryAt heap.mem entries k) = true
    · obtain ⟨dirents₁, heap₁, log₁, hgrow, hrest⟩ := h.grow_returns (by omega)
        (Nat.succ_pos _) (hroomy.mono hmore.2).hasRoom
      obtain ⟨heap₂, log₂, hstore⟩ := exists_storeDirent entries dirents₁
        (BitVec.ofNat 32 ds.length) k heap₁
      obtain ⟨hledger, hheld, hframe, -⟩ := h.grow hgrow
      have hentry : entryAt heap₁.mem entries k = entryAt heap.mem entries k :=
        entryAt_frame hentries (by omega) hframe
      have hnamed : (entryAt heap₁.mem entries k).isNamed = true := by
        rw [hentry, ← isListed_eq]
        exact hlisted
      obtain ⟨hfilled, -⟩ := Filled.store hledger hheld (by omega) hnamed hstore
      have hroom₂ := storeDirent_room hledger (by omega) hnamed hstore hrest
      have hlen : (ds ++ [(entryAt heap₁.mem entries k).dirent]).length = ds.length + 1 :=
        List.length_append
      rw [← hlen] at hroom₂
      obtain ⟨r, heap₃, log₃, hloop⟩ := ih hfilled (k := k + 1) (by omega) (by omega) hroom₂
      have hnext : BitVec.ofNat 32 ds.length + 1 =
          BitVec.ofNat 32 (ds ++ [(entryAt heap₁.mem entries k).dirent]).length := by
        rw [hlen, BitVec.ofNat_add]
        rfl
      rw [← hnext] at hloop
      apply hread.exists_bind
      rw [if_pos hlisted]
      exact ⟨r, heap₃, _, hgrow.bind (hstore.bind hloop)⟩
    · apply hread.exists_bind
      rw [if_neg hlisted]
      exact ih h (by omega) (by omega) (hroomy.mono hmore.1).hasRoom

/-- `fat12_readdir` returns when there is room for the entries and for their elements. -/
theorem fat12Readdir_returns {directory : Half → Directory} {ref : Word}
    (h : Roomy lo hi heap live (32 * (directory (ref.setWidth 16)).count + 16 +
      direntRoom 0 (directory (ref.setWidth 16)).count))
    (hpos : 0 < (directory (ref.setWidth 16)).count)
    (hsmall : 257 * (directory (ref.setWidth 16)).count + 16 < 2 ^ 32) :
    ∃ r heap' log, (fat12Readdir directory ref 0).Runs heap r heap' log := by
  obtain ⟨⟨entries, n⟩, heap₁, log, hread, hrest, -⟩ := readDirectory_returns _ h hpos
    (Nat.succ_pos _)
  obtain ⟨hledger, hn⟩ := readDirectory_ledger h.ledger hread
  have hsize := (directory (ref.setWidth 16)).count_lt
  apply hread.exists_bind
  dsimp only at hn ⊢
  rw [hn]
  apply (Filled.empty hledger).loop_returns List.mem_cons_self
  · rw [BitVec.toNat_ofNat, Nat.mod_eq_of_lt hsize, Nat.zero_add]
  · rwa [List.length_nil, Nat.zero_add]
  · exact hrest.hasRoom

/-! ## Small directories -/

theorem ledger_smallHeap : Ledger 0x20000 0x21010 smallHeap [] :=
  (roomy_oneChunk (by decide) (by decide)).ledger

theorem exists_readdir (d : Directory) (hpos : 0 < d.count)
    (hroom : 32 * d.count + 16 + direntRoom 0 d.count ≤ 0x1000)
    (hsmall : 257 * d.count + 16 < 2 ^ 32) :
    ∃ r heap' log, (fat12Readdir (fun _ => d) 0 0).Runs smallHeap r heap' log := by
  have hroomy : Roomy 0x20000 0x21010 smallHeap [] 0x1000 := roomy_oneChunk (by decide) (by decide)
  exact fat12Readdir_returns (hroomy.mono hroom) hpos hsmall

/-- A file and a directory. -/
def twoEntries : Directory where
  count := 2
  bytes j := (List.replicate 11 (ascii 'A') ++ [fat12AttributeArchive] ++ List.replicate 20 0 ++
    List.replicate 11 (ascii 'B') ++ [fat12AttributeDirectory]).getD j 0
  count_lt := by decide

/-- A directory with one deleted file. -/
def deletedFile : Directory :=
  singleEntry fun j => (0xE5 :: List.replicate 10 (ascii 'A') ++ [0x20]).getD j 0

theorem fat12Readdir_lists_iff_two :
    ∃ r heap' log, (fat12Readdir (fun _ => twoEntries) 0 0).Runs smallHeap r heap' log ∧
      ListsExactly twoEntries r.1 r.2 heap'.mem log ∧ twoEntries.listing.length = 2 := by
  obtain ⟨r, heap', log, hrun⟩ := exists_readdir twoEntries (by decide) (by decide) (by decide)
  exact ⟨r, heap', log, hrun, (fat12Readdir_lists_iff ledger_smallHeap hrun).mpr
    ⟨rfl, by decide⟩, by decide⟩

/-- A deleted file is listed. -/
theorem fat12Readdir_lists_deleted :
    ∃ r heap' log, (fat12Readdir (fun _ => deletedFile) 0 0).Runs smallHeap r heap' log ∧
      deletedFile.listing = [] ∧ r.2 = 1 ∧
      ¬ ListsExactly deletedFile r.1 r.2 heap'.mem log := by
  obtain ⟨r, heap', log, hrun⟩ := exists_readdir deletedFile (by decide) (by decide) (by decide)
  obtain ⟨-, hlen, -⟩ := readdir_from_zero ledger_smallHeap hrun
  have hone : r.2 = 1 := BitVec.eq_of_toNat_eq hlen
  refine ⟨r, heap', log, hrun, by decide, hone, fun hexact => ?_⟩
  have hnone := hexact.len
  rw [hone] at hnone
  exact absurd hnone (by decide)

end

end

end Driver

end Hjortron
