import Hjortron.Filesystem.Proofs.DriverOpens
import Hjortron.Filesystem.Proofs.DriverReads
import Hjortron.Filesystem.Proofs.ResolveSpec

/-!
# The driver with room on the heap

`fat12_open` and `fat12_read` return when some free chunk is long enough for the blocks that they
hold at one time: the entries of a directory and a handle, or a cluster and a sector. Blocks that
are freed leave as much room as there was before.
-/

namespace Hjortron

namespace Driver

open Logged

/-! ## `fat12_open` -/

/-- A block that leaves room for a handle, and can be given back. -/
structure Borrowed (lo hi : Nat) (live : List (Word × Word)) (size : Nat) (heap : Heap)
    (ptr len : Word) : Prop where
  rest : Roomy lo hi heap ((ptr, len) :: live) sizeofFsFile.toNat
  back : ∃ heap', Hjortron.free heap ptr = .ok heap' ∧ Roomy lo hi heap' live size

section

variable {lo hi size : Nat} {live : List (Word × Word)} {directory : Half → Directory}
  {stack : Nat → Byte} {heap heap' : Heap} {entries len n : Word} {path buffer : List Byte}
  {E : List DirectoryEntry} {i : Nat} {entry : DirectoryEntry} {o : Opened FsFile}

/-- With room for the entries a directory can be read. -/
theorem readDirectory_borrowed (cluster : Half) (h : Roomy lo hi heap live size)
    (hpos : 0 < (directory cluster).count)
    (hsize : 32 * (directory cluster).count + 300 ≤ size) :
    ∃ r heap' log, (fat12ReadDirectory directory cluster).Runs heap r heap' log ∧
      Borrowed lo hi live size heap' r.1 (BitVec.ofNat 32 (32 * (directory cluster).count)) := by
  have hmore : Roomy lo hi heap live
      (32 * (directory cluster).count + 16 + sizeofFsFile.toNat) := h.mono hsize
  rcases readDirectory_returns cluster hmore hpos (by decide) with
    ⟨r, heap', log, hread, hrest, hback⟩
  exact ⟨r, heap', log, hread, hrest, hback size h (by omega)⟩

/-- With room for the handle the end of the path can be opened. -/
theorem openFile_returns (h : Borrowed lo hi live size heap entries n)
    (hE : entriesAt heap.mem entries len = E)
    (hvalue : Hjortron.openFile stack E buffer = some o) :
    ∃ handle heap' log, (openFile stack entries len buffer).Runs heap handle heap' log := by
  rw [openFile]
  rw [Hjortron.openFile] at hvalue
  have hnull : ∃ handle heap' log,
      (pure none : Action (Option Word)).Runs heap handle heap' log := ⟨none, heap, [], rfl⟩
  by_cases h0 : strlen buffer = 0
  · rw [if_pos h0]
    exact hnull
  · rw [if_neg h0] at hvalue ⊢
    cases hloop : extensionLoop stack 24 1 buffer [0, 0, 0] with
    | none =>
      rw [hloop] at hvalue
      cases hvalue
    | some r =>
      rcases r with ⟨buffer', ext⟩
      dsimp only
      by_cases hext : ext.getD 0 0 = 0
      · rw [if_pos hext]
        exact hnull
      · rw [if_neg hext]
        have hread : (Logged.read fun heap =>
            findEntry (entriesAt heap.mem entries len) fat12AttributeArchive buffer' :
              Action _).Runs heap _ heap [] := runs_read _ heap
        rw [hE] at hread
        cases hfind : findEntry E fat12AttributeArchive buffer' with
        | none =>
          rw [hfind] at hread
          exact ⟨_, _, _, hread.bind (runs_pure_iff.mpr ⟨rfl, rfl, rfl⟩)⟩
        | some entry =>
          rw [hfind] at hread
          rcases h.rest.malloc (by decide) le_rfl with ⟨file, heap₁, hmalloc, halloc⟩
          have hstored : Ledger lo hi { heap₁ with mem := storeFile heap₁.mem file entry }
              ((file, sizeofFsFile) :: (entries, n) :: live) := by
            apply halloc.ledger.write
            intro x hx
            apply storeFile_frame
            intro hin
            exact hx (.inr (.inr ⟨_, List.mem_cons_self, hin⟩))
          rcases hstored.free (List.mem_cons_of_mem _ List.mem_cons_self) with
            ⟨heap₂, hfree, -⟩
          have hmade : (malloc sizeofFsFile).Runs heap file heap₁ _ :=
            runs_malloc_iff.mpr ⟨hmalloc, rfl⟩
          have hwritten : (write fun m => storeFile m file entry).Runs heap₁ () _ [] :=
            runs_write _ heap₁
          have hfreed : (free entries).Runs
              { heap₁ with mem := storeFile heap₁.mem file entry } () heap₂ _ :=
            runs_free_iff.mpr ⟨hfree, rfl⟩
          exact ⟨_, _, _, hread.bind (hmade.bind (hwritten.bind (hfreed.bind
            (runs_pure_iff.mpr ⟨rfl, rfl, rfl⟩))))⟩

/-- The loop of `fat12_open` reads one directory after the other into the same room. -/
theorem openLoop_returns (path : List Byte) (h : Borrowed lo hi live size heap entries n)
    (hE : entriesAt heap.mem entries len = E) (hpos : ∀ c, 0 < (directory c).count)
    (hsize : ∀ c, 32 * (directory c).count + 300 ≤ size)
    (hvalue : Hjortron.openLoop (fun c => (directory c).entries) stack E buffer i path = some o) :
    ∃ handle heap' log,
      (openLoop directory stack entries len buffer i path).Runs heap handle heap' log := by
  induction path generalizing entries len n E buffer i heap with
  | nil => exact openFile_returns h hE hvalue
  | cons c path ih =>
    rw [openLoop]
    rw [Hjortron.openLoop] at hvalue
    by_cases hslash : c = ascii '/'
    · rw [if_pos hslash] at hvalue ⊢
      have hread : (Logged.read fun heap =>
          findEntry (entriesAt heap.mem entries len) fat12AttributeDirectory buffer :
            Action _).Runs heap _ heap [] := runs_read _ heap
      rw [hE] at hread
      cases hfind : findEntry E fat12AttributeDirectory buffer with
      | none =>
        rw [hfind] at hread
        exact ⟨_, _, _, hread.bind (runs_pure_iff.mpr ⟨rfl, rfl, rfl⟩)⟩
      | some entry =>
        rw [hfind] at hread hvalue
        rcases h.back with ⟨heap₁, hfree, hroomy⟩
        have hfreed : (free entries).Runs heap () heap₁ _ := runs_free_iff.mpr ⟨hfree, rfl⟩
        rcases readDirectory_borrowed (entry.cluster.setWidth 16) hroomy (hpos _) (hsize _) with
          ⟨r, heap₂, log, hnext, hborrowed⟩
        rcases ih hborrowed (runs_readDirectory hnext).2 hvalue with ⟨handle, heap₃, log', hrest⟩
        exact ⟨_, _, _, hread.bind (hfreed.bind (hnext.bind hrest))⟩
    · rw [if_neg hslash] at hvalue ⊢
      by_cases h11 : i = 11
      · rw [if_pos h11]
        exact ⟨none, heap, [], rfl⟩
      · rw [if_neg h11] at hvalue ⊢
        exact ih h hE hvalue

/-- `fat12_open` returns. -/
theorem fat12Open_returns (h : Roomy lo hi heap live size) (hpos : ∀ c, 0 < (directory c).count)
    (hsize : ∀ c, 32 * (directory c).count + 300 ≤ size) (hnul : 0 ∉ path) :
    ∃ handle heap' log, (fat12Open directory stack path).Runs heap handle heap' log := by
  have hvalue : (Hjortron.fat12Open (fun c => (directory c).entries) stack path).isSome = true :=
    openLoop_isSome rfl not_mem_blankBuffer hnul
  rcases Option.isSome_iff_exists.mp hvalue with ⟨o, ho⟩
  rcases readDirectory_borrowed 0 h (hpos 0) (hsize 0) with ⟨r, heap₁, log, hread, hborrowed⟩
  rcases openLoop_returns path hborrowed (runs_readDirectory hread).2 hpos hsize ho with
    ⟨handle, heap₂, log', hloop⟩
  exact ⟨_, _, _, hread.bind hloop⟩

end

/-! ## `fat12_read` -/

section

variable {lo hi : Nat} {live : List (Word × Word)} {fs : Fat12} {disk : Disk}
  {readFat : Half → Half} {span : ReadSpan} {heap heap₁ heap₂ : Heap} {log : List DriverEvent}
  {srcBuffer file buffer len : Word} {vars vars' : ReadVars} {st : ReadState} {o m n i : Nat}

/-- A cluster is copied without another block. -/
theorem readCluster_returns (fs : Fat12) (disk : Disk) (span : ReadSpan)
    (srcBuffer file buffer i : Word) (vars : ReadVars) (heap₁ : Heap) : ∃ vars' heap₂ log,
    (readCluster fs disk span srcBuffer file buffer i vars).Runs heap₁ vars' heap₂ log := by
  rw [readCluster]
  by_cases hin : span.clusterBegin ≤ i ∧ i ≤ span.clusterEnd
  · rw [if_pos hin]
    exact ⟨_, _, _, (runs_write _ heap₁).bind (runs_pure_iff.mpr ⟨rfl, rfl, rfl⟩)⟩
  · rw [if_neg hin]
    exact ⟨vars, heap₁, [], rfl⟩

/-- The next cluster is looked up in a buffer that is freed again. -/
theorem nextCluster_returns (readFat : Half → Half) (span : ReadSpan) (i : Word)
    (vars : ReadVars) (hfs : fs.Sectors512) (h : Roomy lo hi heap₁ live 512) :
    ∃ vars' heap₂ log, (nextCluster fs readFat span i vars).Runs heap₁ vars' heap₂ log ∧
      Roomy lo hi heap₂ live 512 := by
  rw [nextCluster]
  by_cases hend : i ≠ span.clusterEnd
  · have hsector : fs.bytesPerSector.toNat = 512 := by
      rw [Fat12.bytesPerSector, hfs.bytesPerSector]
      rfl
    rw [if_pos hend]
    rcases h.borrow (by omega) hsector.le with ⟨ptr, heap₂, hmalloc, -, hback⟩
    rcases hback heap₂.mem fun _ _ => rfl with ⟨heap₃, hfree, hroomy, -⟩
    have hmade : (malloc fs.bytesPerSector).Runs heap₁ ptr heap₂ _ :=
      runs_malloc_iff.mpr ⟨hmalloc, rfl⟩
    have hfreed : (free ptr).Runs heap₂ () heap₃ _ := runs_free_iff.mpr ⟨hfree, rfl⟩
    have hfat : (fat12ReadFat fs readFat (vars.cluster.setWidth 16)).Runs heap₁ _ heap₃ _ :=
      hmade.bind (hfreed.bind (runs_pure_iff.mpr ⟨rfl, rfl, rfl⟩))
    exact ⟨_, heap₃, _, hfat.bind (runs_pure_iff.mpr ⟨rfl, rfl, rfl⟩), hroomy⟩
  · rw [if_neg hend]
    exact ⟨vars, heap₁, [], rfl, h⟩

/-- The loop of `fat12_read` ends. -/
theorem readLoop_returns (h : Reading lo hi live fs heap heap₁ srcBuffer file buffer m vars st)
    (hroomy : Roomy lo hi heap₁ ((srcBuffer, fs.clusterSize) :: live) 512)
    (hslices : InSlices fs o i st) (hfs : fs.Sectors512) (hspan : SpanOf fs span o (o + m))
    (htouch : ∀ x, ReadTouches file buffer m x → Stable lo hi live x)
    (hfile : ∀ x, InRange buffer m x → ¬ InRange (file + 260) 4 x) (hm : m < 2 ^ 32)
    (hn : i + n = (o + m) / fs.clusterBytes + 1) :
    ∃ done heap₂ log, (readLoop fs disk readFat span srcBuffer file buffer n (BitVec.ofNat 32 i)
      vars).Runs heap₁ done heap₂ log := by
  induction n generalizing i vars st heap₁ with
  | zero => exact ⟨true, heap₁, [], rfl⟩
  | succ n ih =>
    have hlt := hspan.lt.2
    rw [readLoop]
    by_cases hvalid : fat12ValidCluster (vars.cluster.setWidth 16) = false
    · rw [if_pos hvalid]
      exact ⟨false, heap₁, [], rfl⟩
    · rw [if_neg hvalid]
      rcases readCluster_returns fs disk span srcBuffer file buffer (BitVec.ofNat 32 i) vars heap₁
        with ⟨vars₁, heap₃, log₁, hread⟩
      rcases h.readCluster hfs htouch hfile (hslices.fits hfs hspan (by omega) hm) hread with
        ⟨hcopied, hroom⟩
      rcases nextCluster_returns readFat span (BitVec.ofNat 32 i) vars₁ hfs (hroom 512 hroomy) with
        ⟨vars₂, heap₄, log₂, hnext, hroomy'⟩
      have hpassed := hcopied.nextCluster htouch hnext
      have hcount : BitVec.ofNat 32 i + 1 = BitVec.ofNat 32 (i + 1) := by bv_omega
      have hrest : ∃ done heap₂ log, (readLoop fs disk readFat span srcBuffer file buffer n
          (BitVec.ofNat 32 i + 1) vars₂).Runs heap₄ done heap₂ log := by
        rw [hcount]
        cases n with
        | zero => exact ⟨true, heap₄, [], rfl⟩
        | succ n => exact ih hpassed hroomy' (hslices.pass hfs hspan (by omega)) (by omega)
      rcases hrest with ⟨done, heap₅, log₃, hloop⟩
      exact ⟨done, heap₅, _, hread.bind (hnext.bind hloop)⟩

/-- `fat12_read` returns. -/
theorem fat12Read_returns {handle : FsFile} (hroomy : Roomy lo hi heap live (fs.clusterBytes + 528))
    (hhandle : fileAt heap.mem file = handle) (hfs : fs.Sectors512)
    (hchain : handle.offset.toNat ≤ handle.len.toNat)
    (h32 : handle.offset.toNat + len.toNat < 2 ^ 32)
    (hm : min len.toNat (handle.len.toNat - handle.offset.toNat) = m)
    (hopen : (file, sizeofFsFile) ∈ live)
    (hbuffer : ∀ x, InRange buffer m x → Stable lo hi live x ∧ ¬ InRange file 284 x) :
    ∃ heap₂ log, (fat12Read fs disk readFat file buffer len).Runs heap () heap₂ log := by
  have htouch := ReadTouches.stable hopen fun x hx => (hbuffer x hx).1
  have hfile : ∀ x, InRange buffer m x → ¬ InRange (file + 260) 4 x :=
    fun x hx hin => (hbuffer x hx).2 (inRange_member (by decide) hin)
  have hread :
      (Logged.read fun heap => fileAt heap.mem file : Action _).Runs heap handle heap [] := by
    rw [← hhandle]
    exact runs_read _ heap
  have hrest : ∃ heap₂ log, Runs (let len := clampLen handle len
      if len = 0 then
        return
      else if fs.bytesPerSector = 0 ∨ fs.sectorsPerCluster = 0 then
        .fail .divideError
      else do
        let span := readSpan fs handle.offset len
        let srcBuffer ← malloc fs.clusterSize
        let done ← readLoop fs disk readFat span srcBuffer file buffer (span.clusterEnd.toNat + 1) 0
          ⟨handle.ref, 0, 0, 0⟩
        if done then
          free srcBuffer
        else
          return : Action Unit) heap () heap₂ log := by
    dsimp only
    by_cases h0 : clampLen handle len = 0
    · rw [if_pos h0]
      exact ⟨heap, [], rfl⟩
    · rw [if_neg h0, if_neg (not_divideError hfs)]
      have hpos : 0 < fs.clusterSize.toNat := by
        rw [hfs.clusterSize_toNat]
        exact hfs.pos
      have hroom : Roomy lo hi heap live (fs.clusterSize.toNat + 16 + 512) := by
        rw [hfs.clusterSize_toNat]
        exact hroomy
      rcases hroom.malloc_rest hpos (by decide) with ⟨srcBuffer, heap₁, hmalloc, hroomy'⟩
      have hmade : (malloc fs.clusterSize).Runs heap srcBuffer heap₁ _ :=
        runs_malloc_iff.mpr ⟨hmalloc, rfl⟩
      have hspan := spanOf_clampLen hfs hchain h32 hm
      have hreading := Reading.start hroomy.ledger hhandle htouch hmade
      have hcount : 0 + ((readSpan fs handle.offset (clampLen handle len)).clusterEnd.toNat + 1) =
          (handle.offset.toNat + m) / fs.clusterBytes + 1 := by
        rw [Nat.zero_add, hspan.clusterEnd]
      rcases readLoop_returns hreading hroomy' .start hfs hspan htouch hfile (by omega) hcount with
        ⟨done, heap₂, log, hloop⟩
      cases done with
      | true =>
        rcases hreading.loop .start hfs hspan htouch hfile (by omega) hcount hloop with
          ⟨vars, hdone⟩
        rcases hdone.keeps.ledger.free List.mem_cons_self with ⟨heap₃, hfree, -⟩
        have hfreed : (free srcBuffer).Runs heap₂ () heap₃ _ := runs_free_iff.mpr ⟨hfree, rfl⟩
        exact ⟨heap₃, _, hmade.bind (hloop.bind hfreed)⟩
      | false => exact ⟨heap₂, _, hmade.bind (hloop.bind (runs_pure_iff.mpr ⟨rfl, rfl, rfl⟩))⟩
  rcases hrest with ⟨heap₂, log, hrun⟩
  exact ⟨heap₂, _, hread.bind hrun⟩

end

end Driver

end Hjortron
