import Hjortron.Filesystem.Mount
import Hjortron.Filesystem.Proofs.DriverOpens
import Hjortron.Filesystem.Proofs.DriverReads
import Hjortron.Filesystem.Proofs.FsSpec
import Hjortron.Filesystem.Proofs.VolumeSpec
import Hjortron.Memory.Proofs.HeapPart

/-!
# Steps of the clients of the file system

Clients open, read, move and close files, and use the heap in between for arrays of their own. The
handles, the buffers of the driver and its own structure lie on the same heap. `FsSession.store`
forgets all of these. What is left is a store of arrays and open files, and each call does to it
what the store allows.
-/

namespace Hjortron

open Driver

/-! ## The store -/

/-- The path is one of the drive `H`. -/
def OnDrive (path : List Byte) : Prop := Fs.IsMountPath path ∧ path.getD 1 0 = ascii 'H'

instance (path : List Byte) : Decidable (OnDrive path) :=
  inferInstanceAs (Decidable (_ ∧ _))

namespace Volume

/-- What a path may lead to. -/
def Leads (v : Volume) (path : List Byte) (found : Option (List Byte)) : Prop :=
  if OnDrive path then
    ∃ stack o, Hjortron.fat12Open (fun c => (v.directory c).entries) stack (path.drop 3) = some o ∧
      found = o.handle.map v.contents
  else
    found = none

/-- What the driver promises: a read is served as it is meant when its clusters are copied without a
gap, and a move when the comparison in `fat12_seek` finds what it looks for. -/
def fileSpec (v : Volume) : FileSpec (List Byte) Byte where
  leads := v.Leads
  reads file n := ReadExact v.fs file.position (file.next n).length
  seeks file n := CursorOk v.fs file.contents.length file.position (.seek (BitVec.ofNat 32 n))

/-- The open file that a handle stands for. -/
def openFile (v : Volume) (handle : FsFile) : OpenFile Byte :=
  ⟨v.contents handle, handle.offset.toNat⟩

/-- The open files by their handles. -/
def openFiles (v : Volume) (m : Mem) (files : List Word) (f : Word) : Option (OpenFile Byte) :=
  if files.contains f then some (v.openFile (fileAt m f)) else none

theorem length_contents {v : Volume} {file : FsFile} :
    (v.contents file).length = file.len.toNat := by
  rw [contents, List.length_map, List.length_range]

end Volume

/-- The arrays and the open files of the clients. -/
def FsSession.store (v : Volume) (s : FsSession) : FileStore Word Byte where
  arrays := s.arrays
  files := v.openFiles s.heap.mem s.files

/-! ## The steps of the clients -/

/-- The reads that a client may ask for: the array has room from index `i` on for what is left of
the file, and the sum of offset and length does not wrap around. -/
structure ReadInside (handle : FsFile) (i n size : Nat) : Prop where
  room : i + min n (handle.len.toNat - handle.offset.toNat) ≤ size
  noWrap : handle.offset.toNat + n < 2 ^ 32

/-- The moves that a client may ask for: the sum of both offsets does not wrap around, or the new
offset is one of the file. -/
def SeekInside (handle : FsFile) (n : Nat) : Prop :=
  handle.offset.toNat + n < 2 ^ 32 ∨ n ≤ handle.len.toNat

/-- A call on a volume that is mounted, or a step of a client on the heap. -/
inductive FsStep (v : Volume) : FsSession → FileEvent Word (List Byte) Byte → FsSession → Prop
  | array {s : FsSession} {e : StoreEvent Word Byte} {t : HeapSession} :
      ClientStep s.toHeapSession e t → FsStep v s (.array e) { s with toHeapSession := t }
  | openFile {s : FsSession} {path : List Byte} {stack : Nat → Byte} {file : Word} {fs : Fs}
      {log : List Access} :
      (OnDrive path → CallReturns (Driver.fat12Open v.directory stack (path.drop 3)) s.heap) →
      (Fs.fsOpen (driverOpen v.directory stack s.heap) path).Runs s.fs file fs log → file ≠ 0 →
      FsStep v s (.openFile path (some file)) { s.leave fs.mem with files := file :: s.files }
  | notFound {s : FsSession} {path : List Byte} {stack : Nat → Byte} {fs : Fs}
      {log : List Access} :
      (OnDrive path → CallReturns (Driver.fat12Open v.directory stack (path.drop 3)) s.heap) →
      (Fs.fsOpen (driverOpen v.directory stack s.heap) path).Runs s.fs 0 fs log →
      FsStep v s (.openFile path none) (s.leave fs.mem)
  | readFile {s : FsSession} {file p len n : Word} {i : Nat} {m : Mem} : file ∈ s.files →
      (p, len) ∈ s.live → ReadInside (fileAt s.heap.mem file) i n.toNat len.toNat →
      CallReturns (Driver.fat12Read v.fs v.disk v.readFat file (p + BitVec.ofNat 32 i) n) s.heap →
      fsRead (driverRead v.fs v.disk v.readFat s.heap) s.heap.mem file (p + BitVec.ofNat 32 i) n =
        .ok m →
      FsStep v s (.readFile file p i n.toNat) (s.leave m)
  | seekFile {s : FsSession} {file n : Word} {m : Mem} : file ∈ s.files →
      SeekInside (fileAt s.heap.mem file) n.toNat →
      fsSeek (driverSeek s.heap) s.heap.mem file n = .ok m →
      FsStep v s (.seekFile file n.toNat) (s.leave m)
  | closeFile {s : FsSession} {file : Word} {m : Mem} : file ∈ s.files →
      CallReturns (Driver.fat12Close file) s.heap →
      fsClose (driverClose s.heap) s.heap.mem file = .ok m →
      FsStep v s (.closeFile file) { s.leave m with files := s.files.erase file }

/-! ## The invariant -/

/-- The handle at `f` belongs to an open file of the volume. -/
structure HandleOk (v : Volume) (driver : Word) (m : Mem) (f : Word) : Prop where
  isFile : v.IsFile (fileAt m f)
  offset : (fileAt m f).offset.toNat ≤ (fileAt m f).len.toNat
  driver : handleDriver .file m f = driver

/-- Between two calls the live blocks are those of `L`: the driver structure, the handles and the
arrays of the clients are among them. -/
structure FsInv (lo hi : Nat) (v : Volume) (driver : Word) (L : List (Word × Word))
    (s : FsSession) : Prop where
  ledger : Ledger lo hi s.heap L
  live : s.live ⊆ L
  block : (driver, BitVec.ofNat 32 sizeofFsDriver) ∈ L
  notHeld : ¬ s.Holds driver
  mounted : Mounted s.fs [(driver, ascii 'H')]
  files : ∀ f ∈ s.files, (f, sizeofFsFile) ∈ L ∧ ¬ s.Holds f ∧ HandleOk v driver s.heap.mem f
  nodup : s.files.Nodup

section

variable {lo hi : Nat} {v : Volume} {driver f g p len : Word} {L L' : List (Word × Word)}
  {s t : FsSession} {m m' : Mem} {files files' : List Word} {e : FileEvent Word (List Byte) Byte}

theorem eq_of_bytesAt {a x : Word} {n : Nat} (h : bytesAt m' a n = bytesAt m a n)
    (hx : InRange a n x) : m' x = m x := by
  have hget : (bytesAt m' a n)[(x - a).toNat]? = (bytesAt m a n)[(x - a).toNat]? := by rw [h]
  rw [getElem?_bytesAt hx, getElem?_bytesAt hx] at hget
  have haddr : a + BitVec.ofNat 32 (x - a).toNat = x := by bv_omega
  rw [haddr] at hget
  exact Option.some.inj hget

/-- Part of an array is overwritten. -/
theorem bytesAt_splice {a : Word} {n i : Nat} {ys : List Byte} (hi : i + ys.length ≤ n)
    (hin : ∀ k, (hk : k < ys.length) → m' (a + BitVec.ofNat 32 (i + k)) = ys[k])
    (hout : ∀ j < n, ¬ (i ≤ j ∧ j < i + ys.length) →
      m' (a + BitVec.ofNat 32 j) = m (a + BitVec.ofNat 32 j)) :
    bytesAt m' a n = splice (bytesAt m a n) i ys := by
  apply List.ext_getElem?
  intro j
  rw [getElem?_splice (by rwa [length_bytesAt])]
  by_cases hj : j < n
  · rw [getElem?_bytesAt hj]
    by_cases hpart : i ≤ j ∧ j < i + ys.length
    · have hk : j - i < ys.length := by omega
      have hbyte := hin (j - i) hk
      rw [Nat.add_sub_cancel' hpart.1] at hbyte
      rw [if_pos hpart, List.getElem?_eq_getElem hk, hbyte]
    · rw [if_neg hpart, getElem?_bytesAt hj, hout j hj hpart]
  · rw [if_neg (by omega), List.getElem?_eq_none (by simpa using hj),
      List.getElem?_eq_none (by simpa using hj)]

/-- Part of an array. -/
theorem inRange_part {i k : Nat} (hroom : i + k ≤ len.toNat) :
    ∀ x, InRange (p + BitVec.ofNat 32 i) k x → InRange p len.toNat x := by
  intro x hx
  have hlen := len.isLt
  exact inRange_member (by rw [ofNat_toNat_of_lt (by omega)]; exact hroom) hx

theorem HandleOk.congr (h : HandleOk v driver m f) (hm : ∀ x, InRange f 284 x → m' x = m x) :
    HandleOk v driver m' f := by
  have hfile := fileAt_congr hm
  refine ⟨?_, ?_, ?_⟩
  · rw [hfile]
    exact h.isFile
  · rw [hfile]
    exact h.offset
  · rw [← h.driver]
    exact Mem.load32_member_congr (by decide) hm

theorem openFiles_of_mem (h : f ∈ files) :
    v.openFiles m files f = some (v.openFile (fileAt m f)) :=
  if_pos (List.contains_iff_mem.mpr h)

theorem openFiles_of_not_mem (h : f ∉ files) : v.openFiles m files f = none :=
  if_neg (mt List.contains_iff_mem.mp h)

/-- The open files change in one place. -/
theorem openFiles_update (f : Word) (hmem : ∀ g, g ≠ f → (g ∈ files' ↔ g ∈ files))
    (hm : ∀ g ∈ files, g ≠ f → ∀ x, InRange g 284 x → m' x = m x) :
    v.openFiles m' files' = Function.update (v.openFiles m files) f (v.openFiles m' files' f) := by
  funext g
  by_cases hg : g = f
  · subst hg
    rw [Function.update_self]
  · rw [Function.update_of_ne hg]
    by_cases hopen : g ∈ files
    · rw [openFiles_of_mem hopen, openFiles_of_mem ((hmem g hg).mpr hopen),
        fileAt_congr (hm g hopen hg)]
    · rw [openFiles_of_not_mem hopen, openFiles_of_not_mem fun h => hopen ((hmem g hg).mp h)]

theorem openFiles_congr (hm : ∀ f ∈ files, ∀ x, InRange f 284 x → m' x = m x) :
    v.openFiles m' files = v.openFiles m files := by
  funext f
  by_cases hopen : f ∈ files
  · rw [openFiles_of_mem hopen, openFiles_of_mem hopen, fileAt_congr (hm f hopen)]
  · rw [openFiles_of_not_mem hopen, openFiles_of_not_mem hopen]

theorem openFiles_eq_some {file : OpenFile Byte} (h : v.openFiles m files f = some file) :
    f ∈ files ∧ v.openFile (fileAt m f) = file := by
  by_cases hopen : f ∈ files
  · rw [openFiles_of_mem hopen] at h
    exact ⟨hopen, Option.some.inj h⟩
  · rw [openFiles_of_not_mem hopen] at h
    cases h

theorem Mounted.congr {mnt : Byte} (h : Mounted s.fs [(driver, mnt)])
    (hm : m driver = s.heap.mem driver) :
    Mounted (s.leave m).fs [(driver, mnt)] := by
  refine ⟨h.drivers, fun d l hl => ?_⟩
  have hletter := h.letters d l hl
  have hd : d = driver := by
    by_contra hne
    simp [letterOf, servedMounts, driversLength, Ne.symm hne] at hl
  subst hd
  rw [← hletter]
  exact hm

namespace FsInv

/-- A call has written to memory, and opened or closed files. -/
theorem leave (h : FsInv lo hi v driver L s) (hledger : Ledger lo hi { s.heap with mem := m } L')
    (hlive : s.live ⊆ L') (hblock : (driver, BitVec.ofNat 32 sizeofFsDriver) ∈ L')
    (hdriver : m driver = s.heap.mem driver)
    (hfiles : ∀ f ∈ files, (f, sizeofFsFile) ∈ L' ∧ ¬ s.Holds f ∧ HandleOk v driver m f)
    (hnodup : files.Nodup) :
    FsInv lo hi v driver L' { s.leave m with files := files } :=
  ⟨hledger, hlive, hblock, h.notHeld, h.mounted.congr hdriver, hfiles, hnodup⟩

/-- The driver structure is no handle. -/
theorem ne_driver (h : FsInv lo hi v driver L s) (hf : (f, sizeofFsFile) ∈ L) : f ≠ driver := by
  rintro rfl
  have hsize := h.ledger.size_unique hf h.block
  exact absurd hsize (by decide)

end FsInv

theorem inRange_driver : InRange driver (BitVec.ofNat 32 sizeofFsDriver).toNat driver := by
  unfold InRange
  rw [BitVec.sub_self]
  decide

theorem FsSession.store_eq {t : FsSession} {arrays : ArrayStore Word Byte}
    {files : Word → Option (OpenFile Byte)} (harrays : t.arrays = arrays)
    (hfiles : v.openFiles t.heap.mem t.files = files) : t.store v = ⟨arrays, files⟩ := by
  subst harrays hfiles
  rfl

/-- The live blocks that are not written keep their arrays. -/
theorem arrays_leave (hm : ∀ b ∈ s.live, ∀ x, InRange b.1 b.2.toNat x → m x = s.heap.mem x) :
    (s.leave m).arrays = s.arrays := by
  funext q
  apply arrays_congr (s := s.toHeapSession) (t := (s.leave m).toHeapSession) rfl
  intro k hk i hi
  exact hm (q, k) hk _ (inRange_add hi (Nat.le_of_lt k.isLt))

namespace Driver

theorem memAfter_returns {call : Action Unit} {heap : Heap} (h : CallReturns call heap) :
    ∃ heap' log, call.Runs heap () heap' log ∧ memAfter heap call heap.mem = heap'.mem := by
  rcases h with ⟨a, heap', hcall⟩
  rcases Logged.exists_runs hcall with ⟨log, hrun⟩
  refine ⟨heap', log, hrun, ?_⟩
  unfold memAfter
  rw [hcall]

end Driver

namespace FsInv

/-- The array of a client. -/
theorem arrays_eq (h : FsInv lo hi v driver L s) (hp : (p, len) ∈ s.live) :
    s.arrays p = some (bytesAt s.heap.mem p len.toNat) := by
  have hpart : s.arrays = ArrayStore.restrict _ s.holds :=
    arrays_restrict (u := ⟨s.heap, L⟩) rfl h.live h.ledger.nodup
  rw [hpart, ArrayStore.restrict_of_mem (holds_eq_true_iff.mpr ⟨len, hp⟩)]
  rcases h.ledger with ⟨bs, hs, -⟩
  exact hs.arrays_eq (h.live hp)

/-- A block that is not held by a client overlaps none of its arrays. -/
theorem not_inRange_array {q k x : Word} (h : FsInv lo hi v driver L s) (hq : (q, k) ∈ L)
    (hnot : ¬ s.Holds q) (hp : (p, len) ∈ s.live) (hx : InRange q k.toNat x) :
    ¬ InRange p len.toNat x := by
  have hne : p ≠ q := by
    rintro rfl
    exact hnot ⟨len, hp⟩
  exact (h.ledger.apart (h.live hp) hq hne).not_inRange hx

/-- The bytes that a client asks for belong to its array, and to no handle. -/
theorem buffer_stable {i k : Nat} (h : FsInv lo hi v driver L s) (hf : f ∈ s.files)
    (hp : (p, len) ∈ s.live) (hroom : i + k ≤ len.toNat) :
    ∀ x, InRange (p + BitVec.ofNat 32 i) k x → Stable lo hi L x ∧ ¬ InRange f 284 x := by
  intro x hx
  rcases h.files f hf with ⟨hblock, hnot, -⟩
  have hin := inRange_part hroom x hx
  exact ⟨.inr (.inr ⟨_, h.live hp, hin⟩), fun hfile => h.not_inRange_array hblock hnot hp hfile hin⟩

/-- The offset of a handle lies in no array. -/
theorem not_inRange_offset {x : Word} (h : FsInv lo hi v driver L s) (hf : f ∈ s.files)
    (hp : (p, len) ∈ s.live) (hx : InRange p len.toNat x) : ¬ InRange (f + 260) 4 x := by
  intro hin
  rcases h.files f hf with ⟨hblock, hnot, -⟩
  have hinside : InRange f sizeofFsFile.toNat x := inRange_member (by decide) hin
  exact h.not_inRange_array hblock hnot hp hinside hx

theorem drivers_ne_zero (h : FsInv lo hi v driver L s) :
    ∀ e ∈ [(driver, ascii 'H')], e.1 ≠ 0 := by
  intro e he
  rw [List.mem_singleton.mp he]
  exact h.ledger.ne_zero h.block

/-- The functions on handles of open files call the driver. -/
theorem dispatch_ok (h : FsInv lo hi v driver L s) (hf : f ∈ s.files) (run : Word → Mem → Mem) :
    dispatch .file run s.heap.mem f = .ok (run driver s.heap.mem) := by
  rcases h.files f hf with ⟨hblock, -, hok⟩
  have hmnt : driverMnt s.heap.mem driver = ascii 'H' :=
    h.mounted.letters driver _ (by simp [letterOf, servedMounts, driversLength])
  have hne : driverMnt s.heap.mem driver ≠ 0 := by
    rw [hmnt]
    decide
  exact dispatch_eq_ok (h.ledger.ne_zero hblock) hok.driver (h.ledger.ne_zero h.block) hne run

theorem dispatched {run : Word → Mem → Mem} (h : FsInv lo hi v driver L s) (hf : f ∈ s.files)
    (hcall : dispatch .file run s.heap.mem f = .ok m) : m = run driver s.heap.mem :=
  Except.ok.inj (hcall.symm.trans (h.dispatch_ok hf run))

/-- `fs_open` of a path of the drive calls the driver. -/
theorem runs_fsOpen {path : List Byte} (h : FsInv lo hi v driver L s) (code : DriverOpen)
    (hdrive : OnDrive path) :
    ∃ log, (Fs.fsOpen code path).Runs s.fs (code .file driver (path.drop 3) s.heap.mem).1
      { s.fs with
        mem := (code .file driver (path.drop 3) s.heap.mem).2.store32
          ((code .file driver (path.drop 3) s.heap.mem).1 + 280) driver } log := by
  have hmounted : mountedAt [(driver, ascii 'H')] (path.getD 1 0) = some driver := by
    rw [hdrive.2]
    simp [mountedAt, letterOf, servedMounts, driversLength]
  rcases Fs.runs_openHandle_some code .file h.mounted h.drivers_ne_zero hdrive.1 hmounted with
    ⟨log, hrun⟩
  exact ⟨_, hrun⟩

/-- `fs_open` of another path returns NULL. -/
theorem runs_fsOpen_null {path : List Byte} (h : FsInv lo hi v driver L s) (code : DriverOpen)
    (hdrive : ¬ OnDrive path) :
    ∃ log, (Fs.fsOpen code path).Runs s.fs 0 s.fs log := by
  have hnone : ¬ Fs.IsMountPath path ∨
      mountedAt [(driver, ascii 'H')] (path.getD 1 0) = none := by
    by_cases hpath : Fs.IsMountPath path
    · right
      have hletter : ascii 'H' ≠ path.getD 1 0 := fun heq => hdrive ⟨hpath, heq.symm⟩
      simpa [mountedAt, letterOf, servedMounts, driversLength] using hletter
    · exact .inl hpath
  rcases Fs.runs_openHandle_none code .file h.mounted h.drivers_ne_zero hnone with ⟨log, hrun, -⟩
  exact ⟨log, hrun⟩

/-- `fs_open` returns NULL for paths of other drives, and otherwise what the driver does. -/
theorem fsOpen_cases {path : List Byte} {stack : Nat → Byte} {fs : Fs} {log : List Access}
    (h : FsInv lo hi v driver L s)
    (hreturns : OnDrive path →
      CallReturns (Driver.fat12Open v.directory stack (path.drop 3)) s.heap)
    (hrun : (Fs.fsOpen (driverOpen v.directory stack s.heap) path).Runs s.fs f fs log) :
    (¬ OnDrive path ∧ f = 0 ∧ fs.mem = s.heap.mem) ∨
    (OnDrive path ∧ ∃ handle heap' o,
      Hjortron.fat12Open (fun c => (v.directory c).entries) stack (path.drop 3) = some o ∧
        Opens lo hi L s.heap heap' handle o.handle ∧ f = handle.getD 0 ∧
        fs.mem = heap'.mem.store32 (f + 280) driver) := by
  by_cases hdrive : OnDrive path
  · right
    rcases h.runs_fsOpen (driverOpen v.directory stack s.heap) hdrive with ⟨log', hopen⟩
    rcases hreturns hdrive with ⟨handle, heap', hcall⟩
    rcases Logged.exists_runs hcall with ⟨log'', hcalled⟩
    rcases fat12Open_opens h.ledger hcalled with ⟨o, ho, hopens⟩
    have hcode : driverOpen v.directory stack s.heap .file driver (path.drop 3) s.heap.mem =
        (handle.getD 0, heap'.mem) := by
      unfold driverOpen
      dsimp only
      rw [hcall]
    rw [hcode] at hopen
    rcases hrun.unique hopen with ⟨hhandle, hfs, -⟩
    refine ⟨hdrive, handle, heap', o, ho, hopens, hhandle, ?_⟩
    rw [hfs, hhandle]
  · left
    rcases h.runs_fsOpen_null (driverOpen v.directory stack s.heap) hdrive with ⟨log', hopen⟩
    rcases hrun.unique hopen with ⟨hhandle, hfs, -⟩
    refine ⟨hdrive, hhandle, ?_⟩
    rw [hfs]
    rfl

end FsInv

/-! ## Steps on the heap -/

/-- A step of a client on the heap. -/
theorem FsInv.array {e : StoreEvent Word Byte} {u : HeapSession} (h : FsInv lo hi v driver L s)
    (hstep : ClientStep s.toHeapSession e u) :
    FileStore.Step v.fileSpec (s.store v) (.array e)
        (FsSession.store v { s with toHeapSession := u }) ∧
      ∃ L', FsInv lo hi v driver L' { s with toHeapSession := u } := by
  rcases hstep.part h.ledger h.live with ⟨L', hledger, hlive, hstore, hothers⟩
  have hfile : ∀ f ∈ s.files, ∀ x, InRange f 284 x → u.heap.mem x = s.heap.mem x := by
    intro f hf x hx
    have hopen := h.files f hf
    exact eq_of_bytesAt (hothers f _ hopen.1 hopen.2.1).2.2 hx
  rcases hothers driver _ h.block h.notHeld with ⟨hblock, hnotHeld, hbytes⟩
  have hdriver : u.heap.mem driver = s.heap.mem driver := eq_of_bytesAt hbytes inRange_driver
  constructor
  · have hfiles : v.openFiles u.heap.mem s.files = v.openFiles s.heap.mem s.files :=
      openFiles_congr hfile
    have hend : FsSession.store v { s with toHeapSession := u } =
        { s.store v with arrays := u.arrays } := by
      unfold FsSession.store
      rw [hfiles]
    rw [hend]
    exact .array hstore
  · refine ⟨L', hledger, hlive, hblock, hnotHeld, h.mounted.congr hdriver, fun f hf => ?_, h.nodup⟩
    have hopen := h.files f hf
    have hother := hothers f _ hopen.1 hopen.2.1
    exact ⟨hother.1, hother.2.1, hopen.2.2.congr (hfile f hf)⟩

/-! ## Opening -/

/-- The handle of a file that has been found. -/
theorem FsInv.openFile {heap' : Heap} {handle : FsFile} (h : FsInv lo hi v driver L s)
    (hkeeps : Keeps lo hi L (fun _ => False) s.heap heap' [(f, sizeofFsFile)])
    (hhandle : fileAt heap'.mem f = handle) (hfile : v.IsFile handle) (h0 : handle.offset = 0)
    (hm : heap'.mem.store32 (f + 280) driver = m) :
    (s.store v).files f = none ∧
      FsSession.store v { s.leave m with files := f :: s.files } =
        { s.store v with
          files := Function.update (s.store v).files f (some (v.openFile handle)) } ∧
      FsInv lo hi v driver ((f, sizeofFsFile) :: L) { s.leave m with files := f :: s.files } := by
  have hfresh : ∀ b ∈ L, b.1 ≠ f := hkeeps.ledger.fresh
  have hout : ∀ x, ¬ InRange f 284 x → m x = heap'.mem x := by
    intro x hx
    rw [← hm]
    exact Mem.store32_member (by decide) hx
  have hsame : ∀ b ∈ L, ∀ x, InRange b.1 b.2.toNat x → m x = s.heap.mem x := by
    intro b hb x hx
    have hstable : Stable lo hi L x := .inr (.inr ⟨b, hb, hx⟩)
    rw [hout x (hkeeps.not_inRange (List.mem_singleton_self _) hstable)]
    exact hkeeps.frame x hstable not_false
  have hhandle' : fileAt m f = handle := by
    rw [← hm, fileAt_store_driver, hhandle]
  have hnot : f ∉ s.files := fun hf => hfresh _ (h.files f hf).1 rfl
  refine ⟨openFiles_of_not_mem hnot, ?_, ?_⟩
  · have hmem : ∀ g, g ≠ f → (g ∈ f :: s.files ↔ g ∈ s.files) := fun g hg => by
      rw [List.mem_cons, or_iff_right hg]
    have hfiles : v.openFiles m (f :: s.files) = _ :=
      openFiles_update f hmem fun g hg _ => hsame _ (h.files g hg).1
    rw [openFiles_of_mem List.mem_cons_self, hhandle'] at hfiles
    exact FsSession.store_eq (arrays_leave fun b hb => hsame b (h.live hb)) hfiles
  · apply h.leave
    · apply hkeeps.ledger_write
      intro x hx
      apply hout x
      intro hin
      exact hx (.inr (.inr ⟨_, List.mem_cons_self, hin⟩))
    · exact fun b hb => List.mem_cons_of_mem _ (h.live hb)
    · exact List.mem_cons_of_mem _ h.block
    · exact hsame _ h.block driver inRange_driver
    · intro g hg
      rcases List.mem_cons.mp hg with rfl | hg
      · refine ⟨List.mem_cons_self, ?_, ?_, ?_, ?_⟩
        · rintro ⟨k, hk⟩
          exact hfresh _ (h.live hk) rfl
        · rw [hhandle']
          exact hfile
        · rw [hhandle', h0]
          exact Nat.zero_le _
        · rw [← hm]
          exact Mem.load32_store32_self
      · have hopen := h.files g hg
        exact ⟨List.mem_cons_of_mem _ hopen.1, hopen.2.1, hopen.2.2.congr (hsame _ hopen.1)⟩
    · exact List.nodup_cons.mpr ⟨hnot, h.nodup⟩

/-- The driver returns NULL, and `fs_open` writes below the heap. -/
theorem FsInv.notFound {heap' : Heap} {lost : Word × Word} (h : FsInv lo hi v driver L s)
    (hnull : 284 ≤ lo) (hkeeps : Keeps lo hi L (fun _ => False) s.heap heap' [lost])
    (hm : heap'.mem.store32 280 driver = m) :
    (s.leave m).store v = s.store v ∧ FsInv lo hi v driver (lost :: L) (s.leave m) := by
  have hbelow : ∀ x, InRange (280 : Word) 4 x → x.toNat < lo := by
    intro x hx
    rw [inRange_toNat (by decide)] at hx
    change 280 ≤ x.toNat ∧ x.toNat < 284 at hx
    omega
  have hsame : ∀ b ∈ L, ∀ x, InRange b.1 b.2.toNat x → m x = s.heap.mem x := by
    intro b hb x hx
    rw [← hm, Mem.store32_of_not_inRange]
    · exact hkeeps.frame x (.inr (.inr ⟨b, hb, hx⟩)) not_false
    · exact fun hin => h.ledger.not_inRange_outside hb (.inl (hbelow x hin)) hx
  constructor
  · exact FsSession.store_eq (arrays_leave fun b hb => hsame b (h.live hb))
      (openFiles_congr fun g hg => hsame _ (h.files g hg).1)
  · apply h.leave
    · apply hkeeps.ledger_write
      intro x hx
      rw [← hm]
      exact Mem.store32_of_not_inRange fun hin => hx (.inl (hbelow x hin))
    · exact fun b hb => List.mem_cons_of_mem _ (h.live hb)
    · exact List.mem_cons_of_mem _ h.block
    · exact hsame _ h.block driver inRange_driver
    · intro g hg
      have hopen := h.files g hg
      exact ⟨List.mem_cons_of_mem _ hopen.1, hopen.2.1, hopen.2.2.congr (hsame _ hopen.1)⟩
    · exact h.nodup

/-! ## Moving and reading -/

/-- A handle has moved to `o`, and nothing but that and arrays of clients has changed. -/
theorem FsInv.moved {o : Word} (h : FsInv lo hi v driver L s) (hf : f ∈ s.files)
    (hledger : Ledger lo hi { s.heap with mem := m } L') (hsub : L ⊆ L')
    (hsame : ∀ b ∈ L, ¬ s.Holds b.1 → ∀ x, InRange b.1 b.2.toNat x → ¬ InRange (f + 260) 4 x →
      m x = s.heap.mem x)
    (hhandle : fileAt m f = { fileAt s.heap.mem f with offset := o })
    (ho : o.toNat ≤ (fileAt s.heap.mem f).len.toNat) :
    FsInv lo hi v driver L' (s.leave m) ∧ v.openFiles m s.files =
      Function.update (v.openFiles s.heap.mem s.files) f
        (some ⟨v.contents (fileAt s.heap.mem f), o.toNat⟩) := by
  rcases h.files f hf with ⟨hblock, hnot, hok⟩
  have hother : ∀ b ∈ L, ¬ s.Holds b.1 → b.1 ≠ f → ∀ x, InRange b.1 b.2.toNat x →
      m x = s.heap.mem x := by
    intro b hb hheld hne x hx
    apply hsame b hb hheld x hx
    intro hin
    have hinside : InRange f sizeofFsFile.toNat x := inRange_member (by decide) hin
    exact (h.ledger.apart hblock hb (Ne.symm hne)).not_inRange hx hinside
  constructor
  · apply h.leave hledger
    · exact fun b hb => hsub (h.live hb)
    · exact hsub h.block
    · exact hother _ h.block h.notHeld (h.ne_driver hblock).symm driver inRange_driver
    · intro g hg
      have hopen := h.files g hg
      refine ⟨hsub hopen.1, hopen.2.1, ?_⟩
      by_cases hgf : g = f
      · subst hgf
        refine ⟨?_, ?_, ?_⟩
        · rw [hhandle]
          exact hok.isFile
        · rw [hhandle]
          exact ho
        · rw [← hok.driver]
          apply Mem.load32_congr
          intro x hx
          have hinside : InRange g 284 x := inRange_member (by decide) hx
          apply hsame _ hblock hnot x hinside
          unfold InRange at hx ⊢
          change (x - (g + 280)).toNat < 4 at hx
          bv_omega
      · exact hopen.2.2.congr (hother _ hopen.1 hopen.2.1 hgf)
    · exact h.nodup
  · have hmem : ∀ g, g ≠ f → (g ∈ s.files ↔ g ∈ s.files) := fun _ _ => Iff.rfl
    have hfiles : v.openFiles m s.files = _ :=
      openFiles_update f hmem fun g hg hne => hother _ (h.files g hg).1 (h.files g hg).2.1 hne
    rw [hfiles, openFiles_of_mem hf, hhandle]
    rfl

/-- `fat12_seek` moves a handle as it promises. -/
theorem fat12Seek_moves {handle : FsFile} {n : Word} (ho : handle.offset.toNat ≤ handle.len.toNat)
    (hinside : SeekInside handle n.toNat) :
    v.fileSpec.Moves (v.openFile handle) n.toNat
      ⟨v.contents handle, (Hjortron.fat12Seek handle n).offset.toNat⟩ := by
  have hreach : v.fileSpec.seeks (v.openFile handle) n.toNat ↔
      CursorOk v.fs handle.len.toNat handle.offset.toNat (.seek n) := by
    change CursorOk v.fs (v.contents handle).length handle.offset.toNat
      (.seek (BitVec.ofNat 32 n.toNat)) ↔ _
    rw [Volume.length_contents, BitVec.ofNat_toNat, BitVec.setWidth_eq]
  constructor
  · intro hok
    have hoffset := (fat12Seek_offset_iff ho).mpr (hreach.mp hok)
    change _ = min n.toNat handle.len.toNat at hoffset
    rw [hoffset, OpenFile.seek, Volume.openFile, Volume.length_contents]
  · intro hnot
    have hwrap : handle.offset.toNat + n.toNat < 2 ^ 32 ∧ n.toNat < handle.len.toNat ∧
        handle.len.toNat < handle.offset.toNat + n.toNat := by
      rw [hreach] at hnot
      unfold CursorOk at hnot
      unfold SeekInside at hinside
      omega
    have hend : (Hjortron.fat12Seek handle n).offset = handle.len := by
      unfold Hjortron.fat12Seek
      apply if_pos
      bv_omega
    rw [hend, OpenFile.seek, Volume.openFile, Volume.length_contents, Nat.min_self]

/-- A handle is moved by its client. -/
theorem FsInv.seekFile {n : Word} (h : FsInv lo hi v driver L s) (hf : f ∈ s.files)
    (hinside : SeekInside (fileAt s.heap.mem f) n.toNat)
    (hseek : fsSeek (driverSeek s.heap) s.heap.mem f n = .ok m) :
    FileStore.Step v.fileSpec (s.store v) (.seekFile f n.toNat) ((s.leave m).store v) ∧
      FsInv lo hi v driver L (s.leave m) := by
  rcases h.files f hf with ⟨hblock, -, hhandle⟩
  have hm : m = s.heap.mem.store32 (f + 260)
      (Hjortron.fat12Seek (fileAt s.heap.mem f) n).offset := h.dispatched hf hseek
  have hmoves : v.fileSpec.Moves _ n.toNat _ := fat12Seek_moves hhandle.offset hinside
  have hle : (Hjortron.fat12Seek (fileAt s.heap.mem f) n).offset.toNat ≤
      (fileAt s.heap.mem f).len.toNat := by
    have hle := hmoves.position_le
    rwa [Volume.openFile, Volume.length_contents] at hle
  have hout : ∀ x, ¬ InRange (f + 260) 4 x → m x = s.heap.mem x := by
    intro x hx
    rw [hm]
    exact Mem.store32_of_not_inRange hx
  have hmoved : fileAt m f = { fileAt s.heap.mem f with
      offset := (Hjortron.fat12Seek (fileAt s.heap.mem f) n).offset } := by
    rw [fileAt_of_offset (m := s.heap.mem) fun x _ hx => hout x hx, hm, Mem.load32_store32_self]
  have hledger : Ledger lo hi { s.heap with mem := m } L := by
    apply h.ledger.write
    intro x hx
    apply hout x
    intro hin
    have hinside : InRange f 284 x := inRange_member (by decide) hin
    exact hx (.inr (.inr ⟨_, hblock, hinside⟩))
  rcases h.moved hf hledger (List.Subset.refl L) (fun _ _ _ x _ hx => hout x hx) hmoved hle with
    ⟨hinv, hfiles⟩
  refine ⟨?_, hinv⟩
  have harrays : (s.leave m).arrays = s.arrays := by
    apply arrays_leave
    intro b hb x hx
    exact hout x (h.not_inRange_offset hf hb hx)
  rw [FsSession.store_eq harrays hfiles]
  exact .seekFile (openFiles_of_mem hf) hmoves

/-- What a read delivers. -/
theorem next_openFile {handle : FsFile} {n k : Nat}
    (hk : k < ((v.openFile handle).next n).length) :
    ((v.openFile handle).next n)[k] =
      fileByte v.fs v.disk v.readFat handle.ref (handle.offset.toNat + k) := by
  simp only [OpenFile.next, Volume.openFile, Volume.contents, List.getElem_take, List.getElem_drop,
    List.getElem_map, List.getElem_range]

theorem length_next_openFile {handle : FsFile} {n : Nat} :
    ((v.openFile handle).next n).length =
      min n (handle.len.toNat - handle.offset.toNat) := by
  rw [OpenFile.next, Volume.openFile, List.length_take, List.length_drop, Volume.length_contents]

/-- `fat12_read` delivers what it promises, and moves the handle by as much. -/
theorem fat12Read_delivered {handle : FsFile} {n : Word} (mem : Mem) (buffer : Word)
    (hfile : v.IsFile handle) (ho : handle.offset.toNat ≤ handle.len.toNat)
    (hwrap : handle.offset.toNat + n.toNat < 2 ^ 32) :
    ∃ ys : List Byte, ys.length ≤ min n.toNat (handle.len.toNat - handle.offset.toNat) ∧
      v.fileSpec.Delivers (v.openFile handle) n.toNat ys ∧
      (Hjortron.fat12Read v.fs v.disk v.readFat (fun _ => 0) handle mem buffer n).file =
        { handle with offset := BitVec.ofNat 32 (handle.offset.toNat + ys.length) } ∧
      (Hjortron.fat12Read v.fs v.disk v.readFat (fun _ => 0) handle mem buffer n).mem =
        mem.blit buffer (fun k => ys.getD k 0) ys.length := by
  rcases fat12Read_delivers v.disk (fun _ => 0) mem buffer v.sectors hfile.validChain ho hwrap with
    ⟨g, d, hhandle, hmem, hexact, hshort⟩
  have hlength : ((List.range d).map g).length = d := by
    rw [List.length_map, List.length_range]
  have hreads : v.fileSpec.reads (v.openFile handle) n.toNat ↔
      ReadExact v.fs handle.offset.toNat
        (min n.toNat (handle.len.toNat - handle.offset.toNat)) := by
    change ReadExact v.fs _ ((v.openFile handle).next n.toNat).length ↔ _
    rw [length_next_openFile]
    rfl
  refine ⟨(List.range d).map g, ?_, ⟨?_, ?_⟩, ?_, ?_⟩
  · rw [hlength]
    by_cases hok : ReadExact v.fs handle.offset.toNat
        (min n.toNat (handle.len.toNat - handle.offset.toNat))
    · exact (hexact hok).1.le
    · exact (hshort hok).le
  · intro hok
    rcases hexact (hreads.mp hok) with ⟨hd, hbytes⟩
    apply List.ext_getElem
    · rw [hlength, hd, length_next_openFile]
    · intro k hk hnext
      rw [hlength] at hk
      rw [next_openFile, List.getElem_map, List.getElem_range]
      exact hbytes k hk
  · intro hnot
    rw [hlength, length_next_openFile]
    exact hshort (mt hreads.mpr hnot)
  · rw [hlength]
    exact hhandle
  · rw [hlength, hmem]
    apply Mem.blit_congr
    intro k hk
    rw [List.getD_eq_getElem _ _ (by rwa [hlength]), List.getElem_map, List.getElem_range]

/-- A call has written `ys` into an array. -/
theorem FsInv.arrays_splice {i : Nat} {ys : List Byte} (h : FsInv lo hi v driver L s)
    (hend : FsInv lo hi v driver L' (s.leave m)) (hp : (p, len) ∈ s.live)
    (hroom : i + ys.length ≤ len.toNat)
    (hin : ∀ k, (hk : k < ys.length) →
      m (p + BitVec.ofNat 32 i + BitVec.ofNat 32 k) = ys[k])
    (hout : ∀ b ∈ s.live, ∀ x, InRange b.1 b.2.toNat x →
      ¬ InRange (p + BitVec.ofNat 32 i) ys.length x → m x = s.heap.mem x) :
    (s.leave m).arrays = Function.update s.arrays p
      (some (splice (bytesAt s.heap.mem p len.toNat) i ys)) := by
  have hlen := len.isLt
  funext q
  by_cases hq : q = p
  · subst hq
    rw [Function.update_self]
    apply (hend.arrays_eq hp).trans
    apply congrArg some
    apply bytesAt_splice hroom
    · intro k hk
      have haddr : q + BitVec.ofNat 32 (i + k) = q + BitVec.ofNat 32 i + BitVec.ofNat 32 k := by
        rw [BitVec.ofNat_add, BitVec.add_assoc]
      rw [haddr]
      exact hin k hk
    · intro j hj hnot
      apply hout _ hp _ (inRange_add hj (Nat.le_of_lt hlen))
      unfold InRange
      bv_omega
  · rw [Function.update_of_ne hq]
    apply arrays_congr (s := s.toHeapSession) (t := (s.leave m).toHeapSession) rfl
    intro d hd j hj
    have hbyte : InRange q d.toNat (q + BitVec.ofNat 32 j) := inRange_add hj (Nat.le_of_lt d.isLt)
    apply hout _ hd _ hbyte
    intro hcopied
    have hinside := inRange_part hroom _ hcopied
    exact (h.ledger.apart (h.live hp) (h.live hd) (Ne.symm hq)).not_inRange hbyte hinside

/-- Bytes that a copy has left at `a`, with room for `k` of them. -/
theorem getElem_of_blit {a : Word} {k j : Nat} {ys : List Byte} (hk : k < 2 ^ 32)
    (hlength : ys.length ≤ k)
    (hbytes : ∀ x, InRange a k x → m' x = m.blit a (fun i => ys.getD i 0) ys.length x)
    (hj : j < ys.length) : m' (a + BitVec.ofNat 32 j) = ys[j] := by
  have hin : InRange a k (a + BitVec.ofNat 32 j) := inRange_add (by omega) (by omega)
  have hsub : (a + BitVec.ofNat 32 j - a).toNat = j := by bv_omega
  rw [hbytes _ hin, Mem.blit_apply (by omega), hsub, if_pos hj, List.getD_eq_getElem _ _ hj]

/-- The next bytes of a file are read into an array. -/
theorem FsInv.readFile {n : Word} {i : Nat} (h : FsInv lo hi v driver L s) (hf : f ∈ s.files)
    (hp : (p, len) ∈ s.live)
    (hinside : ReadInside (fileAt s.heap.mem f) i n.toNat len.toNat)
    (hreturns : CallReturns (Driver.fat12Read v.fs v.disk v.readFat f (p + BitVec.ofNat 32 i) n)
      s.heap)
    (hread : fsRead (driverRead v.fs v.disk v.readFat s.heap) s.heap.mem f
      (p + BitVec.ofNat 32 i) n = .ok m) :
    FileStore.Step v.fileSpec (s.store v) (.readFile f p i n.toNat) ((s.leave m).store v) ∧
      ∃ L', FsInv lo hi v driver L' (s.leave m) := by
  rcases h.files f hf with ⟨hblock, hnot, hhandle⟩
  rcases hinside with ⟨hroom, hwrap⟩
  have hfile := hhandle.isFile
  have hoff := hhandle.offset
  generalize hcur : fileAt s.heap.mem f = handle at hroom hwrap hfile hoff
  generalize hk : min n.toNat (handle.len.toNat - handle.offset.toNat) = k at hroom
  have hpart : ∀ x, InRange (p + BitVec.ofNat 32 i) k x → InRange p len.toNat x :=
    inRange_part hroom
  rcases memAfter_returns hreturns with ⟨heap', log, hrun, hafter⟩
  have hm : m = heap'.mem := (h.dispatched hf hread).trans hafter
  rcases fat12Read_reads h.ledger hcur v.sectors hoff hwrap hk hblock
    (h.buffer_stable hf hp hroom) hrun with ⟨own, hkeeps, hend, hbytes⟩
  rcases fat12Read_delivered s.heap.mem (p + BitVec.ofNat 32 i) hfile hoff hwrap with
    ⟨ys, hys, hdelivers, hfile', hmem'⟩
  rw [hfile'] at hend
  rw [hmem'] at hbytes
  rw [hk] at hys
  have hposition : (BitVec.ofNat 32 (handle.offset.toNat + ys.length)).toNat =
      handle.offset.toNat + ys.length := ofNat_toNat_of_lt (by omega)
  have hledger : Ledger lo hi { s.heap with mem := m } (own ++ L) := by
    rw [hm]
    exact hkeeps.ledger_write fun _ _ => rfl
  have hsame : ∀ b ∈ L, ¬ s.Holds b.1 → ∀ x, InRange b.1 b.2.toNat x → ¬ InRange (f + 260) 4 x →
      m x = s.heap.mem x := by
    intro b hb hother x hx hnotOffset
    rw [hm]
    apply hkeeps.frame x (.inr (.inr ⟨b, hb, hx⟩))
    rintro (hin | hin)
    · exact h.not_inRange_array hb hother hp hx (hpart x hin)
    · exact hnotOffset hin
  rcases h.moved hf hledger (List.subset_append_right _ _) hsame
    (by rw [hm, hcur]; exact hend) (by rw [hcur]; omega) with ⟨hinv, hfiles⟩
  refine ⟨?_, _, hinv⟩
  have hcopied : ∀ j, (hj : j < ys.length) →
      m (p + BitVec.ofNat 32 i + BitVec.ofNat 32 j) = ys[j] := by
    intro j hj
    rw [hm]
    exact getElem_of_blit (by omega) hys hbytes hj
  have hkept : ∀ b ∈ s.live, ∀ x, InRange b.1 b.2.toNat x →
      ¬ InRange (p + BitVec.ofNat 32 i) ys.length x → m x = s.heap.mem x := by
    intro b hb x hx hout
    rw [hm]
    by_cases hin : InRange (p + BitVec.ofNat 32 i) k x
    · -- the part of the request that is not delivered
      rw [hbytes x hin, Mem.blit_apply (by omega)]
      exact if_neg hout
    · apply hkeeps.frame _ (.inr (.inr ⟨_, h.live hb, hx⟩))
      rintro (hcopy | hoffset)
      · exact hin hcopy
      · exact h.not_inRange_offset hf hb hx hoffset
  have harrays := h.arrays_splice hinv hp (by omega) hcopied hkept
  have hstore : (s.leave m).store v =
      { arrays := Function.update (s.store v).arrays p
          (some (splice (bytesAt s.heap.mem p len.toNat) i ys))
        files := Function.update (s.store v).files f
          (some ((v.openFile handle).advance ys.length)) } := by
    apply FsSession.store_eq harrays
    rw [OpenFile.advance, Volume.openFile, ← hposition]
    rw [hcur] at hfiles
    exact hfiles
  have hopen : (s.store v).files f = some (v.openFile handle) := by
    rw [← hcur]
    exact openFiles_of_mem hf
  rw [hstore]
  apply FileStore.Step.readFile hopen (h.arrays_eq hp) _ hdelivers
  rw [length_next_openFile, hk, length_bytesAt]
  exact hroom

/-! ## Closing -/

/-- A client closes a file. -/
theorem FsInv.closeFile (h : FsInv lo hi v driver L s) (hf : f ∈ s.files)
    (hreturns : CallReturns (Driver.fat12Close f) s.heap)
    (hclose : fsClose (driverClose s.heap) s.heap.mem f = .ok m) :
    FileStore.Step v.fileSpec (s.store v) (.closeFile f)
        (FsSession.store v { s.leave m with files := s.files.erase f }) ∧
      ∃ L', FsInv lo hi v driver L' { s.leave m with files := s.files.erase f } := by
  rcases h.files f hf with ⟨hblock, hnot, -⟩
  rcases memAfter_returns hreturns with ⟨heap', log, hrun, hafter⟩
  have hm : m = heap'.mem := (h.dispatched hf hclose).trans hafter
  have hfreed := (runs_free_iff.mp hrun).1
  rcases h.ledger.free hblock with ⟨heap'', hfree, hledger, hframe, -⟩
  obtain rfl := Except.ok.inj (hfree.symm.trans hfreed)
  rw [h.ledger.free_statics hblock hfree, ← hm] at hledger
  have hsame : ∀ b ∈ L, ∀ x, InRange b.1 b.2.toNat x → m x = s.heap.mem x := by
    intro b hb x hx
    rw [hm]
    exact hframe x (.inr (.inr ⟨b, hb, hx⟩))
  have hkept : ∀ b ∈ s.live, b ∈ forgetPtr L f := by
    intro b hb
    rw [mem_forgetPtr]
    refine ⟨h.live hb, ?_⟩
    rintro rfl
    exact hnot ⟨b.2, hb⟩
  have hothers : ∀ g, g ∈ s.files.erase f ↔ g ≠ f ∧ g ∈ s.files := fun g => h.nodup.mem_erase_iff
  constructor
  · have hmem : ∀ g, g ≠ f → (g ∈ s.files.erase f ↔ g ∈ s.files) := fun g hg => by
      rw [hothers, and_iff_right hg]
    have hfiles : v.openFiles m (s.files.erase f) = _ :=
      openFiles_update f hmem fun g hg _ => hsame _ (h.files g hg).1
    have hnone : v.openFiles m (s.files.erase f) f = none :=
      openFiles_of_not_mem fun hmem => ((hothers f).mp hmem).1 rfl
    rw [hnone] at hfiles
    have hstore : FsSession.store v { s.leave m with files := s.files.erase f } =
        { s.store v with files := Function.update (s.store v).files f none } :=
      FsSession.store_eq (arrays_leave fun b hb => hsame b (h.live hb)) hfiles
    rw [hstore]
    exact .closeFile (openFiles_of_mem hf)
  · refine ⟨forgetPtr L f, h.leave hledger hkept ?_ ?_ ?_ (h.nodup.erase f)⟩
    · exact mem_forgetPtr.mpr ⟨h.block, (h.ne_driver hblock).symm⟩
    · exact hsame _ h.block driver inRange_driver
    · intro g hg
      rcases (hothers g).mp hg with ⟨hne, hopen⟩
      rcases h.files g hopen with ⟨hg, hgnot, hgok⟩
      exact ⟨mem_forgetPtr.mpr ⟨hg, hne⟩, hgnot, hgok.congr (hsame _ hg)⟩

end

end Hjortron
