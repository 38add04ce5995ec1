import Hjortron.Filesystem.Proofs.DriverReturns
import Hjortron.Filesystem.Proofs.FsSteps

/-!
# The file system as its clients see it

From the mount on, a run of clients is a run of the store of arrays and open files. As long as some
chunk is free that is long enough for what the driver holds at one time, no call gets stuck. The
clients read into the arrays they hold; a request is served as it is meant where `Volume.fileSpec`
promises that.
-/

namespace Hjortron

open Driver

section

variable {lo hi : Nat} {v : Volume} {driver f p len : Word} {L : List (Word × Word)}
  {s t : FsSession} {m : Mem} {e : FileEvent Word (List Byte) Byte} {kernelEnd : Word}
  {mmap : List MemoryMapEntry}

/-! ## Whole programs -/

/-- What the driver finds is what the path leads to. -/
theorem Volume.leads_of_opened {path : List Byte} {found : Option (List Byte)}
    {stack : Nat → Byte} {o : Opened FsFile} (hdrive : OnDrive path)
    (ho : Hjortron.fat12Open (fun c => (v.directory c).entries) stack (path.drop 3) = some o)
    (hfound : found = o.handle.map v.contents) : v.fileSpec.leads path found := by
  change v.Leads path found
  rw [Volume.Leads, if_pos hdrive]
  exact ⟨stack, o, ho, hfound⟩

/-- Paths of other drives lead to nothing. -/
theorem Volume.leads_none {path : List Byte} (hother : ¬ OnDrive path) :
    v.fileSpec.leads path none := by
  change v.Leads path none
  rw [Volume.Leads, if_neg hother]

/-- Every step of a client is a step of the store. -/
theorem FsStep.simulated (hnull : 284 ≤ lo) (h : FsInv lo hi v driver L s)
    (hstep : FsStep v s e t) :
    FileStore.Step v.fileSpec (s.store v) e (t.store v) ∧ ∃ L', FsInv lo hi v driver L' t := by
  cases hstep with
  | array hclient => exact h.array hclient
  | @openFile path stack file fs log hreturns hrun hne =>
    rcases h.fsOpen_cases hreturns hrun with ⟨-, hzero, -⟩ |
      ⟨hdrive, handle, heap', o, ho, hopens, hfile, hmem⟩
    · exact absurd hzero hne
    · generalize hresult : o.handle = result at hopens
      cases hopens with
      | missing => exact absurd hfile hne
      | @found ptr handle hkeeps hhandle =>
        obtain rfl : file = ptr := hfile
        rcases v.fat12Open_isFile ho hresult with ⟨hisFile, h0⟩
        rcases h.openFile hkeeps hhandle hisFile h0 hmem.symm with ⟨hfresh, hstore, hinv⟩
        refine ⟨?_, _, hinv⟩
        have hposition : v.openFile handle = ⟨v.contents handle, 0⟩ := by
          rw [Volume.openFile, h0]
          rfl
        rw [hstore, hposition]
        refine .openFile ?_ hfresh
        apply Volume.leads_of_opened hdrive ho
        rw [hresult]
        rfl
  | @notFound path stack fs log hreturns hrun =>
    rcases h.fsOpen_cases hreturns hrun with ⟨hother, -, hmem⟩ |
      ⟨hdrive, handle, heap', o, ho, hopens, hfile, hmem⟩
    · rw [hmem]
      exact ⟨.notFound (Volume.leads_none hother), L, h⟩
    · generalize hresult : o.handle = result at hopens
      cases hopens with
      | missing hkeeps =>
        rcases h.notFound hnull hkeeps hmem.symm with ⟨hstore, hinv⟩
        rw [hstore]
        refine ⟨.notFound ?_, _, hinv⟩
        apply Volume.leads_of_opened hdrive ho
        rw [hresult]
        rfl
      | found hkeeps => exact absurd hfile.symm (hkeeps.ledger.ne_zero List.mem_cons_self)
  | readFile hf hp hinside hreturns hread => exact h.readFile hf hp hinside hreturns hread
  | seekFile hf hinside hseek =>
    rcases h.seekFile hf hinside hseek with ⟨hstore, hinv⟩
    exact ⟨hstore, L, hinv⟩
  | closeFile hf hreturns hclose => exact h.closeFile hf hreturns hclose

/-- The run of clients is a run of the store. -/
theorem FsStep.run_simulated {es : List (FileEvent Word (List Byte) Byte)} (hnull : 284 ≤ lo)
    (h : FsInv lo hi v driver L s) (hrun : Run (FsStep v) s es t) :
    Run (FileStore.Step v.fileSpec) (s.store v) es (t.store v) ∧
      ∃ L', FsInv lo hi v driver L' t := by
  rcases hrun.simulation (R := fun s u => u = s.store v ∧ ∃ L, FsInv lo hi v driver L s) (by
      rintro s e t _ ⟨rfl, L, hs⟩ hstep
      rcases hstep.simulated hnull hs with ⟨hstore, hinv⟩
      exact ⟨t.store v, hstore, rfl, hinv⟩) ⟨rfl, L, h⟩ with ⟨_, hstore, rfl, hinv⟩
  exact ⟨hstore, hinv⟩

theorem storeDriver_frame (functions : Functions) {x : Word} (hx : ¬ InRange driver 36 x) :
    storeDriver functions m driver x = m x := by
  have hstore (m : Mem) (i value : Word) (hi : i.toNat + 4 ≤ 36) :
      m.store32 (driver + i) value x = m x := Mem.store32_member hi hx
  have hne : x ≠ driver := by
    rintro rfl
    exact hx (by simp [InRange])
  unfold storeDriver
  rw [hstore _ 32 _ (by decide), hstore _ 28 _ (by decide), hstore _ 24 _ (by decide),
    hstore _ 20 _ (by decide), hstore _ 16 _ (by decide), hstore _ 12 _ (by decide),
    hstore _ 8 _ (by decide), hstore _ 4 _ (by decide)]
  exact Mem.store8_of_ne hne

theorem fsMount_frame {fs : Fs} {mnt : Byte} {x : Word} (hx : x ≠ driver) :
    (fsMount fs driver mnt).mem x = fs.mem x := by
  unfold fsMount
  split
  · rfl
  · exact Mem.store8_of_ne hx

/-- The heap and the table of drivers after `fat12_init` and `fs_mount`. -/
theorem mountDriver_fsInv {functions : Functions} {u : HeapSession}
    (hledger : Ledger lo hi u.heap u.live) (hmount : mountDriver functions u = .ok s) :
    s.store v = ⟨u.arrays, fun _ => none⟩ ∧ ∃ driver L, FsInv lo hi v driver L s := by
  unfold mountDriver at hmount
  cases hcall : (Driver.fat12Init functions).forget u.heap with
  | error e =>
    rw [hcall] at hmount
    cases hmount
  | ok r =>
    rcases r with ⟨driver, heap'⟩
    rw [hcall] at hmount
    cases hmount
    rcases Logged.exists_runs hcall with ⟨log, hrun⟩
    rcases Logged.runs_bind_iff.mp hrun with ⟨ptr, heap₁, _, _, hmalloc, hrest, -⟩
    rcases Logged.runs_bind_iff.mp hrest with ⟨_, heap₂, _, _, hwrite, hreturn, -⟩
    rcases Logged.runs_pure_iff.mp hreturn with ⟨rfl, rfl, -⟩
    have hstart : Keeps lo hi u.live (fun _ => False) u.heap u.heap [] := .refl hledger
    have hkeeps : Keeps lo hi u.live (fun _ => False) u.heap heap₂
        [(driver, BitVec.ofNat 32 sizeofFsDriver)] := by
      apply (hstart.malloc hmalloc).1.write (fun _ h => absurd h not_false) _ hwrite
      intro x _ hx
      exact storeDriver_frame functions (hx _ List.mem_cons_self)
    have hfresh : ∀ b ∈ u.live, b.1 ≠ driver := hkeeps.ledger.fresh
    have hmem : ∀ x, x ≠ driver →
        (fsMount (.boot heap₂.mem) driver (ascii 'H')).mem x = heap₂.mem x :=
      fun x hx => fsMount_frame hx
    have hdriver : ∀ x, Stable lo hi u.live x → x ≠ driver := by
      rintro x hx rfl
      exact hkeeps.not_inRange (List.mem_singleton_self _) hx inRange_driver
    constructor
    · apply FsSession.store_eq
      · funext q
        apply arrays_congr (s := u) (t := ⟨{ heap₂ with mem := _ }, u.live⟩) rfl
        intro k hk i hlt
        have hin : InRange q k.toNat (q + BitVec.ofNat 32 i) :=
          inRange_add hlt (Nat.le_of_lt k.isLt)
        have hstable : Stable lo hi u.live (q + BitVec.ofNat 32 i) := .inr (.inr ⟨_, hk, hin⟩)
        exact (hmem _ (hdriver _ hstable)).trans (hkeeps.frame _ hstable not_false)
      · funext f
        exact openFiles_of_not_mem List.not_mem_nil
    · have hmounted : Mounted (fsMount (.boot heap₂.mem) driver (ascii 'H'))
          [(driver, ascii 'H')] := by
        have hne : ∀ e ∈ [(driver, ascii 'H')], e.1 ≠ 0 := by
          intro e he
          rw [List.mem_singleton.mp he]
          exact hkeeps.ledger.ne_zero List.mem_cons_self
        exact mounted_mountAll heap₂.mem hne
      refine ⟨driver, _, hkeeps.ledger.write ?_, List.subset_cons_self _ _, List.mem_cons_self, ?_,
        hmounted, fun f hf => absurd hf List.not_mem_nil, List.nodup_nil⟩
      · intro x hx
        apply hmem x
        rintro rfl
        exact hx (.inr (.inr ⟨_, List.mem_cons_self, inRange_driver⟩))
      · rintro ⟨k, hk⟩
        exact hfresh _ hk rfl

/-! ## Calls return -/

/-- With room for the driver structure the driver can be mounted. -/
theorem mountDriver_returns {u : HeapSession} {size : Nat} (functions : Functions)
    (hroomy : Roomy lo hi u.heap u.live (size + 52)) (hsize : 0 < size) :
    ∃ s, mountDriver functions u = .ok s ∧ HasRoom s.heap size := by
  have hnat : (BitVec.ofNat 32 sizeofFsDriver).toNat = 36 := rfl
  have hmore : Roomy lo hi u.heap u.live ((BitVec.ofNat 32 sizeofFsDriver).toNat + 16 + size) :=
    hroomy.mono (by omega)
  rcases hmore.malloc_rest (by decide) hsize with ⟨ptr, heap₁, hmalloc, hrest⟩
  have hinit : (Driver.fat12Init functions).Runs u.heap ptr
      { heap₁ with mem := storeDriver functions heap₁.mem ptr } _ :=
    (runs_malloc_iff.mpr ⟨hmalloc, rfl⟩).bind
      ((runs_write _ heap₁).bind (Logged.runs_pure_iff.mpr ⟨rfl, rfl, rfl⟩))
  refine ⟨_, by rw [mountDriver, hinit.forget_eq]; rfl, ?_⟩
  have hblock : ∀ x, ¬ Stable lo hi ((ptr, BitVec.ofNat 32 sizeofFsDriver) :: u.live) x →
      ¬ InRange ptr 36 x := fun x hx hin => hx (.inr (.inr ⟨_, List.mem_cons_self, hin⟩))
  have hwritten := hrest.write fun x hx => storeDriver_frame functions (hblock x hx)
  apply (hwritten.write _).hasRoom
  intro x hx
  apply fsMount_frame
  rintro rfl
  exact hblock x hx (by simp [InRange])

/-- What the driver needs of the heap: a chunk for a directory or a cluster, and for the handle or
the sector that it holds along with it. -/
def Volume.room (v : Volume) : Nat :=
  max (32 * v.fs.bpb.directoryEntries.toNat) v.fs.clusterBytes + 528

theorem Volume.directory_room (v : Volume) (c : Half) :
    0 < (v.directory c).count ∧ 32 * (v.directory c).count + 300 ≤ v.room := by
  have hpos := v.sectors.pos
  have hroot := v.rootEntries
  have hsize : 32 * (v.fs.clusterBytes / 32) = v.fs.clusterBytes := by
    unfold Fat12.clusterBytes
    omega
  unfold Volume.directory diskDirectory Volume.room
  by_cases h0 : c = 0
  · rw [if_pos h0]
    dsimp only
    omega
  · rw [if_neg h0]
    dsimp only
    omega

/-- With room for the driver every path can be looked up. -/
theorem FsInv.open_returns {path : List Byte} (h : FsInv lo hi v driver L s)
    (hroom : HasRoom s.heap v.room) (hnul : 0 ∉ path) :
    ∃ file t, FsStep v s (.openFile path file) t := by
  have hdrop : 0 ∉ path.drop 3 := fun h => hnul (List.mem_of_mem_drop h)
  have hreturns : CallReturns (Driver.fat12Open v.directory (fun _ => 0) (path.drop 3)) s.heap := by
    rcases fat12Open_returns (h.ledger.roomy hroom) (fun c => (v.directory_room c).1)
      (fun c => (v.directory_room c).2) hdrop with ⟨handle, heap', log, hrun⟩
    exact ⟨handle, heap', hrun.forget_eq⟩
  have hopens : ∃ f fs log, (Fs.fsOpen (driverOpen v.directory (fun _ => 0) s.heap) path).Runs
      s.fs f fs log := by
    by_cases hdrive : OnDrive path
    · exact ⟨_, _, h.runs_fsOpen _ hdrive⟩
    · exact ⟨_, _, h.runs_fsOpen_null _ hdrive⟩
  rcases hopens with ⟨f, fs, log, hrun⟩
  by_cases h0 : f = 0
  · subst h0
    exact ⟨none, _, .notFound (fun _ => hreturns) hrun⟩
  · exact ⟨some f, _, .openFile (fun _ => hreturns) hrun h0⟩

/-- With room for the driver every request that clients may make can be served. -/
theorem FsInv.read_returns {file : OpenFile Byte} {xs : List Byte} {i : Nat} {n : Word}
    (h : FsInv lo hi v driver L s) (hroom : HasRoom s.heap v.room)
    (hf : (s.store v).files f = some file) (hp : (s.store v).arrays p = some xs)
    (hfit : i + (file.next n.toNat).length ≤ xs.length)
    (hwrap : file.position + n.toNat < 2 ^ 32) :
    ∃ t, FsStep v s (.readFile f p i n.toNat) t := by
  rcases openFiles_eq_some hf with ⟨hopen, rfl⟩
  rcases h.files f hopen with ⟨hblock, -, hhandle⟩
  have hheld : s.Holds p := by
    by_contra hnone
    have harray : s.arrays p = none := arrays_eq_none hnone
    cases harray.symm.trans hp
  rcases hheld with ⟨len, hlen⟩
  obtain rfl := Option.some.inj ((h.arrays_eq hlen).symm.trans hp)
  rw [length_bytesAt, length_next_openFile] at hfit
  have hinside : ReadInside (fileAt s.heap.mem f) i n.toNat len.toNat := ⟨hfit, hwrap⟩
  have hroomy : Roomy lo hi s.heap L (v.fs.clusterBytes + 528) :=
    (h.ledger.roomy hroom).mono (Nat.add_le_add_right (Nat.le_max_right _ _) _)
  have hreturns : CallReturns (Driver.fat12Read v.fs v.disk v.readFat f (p + BitVec.ofNat 32 i) n)
      s.heap := by
    rcases fat12Read_returns hroomy rfl v.sectors hhandle.offset hwrap rfl hblock
      (h.buffer_stable hopen hlen hfit) with ⟨heap', log, hrun⟩
    exact ⟨(), heap', hrun.forget_eq⟩
  exact ⟨_, .readFile hopen hlen hinside hreturns (h.dispatch_ok hopen _)⟩

/-- Open files can be closed and moved. -/
theorem FsInv.close_returns {file : OpenFile Byte} (h : FsInv lo hi v driver L s)
    (hf : (s.store v).files f = some file) :
    (∃ t, FsStep v s (.closeFile f) t) ∧ ∀ n : Word,
      file.position + n.toNat < 2 ^ 32 ∨ n.toNat ≤ file.contents.length →
        ∃ t, FsStep v s (.seekFile f n.toNat) t := by
  rcases openFiles_eq_some hf with ⟨hopen, rfl⟩
  rcases h.files f hopen with ⟨hblock, -, hok⟩
  constructor
  · rcases h.ledger.free hblock with ⟨heap', hfree, -⟩
    have hreturns : CallReturns (Driver.fat12Close f) s.heap :=
      ⟨(), heap', (runs_free_iff.mpr ⟨hfree, rfl⟩).forget_eq⟩
    exact ⟨_, .closeFile hopen hreturns (h.dispatch_ok hopen _)⟩
  · intro n hn
    change _ ∨ n.toNat ≤ (v.contents _).length at hn
    rw [Volume.length_contents] at hn
    exact ⟨_, .seekFile hopen hn (h.dispatch_ok hopen _)⟩

/-! ## A volume with one file -/

/-- The directory entry of a file `HELLO.TXT` of five bytes in cluster 2. -/
def helloEntry : List Byte :=
  "HELLO   TXT".toList.map ascii ++ [fat12AttributeArchive] ++ List.replicate 14 0 ++
    [2, 0, 5, 0, 0, 0]

/-- A floppy disk with the file `HELLO.TXT`. -/
def helloDisk : Disk := fun lba k =>
  if lba = 1 then 0xFF
  else if lba = 19 then helloEntry.getD k 0
  else if lba = 33 then ("Hello".toList.map ascii).getD k 0
  else 0

theorem helloDisk_root {i : Nat} (hi : i < 7168) :
    (diskDirectory floppy helloDisk 0).bytes i = helloEntry.getD i 0 := by
  change helloDisk (19 + BitVec.ofNat 32 (i / 512)) (i % 512) = _
  unfold helloDisk
  rw [if_neg (by bv_omega)]
  by_cases hsector : i < 512
  · rw [Nat.div_eq_of_lt hsector, Nat.mod_eq_of_lt hsector]
    rfl
  · rw [if_neg (by bv_omega), if_neg (by bv_omega), List.getD_eq_default]
    change 32 ≤ i
    omega

theorem helloDisk_entry {e : DirectoryEntry}
    (he : e ∈ (diskDirectory floppy helloDisk 0).entries) :
    (e.attributes = fat12AttributeArchive ∧ e.cluster = 2 ∧ e.size = 5) ∨ e.attributes = 0 := by
  rcases List.mem_map.mp he with ⟨k, hk, rfl⟩
  have hlt : k < 224 := List.mem_range.mp hk
  by_cases h0 : k = 0
  · subst h0
    left
    have hentry : parseEntry (fun j => (diskDirectory floppy helloDisk 0).bytes (32 * 0 + j)) =
        parseEntry fun j => helloEntry.getD j 0 := by
      apply Driver.parseEntry_congr
      intro j hj
      rw [helloDisk_root (by omega), Nat.mul_zero, Nat.zero_add]
    rw [hentry]
    decide
  · right
    change (diskDirectory floppy helloDisk 0).bytes (32 * k + 11) = 0
    rw [helloDisk_root (by omega), List.getD_eq_default]
    change 32 ≤ _
    omega

theorem helloDisk_isDirectory {c : Half} (h : IsDirectory floppy helloDisk c) : c = 0 := by
  induction h with
  | root => rfl
  | @entry c e _ he hattr hc =>
    subst hc
    rcases helloDisk_entry he with ⟨harchive, -⟩ | hzero
    · rw [harchive] at hattr
      exact absurd hattr (by decide)
    · rw [hzero] at hattr
      exact absurd hattr (by decide)

/-- The volume on that disk. -/
def helloVolume : Volume where
  fs := floppy
  disk := helloDisk
  sectors := floppy_sectors512
  rootSectors := by decide
  rootEntries := by decide
  directories c hc hne := absurd (helloDisk_isDirectory hc) hne
  chains c hc e he hattr := by
    obtain rfl := helloDisk_isDirectory hc
    rcases helloDisk_entry he with ⟨-, hcluster, hsize⟩ | hzero
    · rw [hcluster, hsize]
      intro i hi
      change i * 512 < 5 at hi
      obtain rfl : i = 0 := by omega
      decide
    · rw [hzero] at hattr
      exact absurd hattr (by decide)
  unsplit c hc e he hattr i hi := by
    obtain rfl := helloDisk_isDirectory hc
    rcases helloDisk_entry he with ⟨-, hcluster, hsize⟩ | hzero
    · rw [hsize] at hi
      change i * 512 < 5 at hi
      obtain rfl : i = 0 := by omega
      rw [hcluster]
      decide
    · rw [hzero] at hattr
      exact absurd hattr (by decide)

/-- The path of the file. -/
def helloPath : List Byte := "/H/HELLO.TXT".toList.map ascii

theorem helloVolume_leads {found : Option (List Byte)} :
    helloVolume.Leads helloPath found ↔ found = some ("Hello".toList.map ascii) := by
  have hopen (stack : Nat → Byte) :
      fat12Open (fun c => (helloVolume.directory c).entries) stack (helloPath.drop 3) =
        some ⟨some ⟨fat12FormatFileName ("HELLO   TXT".toList.map ascii) emptyName, 5, 0, 2⟩,
          [.handle]⟩ := rfl
  have hcontents : helloVolume.contents
      ⟨fat12FormatFileName ("HELLO   TXT".toList.map ascii) emptyName, 5, 0, 2⟩ =
        "Hello".toList.map ascii := by decide
  rw [Volume.Leads, if_pos (by decide)]
  constructor
  · rintro ⟨stack, o, ho, rfl⟩
    obtain rfl := Option.some.inj ((hopen stack).symm.trans ho)
    exact congrArg some hcontents
  · rintro rfl
    exact ⟨fun _ => 0, _, hopen _, congrArg some hcontents.symm⟩

/-! ## From `malloc_init` on -/

/-- A run from `malloc_init` on keeps the invariant, and is a run of the store from the mount on. -/
theorem FsStep.boot_simulated {functions : Functions} {heap : Heap} {u : HeapSession}
    {cs : List (StoreEvent Word Byte)} {es : List (FileEvent Word (List Byte) Byte)}
    (hledger : Ledger lo hi heap []) (hnull : 284 ≤ lo)
    (hclients : Run ClientStep (.start heap) cs u) (hmount : mountDriver functions u = .ok s)
    (hrun : Run (FsStep v) s es t) :
    Run (FileStore.Step v.fileSpec) ⟨u.arrays, fun _ => none⟩ es (t.store v) ∧
      ∃ driver L, FsInv lo hi v driver L t := by
  have hboot : Ledger lo hi (HeapSession.start heap).heap (HeapSession.start heap).live := hledger
  have hstart := ClientStep.run_ledger hboot hclients
  rcases mountDriver_fsInv (v := v) hstart hmount with ⟨hstore, driver, L, hinv⟩
  rcases FsStep.run_simulated hnull hinv hrun with ⟨hsimulated, L', hend⟩
  rw [hstore] at hsimulated
  exact ⟨hsimulated, driver, L', hend⟩

/-- Functions of a driver. -/
def helloFunctions : Functions where
  fat12Open := 0x11000
  fat12Opendir := 0x11400
  fat12Close := 0x11800
  fat12Closedir := 0x11900
  fat12Read := 0x11A00
  fat12Readdir := 0x11E00
  fat12Write := 0x12200
  fat12Seek := 0x12300

/-- The heap of the PC map and the driver on it. -/
theorem hello_mounted (functions : Functions) :
    ∃ heap s, mallocInit 0x20000 pcMap (Heap.boot fun _ => 0) = .ok heap ∧
      mountDriver functions (.start heap) = .ok s ∧ HasRoom s.heap helloVolume.room := by
  rcases saneMap_pcMap.ledger (fun _ => 0) with ⟨heap, hinit, hledger⟩
  rcases heapInv_pcMap with ⟨heap', hinit', hinv⟩
  obtain rfl := Except.ok.inj (hinit'.symm.trans hinit)
  have hroom : HasRoom heap' (helloVolume.room + 52) := ⟨_, hinv, ⟨0x100000, 0x7edfff0, false⟩,
    by simp, rfl, by decide⟩
  rcases mountDriver_returns functions (u := .start heap') (hledger.roomy hroom) (by decide) with
    ⟨s, hmount, hs⟩
  exact ⟨heap', s, hinit, hmount, hs⟩

/-- The file is opened, moved to 3 and then to 4, which `fat12_seek` takes for behind the end. -/
def helloEvents (f : Word) : List (FileEvent Word (List Byte) Byte) :=
  [.openFile helloPath (some f), .seekFile f (3 : Word).toNat, .seekFile f (4 : Word).toNat]

theorem hello_opened {u w : FileStore Word Byte} {f : Word}
    (h : FileStore.Step helloVolume.fileSpec u (.openFile helloPath (some f)) w) :
    w.files f = some ⟨"Hello".toList.map ascii, 0⟩ := by
  rcases h.opened with ⟨contents, hleads, hfile⟩
  obtain rfl := Option.some.inj (helloVolume_leads.mp hleads)
  exact hfile

theorem hello_moved {u w : FileStore Word Byte} {f : Word}
    (h : FileStore.Step helloVolume.fileSpec u (.seekFile f (3 : Word).toNat) w)
    (hfile : u.files f = some ⟨"Hello".toList.map ascii, 0⟩) :
    w.files f = some ⟨"Hello".toList.map ascii, 3⟩ := by
  rcases h.moved hfile with ⟨file', hmoves, hfile'⟩
  obtain rfl := hmoves.1 (.inl (by decide))
  exact hfile'

/-- The store after these events. -/
theorem hello_store {u w : FileStore Word Byte} {f : Word}
    (h : Run (FileStore.Step helloVolume.fileSpec) u (helloEvents f) w) :
    w.files f = some ⟨"Hello".toList.map ascii, 5⟩ := by
  cases h with
  | cons hopen h =>
    cases h with
    | cons hfirst h =>
      cases h with
      | cons hsecond h =>
        cases h
        rcases hsecond.moved (hello_moved hfirst (hello_opened hopen)) with ⟨file', hmoves, hfile'⟩
        obtain rfl := hmoves.2 (by
          change ¬ (_ ∨ _ ∨ _)
          decide)
        exact hfile'

/-- The clients can do that once the driver is mounted. -/
theorem hello_run {functions : Functions} {heap : Heap}
    (hinit : mallocInit 0x20000 pcMap (Heap.boot fun _ => 0) = .ok heap)
    (hmount : mountDriver functions (.start heap) = .ok s)
    (hroom : HasRoom s.heap helloVolume.room) :
    ∃ f t, Run (FsStep helloVolume) s (helloEvents f) t := by
  rcases saneMap_pcMap.ledger (fun _ => 0) with ⟨heap', hinit', hledger⟩
  obtain rfl := Except.ok.inj (hinit'.symm.trans hinit)
  have hstart : Ledger (0x20000 : Word).toNat (2 ^ 32) (HeapSession.start heap').heap
      (HeapSession.start heap').live := hledger
  rcases mountDriver_fsInv (v := helloVolume) hstart hmount with ⟨-, driver, L, hinv⟩
  rcases hinv.open_returns hroom (by decide : 0 ∉ helloPath) with ⟨file, t₁, hopen⟩
  rcases hopen.simulated (by decide) hinv with ⟨hstore₁, L₁, hinv₁⟩
  cases file with
  | none =>
    cases helloVolume_leads.mp hstore₁.missed
  | some f =>
    have hfile₁ := hello_opened hstore₁
    rcases (hinv₁.close_returns hfile₁).2 3 (.inl (by decide)) with ⟨t₂, hfirst⟩
    rcases hfirst.simulated (by decide) hinv₁ with ⟨hstore₂, L₂, hinv₂⟩
    have hfile₂ := hello_moved hstore₂ hfile₁
    rcases (hinv₂.close_returns hfile₂).2 4 (.inl (by decide)) with ⟨t₃, hsecond⟩
    exact ⟨f, t₃, .cons hopen (.cons hfirst (.cons hsecond (.nil t₃)))⟩

end

end Hjortron
