import Hjortron.Filesystem.Fs
import Mathlib.Data.List.Find

/-!
# Opening through the table of drivers

After any sequence of `fs_mount` calls the table holds the drivers in the order of the calls, as
far as there was room, and every driver has the letter of its last call. A path is opened by the
first driver at its letter. `fs_open` and `fs_opendir` write to the handle that the driver returns
without asking whether there is one.
-/

namespace Hjortron

/-- The letter that a driver has been mounted at last. -/
def letterOf (mounts : List (Word × Byte)) (driver : Word) : Option Byte :=
  (mounts.reverse.find? fun e => e.1 = driver).map Prod.snd

/-- The calls of `fs_mount` that found room in the table. -/
def servedMounts (mounts : List (Word × Byte)) : List (Word × Byte) := mounts.take driversLength

/-- The first driver that is mounted at a letter. -/
def mountedAt (mounts : List (Word × Byte)) (letter : Byte) : Option Word :=
  ((servedMounts mounts).map Prod.fst).find? fun d => letterOf (servedMounts mounts) d = some letter

/-- What the table and the drivers hold after the calls `mounts`. -/
structure Mounted (fs : Fs) (mounts : List (Word × Byte)) : Prop where
  drivers : ∃ k, fs.drivers = (servedMounts mounts).map Prod.fst ++ List.replicate k 0
  letters : ∀ d l, letterOf (servedMounts mounts) d = some l → driverMnt fs.mem d = l

/-- The handle overlaps no driver structure, and these have been left alone. -/
structure FreshHandle (kind : HandleKind) (drivers : List Word) (m : Mem) (handle : Word)
    (m' : Mem) : Prop where
  apart : ∀ d ∈ drivers, Apart handle kind.size d sizeofFsDriver
  frame : ∀ d ∈ drivers, ∀ x, InRange d sizeofFsDriver x → m' x = m x

/-- The drivers return NULL or a fresh handle. -/
def OpensFresh (code : DriverOpen) (drivers : List Word) : Prop :=
  ∀ kind, ∀ d ∈ drivers, ∀ path m, (code kind d path m).1 ≠ 0 →
    FreshHandle kind drivers m (code kind d path m).1 (code kind d path m).2

/-- There is a driver for the path, and it returns NULL. -/
def DriverFails (code : DriverOpen) (mounts : List (Word × Byte)) (kind : HandleKind) (m : Mem)
    (path : List Byte) : Prop :=
  Fs.IsMountPath path ∧ ∃ d, mountedAt mounts (path.getD 1 0) = some d ∧
    (code kind d (path.drop 3) m).1 = 0

/-- The path cannot be opened. -/
def OpenFails (code : DriverOpen) (mounts : List (Word × Byte)) (kind : HandleKind) (m : Mem)
    (path : List Byte) : Prop :=
  ¬ Fs.IsMountPath path ∨ mountedAt mounts (path.getD 1 0) = none ∨
    DriverFails code mounts kind m path

/-- What `fs_open` and `fs_opendir` should do: return NULL and write nothing when the path cannot be
opened, and otherwise return the handle of the first driver at the letter, with the driver in it, so
that the functions on handles get through to that driver. -/
def OpensOrReports (code : DriverOpen) (mounts : List (Word × Byte)) (kind : HandleKind) (fs : Fs)
    (path : List Byte) (call : Fs.Action Word) : Prop :=
  ∃ handle fs' log, call.Runs fs handle fs' log ∧
    (OpenFails code mounts kind fs.mem path → handle = 0 ∧ ∀ a ∈ log, a.write = false) ∧
    (¬ OpenFails code mounts kind fs.mem path →
      ∃ d, mountedAt mounts (path.getD 1 0) = some d ∧
        handle = (code kind d (path.drop 3) fs.mem).1 ∧ handleDriver kind fs'.mem handle = d ∧
        ∀ run, dispatch kind run fs'.mem handle = .ok (run d fs'.mem))

section

variable {fs fs' : Fs} {mounts : List (Word × Byte)} {driver d handle : Word} {mnt letter l : Byte}
  {code : DriverOpen} {kind : HandleKind} {path : List Byte} {ds : List Word} {k : Nat} {mem : Mem}

/-! ## `fs_mount` -/

theorem letterOf_concat :
    letterOf (mounts ++ [(driver, mnt)]) d =
      if driver = d then some mnt else letterOf mounts d := by
  unfold letterOf
  rw [List.reverse_append, List.reverse_singleton, List.singleton_append, List.find?_cons]
  by_cases h : driver = d <;> simp [h]

theorem mounted_boot (mem : Mem) : Mounted (.boot mem) [] :=
  ⟨⟨driversLength, rfl⟩, fun _ _ h => by cases h⟩

/-- The first free place of the table. -/
theorem findIdx?_zero (hds : 0 ∉ ds) :
    (ds ++ List.replicate k (0 : Word)).findIdx? (· = 0) =
      if k = 0 then none else some ds.length := by
  have hnone : ds.findIdx? (fun d => decide (d = (0 : Word))) = none := by
    rw [List.findIdx?_eq_none_iff]
    intro d hd
    have hne : d ≠ 0 := fun hzero => hds (hzero ▸ hd)
    simpa using hne
  rw [List.findIdx?_append, hnone]
  cases k with
  | zero => rfl
  | succ k => simp [List.replicate_succ, List.findIdx?_cons]

theorem zero_notMem_drivers (hmounts : ∀ e ∈ mounts, e.1 ≠ 0) :
    0 ∉ (servedMounts mounts).map Prod.fst := by
  intro hzero
  obtain ⟨e, he, heq⟩ := List.mem_map.mp hzero
  exact hmounts e (List.mem_of_mem_take he) heq

theorem Mounted.fsMount (h : Mounted fs mounts) (hmounts : ∀ e ∈ mounts, e.1 ≠ 0) :
    Mounted (fsMount fs driver mnt) (mounts ++ [(driver, mnt)]) := by
  obtain ⟨k, hdrivers⟩ := h.drivers
  have hfree := findIdx?_zero (k := k) (zero_notMem_drivers hmounts)
  rw [← hdrivers] at hfree
  have hlength := fs.length_drivers
  rw [hdrivers, List.length_append, List.length_map, List.length_replicate] at hlength
  unfold Hjortron.fsMount
  by_cases hroom : mounts.length < driversLength
  · have hall : servedMounts mounts = mounts := List.take_of_length_le hroom.le
    have hall' : servedMounts (mounts ++ [(driver, mnt)]) = mounts ++ [(driver, mnt)] :=
      List.take_of_length_le (by rw [List.length_append]; exact hroom)
    rw [hall] at hlength hfree hdrivers
    obtain ⟨k, rfl⟩ := Nat.exists_eq_succ_of_ne_zero (by omega : k ≠ 0)
    rw [if_neg (Nat.succ_ne_zero k)] at hfree
    rw [hfree]
    constructor
    · refine ⟨k, ?_⟩
      show fs.drivers.set _ driver = _
      rw [hdrivers, hall', List.set_append_right _ _ le_rfl]
      simp [List.replicate_succ]
    · intro d l hl
      rw [hall', letterOf_concat] at hl
      show setDriverMnt fs.mem driver mnt d = l
      by_cases hd : driver = d
      · rw [if_pos hd] at hl
        rw [← hd, setDriverMnt, Mem.store8_self]
        exact Option.some.inj hl
      · rw [if_neg hd] at hl
        rw [setDriverMnt, Mem.store8_of_ne (Ne.symm hd)]
        exact h.letters d l (by rw [hall]; exact hl)
  · have hsame : servedMounts (mounts ++ [(driver, mnt)]) = servedMounts mounts :=
      List.take_append_of_le_length (Nat.le_of_not_lt hroom)
    have hfull : (servedMounts mounts).length = driversLength := by
      rw [servedMounts, List.length_take]
      omega
    obtain rfl : k = 0 := by omega
    rw [if_pos rfl] at hfree
    rw [hfree]
    exact ⟨⟨0, by rw [hsame]; exact hdrivers⟩, fun d l hl => h.letters d l (hsame ▸ hl)⟩

theorem mounted_mountAll (mem : Mem) (hmounts : ∀ e ∈ mounts, e.1 ≠ 0) :
    Mounted (mountAll (.boot mem) mounts) mounts := by
  induction mounts using List.reverseRecOn with
  | nil => exact mounted_boot mem
  | append_singleton mounts e ih =>
    rw [mountAll, List.foldl_append]
    have h := ih fun e he => hmounts e (List.mem_append_left _ he)
    exact h.fsMount fun e he => hmounts e (List.mem_append_left _ he)

theorem exists_letterOf (hd : d ∈ mounts.map Prod.fst) : ∃ l, letterOf mounts d = some l := by
  obtain ⟨e, he, rfl⟩ := List.mem_map.mp hd
  unfold letterOf
  cases hfind : mounts.reverse.find? fun e' => e'.1 = e.1 with
  | none =>
    have hne := List.find?_eq_none.mp hfind e (List.mem_reverse.mpr he)
    simp at hne
  | some e' => exact ⟨e'.2, rfl⟩

/-- The search through the table finds the first driver at the letter. -/
theorem Mounted.find (h : Mounted fs mounts) (letter : Byte) :
    ((servedMounts mounts).map Prod.fst).find? (fun d => driverMnt fs.mem d = letter) =
      mountedAt mounts letter := by
  unfold mountedAt
  apply List.find?_congr
  intro d hd
  obtain ⟨l, hl⟩ := exists_letterOf hd
  rw [hl, h.letters d l hl]
  simp

/-! ## The loop over the table -/

namespace Fs

open Logged

theorem runs_readMnt (driver : Word) (fs : Fs) :
    (readMnt driver).Runs fs (driverMnt fs.mem driver) fs [⟨driver, 0, false⟩] := rfl

theorem runs_openLoop_skip {log : List Access} (hd : d ≠ 0)
    (hmnt : driverMnt fs.mem d ≠ path.getD 0 0)
    (hrest : (openLoop code kind path ds).Runs fs handle fs' log) :
    (openLoop code kind path (d :: ds)).Runs fs handle fs' ([⟨d, 0, false⟩] ++ log) := by
  unfold openLoop
  rw [if_neg hd]
  apply (runs_readMnt d fs).bind
  rw [if_pos hmnt]
  exact hrest

theorem runs_openLoop_found (hd : d ≠ 0) (hmnt : driverMnt fs.mem d = path.getD 0 0) :
    (openLoop code kind path (d :: ds)).Runs fs (code kind d (path.drop 2) fs.mem).1
      { fs with
        mem := (code kind d (path.drop 2) fs.mem).2.store32
          ((code kind d (path.drop 2) fs.mem).1 + kind.driverOffset) d }
      ([⟨d, 0, false⟩] ++ [⟨(code kind d (path.drop 2) fs.mem).1, kind.driverOffset, true⟩]) := by
  unfold openLoop
  rw [if_neg hd]
  apply (runs_readMnt d fs).bind
  rw [if_neg (not_not.mpr hmnt)]
  rfl

/-- No driver has the letter: nothing is written. -/
theorem runs_openLoop_none (hds : 0 ∉ ds)
    (hnone : ds.find? (fun d => driverMnt fs.mem d = path.getD 0 0) = none) :
    ∃ log, (openLoop code kind path (ds ++ List.replicate k 0)).Runs fs 0 fs log ∧
      ∀ a ∈ log, a.write = false := by
  induction ds with
  | nil =>
    cases k with
    | zero => exact ⟨[], rfl, by simp⟩
    | succ k => exact ⟨[], rfl, by simp⟩
  | cons d ds ih =>
    rw [List.mem_cons, not_or] at hds
    rw [List.find?_eq_none, List.forall_mem_cons] at hnone
    obtain ⟨log, hrest, hlog⟩ := ih hds.2 (List.find?_eq_none.mpr hnone.2)
    refine ⟨_, runs_openLoop_skip (Ne.symm hds.1) (by simpa using hnone.1) hrest, ?_⟩
    rw [List.forall_mem_append]
    exact ⟨by simp, hlog⟩

/-- The first driver with the letter is called, and what it returns is written to. -/
theorem runs_openLoop_some (code : DriverOpen) (kind : HandleKind) (hds : 0 ∉ ds)
    (hsome : ds.find? (fun d => driverMnt fs.mem d = path.getD 0 0) = some d) (rest : List Word) :
    ∃ log, (openLoop code kind path (ds ++ rest)).Runs fs (code kind d (path.drop 2) fs.mem).1
      { fs with
        mem := (code kind d (path.drop 2) fs.mem).2.store32
          ((code kind d (path.drop 2) fs.mem).1 + kind.driverOffset) d }
      (log ++ [⟨(code kind d (path.drop 2) fs.mem).1, kind.driverOffset, true⟩]) := by
  induction ds with
  | nil => cases hsome
  | cons d' ds ih =>
    rw [List.mem_cons, not_or] at hds
    by_cases hmnt : driverMnt fs.mem d' = path.getD 0 0
    · rw [List.find?_cons_of_pos (by simpa using hmnt)] at hsome
      obtain rfl := Option.some.inj hsome
      exact ⟨_, runs_openLoop_found (Ne.symm hds.1) hmnt⟩
    · rw [List.find?_cons_of_neg (by simpa using hmnt)] at hsome
      obtain ⟨log, hrest⟩ := ih hds.2 hsome
      refine ⟨[⟨d', 0, false⟩] ++ log, ?_⟩
      rw [List.append_assoc]
      exact runs_openLoop_skip (Ne.symm hds.1) hmnt hrest

theorem runs_openHandle {log : List Access} (hpath : IsMountPath path)
    (hloop : (openLoop code kind (path.drop 1) fs.drivers).Runs fs handle fs' log) :
    (openHandle code kind path).Runs fs handle fs' log := by
  unfold openHandle
  rw [if_pos hpath]
  exact (runs_read Fs.drivers fs).bind hloop

/-! ## The three outcomes -/

theorem getD_drop_one (path : List Byte) : (path.drop 1).getD 0 0 = path.getD 1 0 := by
  simp [List.getD_eq_getElem?_getD]

/-- The path has no letter, or no driver has its letter. -/
theorem runs_openHandle_none (code : DriverOpen) (kind : HandleKind) (h : Mounted fs mounts)
    (hmounts : ∀ e ∈ mounts, e.1 ≠ 0)
    (hnone : ¬ IsMountPath path ∨ mountedAt mounts (path.getD 1 0) = none) :
    ∃ log, (openHandle code kind path).Runs fs 0 fs log ∧ ∀ a ∈ log, a.write = false := by
  by_cases hpath : IsMountPath path
  · obtain ⟨k, hdrivers⟩ := h.drivers
    have hfind := (h.find (path.getD 1 0)).trans (hnone.resolve_left (not_not.mpr hpath))
    rw [← getD_drop_one] at hfind
    obtain ⟨log, hloop, hlog⟩ := runs_openLoop_none (zero_notMem_drivers hmounts) hfind
    rw [← hdrivers] at hloop
    exact ⟨log, runs_openHandle hpath hloop, hlog⟩
  · refine ⟨[], ?_, by simp⟩
    unfold openHandle
    rw [if_neg hpath]
    rfl

/-- A driver has the letter of the path. -/
theorem runs_openHandle_some (code : DriverOpen) (kind : HandleKind) (h : Mounted fs mounts)
    (hmounts : ∀ e ∈ mounts, e.1 ≠ 0)
    (hpath : IsMountPath path) (hsome : mountedAt mounts (path.getD 1 0) = some d) :
    ∃ log, (openHandle code kind path).Runs fs (code kind d (path.drop 3) fs.mem).1
      { fs with
        mem := (code kind d (path.drop 3) fs.mem).2.store32
          ((code kind d (path.drop 3) fs.mem).1 + kind.driverOffset) d }
      (log ++ [⟨(code kind d (path.drop 3) fs.mem).1, kind.driverOffset, true⟩]) := by
  obtain ⟨k, hdrivers⟩ := h.drivers
  have hfind := (h.find (path.getD 1 0)).trans hsome
  rw [← getD_drop_one] at hfind
  obtain ⟨log, hloop⟩ := runs_openLoop_some code kind (zero_notMem_drivers hmounts) hfind
    (List.replicate k 0)
  rw [← hdrivers, List.drop_drop] at hloop
  exact ⟨log, runs_openHandle hpath hloop⟩

end Fs

/-! ## Handles -/

theorem dispatch_eq_ok {m : Mem} (hhandle : handle ≠ 0) (hdriver : handleDriver kind m handle = d)
    (hd : d ≠ 0) (hmnt : driverMnt m d ≠ 0) (run : Word → Mem → Mem) :
    dispatch kind run m handle = .ok (run d m) := by
  unfold dispatch
  rw [hdriver, bne_iff_ne.mpr hhandle, bne_iff_ne.mpr hd,
    (bne_iff_ne.mpr hmnt : (driverMnt m d != driverMountUnassigned) = true)]
  rfl

/-- What is known of the driver that is mounted at a letter. -/
theorem mountedAt_eq_some (hmounts : ∀ e ∈ mounts, e.1 ≠ 0 ∧ e.2 ≠ 0)
    (hsome : mountedAt mounts letter = some d) :
    d ∈ mounts.map Prod.fst ∧ d ≠ 0 ∧ letter ≠ 0 ∧
      letterOf (servedMounts mounts) d = some letter := by
  have hmem := List.mem_of_find?_eq_some hsome
  have hletter : letterOf (servedMounts mounts) d = some letter := by
    simpa using List.find?_some hsome
  obtain ⟨e, he, rfl⟩ := List.mem_map.mp hmem
  have hin := List.mem_of_mem_take he
  refine ⟨List.mem_map_of_mem hin, (hmounts e hin).1, ?_, hletter⟩
  unfold letterOf at hletter
  obtain ⟨e', he', rfl⟩ := Option.map_eq_some_iff.mp hletter
  have hin' := List.mem_of_mem_take (List.mem_reverse.mp (List.mem_of_find?_eq_some he'))
  exact (hmounts e' hin').2

/-- The driver that `fs_open` writes to a fresh handle is the one that the functions on handles
find, with its letter. -/
theorem dispatch_fresh (hmounts : ∀ e ∈ mounts, e.1 ≠ 0 ∧ e.2 ≠ 0) (h : Mounted fs mounts)
    (hcode : OpensFresh code (mounts.map Prod.fst))
    (hsome : mountedAt mounts letter = some d) (hhandle : (code kind d path fs.mem).1 ≠ 0) :
    let m := (code kind d path fs.mem).2.store32
      ((code kind d path fs.mem).1 + kind.driverOffset) d
    handleDriver kind m (code kind d path fs.mem).1 = d ∧
      ∀ run, dispatch kind run m (code kind d path fs.mem).1 = .ok (run d m) := by
  intro m
  obtain ⟨hmem, hd, hletter, hlast⟩ := mountedAt_eq_some hmounts hsome
  have hfresh := hcode kind d hmem path fs.mem hhandle
  have hdriver : handleDriver kind m (code kind d path fs.mem).1 = d := Mem.load32_store32_self
  have hself : InRange d sizeofFsDriver d := by simp [InRange, sizeofFsDriver]
  have hmnt : driverMnt m d = letter := by
    have hout := (hfresh.apart d hmem).not_inRange hself
    have hmember : kind.driverOffset.toNat + 4 ≤ kind.size := by cases kind <;> decide
    calc
      driverMnt m d = (code kind d path fs.mem).2 d := Mem.store32_member hmember hout
      _ = driverMnt fs.mem d := hfresh.frame d hmem d hself
      _ = letter := h.letters d letter hlast
  exact ⟨hdriver, dispatch_eq_ok hhandle hdriver hd (hmnt ▸ hletter)⟩

/-! ## `fs_open` and `fs_opendir` -/

theorem opensOrReports_iff (h : Mounted fs mounts) (hmounts : ∀ e ∈ mounts, e.1 ≠ 0 ∧ e.2 ≠ 0)
    (hcode : OpensFresh code (mounts.map Prod.fst)) (kind : HandleKind) (path : List Byte) :
    OpensOrReports code mounts kind fs path (Fs.openHandle code kind path) ↔
      ¬ DriverFails code mounts kind fs.mem path := by
  have hne : ∀ e ∈ mounts, e.1 ≠ 0 := fun e he => (hmounts e he).1
  constructor
  · rintro ⟨handle, fs', log, hrun, hfails, -⟩ hdriver
    obtain ⟨hpath, d, hsome, hnull⟩ := hdriver
    obtain ⟨log', hrun'⟩ := Fs.runs_openHandle_some code kind h hne hpath hsome
    obtain ⟨-, -, rfl⟩ := hrun.unique hrun'
    have hwrite := (hfails (.inr (.inr ⟨hpath, d, hsome, hnull⟩))).2 _ List.mem_concat_self
    cases hwrite
  · intro hdriver
    by_cases hfails : ¬ Fs.IsMountPath path ∨ mountedAt mounts (path.getD 1 0) = none
    · obtain ⟨log, hrun, hlog⟩ := Fs.runs_openHandle_none code kind h hne hfails
      refine ⟨0, fs, log, hrun, fun _ => ⟨rfl, hlog⟩, fun hopens => absurd ?_ hopens⟩
      exact hfails.elim .inl fun hnone => .inr (.inl hnone)
    · obtain ⟨hpath, hmounted⟩ := not_or.mp hfails
      obtain ⟨d, hsome⟩ := Option.ne_none_iff_exists'.mp hmounted
      have hhandle : (code kind d (path.drop 3) fs.mem).1 ≠ 0 := fun hnull =>
        hdriver ⟨not_not.mp hpath, d, hsome, hnull⟩
      obtain ⟨log, hrun⟩ := Fs.runs_openHandle_some code kind h hne (not_not.mp hpath) hsome
      obtain ⟨hset, hdispatch⟩ := dispatch_fresh hmounts h hcode hsome hhandle
      refine ⟨_, _, _, hrun, fun hfails' => absurd hfails' ?_, fun _ => ?_⟩
      · exact not_or.mpr ⟨hpath, not_or.mpr ⟨hmounted, hdriver⟩⟩
      · exact ⟨d, hsome, rfl, hset, hdispatch⟩

/-- **Failed opens.** After any mounts of drivers at letters other than NUL, with drivers that
return NULL or a fresh handle, `fs_open` and `fs_opendir` open a path or report that they cannot,
without writing anything, exactly if the path is malformed, no driver is mounted at its letter, or
the first driver there returns a handle. -/
theorem fsOpen_opensOrReports_iff (mem : Mem) (hmounts : ∀ e ∈ mounts, e.1 ≠ 0 ∧ e.2 ≠ 0)
    (hcode : OpensFresh code (mounts.map Prod.fst)) (path : List Byte) :
    (OpensOrReports code mounts .file (mountAll (.boot mem) mounts) path (Fs.fsOpen code path) ↔
      ¬ DriverFails code mounts .file (mountAll (.boot mem) mounts).mem path) ∧
    (OpensOrReports code mounts .dir (mountAll (.boot mem) mounts) path (Fs.fsOpendir code path) ↔
      ¬ DriverFails code mounts .dir (mountAll (.boot mem) mounts).mem path) := by
  have h := mounted_mountAll mem fun e he => (hmounts e he).1
  exact ⟨opensOrReports_iff h hmounts hcode .file path,
    opensOrReports_iff h hmounts hcode .dir path⟩

/-- A driver that has one handle to give, for any path. -/
def oneHandle : DriverOpen := fun _ _ _ m => (0x9000, m)

/-- A driver that finds nothing. -/
def noHandle : DriverOpen := fun _ _ _ m => (0, m)

/-- The path of the file `A` on the drive `H`. -/
def pathToA : List Byte := [ascii '/', ascii 'H', ascii '/', ascii 'A']

theorem mountable_one : ∀ e ∈ [((0x5000 : Word), ascii 'H')], e.1 ≠ 0 ∧ e.2 ≠ 0 := by
  intro e he
  rw [List.mem_singleton.mp he]
  exact ⟨by decide, by decide⟩

/-- A file that is there. -/
theorem fsOpen_opensOrReports_iff_oneHandle :
    OpensOrReports oneHandle [(0x5000, ascii 'H')] .file
      (mountAll (.boot fun _ => 0) [(0x5000, ascii 'H')]) pathToA
      (Fs.fsOpen oneHandle pathToA) := by
  have hfresh : OpensFresh oneHandle ([(0x5000, ascii 'H')].map Prod.fst) := by
    intro kind d hd path m _
    refine ⟨fun e he => ?_, fun _ _ _ _ => rfl⟩
    obtain rfl : e = 0x5000 := by simpa using he
    show Apart 0x9000 kind.size 0x5000 sizeofFsDriver
    cases kind <;> exact ⟨by decide, by decide⟩
  refine (fsOpen_opensOrReports_iff (fun _ => 0) mountable_one hfresh pathToA).1.mpr ?_
  rintro ⟨-, d, -, hnull⟩
  cases hnull

/-- A file that is not there: the driver pointer is written through NULL. -/
theorem fsOpen_writes_null :
    ∃ fs' log, (Fs.fsOpen noHandle pathToA).Runs
        (mountAll (.boot fun _ => 0) [(0x5000, ascii 'H')]) 0 fs' log ∧
      ⟨0, 280, true⟩ ∈ log ∧ fs'.mem.load32 280 = 0x5000 ∧
      ¬ OpensOrReports noHandle [(0x5000, ascii 'H')] .file
        (mountAll (.boot fun _ => 0) [(0x5000, ascii 'H')]) pathToA
        (Fs.fsOpen noHandle pathToA) := by
  have h : Mounted (mountAll (.boot fun _ => 0) [(0x5000, ascii 'H')]) [(0x5000, ascii 'H')] :=
    mounted_mountAll _ fun e he => (mountable_one e he).1
  have hpath : Fs.IsMountPath pathToA := by decide
  have hsome : mountedAt [(0x5000, ascii 'H')] (pathToA.getD 1 0) = some 0x5000 := by decide
  obtain ⟨log, hrun⟩ := Fs.runs_openHandle_some noHandle .file h
    (fun e he => (mountable_one e he).1) hpath hsome
  refine ⟨_, _, hrun, List.mem_concat_self, Mem.load32_store32_self, ?_⟩
  rintro ⟨handle, fs', log', hrun', hfails, -⟩
  obtain ⟨-, -, rfl⟩ := hrun'.unique hrun
  have hwrite := (hfails (.inr (.inr ⟨hpath, _, hsome, rfl⟩))).2 _ List.mem_concat_self
  cases hwrite

end

end Hjortron
