import Hjortron.Assert
import Hjortron.Misc.Logged
import Hjortron.Strings

/-!
# `kernel/src/filesystem/fs.c`

The generic layer over the drivers. A path is its characters, and reading behind them gives the
terminator. Driver structures and handles lie in flat memory; what the functions of a driver do is
a parameter. Accesses through pointers are recorded, apart from those of the drivers. Messages
written by `info` and `error` are left out.
-/

namespace Hjortron

/-- `DRIVERS_LENGTH`. -/
def driversLength : Nat := 256

/-- `DRIVER_MOUNT_UNASSIGNED`. -/
def driverMountUnassigned : Byte := 0

/-- `sizeof(fs_driver)`. -/
def sizeofFsDriver : Nat := 36

/-- The memory and the static table of drivers. -/
structure Fs where
  mem : Mem
  drivers : List Word
  length_drivers : drivers.length = driversLength

/-- The table before the first driver is mounted. -/
def Fs.boot (mem : Mem) : Fs := ⟨mem, List.replicate driversLength 0, List.length_replicate⟩

/-! ## The member `mnt` of `fs_driver` -/

def driverMnt (m : Mem) (driver : Word) : Byte := m driver
def setDriverMnt (m : Mem) (driver : Word) (mnt : Byte) : Mem := m.store8 driver mnt

/-! ## Handles -/

/-- The two kinds of handles, `fs_file` and `fs_dir`. -/
inductive HandleKind
  | file
  | dir
  deriving DecidableEq, Repr

namespace HandleKind

/-- The offset of the member `driver`. -/
def driverOffset : HandleKind → Word
  | file => 280
  | dir => 272

/-- The size of the structure. -/
def size : HandleKind → Nat
  | file => 284
  | dir => 276

/-- The name of the parameter in the functions on handles of this kind. -/
def name : HandleKind → String
  | file => "file"
  | dir => "dir"

end HandleKind

/-- `handle->driver`. -/
def handleDriver (kind : HandleKind) (m : Mem) (handle : Word) : Word :=
  m.load32 (handle + kind.driverOffset)

/-- The functions `open` and `opendir` of the drivers: what the driver returns for the path, and
the memory it leaves. -/
abbrev DriverOpen := HandleKind → Word → List Byte → Mem → Word × Mem

/-! ## `fs_mount` -/

/-- `fs_mount`. When the table is full nothing is mounted. -/
def fsMount (fs : Fs) (driver : Word) (mnt : Byte) : Fs :=
  match fs.drivers.findIdx? (· = 0) with
  | none => fs
  | some i =>
    { mem := setDriverMnt fs.mem driver mnt
      drivers := fs.drivers.set i driver
      length_drivers := by rw [List.length_set, fs.length_drivers] }

/-- Calls of `fs_mount`, one after the other. -/
def mountAll (fs : Fs) (mounts : List (Word × Byte)) : Fs :=
  mounts.foldl (fun fs e => fsMount fs e.1 e.2) fs

/-! ## `fs_open` and `fs_opendir` -/

namespace Fs

/-- Code of the layer. -/
abbrev Action := Logged Fs Halt Access

/-- `driver->mnt`. -/
def readMnt (driver : Word) : Action Byte := do
  .emit ⟨driver, 0, false⟩
  .read fun fs => driverMnt fs.mem driver

/-- `driver->open(path)` or `driver->opendir(path)`. -/
def callOpen (code : DriverOpen) (kind : HandleKind) (driver : Word) (path : List Byte) :
    Action Word :=
  .call fun fs =>
    let (handle, mem) := code kind driver path fs.mem
    .ok (handle, { fs with mem })

/-- `handle->driver = driver`. -/
def setHandleDriver (kind : HandleKind) (handle driver : Word) : Action Unit := do
  .emit ⟨handle, kind.driverOffset, true⟩
  .modify fun fs => { fs with mem := fs.mem.store32 (handle + kind.driverOffset) driver }

/-- The loop over the table. -/
def openLoop (code : DriverOpen) (kind : HandleKind) (path : List Byte) : List Word → Action Word
  | [] => return 0
  | driver :: drivers =>
    if driver = 0 then
      return 0
    else do
      let mnt ← readMnt driver
      if mnt ≠ path.getD 0 0 then
        openLoop code kind path drivers
      else do
        let handle ← callOpen code kind driver (path.drop 2)
        setHandleDriver kind handle driver
        return handle

/-- The path starts with a slash, a letter and a slash. -/
def IsMountPath (path : List Byte) : Prop :=
  path.getD 0 0 = ascii '/' ∧ path.getD 2 0 = ascii '/'

instance (path : List Byte) : Decidable (IsMountPath path) := inferInstanceAs (Decidable (_ ∧ _))

/-- What `fs_open` and `fs_opendir` have in common. -/
def openHandle (code : DriverOpen) (kind : HandleKind) (path : List Byte) : Action Word :=
  if IsMountPath path then do
    let drivers ← .read Fs.drivers
    openLoop code kind (path.drop 1) drivers
  else
    return 0

/-- `fs_open`. -/
def fsOpen (code : DriverOpen) (path : List Byte) : Action Word := openHandle code .file path

/-- `fs_opendir`. -/
def fsOpendir (code : DriverOpen) (path : List Byte) : Action Word := openHandle code .dir path

end Fs

/-! ## The functions on handles -/

/-- What the functions on handles have in common: the assertions, and the call of the function of
the driver. -/
def dispatch (kind : HandleKind) (call : Word → Mem → Mem) (m : Mem) (handle : Word) :
    Except Halt Mem := do
  assert (handle != 0) kind.name
  assert (handleDriver kind m handle != 0) (kind.name ++ "->driver")
  assert (driverMnt m (handleDriver kind m handle) != driverMountUnassigned)
    (kind.name ++ "->driver->mnt != DRIVER_MOUNT_UNASSIGNED")
  return call (handleDriver kind m handle) m

/-- `fs_close`. -/
def fsClose (close : Word → Word → Mem → Mem) (m : Mem) (file : Word) : Except Halt Mem :=
  dispatch .file (fun driver => close driver file) m file

/-- `fs_read`. -/
def fsRead (read : Word → Word → Word → Word → Mem → Mem) (m : Mem) (file buffer len : Word) :
    Except Halt Mem :=
  dispatch .file (fun driver => read driver file buffer len) m file

/-- `fs_write`. -/
def fsWrite (write : Word → Word → Word → Word → Mem → Mem) (m : Mem) (file buffer len : Word) :
    Except Halt Mem :=
  dispatch .file (fun driver => write driver file buffer len) m file

/-- `fs_seek`. -/
def fsSeek (seek : Word → Word → Word → Mem → Mem) (m : Mem) (file offset : Word) :
    Except Halt Mem :=
  dispatch .file (fun driver => seek driver file offset) m file

/-- `fs_closedir`. -/
def fsClosedir (closedir : Word → Word → Mem → Mem) (m : Mem) (dir : Word) : Except Halt Mem :=
  dispatch .dir (fun driver => closedir driver dir) m dir

/-- `fs_readdir`. -/
def fsReaddir (readdir : Word → Word → Word → Word → Mem → Mem) (m : Mem)
    (dir entries len : Word) : Except Halt Mem :=
  dispatch .dir (fun driver => readdir driver dir entries len) m dir

end Hjortron
