import Hjortron.Filesystem.Driver
import Hjortron.Filesystem.Fs
import Hjortron.Memory.Proofs.HeapRun

/-!
# The driver behind the generic layer

`fat12_init` makes the driver structure, and `kernel_main` mounts it at the letter `H`. From then on
the functions of `Hjortron.Filesystem.Fs` call those of `Hjortron.Filesystem.Driver` on the heap
that everyone shares.
-/

namespace Hjortron

namespace Driver

/-! ## `fat12_init` -/

/-- The addresses of the functions of the driver. -/
structure Functions where
  fat12Open : Word
  fat12Opendir : Word
  fat12Close : Word
  fat12Closedir : Word
  fat12Read : Word
  fat12Readdir : Word
  fat12Write : Word
  fat12Seek : Word
  deriving DecidableEq, Repr

/-- The assignments to a new driver structure. -/
def storeDriver (functions : Functions) (m : Mem) (driver : Word) : Mem :=
  let m := setDriverMnt m driver driverMountUnassigned
  let m := m.store32 (driver + 4) functions.fat12Open
  let m := m.store32 (driver + 8) functions.fat12Opendir
  let m := m.store32 (driver + 12) functions.fat12Close
  let m := m.store32 (driver + 16) functions.fat12Closedir
  let m := m.store32 (driver + 20) functions.fat12Read
  let m := m.store32 (driver + 24) functions.fat12Readdir
  let m := m.store32 (driver + 28) functions.fat12Write
  m.store32 (driver + 32) functions.fat12Seek

/-- `fat12_init` after the offsets, which are those of `Hjortron.fat12Init`. -/
def fat12Init (functions : Functions) : Action Word := do
  let driver ← malloc (BitVec.ofNat 32 sizeofFsDriver)
  write fun m => storeDriver functions m driver
  return driver

end Driver

/-! ## Clients of the file system -/

/-- The heap with the blocks that clients hold, the table of drivers, and the handles of the open
files. -/
structure FsSession extends HeapSession where
  drivers : List Word
  length_drivers : drivers.length = driversLength
  files : List Word

namespace FsSession

/-- Memory and the table of drivers. -/
def fs (s : FsSession) : Fs := ⟨s.heap.mem, s.drivers, s.length_drivers⟩

/-- The session after a call that leaves the memory `mem`. -/
def leave (s : FsSession) (mem : Mem) : FsSession := { s with heap := { s.heap with mem } }

end FsSession

/-- `fat12_init` and `fs_mount` in `kernel_main`. -/
def mountDriver (functions : Driver.Functions) (s : HeapSession) : Except Halt FsSession := do
  let (driver, heap) ← (Driver.fat12Init functions).forget s.heap
  let fs := fsMount (.boot heap.mem) driver (ascii 'H')
  return {
    heap := { heap with mem := fs.mem }
    live := s.live
    drivers := fs.drivers
    length_drivers := fs.length_drivers
    files := [] }

/-! ## The functions that the generic layer calls -/

namespace Driver

/-- The call returns. -/
def CallReturns {α : Type} (call : Action α) (heap : Heap) : Prop :=
  ∃ a heap', call.forget heap = .ok (a, heap')

/-- The memory that a call leaves, where it returns; `heap` has the static variables. -/
def memAfter (heap : Heap) (call : Action Unit) (m : Mem) : Mem :=
  match call.forget { heap with mem := m } with
  | .ok (_, heap) => heap.mem
  | .error _ => m

/-- `driver->open` and `driver->opendir`, where they return. -/
def driverOpen (directory : Half → Directory) (stack : Nat → Byte) (heap : Heap) : DriverOpen :=
  fun kind _ path m =>
    let call := match kind with
      | .file => fat12Open directory stack path
      | .dir => fat12Opendir directory path
    match call.forget { heap with mem := m } with
    | .ok (handle, heap) => (handle.getD 0, heap.mem)
    | .error _ => (0, m)

/-- `driver->read`. -/
def driverRead (fs : Fat12) (disk : Disk) (readFat : Half → Half) (heap : Heap)
    (_driver file buffer len : Word) : Mem → Mem :=
  memAfter heap (fat12Read fs disk readFat file buffer len)

/-- `driver->seek`. -/
def driverSeek (heap : Heap) (_driver file offset : Word) : Mem → Mem :=
  memAfter heap (fat12Seek file offset)

/-- `driver->close`. -/
def driverClose (heap : Heap) (_driver file : Word) : Mem → Mem := memAfter heap (fat12Close file)

end Driver

end Hjortron
