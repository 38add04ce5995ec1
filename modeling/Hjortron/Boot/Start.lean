import Hjortron.Boot.FindFile
import Hjortron.Boot.LoadFile
import Hjortron.Boot.Read16

/-!
# `start` of `boot/src/boot.s`

`start` stores the boot drive and its geometry in the boot sector, finds and loads `INIT.BIN` and
`KERNEL.BIN` and jumps to the first of them. Its state is linear memory, with the boot sector and
its variables at `0x7C00`, and the calls of `read16` made so far; a sector of the root directory
goes to `BUFFER` like one of the FAT. What is pushed on the stack, below the boot sector, is left
out.
-/

namespace Hjortron

/-- `FILE_INIT_BIN`. -/
def fileInitBin (k : Nat) : Byte := ("INIT    BIN".toList.map ascii).getD k 0

/-- `FILE_KERNEL_BIN`. -/
def fileKernelBin (k : Nat) : Byte := ("KERNEL  BIN".toList.map ascii).getD k 0

/-- `INIT_SEGMENT`. -/
def initSegment : Half := 0x1000

/-- A little-endian word in linear memory. -/
def bootWord (mem : Nat → Byte) (a : Nat) : Half := mem (a + 1) ++ mem a

/-- `mov word [a], v`. -/
def storeBootWord (mem : Nat → Byte) (a : Nat) (v : Half) : Nat → Byte :=
  Function.update (Function.update mem a (v.extractLsb' 0 8)) (a + 1) (v.extractLsb' 8 8)

/-- The fields of the boot sector that the loader reads as the BIOS parameter block. -/
def bootBpb (mem : Nat → Byte) : BiosParameterBlock where
  bytesPerSector := bootWord mem 0x7C0B
  sectorsPerCluster := mem 0x7C0D
  reservedSectors := bootWord mem 0x7C0E
  fats := mem 0x7C10
  directoryEntries := bootWord mem 0x7C11
  sectorsPerFat := bootWord mem 0x7C16

/-- `SECTORS_PER_TRACK` and `HEADS_PER_CYLINDER` in the boot sector. -/
def bootGeometry (mem : Nat → Byte) : BootGeometry where
  sectorsPerTrack := bootWord mem 0x7C18
  headsPerCylinder := bootWord mem 0x7C1A

/-- The addresses of the variables behind the code of the boot sector. -/
structure BootVariables where
  bootDrive : Nat
  cluster : Nat

/-- The memory and the calls of `read16`. -/
structure Loader where
  mem : Nat → Byte
  reads : List BootRead

namespace Loader

/-- The bytes from `BUFFER` on. -/
def buffer (s : Loader) (k : Nat) : Byte := s.mem (0x7E00 + k)

/-- The state after calls of `read16`. -/
def call (disk : Disk) (s : Loader) (reads : List BootRead) : Loader :=
  ⟨bootMemory disk s.mem reads, s.reads ++ reads⟩

/-- `mov word [cluster], dx`. -/
def setCluster (vars : BootVariables) (s : Loader) (c : Half) : Loader :=
  { s with mem := storeBootWord s.mem vars.cluster c }

end Loader

/-- `find_file` and `read_file` of a name, with the message if the first goes to `error`. The
variable `cluster` is left as the loop of `read_file` leaves it. -/
def loadNamed (vars : BootVariables) (disk : Disk) (fuel : Nat) (name : Nat → Byte)
    (es bx : Half) (s : Loader) : Except Halt (Option String × Loader) := do
  let bpb := bootBpb s.mem
  let (result, sectors) ← findFile bpb disk s.buffer name
  let s := s.call disk (sectors.map .fat)
  match result with
  | .error message => return (some message, s)
  | .ret ax _ =>
    let file ← readFile bpb disk s.buffer fuel es bx ax
    return (none, (s.call disk file.reads).setCluster vars file.cluster)

/-- The memory at `.load`, booted from drive `dl` with these drive parameters. -/
def startVariables (vars : BootVariables) (dl : Byte) (r : DriveParameters) (mem : Nat → Byte) :
    Nat → Byte :=
  let mem := Function.update mem vars.bootDrive dl
  if dl &&& 0x80 = 0 then
    mem
  else
    let dh := r.dh + 1
    let mem := Function.update mem 0x7C1A dh
    Function.update mem 0x7C18 r.cl

/-- `start`, up to the jump to `INIT_SEGMENT` or to `error` with a message. -/
def bootStart (vars : BootVariables) (disk : Disk) (fuel : Nat) (dl : Byte) (r : DriveParameters)
    (mem : Nat → Byte) : Except Halt (Option String × Loader) := do
  let s : Loader := ⟨startVariables vars dl r mem, []⟩
  let (error, s) ← loadNamed vars disk fuel fileInitBin 0 initSegment s
  match error with
  | some message => return (some message, s)
  | none => loadNamed vars disk fuel fileKernelBin 0x1000 0 s

end Hjortron
