import Hjortron.Assert
import Hjortron.Filesystem.Fat12

/-!
# `read_file` of `boot/src/boot.s`

The boot sector loads a file in 16-bit registers. Its state is the variable `cluster`, the
destination `es:bx`, the bytes from `BUFFER` on, and the calls of `read16` made so far, one
constructor for each of the two call sites. The destination is taken not to overlap the boot
sector and `BUFFER`. A division whose quotient does not fit in 16 bits raises an exception.
-/

namespace Hjortron

/-- `mul`: the product of `ax` and the operand in `dx:ax`. -/
def mul16 (ax operand : Half) : Word := ax.setWidth 32 * operand.setWidth 32

/-- `div`: quotient and remainder of `dx:ax` by the operand. -/
def div16 (dxax : Word) (operand : Half) : Except Halt (Half × Half) :=
  if operand = 0 then
    .error .divideError
  else if 2 ^ 16 ≤ (dxax / operand.setWidth 32).toNat then
    .error .divideError
  else
    .ok ((dxax / operand.setWidth 32).setWidth 16, (dxax % operand.setWidth 32).setWidth 16)

/-- The calls of `read16` in `read_file`. -/
inductive BootRead
  | cluster (es bx lba : Half) (count : Byte)
  | fat (lba : Half)
  deriving DecidableEq, Repr

/-- The variables of `read_file`. -/
structure BootState where
  cluster : Half
  es : Half
  bx : Half
  buffer : Nat → Byte
  reads : List BootRead

/-- `word [BUFFER + offset]`. -/
def bufferWord (buffer : Nat → Byte) (offset : Half) : Half :=
  buffer (offset.toNat + 1) ++ buffer offset.toNat

/-- The body of `.loop`, from a cluster to its successor. -/
def readFileCluster (bpb : BiosParameterBlock) (disk : Disk) (s : BootState) :
    Except Halt BootState := do
  -- multiply cluster and sectors per cluster
  let ax := s.cluster - 2
  let cx := bpb.sectorsPerCluster.setWidth 16
  let ax := (mul16 ax cx).setWidth 16
  -- add offset of reserved sectors and FATs
  let ax := ax + bpb.reservedSectors
  let ax := ax + bpb.sectorsPerFat
  let ax := ax + bpb.sectorsPerFat
  let si := ax
  -- root entries
  let (ax, _) ← div16 (mul16 bpb.directoryEntries 0x20) bpb.bytesPerSector
  let si := si + ax
  let reads := s.reads ++ [.cluster s.es s.bx si bpb.sectorsPerCluster]
  -- increment destination
  let ax := (mul16 bpb.bytesPerSector (bpb.sectorsPerCluster.setWidth 16)).setWidth 16
  let bx := s.bx + ax
  -- multiply current cluster with 1.5
  let ax := s.cluster
  let cx := ax + ax >>> 1
  let (quotient, remainder) ← div16 (cx.setWidth 32) bpb.bytesPerSector
  -- load sector of FAT1 into the buffer
  let si := bpb.reservedSectors + quotient
  let reads := reads ++ [.fat si]
  let buffer := ataRead disk (si.setWidth 32) 1 s.buffer
  let dx := bufferWord buffer remainder
  let dx := if ax &&& 1 = 0 then dx &&& 0xFFF else dx >>> 4
  return { cluster := dx, es := s.es, bx, buffer, reads }

/-- `.loop`, with a bound on the number of iterations. -/
def readFileLoop (bpb : BiosParameterBlock) (disk : Disk) : Nat → BootState → Except Halt BootState
  | 0, _ => .error .diverges
  | fuel + 1, s => do
    let s ← readFileCluster bpb disk s
    if s.cluster < 0xFF0 then readFileLoop bpb disk fuel s else return s

/-- `read_file` with the destination `es:bx` and the start cluster in `ax`; `buffer` are the bytes
from `BUFFER` on. -/
def readFile (bpb : BiosParameterBlock) (disk : Disk) (buffer : Nat → Byte) (fuel : Nat)
    (es bx ax : Half) : Except Halt BootState :=
  readFileLoop bpb disk fuel { cluster := ax, es, bx, buffer, reads := [] }

end Hjortron
