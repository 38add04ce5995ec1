import Hjortron.Boot.ReadFile

/-!
# `find_file` of `boot/src/boot.s`

The boot sector searches the root directory one sector at a time. The name is taken not to lie in
`BUFFER`, the direction flag to be clear, and `read16` to load the sector and to keep the
registers.
-/

namespace Hjortron

/-- `BUFFER`. -/
def bootBuffer : Half := 0x7E00

/-- `BUFFER_MAX`. -/
def bootBufferMax : Half := bootBuffer + 0x200

/-- `FAT_ENTRY_SIZE`. -/
def fatEntrySize : Half := 0x20

/-- The registers of `find_file`, the bytes from `BUFFER` on, and the sectors that it has read. -/
structure FindState where
  ax : Half
  bx : Half
  di : Half
  buffer : Nat → Byte
  reads : List Half

/-- Where `find_file` goes: to its caller, with `ax` and `di`, or to `error` with a message. -/
inductive FindResult
  | ret (ax di : Half)
  | error (message : String)
  deriving DecidableEq, Repr

/-- `repe cmpsb` for `cx` bytes from index `k` on, up to the zero flag. -/
def repeCmpsb (source destination : Nat → Byte) : Nat → Nat → Bool
  | 0, _ => true
  | cx + 1, k => if source k = destination k then repeCmpsb source destination cx (k + 1) else false

/-- The offset of `di` in the buffer. -/
def FindState.offset (s : FindState) : Half := s.di - bootBuffer

/-- Reads the next sector of the root directory if `di` is beyond the buffer. -/
def findFileSector (bpb : BiosParameterBlock) (disk : Disk) (s : FindState) : FindState :=
  if s.di < bootBufferMax then
    s
  else
    let si := bpb.reservedSectors
    let si := si + bpb.sectorsPerFat
    let si := si + bpb.sectorsPerFat
    let si := si + s.bx
    { s with
      buffer := ataRead disk (si.setWidth 32) 1 s.buffer
      reads := s.reads ++ [si]
      di := bootBuffer
      bx := s.bx + 1 }

/-- `.loop`, with a bound on the number of iterations. -/
def findFileLoop (bpb : BiosParameterBlock) (disk : Disk) (name : Nat → Byte) :
    Nat → FindState → Except Halt (FindResult × List Half)
  | 0, _ => .error .diverges
  | fuel + 1, s =>
    let s := findFileSector bpb disk s
    if repeCmpsb name (fun k => s.buffer (s.offset.toNat + k)) 11 0 then
      .ok (.ret (bufferWord s.buffer (s.offset + 0x1A)) s.di, s.reads)
    else
      let s := { s with di := s.di + fatEntrySize, ax := s.ax - 1 }
      if s.ax ≠ 0 then
        findFileLoop bpb disk name fuel s
      else
        .ok (.error "find file.", s.reads)

/-- `find_file` of the name at `si`, with the sectors that it reads. The loop counts `ax` down, so
that it ends after at most `2 ^ 16` iterations. -/
def findFile (bpb : BiosParameterBlock) (disk : Disk) (buffer name : Nat → Byte) :
    Except Halt (FindResult × List Half) :=
  findFileLoop bpb disk name (2 ^ 16)
    { ax := bpb.directoryEntries, di := bootBufferMax, bx := 0, buffer, reads := [] }

end Hjortron
