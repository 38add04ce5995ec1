import Hjortron.Boot.ReadFile

/-!
# `read16` and the drive parameters of `boot/src/boot.s`

`start` asks the BIOS for the geometry of a hard disk and stores it in the BIOS parameter block.
`read16` divides a sector number by it and passes cylinder, head and sector to `int 0x13`. The
destination `es:bx` passes through both unchanged and is left out.
-/

namespace Hjortron

/-- The registers that `int 0x13` returns for `ah = 0x8`. -/
structure DriveParameters where
  ch : Byte
  cl : Byte
  dh : Byte
  deriving DecidableEq, Repr

/-- `SECTORS_PER_TRACK` and `HEADS_PER_CYLINDER`. -/
structure BootGeometry where
  sectorsPerTrack : Half
  headsPerCylinder : Half
  deriving DecidableEq, Repr

/-- `mov byte` to a word in memory, which is little-endian. -/
def setLowByte (w : Half) (b : Byte) : Half := w.extractLsb' 8 8 ++ b

/-- The geometry after `start`, booted from drive `dl`. -/
def startGeometry (bpb : BootGeometry) (dl : Byte) (r : DriveParameters) : BootGeometry :=
  if dl &&& 0x80 = 0 then
    bpb
  else
    let dh := r.dh + 1
    { headsPerCylinder := setLowByte bpb.headsPerCylinder dh
      sectorsPerTrack := setLowByte bpb.sectorsPerTrack r.cl }

/-- The registers of `int 0x13`. -/
structure Int13 where
  ah : Byte
  al : Byte
  ch : Byte
  cl : Byte
  dh : Byte
  dl : Byte
  deriving DecidableEq, Repr

/-- The call of `int 0x13` in `read16`, for `al` sectors from `si` on. -/
def read16 (geometry : BootGeometry) (bootDrive al : Byte) (si : Half) : Except Halt Int13 := do
  let ax := si
  -- C = (LBA / Sectors) / Heads
  -- H = (LBA / Sectors) % Heads
  -- S = (LBA % Sectors) + 1
  let (ax, dx) ← div16 (ax.setWidth 32) geometry.sectorsPerTrack
  let cl := (dx.setWidth 8 : Byte) + 1
  let (ax, dx) ← div16 (ax.setWidth 32) geometry.headsPerCylinder
  let dh := dx.setWidth 8
  let ch := ax.setWidth 8
  let ah : Byte := ax.extractLsb' 8 8 <<< 6
  let cl := cl ||| ah
  return { ah := 0x02, al, ch, cl, dh, dl := bootDrive }

end Hjortron
