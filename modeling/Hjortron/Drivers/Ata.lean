import Hjortron.Misc.AtaDevice
import Hjortron.Misc.Run

/-!
# `ata_read` of `kernel/src/drivers/ata.c`

The driver talks to the device port by port. Loops that wait for the device have a number of
iterations left, and `none` stands for a call that does not return within it. The message of
`info` is left out.
-/

namespace Hjortron

/-- `ata_wait`. -/
def ataWait (bus : Half) (d : AtaDevice) : AtaDevice :=
  (List.range 4).foldl (fun d _ => (d.inb (bus + 0xC)).2) d

/-- Waits until the BSY bit is cleared. -/
def ataPollBusy (bus : Half) : Nat → AtaDevice → Option AtaDevice
  | 0, _ => none
  | fuel + 1, d =>
    let (status, d) := d.inb (bus + 0x7)
    if status &&& 0x80 ≠ 0 then ataPollBusy bus fuel d else some d

/-- Waits until the DRQ bit is set. -/
def ataPollRequest (bus : Half) : Nat → AtaDevice → Option AtaDevice
  | 0, _ => none
  | fuel + 1, d =>
    let (status, d) := d.inb (bus + 0x7)
    if status &&& 0x8 = 0 then ataPollRequest bus fuel d else some d

/-- `ata_poll`. -/
def ataPoll (bus : Half) (fuel : Nat) (d : AtaDevice) : Option AtaDevice := do
  let d ← ataPollBusy bus fuel d
  ataPollRequest bus fuel d

/-- `buffer[i * 256 + j] = inw(bus)`. -/
def ataReadWord (buffer : Word) (bus : Half) (i : Nat) (s : AtaDevice × Mem) (j : Nat) :
    AtaDevice × Mem :=
  let (data, d) := s.1.inw bus
  (d, s.2.store16 (buffer + BitVec.ofNat 32 (2 * (i * 256 + j))) data)

/-- The body of the loop of `ata_read`. -/
def ataReadSector (buffer : Word) (bus : Half) (fuel : Nat) (s : AtaDevice × Mem) (i : Nat) :
    Option (AtaDevice × Mem) := do
  let d ← ataPoll bus fuel (ataWait bus s.1)
  return (List.range 256).foldl (ataReadWord buffer bus i) (d, s.2)

/-- The registers that `ata_read` writes before its loop. -/
def ataCommand (bus : Half) (lba sectorCount : Word) (d : AtaDevice) : AtaDevice :=
  let d := d.outb (bus + 0x6) ((0xE0 : Byte) ||| (lba >>> 24 &&& 0x0F).setWidth 8)
  let d := d.outb (bus + 0x1) 0
  let d := d.outb (bus + 0x2) (sectorCount.setWidth 8)
  let d := d.outb (bus + 0x3) (lba.setWidth 8)
  let d := d.outb (bus + 0x4) ((lba >>> 8).setWidth 8)
  let d := d.outb (bus + 0x5) ((lba >>> 16).setWidth 8)
  d.outb (bus + 0x7) 0x20

/-- `ata_read`. -/
def ataReadPorts (fuel : Nat) (buffer : Word) (bus : Half) (lba sectorCount : Word)
    (d : AtaDevice) (m : Mem) : Option (AtaDevice × Mem) :=
  (List.range sectorCount.toNat).foldlM (ataReadSector buffer bus fuel)
    (ataCommand bus lba sectorCount d, m)

end Hjortron
