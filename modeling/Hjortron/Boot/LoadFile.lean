import Hjortron.Boot.ReadFile

/-!
# Memory under `read_file`

`read16` is taken to store the requested sectors one after the other at the linear address of
`es:bx`. The memory after `read_file` is what its calls of `read16` make of the memory before.
-/

namespace Hjortron

/-- The linear address of `segment:offset`. -/
def linear (segment offset : Half) : Nat := segment.toNat * 16 + offset.toNat

/-- `count` sectors from `lba` on are stored at `base`. -/
def storeSectors (disk : Disk) (lba : Half) (count base : Nat) (mem : Nat → Byte) : Nat → Byte :=
  fun a =>
    if base ≤ a then ataRead disk (lba.setWidth 32) count (fun k => mem (base + k)) (a - base)
    else mem a

/-- The memory after a call of `read16`; the sector of the FAT goes to `BUFFER`. -/
def BootRead.store (disk : Disk) (mem : Nat → Byte) : BootRead → Nat → Byte
  | .cluster es bx lba count => storeSectors disk lba count.toNat (linear es bx) mem
  | .fat lba => storeSectors disk lba 1 0x7E00 mem

/-- The memory after calls of `read16`. -/
def bootMemory (disk : Disk) (mem : Nat → Byte) (reads : List BootRead) : Nat → Byte :=
  reads.foldl (BootRead.store disk) mem

end Hjortron
