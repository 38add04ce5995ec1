import Hjortron.Memory.Malloc

/-!
# `read_e820` of `boot/src/init16.s`

`init16` asks the BIOS for the memory map, one entry at a time, and leaves it at `mmap_entries` with
the number of entries in `mmap_count`. The two variables are the `memory_map` in the `boot_info`
that `init32` hands to the kernel.
-/

namespace Hjortron

/-- What `int 0x15` returns for `eax = 0xE820`, and what it stores at `es:di`. -/
structure E820Reply where
  carry : Bool
  eax : Word
  ebx : Word
  bytes : List Byte
  deriving DecidableEq, Repr

/-- The replies of the BIOS, by `ebx`. -/
abbrev E820Bios := Word → E820Reply

/-- `SMAP`. -/
def smap : Word := 0x534D4150

/-- `.loop`, with a bound on the number of iterations; no count when it goes to `.error`. -/
def readE820Loop (bios : E820Bios) : Nat → Word → Half → Half → Mem →
    Except Halt (Option Half × Mem)
  | 0, _, _, _, _ => .error .diverges
  | fuel + 1, ebx, bp, di, mem =>
    let reply := bios ebx
    let mem := mem.blit (di.setWidth 32) (fun k => reply.bytes.getD k 0) reply.bytes.length
    if reply.carry then
      .ok (none, mem)
    else if reply.eax ≠ smap then
      .ok (none, mem)
    else
      let bp := bp + 1
      if reply.ebx = 0 then
        .ok (some bp, mem)
      else
        readE820Loop bios fuel reply.ebx bp (di + 24) mem

/-- `memory_map->len`. -/
def memoryMapLen (m : Mem) (mmap : Word) : Word := m.load32 mmap

/-- `memory_map->entries`. -/
def memoryMapEntries (m : Mem) (mmap : Word) : Word := m.load32 (mmap + 4)

/-- `read_e820` with the two variables at `mmap`. `false` when it goes to `error` with
`ERROR_E820`. -/
def readE820 (bios : E820Bios) (mmap : Word) (fuel : Nat) (mem : Mem) :
    Except Halt (Bool × Mem) := do
  let di := (memoryMapEntries mem mmap).setWidth 16
  let (count, mem) ← readE820Loop bios fuel 0 0 di mem
  match count with
  | none => return (false, mem)
  | some bp => return (true, mem.store16 mmap bp)

/-- The members of a `memory_map_entry` at their offsets. -/
def parseMapEntry (byte : Nat → Byte) : MemoryMapEntry where
  base := byte 7 ++ byte 6 ++ byte 5 ++ byte 4 ++ byte 3 ++ byte 2 ++ byte 1 ++ byte 0
  len := byte 15 ++ byte 14 ++ byte 13 ++ byte 12 ++ byte 11 ++ byte 10 ++ byte 9 ++ byte 8
  type := byte 19 ++ byte 18 ++ byte 17 ++ byte 16

/-- `*entry`. -/
def mapEntryAt (m : Mem) (entry : Word) : MemoryMapEntry :=
  parseMapEntry fun j => m (entry + BitVec.ofNat 32 j)

/-- The map that the kernel finds, `mmap->entries[i]` for every `i < mmap->len`. -/
def memoryMapAt (m : Mem) (mmap : Word) : List MemoryMapEntry :=
  (List.range (memoryMapLen m mmap).toNat).map fun i =>
    mapEntryAt m (memoryMapEntries m mmap + BitVec.ofNat 32 (24 * i))

end Hjortron
