import Hjortron.Memory.Malloc

/-!
# `kernel/src/execution/elf.c`

The file is read into a heap block, and all of its tables are read through pointers into that
block, each time from the memory as it is then. The names of sections, which only messages show,
are left out, and so are program headers, which nothing reads.

`fs_read` is a parameter: it is given the heap, the destination and the number of bytes.
-/

namespace Hjortron

/-! ## The members of the file structures -/

section Members

variable (m : Mem) (ptr : Word)

/-- `e_ident[i]`. -/
def eIdent (i : Word) : Byte := m (ptr + i)
def eType : Half := m.load16 (ptr + 16)
def eMachine : Half := m.load16 (ptr + 18)
def eEntry : Word := m.load32 (ptr + 24)
def eShoff : Word := m.load32 (ptr + 32)
def eShnum : Half := m.load16 (ptr + 48)

def shType : Word := m.load32 (ptr + 4)
def shFlags : Word := m.load32 (ptr + 8)
def shAddr : Word := m.load32 (ptr + 12)
def shOffset : Word := m.load32 (ptr + 16)
def shSize : Word := m.load32 (ptr + 20)
def shLink : Word := m.load32 (ptr + 24)
def shInfo : Word := m.load32 (ptr + 28)
def shEntsize : Word := m.load32 (ptr + 36)

def rOffset : Word := m.load32 ptr
def rInfo : Word := m.load32 (ptr + 4)

def stValue : Word := m.load32 (ptr + 4)
def stShndx : Half := m.load16 (ptr + 14)

end Members

/-- `SHT_PROGBITS`. -/
def shtProgbits : Word := 0x1

/-- `SHT_NOBITS`. -/
def shtNobits : Word := 0x8

/-- `SHT_REL`. -/
def shtRel : Word := 0x9

/-- `SHF_ALLOC`. -/
def shfAlloc : Word := 0x2

/-- `SHN_UNDEF`. -/
def shnUndef : Half := 0x0

/-- `SHN_ABS`. -/
def shnAbs : Half := 0xFFF1

/-- `RELT_386_NONE`. -/
def relt386None : Byte := 0x0

/-- `RELT_386_32`. -/
def relt38632 : Byte := 0x1

/-- `RELT_386_PC32`. -/
def relt386Pc32 : Byte := 0x2

/-- `sh->sh_flags & SHF_ALLOC`. -/
def shAlloc (m : Mem) (sh : Word) : Bool := shFlags m sh &&& shfAlloc ≠ 0

/-! ## Finding and relocating -/

/-- The tests of `elf_check_file` on the header itself. -/
def elfIsFile (m : Mem) (header : Word) : Bool :=
  eIdent m header 0 = 0x7F && eIdent m header 1 = 0x45 && eIdent m header 2 = 0x4C &&
    eIdent m header 3 = 0x46

/-- `elf_check_file`. -/
def elfCheckFile (m : Mem) (header : Word) : Bool :=
  header ≠ 0 && elfIsFile m header

/-- The tests of `elf_check_support` on the header itself. -/
def elfIsSupported (m : Mem) (header : Word) : Bool :=
  eIdent m header 4 = 0x1 && eIdent m header 5 = 0x1 && eIdent m header 6 = 0x1 &&
    eMachine m header = 0x3 && eType m header = 0x1

/-- `elf_check_support`. -/
def elfCheckSupport (m : Mem) (header : Word) : Bool :=
  header ≠ 0 && elfIsSupported m header

/-- `elf_find_sh`. -/
def elfFindSh (m : Mem) (header idx : Word) : Word := header + eShoff m header + 40 * idx

/-- `elf_find_sym`, with 0 for NULL. -/
def elfFindSym (m : Mem) (header shIdx symIdx : Word) : Word :=
  let sh := elfFindSh m header shIdx
  let sym := header + shOffset m sh + symIdx * 16
  if stShndx m sym = shnUndef then 0 else sym

/-- `elf_rel_sym`, with `none` for `false`. -/
def elfRelSym (m : Mem) (type : Byte) (target value : Word) : Option Mem :=
  if type = relt386None then
    some m
  else if type = relt38632 then
    some (m.store32 target (m.load32 target + value))
  else if type = relt386Pc32 then
    some (m.store32 target (m.load32 target + (value - target)))
  else
    none

/-! ## The loops of `elf_read` -/

/-- The loop that computes the length of the buffer, from section `i` on. A 16-bit count ends
it after at most `2 ^ 16` iterations. -/
def imageLengthLoop (m : Mem) (header : Word) : Nat → Nat → Word → Word
  | 0, _, len => len
  | fuel + 1, i, len =>
    if i < (eShnum m header).toNat then
      let sh := elfFindSh m header (BitVec.ofNat 32 i)
      let len :=
        if !shAlloc m sh then len
        else if len < shAddr m sh + shSize m sh then shAddr m sh + shSize m sh
        else len
      imageLengthLoop m header fuel (i + 1) len
    else len

/-- The loop that copies the sections, from section `i` on. -/
def copyLoop (header fileBuffer relocBuffer : Word) : Nat → Nat → Mem → Mem
  | 0, _, m => m
  | fuel + 1, i, m =>
    if i < (eShnum m header).toNat then
      let sh := elfFindSh m header (BitVec.ofNat 32 i)
      let m :=
        if !shAlloc m sh || shType m sh ≠ shtProgbits then m
        else memcpy m (relocBuffer + shAddr m sh) (fileBuffer + shOffset m sh) (shSize m sh)
      copyLoop header fileBuffer relocBuffer fuel (i + 1) m
    else m

/-- The body of the inner relocation loop for the relocation at `rel` of the section header
`sh`; `false` when it ends the function. -/
def relocateEntry (header relocBuffer sh infoSh rel : Word) (m : Mem) : Mem × Bool :=
  let type : Byte := (rInfo m rel).setWidth 8
  let offset := rInfo m rel >>> 8
  if type = 0 ∨ offset = 0 then
    (m, true)
  else
    let sym := elfFindSym m header (shLink m sh) offset
    if sym = 0 then
      (m, false)
    else
      let value :=
        if stShndx m sym = shnAbs then stValue m sym
        else relocBuffer + stValue m sym +
          shAddr m (elfFindSh m header ((stShndx m sym).setWidth 32))
      let target := relocBuffer + (shAddr m infoSh + rOffset m rel)
      match elfRelSym m type target value with
      | none => (m, false)
      | some m => (m, true)

/-- The inner relocation loop, from relocation `j` on. -/
def relocateEntries (header relocBuffer sh infoSh rels : Word) :
    Nat → Nat → Mem → Except Halt (Mem × Bool)
  | 0, _, _ => .error .diverges
  | fuel + 1, j, m =>
    if shEntsize m sh = 0 then
      .error .divideError
    else if j < (shSize m sh / shEntsize m sh).toNat then
      match relocateEntry header relocBuffer sh infoSh (rels + 8 * BitVec.ofNat 32 j) m with
      | (m, false) => .ok (m, false)
      | (m, true) => relocateEntries header relocBuffer sh infoSh rels fuel (j + 1) m
    else
      .ok (m, true)

/-- The outer relocation loop, from section `i` on; `false` when the function returns from
inside it. -/
def relocateLoop (header fileBuffer relocBuffer : Word) :
    Nat → Nat → Mem → Except Halt (Mem × Bool)
  | 0, _, m => .ok (m, true)
  | fuel + 1, i, m =>
    if i < (eShnum m header).toNat then
      let sh := elfFindSh m header (BitVec.ofNat 32 i)
      let infoSh := elfFindSh m header (shInfo m sh)
      if shType m sh ≠ shtRel then
        relocateLoop header fileBuffer relocBuffer fuel (i + 1) m
      else do
        let rels := fileBuffer + shOffset m sh
        let (m, relocated) ← relocateEntries header relocBuffer sh infoSh rels (2 ^ 32) 0 m
        if relocated then
          relocateLoop header fileBuffer relocBuffer fuel (i + 1) m
        else
          return (m, false)
    else
      .ok (m, true)

/-- `memset` (`kernel/src/string.c`). -/
def memset (m : Mem) (s : Word) (c : Byte) (len : Word) : Mem := m.fill s c len.toNat

/-- `elf_read` of a file of `len` bytes. The result holds `*buffer` and `*entry`, which are
`buffer` and `entry` before the call. -/
def elfRead (fsRead : Heap → Word → Word → Except Halt Heap) (heap : Heap) (len : Word)
    (buffer entry : Word) : Except Halt (Heap × Word × Word) := do
  let (fileBuffer, heap) ← malloc heap len
  let heap ← fsRead heap fileBuffer len
  let header := fileBuffer
  assert (elfCheckFile heap.mem header) "elf_check_file(header)"
  assert (elfCheckSupport heap.mem header) "elf_check_support(header)"
  let len := imageLengthLoop heap.mem header (2 ^ 16) 0 0
  let (relocBuffer, heap) ← malloc heap len
  let mem := memset heap.mem relocBuffer 0 len
  let mem := copyLoop header fileBuffer relocBuffer (2 ^ 16) 0 mem
  let (mem, relocated) ← relocateLoop header fileBuffer relocBuffer (2 ^ 16) 0 mem
  let heap ← free { heap with mem } fileBuffer
  if relocated then
    -- the entry point is read from the block that has just been freed
    return (heap, relocBuffer, eEntry heap.mem header)
  else
    return (heap, buffer, entry)

end Hjortron
