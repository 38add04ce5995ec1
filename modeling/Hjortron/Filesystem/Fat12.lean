import Hjortron.Strings

/-!
# `kernel/src/filesystem/fat12.c`

The driver reads a volume through `ata_read`, which delivers whole sectors of 512 bytes. The
static variables are the fields of `Fat12`. A handle is a value here and the caller passes the
memory that its buffer points into; the buffers that the driver allocates for itself are values,
and each function says which blocks it allocated and left live (`DriverBlock`). Messages are
left out.
-/

namespace Hjortron

/-- The fields of `fat12_extended_bios_parameter_block` that the driver reads. -/
structure BiosParameterBlock where
  bytesPerSector : Half
  sectorsPerCluster : Byte
  reservedSectors : Half
  fats : Byte
  directoryEntries : Half
  sectorsPerFat : Half
  deriving DecidableEq, Repr

/-- The static variables of the driver. -/
structure Fat12 where
  bpb : BiosParameterBlock
  lbaFat1 : Word
  lbaRoot : Word
  lbaData : Word
  deriving DecidableEq, Repr

/-- The offsets that `fat12_init` computes. -/
def fat12Init (bpb : BiosParameterBlock) : Fat12 :=
  let lbaFat1 := bpb.reservedSectors.setWidth 32
  let lbaRoot := lbaFat1 + bpb.sectorsPerFat.setWidth 32 * bpb.fats.setWidth 32
  let lbaData := lbaRoot + bpb.directoryEntries.setWidth 32 * 0x20 / bpb.bytesPerSector.setWidth 32
  { bpb, lbaFat1, lbaRoot, lbaData }

/-- The bytes of each sector. -/
abbrev Disk := Word → Nat → Byte

/-- `ata_read` by its contract: `count` sectors of 512 bytes overwrite the start of a buffer. -/
def ataRead (disk : Disk) (lba : Word) (count : Nat) (buffer : Nat → Byte) : Nat → Byte := fun k =>
  if k < 512 * count then disk (lba + BitVec.ofNat 32 (k / 512)) (k % 512) else buffer k

/-- The heap blocks that the driver allocates. -/
inductive DriverBlock
  | srcBuffer
  | entries
  | handle
  | dirents
  deriving DecidableEq, Repr

/-- `fs_file`, without the fields that no function of the driver reads. -/
structure FsFile where
  name : List Byte
  len : Word
  offset : Word
  ref : Word
  deriving DecidableEq, Repr

/-- `fat12_valid_cluster`. -/
def fat12ValidCluster (cluster : Half) : Bool := 0x2 ≤ cluster && cluster ≤ 0xFEF

/-- `bpb->sectors_per_cluster`. -/
def Fat12.sectorsPerCluster (fs : Fat12) : Word := fs.bpb.sectorsPerCluster.setWidth 32

/-- `bpb->bytes_per_sector * bpb->sectors_per_cluster`. -/
def Fat12.clusterSize (fs : Fat12) : Word :=
  fs.bpb.bytesPerSector.setWidth 32 * fs.sectorsPerCluster

/-- `fat12_cluster_lba`. -/
def fat12ClusterLba (fs : Fat12) (cluster : Half) : Word :=
  fs.lbaData + (cluster.setWidth 32 - 2) * fs.sectorsPerCluster

/-! ## `fat12_read` -/

/-- The clusters and offsets that `fat12_read` computes before its loop. -/
structure ReadSpan where
  clusterBegin : Word
  offsetBegin : Word
  clusterEnd : Word
  offsetEnd : Word
  deriving DecidableEq, Repr

def readSpan (fs : Fat12) (offset len : Word) : ReadSpan where
  clusterBegin := offset / fs.bpb.bytesPerSector.setWidth 32 / fs.sectorsPerCluster
  offsetBegin := offset % fs.clusterSize
  clusterEnd := (offset + len) / fs.bpb.bytesPerSector.setWidth 32 / fs.sectorsPerCluster
  offsetEnd := (offset + len) % fs.clusterSize

/-- The variables of the loop of `fat12_read`: `src` are the bytes from `src_buffer` on,
`offset` is `file->offset`, and `mem` is the memory that the destination points into. -/
structure ReadState where
  cluster : Word
  destOffset : Word
  srcOffset : Word
  srcLen : Word
  src : Nat → Byte
  offset : Word
  mem : Mem

/-- The slice of cluster number `i`. Between the first and the last cluster the variables keep
the values of the iteration before. -/
def readSlice (fs : Fat12) (span : ReadSpan) (i : Word) (st : ReadState) : Word × Word :=
  if i = span.clusterBegin ∧ i = span.clusterEnd then
    (span.offsetBegin, span.offsetEnd - span.offsetBegin)
  else if i = span.clusterBegin then
    (span.offsetBegin, fs.clusterSize - span.offsetBegin)
  else if i = span.clusterEnd then
    (0, span.offsetEnd)
  else
    (st.srcOffset, st.srcLen)

/-- Reads cluster number `i` and copies its slice to the destination. -/
def readCluster (fs : Fat12) (disk : Disk) (span : ReadSpan) (buffer i : Word) (st : ReadState) :
    ReadState :=
  let src := ataRead disk (fat12ClusterLba fs (st.cluster.setWidth 16))
    fs.sectorsPerCluster.toNat st.src
  let (srcOffset, srcLen) := readSlice fs span i st
  { st with
    src, srcOffset, srcLen
    mem := st.mem.blit (buffer + st.destOffset) (fun k => src (srcOffset.toNat + k)) srcLen.toNat
    destOffset := st.destOffset + srcLen
    offset := st.offset + srcLen }

/-- The loop of `fat12_read`, with the number of iterations left. The second component is
`false` when it stops at an invalid cluster. -/
def readLoop (fs : Fat12) (disk : Disk) (readFat : Half → Half) (span : ReadSpan) (buffer : Word) :
    Nat → Word → ReadState → ReadState × Bool
  | 0, _, st => (st, true)
  | n + 1, i, st =>
    if fat12ValidCluster (st.cluster.setWidth 16) = false then
      (st, false)
    else
      let st :=
        if span.clusterBegin ≤ i ∧ i ≤ span.clusterEnd then
          readCluster fs disk span buffer i st
        else
          st
      let st :=
        if i ≠ span.clusterEnd then
          { st with cluster := (readFat (st.cluster.setWidth 16)).setWidth 32 }
        else
          st
      readLoop fs disk readFat span buffer n (i + 1) st

/-- The handle and the memory after `fat12_read`, and the blocks it leaves allocated. -/
structure ReadResult where
  file : FsFile
  mem : Mem
  blocks : List DriverBlock

/-- The request after the first test of `fat12_read`. -/
def clampLen (file : FsFile) (len : Word) : Word :=
  if file.len < file.offset + len then file.len - file.offset else len

/-- `fat12_read`. `readFat` stands for `fat12_read_fat`, and `src` are the bytes that `malloc`
leaves in `src_buffer` and behind it. -/
def fat12Read (fs : Fat12) (disk : Disk) (readFat : Half → Half) (src : Nat → Byte) (file : FsFile)
    (mem : Mem) (buffer len : Word) : ReadResult :=
  let len := clampLen file len
  if len = 0 then
    ⟨file, mem, []⟩
  else
    let span := readSpan fs file.offset len
    let st : ReadState := ⟨file.ref, 0, 0, 0, src, file.offset, mem⟩
    let (st, done) := readLoop fs disk readFat span buffer (span.clusterEnd.toNat + 1) 0 st
    ⟨{ file with offset := st.offset }, st.mem, if done then [] else [.srcBuffer]⟩

/-- `fat12_seek`. -/
def fat12Seek (file : FsFile) (offset : Word) : FsFile :=
  { file with offset := if file.len < file.offset + offset then file.len else offset }

/-! ## Directory entries and names -/

/-- `fat12_directory_entry`, the fields that the driver reads. -/
structure DirectoryEntry where
  filename : List Byte
  length_filename : filename.length = 11
  attributes : Byte
  clusterHigh : Half
  clusterLow : Half
  size : Word
  deriving DecidableEq, Repr

/-- `FAT12_ATTRIBUTE_DIRECTORY`. -/
def fat12AttributeDirectory : Byte := 0x10

/-- `FAT12_ATTRIBUTE_ARCHIVE`. -/
def fat12AttributeArchive : Byte := 0x20

/-- `(entry->cluster_high << 16) | entry->cluster_low`. -/
def DirectoryEntry.cluster (entry : DirectoryEntry) : Word :=
  entry.clusterHigh.setWidth 32 <<< 16 ||| entry.clusterLow.setWidth 32

/-- `fat12_strcmp`. -/
def fat12Strcmp : List Byte → List Byte → Nat → Bool
  | _, _, 0 => true
  | a :: as, b :: bs, len + 1 => a != 0 && a == b && fat12Strcmp as bs len
  | _, _, _ + 1 => false

/-- `fat12_format_file_name`. -/
def fat12FormatFileName (src dest : List Byte) : List Byte :=
  let dest := copyInto dest 0 src 8
  let dest := strtrim dest (ascii ' ')
  let k := strlen dest
  let dest := dest.set k (ascii '.')
  copyInto dest (k + 1) (src.drop 8) 3

/-- `fat12_format_dir_name`. -/
def fat12FormatDirName (src dest : List Byte) : List Byte :=
  strtrim (copyInto dest 0 src 11) (ascii ' ')

/-- A name field after `memset(name, '\0', FILE_NAME_LENGTH)`. -/
def emptyName : List Byte := List.replicate 256 0

/-- The first entry with the attributes and the name of the buffer. -/
def findEntry (entries : List DirectoryEntry) (attributes : Byte) (buffer : List Byte) :
    Option DirectoryEntry :=
  entries.find? fun entry => entry.attributes == attributes && fat12Strcmp entry.filename buffer 11

/-! ## `fat12_open` -/

/-- The name buffer after `strset(buffer, ' ', FAT12_FILENAME_LENGTH + 1)`. -/
def blankBuffer : List Byte := List.replicate 12 (ascii ' ')

/-- A byte from the name buffer on; `stack` are the bytes behind its end. -/
def bufferByte (stack : Nat → Byte) (buffer : List Byte) (k : Nat) : Byte :=
  buffer.getD k (stack (k - buffer.length))

/-- The loop of `fat12_open` that moves the extension to its place, with the number of
iterations that are left to it; `none` when they do not suffice. -/
def extensionLoop (stack : Nat → Byte) :
    Nat → Nat → List Byte → List Byte → Option (List Byte × List Byte)
  | 0, _, _, _ => none
  | fuel + 1, k, buffer, ext =>
    if k < 11 then
      if ext.getD 0 0 ≠ 0 then
        if 8 ≤ k then
          extensionLoop stack fuel (k + 1) (buffer.set k (ext.getD (k - 8) 0)) ext
        else
          extensionLoop stack fuel (k + 1) (buffer.set k (ascii ' ')) ext
      else if buffer.getD k 0 = ascii '.' then
        -- `k--` undoes the step of the loop
        extensionLoop stack fuel k buffer
          [bufferByte stack buffer (k + 1), bufferByte stack buffer (k + 2),
            bufferByte stack buffer (k + 3)]
      else
        extensionLoop stack fuel (k + 1) buffer ext
    else
      some (buffer, ext)

/-- A handle or `NULL`, and the blocks that the call left allocated. -/
structure Opened (α : Type) where
  handle : Option α
  blocks : List DriverBlock

/-- The end of the path in `fat12_open`: finds the file in the last directory. The bound on the
iterations is generous: only a dot in front of a NUL could repeat an iteration more than once. -/
def openFile (stack : Nat → Byte) (entries : List DirectoryEntry) (buffer : List Byte) :
    Option (Opened FsFile) :=
  if strlen buffer = 0 then
    some ⟨none, [.entries]⟩
  else
    match extensionLoop stack 24 1 buffer [0, 0, 0] with
    | none => none
    | some (buffer, ext) =>
      if ext.getD 0 0 = 0 then
        some ⟨none, [.entries]⟩
      else
        match findEntry entries fat12AttributeArchive buffer with
        | none => some ⟨none, [.entries]⟩
        | some entry =>
          some ⟨some ⟨fat12FormatFileName entry.filename emptyName, entry.size, 0, entry.cluster⟩,
            [.handle]⟩

/-- The loop of `fat12_open` over the characters of the path. -/
def openLoop (readDirectory : Half → List DirectoryEntry) (stack : Nat → Byte)
    (entries : List DirectoryEntry) (buffer : List Byte) (i : Nat) :
    List Byte → Option (Opened FsFile)
  | [] => openFile stack entries buffer
  | c :: path =>
    if c = ascii '/' then
      match findEntry entries fat12AttributeDirectory buffer with
      | none => some ⟨none, [.entries]⟩
      | some entry =>
        openLoop readDirectory stack (readDirectory (entry.cluster.setWidth 16)) blankBuffer 0 path
    else if i = 11 then
      some ⟨none, [.entries]⟩
    else
      openLoop readDirectory stack entries (buffer.set i c) (i + 1) path

/-- `fat12_open` of the string `path`; `none` when it does not return. `readDirectory` stands for
`fat12_read_directory`, and `stack` are the bytes behind the name buffer. -/
def fat12Open (readDirectory : Half → List DirectoryEntry) (stack : Nat → Byte)
    (path : List Byte) : Option (Opened FsFile) :=
  openLoop readDirectory stack (readDirectory 0) blankBuffer 0 path

/-! ## `fat12_opendir` -/

/-- `fs_dir`, without the fields that no function of the driver reads. -/
structure FsDir where
  name : List Byte
  ref : Word
  deriving DecidableEq, Repr

/-- The end of the path in `fat12_opendir`. -/
def openDirectory (entries : List DirectoryEntry) (buffer : List Byte) : Opened FsDir :=
  if strlen buffer = 0 then
    ⟨none, [.entries]⟩
  else
    match findEntry entries fat12AttributeDirectory buffer with
    | none => ⟨none, [.entries]⟩
    | some entry => ⟨some ⟨fat12FormatDirName entry.filename emptyName, entry.cluster⟩, [.handle]⟩

/-- The loop of `fat12_opendir` over the characters of the path. -/
def opendirLoop (readDirectory : Half → List DirectoryEntry)
    (entries : List DirectoryEntry) (buffer : List Byte) (i : Nat) : List Byte → Opened FsDir
  | [] => openDirectory entries buffer
  | c :: path =>
    if c = ascii '/' ∧ path ≠ [] then
      match findEntry entries fat12AttributeDirectory buffer with
      | none => ⟨none, [.entries]⟩
      | some entry =>
        opendirLoop readDirectory (readDirectory (entry.cluster.setWidth 16)) blankBuffer 0 path
    else if i = 11 then
      ⟨none, [.entries]⟩
    else
      opendirLoop readDirectory entries (buffer.set i c) (i + 1) path

/-- The string that `fat12_opendir` leaves in its argument. -/
def trimPath (path : List Byte) : List Byte := cstr (strtrim (path ++ [0]) (ascii '/'))

/-- `fat12_opendir` of the string `path`; `name` is what `malloc` leaves in the name of the root
directory. -/
def fat12Opendir (readDirectory : Half → List DirectoryEntry) (name path : List Byte) :
    Opened FsDir :=
  if trimPath path = [] then
    ⟨some ⟨name, 0⟩, [.handle]⟩
  else
    opendirLoop readDirectory (readDirectory 0) blankBuffer 0 (trimPath path)

/-! ## `fat12_readdir` -/

/-- `DIRECTORY_ENTRY_TYPE_FILE` and `DIRECTORY_ENTRY_TYPE_DIRECTORY`. -/
inductive DirentType
  | file
  | directory
  deriving DecidableEq, Repr

/-- `fs_dirent`. -/
structure FsDirent where
  name : List Byte
  type : DirentType
  deriving DecidableEq, Repr

/-- The names `.` and `..` of a directory, padded with spaces. -/
def dotName : List Byte := ascii '.' :: List.replicate 10 (ascii ' ')
def dotDotName : List Byte := ascii '.' :: ascii '.' :: List.replicate 9 (ascii ' ')

/-- The body of the loop of `fat12_readdir`. -/
def direntOf (entry : DirectoryEntry) : Option FsDirent :=
  if entry.attributes ≠ fat12AttributeDirectory ∧ entry.attributes ≠ fat12AttributeArchive then
    none
  else if fat12Strcmp entry.filename dotName 11 || fat12Strcmp entry.filename dotDotName 11 then
    none
  else if entry.attributes = fat12AttributeArchive then
    some ⟨fat12FormatFileName entry.filename emptyName, .file⟩
  else
    some ⟨fat12FormatDirName entry.filename emptyName, .directory⟩

/-- What `fat12_readdir` stores: the entries with their indices into `*dirents`, and `*len`. -/
structure Listing where
  dirents : List (Word × FsDirent)
  len : Word
  blocks : List DriverBlock

/-- `fat12_readdir`, with the value of `*len` at the call. -/
def fat12Readdir (readDirectory : Half → List DirectoryEntry) (dir : FsDir) (len : Word) :
    Listing :=
  let found := (readDirectory (dir.ref.setWidth 16)).filterMap direntOf
  { dirents := found.mapIdx fun i dirent => (len + BitVec.ofNat 32 i, dirent)
    len := len + BitVec.ofNat 32 found.length
    blocks := .entries :: if found = [] then [] else [.dirents] }

end Hjortron
