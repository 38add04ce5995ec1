import Hjortron.Filesystem.ClusterChain
import Hjortron.Misc.Logged
import Mathlib.Data.Multiset.AddSub

/-!
# The driver on the heap

The functions of `Hjortron.Filesystem.Fat12` with the heap they allocate from: buffers, handles and
the array of directory entries are heap blocks, and every call of `malloc` and `free` is logged.
`fat12_read_directory` stands by its contract, a block with the entries of the directory, and
`fat12_read_fat` by the clusters that it returns and its own block;
`Hjortron.Filesystem.ClusterChain` has the code of both. NULL is `none` where a function returns it.
-/

namespace Hjortron

/-- The entries of a directory on the disk, as bytes. -/
structure Directory where
  count : Nat
  bytes : Nat → Byte
  count_lt : 32 * count < 2 ^ 32

/-- The members of a `fat12_directory_entry` at their offsets. -/
def parseEntry (byte : Nat → Byte) : DirectoryEntry where
  filename := (List.range 11).map byte
  length_filename := by rw [List.length_map, List.length_range]
  attributes := byte 11
  clusterHigh := byte 21 ++ byte 20
  clusterLow := byte 27 ++ byte 26
  size := byte 31 ++ byte 30 ++ byte 29 ++ byte 28

/-- The entries of a directory. -/
def Directory.entries (d : Directory) : List DirectoryEntry :=
  (List.range d.count).map fun k => parseEntry fun j => d.bytes (32 * k + j)

/-- `entries[k]`. -/
def entryAt (m : Mem) (entries : Word) (k : Nat) : DirectoryEntry :=
  parseEntry fun j => m (entries + BitVec.ofNat 32 (32 * k + j))

/-- The array `entries`. -/
def entriesAt (m : Mem) (entries len : Word) : List DirectoryEntry :=
  (List.range len.toNat).map (entryAt m entries)

/-- What is logged of a call. -/
inductive DriverEvent
  /-- `malloc` returned `ptr`. -/
  | malloc (ptr : Word)
  /-- `ptr` was freed. -/
  | free (ptr : Word)
  /-- `(*dirents)[index]` was assigned. -/
  | dirent (index : Word) (value : FsDirent)
  deriving DecidableEq, Repr

/-- The blocks that are live after the events of a log. -/
def liveAfter : Multiset Word → List DriverEvent → Multiset Word
  | live, [] => live
  | live, .malloc ptr :: log => liveAfter (ptr ::ₘ live) log
  | live, .free ptr :: log => liveAfter (live.erase ptr) log
  | live, .dirent _ _ :: log => liveAfter live log

namespace Driver

/-- Code of the driver. -/
abbrev Action := Logged Heap Halt DriverEvent

/-- Writes to memory. -/
def write (f : Mem → Mem) : Action Unit := .modify fun heap => { heap with mem := f heap.mem }

/-- `malloc`. -/
def malloc (len : Word) : Action Word := do
  let ptr ← .call fun heap => Hjortron.malloc heap len
  .emit (.malloc ptr)
  return ptr

/-- `free`. -/
def free (ptr : Word) : Action Unit := do
  .call fun heap => (Hjortron.free heap ptr).map ((), ·)
  .emit (.free ptr)

/-- `realloc`, which calls `malloc` and `free` when the block is too short. -/
def realloc (ptr len : Word) : Action Word := do
  let long ← .read fun heap => decide (len ≤ chunkLen heap.mem (ptr - sizeofMemoryChunk))
  let nextPtr ← .call fun heap => Hjortron.realloc heap ptr len
  if long then
    return nextPtr
  else do
    .emit (.malloc nextPtr)
    .emit (.free ptr)
    return nextPtr

/-- `fat12_read_directory` by its contract: the block with the entries, and their number. -/
def fat12ReadDirectory (directory : Half → Directory) (cluster : Half) : Action (Word × Word) := do
  let d := directory cluster
  let buffer ← malloc (BitVec.ofNat 32 (32 * d.count))
  write fun m => m.blit buffer d.bytes (32 * d.count)
  return (buffer, BitVec.ofNat 32 d.count)

/-- `fat12_read_fat` by the cluster that it returns. -/
def fat12ReadFat (fs : Fat12) (readFat : Half → Half) (cluster : Half) : Action Half := do
  let buffer ← malloc fs.bytesPerSector
  free buffer
  return readFat cluster

/-! ## `fat12_open` -/

/-- `sizeof(fs_file)`. -/
def sizeofFsFile : Word := 284

/-- The assignments to a new handle. -/
def storeFile (m : Mem) (file : Word) (entry : DirectoryEntry) : Mem :=
  let name := fat12FormatFileName entry.filename emptyName
  let m := m.store32 (file + 264) entry.cluster
  let m := m.store32 (file + 256) entry.size
  let m := m.store32 (file + 260) 0
  m.blit file (fun k => name.getD k 0) 256

/-- The end of the path in `fat12_open`. -/
def openFile (stack : Nat → Byte) (entries len : Word) (buffer : List Byte) :
    Action (Option Word) :=
  if strlen buffer = 0 then
    return none
  else
    match extensionLoop stack 24 1 buffer [0, 0, 0] with
    | none => .fail .diverges
    | some (buffer, ext) =>
      if ext.getD 0 0 = 0 then
        return none
      else do
        let found ← .read fun heap =>
          findEntry (entriesAt heap.mem entries len) fat12AttributeArchive buffer
        match found with
        | none => return none
        | some entry =>
          let file ← malloc sizeofFsFile
          write fun m => storeFile m file entry
          free entries
          return some file

/-- The loop of `fat12_open` over the characters of the path. -/
def openLoop (directory : Half → Directory) (stack : Nat → Byte) (entries len : Word)
    (buffer : List Byte) (i : Nat) : List Byte → Action (Option Word)
  | [] => openFile stack entries len buffer
  | c :: path =>
    if c = ascii '/' then do
      let found ← .read fun heap =>
        findEntry (entriesAt heap.mem entries len) fat12AttributeDirectory buffer
      match found with
      | none => return none
      | some entry =>
        free entries
        let (entries, len) ← fat12ReadDirectory directory (entry.cluster.setWidth 16)
        openLoop directory stack entries len blankBuffer 0 path
    else if i = 11 then
      return none
    else
      openLoop directory stack entries len (buffer.set i c) (i + 1) path

/-- `fat12_open`. -/
def fat12Open (directory : Half → Directory) (stack : Nat → Byte) (path : List Byte) :
    Action (Option Word) := do
  let (entries, len) ← fat12ReadDirectory directory 0
  openLoop directory stack entries len blankBuffer 0 path

/-! ## `fat12_opendir` -/

/-- `sizeof(fs_dir)`. -/
def sizeofFsDir : Word := 276

/-- The assignments to a new handle. -/
def storeDir (m : Mem) (dir : Word) (entry : DirectoryEntry) : Mem :=
  let name := fat12FormatDirName entry.filename emptyName
  let m := m.store32 (dir + 256) entry.cluster
  m.blit dir (fun k => name.getD k 0) 256

/-- The end of the path in `fat12_opendir`. -/
def openDirectory (entries len : Word) (buffer : List Byte) : Action (Option Word) :=
  if strlen buffer = 0 then
    return none
  else do
    let found ← .read fun heap =>
      findEntry (entriesAt heap.mem entries len) fat12AttributeDirectory buffer
    match found with
    | none => return none
    | some entry =>
      let dir ← malloc sizeofFsDir
      write fun m => storeDir m dir entry
      free entries
      return some dir

/-- The loop of `fat12_opendir` over the characters of the path. -/
def opendirLoop (directory : Half → Directory) (entries len : Word) (buffer : List Byte) (i : Nat) :
    List Byte → Action (Option Word)
  | [] => openDirectory entries len buffer
  | c :: path =>
    if c = ascii '/' ∧ path ≠ [] then do
      let found ← .read fun heap =>
        findEntry (entriesAt heap.mem entries len) fat12AttributeDirectory buffer
      match found with
      | none => return none
      | some entry =>
        free entries
        let (entries, len) ← fat12ReadDirectory directory (entry.cluster.setWidth 16)
        opendirLoop directory entries len blankBuffer 0 path
    else if i = 11 then
      return none
    else
      opendirLoop directory entries len (buffer.set i c) (i + 1) path

/-- `fat12_opendir`. -/
def fat12Opendir (directory : Half → Directory) (path : List Byte) : Action (Option Word) :=
  if trimPath path = [] then do
    let dir ← malloc sizeofFsDir
    write fun m => m.store32 (dir + 256) 0
    return some dir
  else do
    let (entries, len) ← fat12ReadDirectory directory 0
    opendirLoop directory entries len blankBuffer 0 (trimPath path)

/-! ## `fat12_read` -/

/-- The fields of the handle `file` that `fat12_read` looks at. -/
def fileAt (m : Mem) (file : Word) : FsFile where
  name := (List.range 256).map fun k => m (file + BitVec.ofNat 32 k)
  len := m.load32 (file + 256)
  offset := m.load32 (file + 260)
  ref := m.load32 (file + 264)

/-- Reads a cluster into `src_buffer`, copies a slice of it to `dest` and moves the cursor. -/
def copyCluster (fs : Fat12) (disk : Disk) (srcBuffer file dest cluster srcOffset srcLen : Word)
    (m : Mem) : Mem :=
  let m := ataReadInto disk (fat12ClusterLba fs (cluster.setWidth 16)) fs.sectorsPerCluster.toNat
    m srcBuffer
  let m := memcpy m dest (srcBuffer + srcOffset) srcLen
  m.store32 (file + 260) (m.load32 (file + 260) + srcLen)

/-- The variables of the loop of `fat12_read`. -/
structure ReadVars where
  cluster : Word
  destOffset : Word
  srcOffset : Word
  srcLen : Word

/-- The slice of cluster number `i`, as in `Hjortron.readSlice`. -/
def readSlice (fs : Fat12) (span : ReadSpan) (i : Word) (vars : ReadVars) : Word × Word :=
  if i = span.clusterBegin ∧ i = span.clusterEnd then
    (span.offsetBegin, span.offsetEnd - span.offsetBegin)
  else if i = span.clusterBegin then
    (span.offsetBegin, fs.clusterSize - span.offsetBegin)
  else if i = span.clusterEnd then
    (0, span.offsetEnd)
  else
    (vars.srcOffset, vars.srcLen)

/-- The part of the loop for clusters of the request. -/
def readCluster (fs : Fat12) (disk : Disk) (span : ReadSpan) (srcBuffer file buffer i : Word)
    (vars : ReadVars) : Action ReadVars :=
  if span.clusterBegin ≤ i ∧ i ≤ span.clusterEnd then do
    let (srcOffset, srcLen) := readSlice fs span i vars
    write <| copyCluster fs disk srcBuffer file (buffer + vars.destOffset) vars.cluster
      srcOffset srcLen
    return { vars with destOffset := vars.destOffset + srcLen, srcOffset, srcLen }
  else
    return vars

/-- The next cluster, if any. -/
def nextCluster (fs : Fat12) (readFat : Half → Half) (span : ReadSpan) (i : Word)
    (vars : ReadVars) : Action ReadVars :=
  if i ≠ span.clusterEnd then do
    let next ← fat12ReadFat fs readFat (vars.cluster.setWidth 16)
    return { vars with cluster := next.setWidth 32 }
  else
    return vars

/-- The loop of `fat12_read`, with the number of iterations left; `false` when it stops at an
invalid cluster. -/
def readLoop (fs : Fat12) (disk : Disk) (readFat : Half → Half) (span : ReadSpan)
    (srcBuffer file buffer : Word) : Nat → Word → ReadVars → Action Bool
  | 0, _, _ => return true
  | n + 1, i, vars =>
    if fat12ValidCluster (vars.cluster.setWidth 16) = false then
      return false
    else do
      let vars ← readCluster fs disk span srcBuffer file buffer i vars
      let vars ← nextCluster fs readFat span i vars
      readLoop fs disk readFat span srcBuffer file buffer n (i + 1) vars

/-- `fat12_read` of the handle at `file`. -/
def fat12Read (fs : Fat12) (disk : Disk) (readFat : Half → Half) (file buffer len : Word) :
    Action Unit := do
  let handle ← .read fun heap => fileAt heap.mem file
  let len := clampLen handle len
  if len = 0 then
    return
  else if fs.bytesPerSector = 0 ∨ fs.sectorsPerCluster = 0 then
    .fail .divideError
  else do
    let span := readSpan fs handle.offset len
    let srcBuffer ← malloc fs.clusterSize
    let done ← readLoop fs disk readFat span srcBuffer file buffer (span.clusterEnd.toNat + 1) 0
      ⟨handle.ref, 0, 0, 0⟩
    if done then
      free srcBuffer
    else
      return

/-! ## `fat12_seek` and `fat12_close` -/

/-- `fat12_seek` of the handle at `file`. -/
def fat12Seek (file offset : Word) : Action Unit := do
  let handle ← .read fun heap => fileAt heap.mem file
  write fun m => m.store32 (file + 260) (Hjortron.fat12Seek handle offset).offset

/-- `fat12_close`. -/
def fat12Close (file : Word) : Action Unit := free file

/-- `fat12_closedir`. -/
def fat12Closedir (dir : Word) : Action Unit := free dir

/-! ## `fat12_readdir` -/

/-- `sizeof(fs_dirent)`. -/
def sizeofFsDirent : Word := 257

/-- `DIRECTORY_ENTRY_TYPE_FILE` and `DIRECTORY_ENTRY_TYPE_DIRECTORY` as they are stored. -/
def typeByte : DirentType → Byte
  | .file => 0
  | .directory => 1

/-- The bytes of a `fs_dirent`: its name and its type. -/
def direntByte (dirent : FsDirent) (j : Nat) : Byte :=
  if j < 256 then dirent.name.getD j 0 else typeByte dirent.type

/-- The entries that `fat12_readdir` does not pass over. -/
def isListed (entry : DirectoryEntry) : Bool :=
  (entry.attributes == fat12AttributeDirectory || entry.attributes == fat12AttributeArchive) &&
    !(fat12Strcmp entry.filename dotName 11 || fat12Strcmp entry.filename dotDotName 11)

/-- The switch over the attributes of an entry; `none` for its default. -/
def direntFor (entry : DirectoryEntry) : Option FsDirent :=
  if entry.attributes = fat12AttributeArchive then
    some ⟨fat12FormatFileName entry.filename emptyName, .file⟩
  else if entry.attributes = fat12AttributeDirectory then
    some ⟨fat12FormatDirName entry.filename emptyName, .directory⟩
  else
    none

/-- The assignments to `(*dirents)[*len]` in the switch. -/
def fillDirent (dirents len : Word) : Option FsDirent → Action Unit
  | none => return
  | some dirent => do
    write fun m => m.blit (dirents + len * sizeofFsDirent) (direntByte dirent) 257
    .emit (.dirent len dirent)

/-- Fills in `(*dirents)[*len]` for the entry number `k`. -/
def storeDirent (entries dirents len : Word) (k : Nat) : Action Unit := do
  let entry ← .read fun heap => entryAt heap.mem entries k
  fillDirent dirents len (direntFor entry)

/-- Makes room for one more `fs_dirent`. -/
def growDirents (dirents len : Word) : Action Word :=
  if dirents = 0 then
    malloc sizeofFsDirent
  else
    realloc dirents ((len + 1) * sizeofFsDirent)

/-- The loop of `fat12_readdir` over `n` entries from number `k` on. -/
def readdirLoop (entries : Word) : Nat → Nat → Word → Word → Action (Word × Word)
  | 0, _, dirents, len => return (dirents, len)
  | n + 1, k, dirents, len => do
    let entry ← .read fun heap => entryAt heap.mem entries k
    if isListed entry then
      let dirents ← growDirents dirents len
      storeDirent entries dirents len k
      readdirLoop entries n (k + 1) dirents (len + 1)
    else
      readdirLoop entries n (k + 1) dirents len

/-- `fat12_readdir` of a handle with `ref`, and `*len` at the call. Returns `*dirents` and
`*len`. -/
def fat12Readdir (directory : Half → Directory) (ref len : Word) : Action (Word × Word) := do
  let (entries, entriesLen) ← fat12ReadDirectory directory (ref.setWidth 16)
  readdirLoop entries entriesLen.toNat 0 0 len

end Driver

end Hjortron
