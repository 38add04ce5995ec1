import Hjortron.Filesystem.Fat12
import Hjortron.Memory.Malloc

/-!
# Cluster chains in `kernel/src/filesystem/fat12.c`

`fat12_read_fat`, `fat12_read_cluster_chain` and `fat12_read_directory` on the memory they
allocate from and write to. Pointer arguments are addresses in that memory, and so is the local
variable `chain_len` whose address is passed on; the other local variables are values. `ata_read`
stands by its contract. Messages are left out.
-/

namespace Hjortron

/-- `ata_read` by its contract: `count` sectors of 512 bytes are written to `buffer`. -/
def ataReadInto (disk : Disk) (lba : Word) (count : Nat) (m : Mem) (buffer : Word) : Mem :=
  m.blit buffer (fun k => disk (lba + BitVec.ofNat 32 (k / 512)) (k % 512)) (512 * count)

/-- `bpb->bytes_per_sector`. -/
def Fat12.bytesPerSector (fs : Fat12) : Word := fs.bpb.bytesPerSector.setWidth 32

/-! ## `fat12_read_fat` -/

/-- The end of `fat12_read_fat`: removes the four bits that belong to another cluster. -/
def fat12NextCluster (cluster nextCluster : Half) : Half :=
  if cluster &&& 1 ≠ 0 then nextCluster >>> 4 else nextCluster &&& 0xFFF

/-- `fat12_read_fat`. -/
def fat12ReadFat (fs : Fat12) (disk : Disk) (heap : Heap) (cluster : Half) :
    Except Halt (Half × Heap) := do
  let byteOffset : Word := cluster.setWidth 32 + cluster.setWidth 32 / 2
  if fs.bytesPerSector = 0 then throw .divideError
  let lbaOffset := byteOffset / fs.bytesPerSector
  let sectorOffset := byteOffset % fs.bytesPerSector
  let (buffer, heap) ← malloc heap fs.bytesPerSector
  let heap := { heap with mem := ataReadInto disk (fs.lbaFat1 + lbaOffset) 1 heap.mem buffer }
  let nextCluster := heap.mem.load16 (buffer + sectorOffset)
  let heap ← free heap buffer
  return (fat12NextCluster cluster nextCluster, heap)

/-! ## `fat12_read_cluster_chain` -/

/-- The loop that follows the chain, with the number of iterations left. `clusters` is the local
array, and `len` the address of the counter. -/
def collectClusters (fs : Fat12) (disk : Disk) (len : Word) :
    Nat → Heap → (Word → Word) → Half → Except Halt (Heap × (Word → Word))
  | 0, heap, clusters, _ => .ok (heap, clusters)
  | n + 1, heap, clusters, cluster =>
    if fat12ValidCluster cluster = false then
      .ok (heap, clusters)
    else do
      let i := heap.mem.load32 len
      let clusters := Function.update clusters i (cluster.setWidth 32)
      let heap := { heap with mem := heap.mem.store32 len (i + 1) }
      let (cluster, heap) ← fat12ReadFat fs disk heap cluster
      collectClusters fs disk len n heap clusters cluster

/-- The loop that reads the clusters. Each destination is the element of `buffer`, an array of
pointers, at the byte offset of the cluster. The counter has 32 bits, so that the loop ends within
as many iterations. -/
def readClusters (fs : Fat12) (disk : Disk) (clusters : Word → Word) (buffer len : Word) :
    Nat → Word → Mem → Except Halt Mem
  | 0, _, _ => .error .diverges
  | fuel + 1, i, m =>
    if i < m.load32 len then
      let lba := fat12ClusterLba fs ((clusters i).setWidth 16)
      let dest := m.load32 (buffer + 4 * (fs.clusterSize * i))
      readClusters fs disk clusters buffer len fuel (i + 1)
        (ataReadInto disk lba fs.sectorsPerCluster.toNat m dest)
    else
      .ok m

/-- `fat12_read_cluster_chain`. `clusters` is what the stack holds in place of the local array. -/
def fat12ReadClusterChain (fs : Fat12) (disk : Disk) (clusters : Word → Word) (heap : Heap)
    (buffer len : Word) (cluster : Half) : Except Halt Heap := do
  let heap := { heap with mem := heap.mem.store32 len 0 }
  let (heap, clusters) ← collectClusters fs disk len 256 heap clusters cluster
  let (ptr, heap) ← malloc heap (fs.clusterSize * heap.mem.load32 len)
  let heap := { heap with mem := heap.mem.store32 buffer ptr }
  let mem ← readClusters fs disk clusters buffer len (2 ^ 32) 0 heap.mem
  return { heap with mem }

/-! ## `fat12_read_directory` -/

/-- `fat12_read_directory`. `chainLen` is the address of the local variable. -/
def fat12ReadDirectory (fs : Fat12) (disk : Disk) (clusters : Word → Word) (chainLen : Word)
    (heap : Heap) (entries len : Word) (cluster : Half) : Except Halt Heap := do
  if cluster = 0 then
    -- read root directory, consecutive sectors
    let directoryEntries : Word := fs.bpb.directoryEntries.setWidth 32
    let (buffer, heap) ← malloc heap (directoryEntries * 0x20)
    if fs.bytesPerSector = 0 then throw .divideError
    let count := directoryEntries * 0x20 / fs.bytesPerSector
    let mem := ataReadInto disk fs.lbaRoot count.toNat heap.mem buffer
    let mem := mem.store32 entries buffer
    return { heap with mem := mem.store32 len directoryEntries }
  else
    let heap := { heap with mem := heap.mem.store32 chainLen 0 }
    let heap ← fat12ReadClusterChain fs disk clusters heap entries chainLen cluster
    let count := heap.mem.load32 chainLen * fs.sectorsPerCluster * fs.bytesPerSector / 0x20
    return { heap with mem := heap.mem.store32 len count }

end Hjortron
