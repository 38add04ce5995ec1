import Hjortron.Memory.Malloc

/-!
# `kernel/src/drivers/pci.c`

The driver reads the configuration space through two ports: it writes an address to
`PCI_COMMAND_PORT` and reads the word there from `PCI_DATA_PORT`. The static variables are fields
of `PciState`: `devices` gives the word at every index, also behind the array, and the memory there
is taken to hold none of the other variables. Messages written by `info` are left out.
-/

namespace Hjortron

/-- The coordinates of a function on the bus. -/
structure PciAddress where
  bus : BitVec 8
  device : BitVec 5
  function : BitVec 3
  deriving DecidableEq, Repr

/-- The configuration word of each function at each offset. -/
abbrev ConfigSpace := PciAddress → Byte → Word

/-- `inl(PCI_DATA_PORT)` after `outl(PCI_COMMAND_PORT, address)`. -/
def ConfigSpace.port (config : ConfigSpace) (address : Word) : Word :=
  if address.getLsbD 31 then
    config ⟨address.extractLsb' 16 8, address.extractLsb' 11 5, address.extractLsb' 8 3⟩
      (address.extractLsb' 2 6 ++ 0#2)
  else
    0xFFFFFFFF

/-- `get_config_address`. -/
def getConfigAddress (bus device function offset : Byte) : Word :=
  let configAddress : Word := bus.setWidth 32 <<< 16
  let configAddress := configAddress ||| device.setWidth 32 <<< 11
  let configAddress := configAddress ||| function.setWidth 32 <<< 8
  let configAddress := configAddress ||| (offset &&& 0xFC).setWidth 32
  configAddress ||| 0x80000000

/-- `pci_read`. -/
def pciRead (config : ConfigSpace) (bus device function offset : Byte) : Word :=
  config.port (getConfigAddress bus device function offset)

section

variable (config : ConfigSpace) (bus device function : Byte)

/-- `pci_device_id`. -/
def pciDeviceId : Half := (pciRead config bus device function 0 >>> 16).setWidth 16

/-- `pci_vendor_id`. -/
def pciVendorId : Half := (pciRead config bus device function 0 &&& 0xFFFF).setWidth 16

/-- `pci_status`. -/
def pciStatus : Half := (pciRead config bus device function 4 >>> 16).setWidth 16

/-- `pci_command`. -/
def pciCommand : Half := (pciRead config bus device function 4 &&& 0xFFFF).setWidth 16

/-- `pci_class_code`. -/
def pciClassCode : Byte := (pciRead config bus device function 0x8 >>> 24 &&& 0xFF).setWidth 8

/-- `pci_subclass`. -/
def pciSubclass : Byte := (pciRead config bus device function 0x8 >>> 16 &&& 0xFF).setWidth 8

/-- `pci_prog_if`. -/
def pciProgIf : Byte := (pciRead config bus device function 0x8 >>> 8 &&& 0xFF).setWidth 8

/-- `pci_revision_id`. -/
def pciRevisionId : Byte := (pciRead config bus device function 0x8).setWidth 8

/-- `pci_bist`. -/
def pciBist : Byte := (pciRead config bus device function 0xC >>> 24 &&& 0xFF).setWidth 8

/-- `pci_header_type`. -/
def pciHeaderType : Byte := (pciRead config bus device function 0xC >>> 16 &&& 0xFF).setWidth 8

/-- `pci_latency_timer`. -/
def pciLatencyTimer : Byte := (pciRead config bus device function 0xC >>> 8 &&& 0xFF).setWidth 8

/-- `pci_cache_line_size`. -/
def pciCacheLineSize : Byte := (pciRead config bus device function 0xC).setWidth 8

end

/-! ## `pci_device` -/

/-- `pci_device`. -/
structure PciDevice where
  bus : Half
  device : Half
  function : Half
  vendorId : Half
  deviceId : Half
  status : Half
  command : Half
  classCode : Byte
  subclass : Byte
  progIf : Byte
  revisionId : Byte
  bist : Byte
  headerType : Byte
  latencyTimer : Byte
  cacheLineSize : Byte
  deriving DecidableEq, Repr

/-- `sizeof(pci_device)`. -/
def sizeofPciDevice : Word := 22

/-- The structure at `p`. -/
def loadPciDevice (m : Mem) (p : Word) : PciDevice where
  bus := m.load16 (p + 0)
  device := m.load16 (p + 2)
  function := m.load16 (p + 4)
  vendorId := m.load16 (p + 6)
  deviceId := m.load16 (p + 8)
  status := m.load16 (p + 10)
  command := m.load16 (p + 12)
  classCode := m (p + 14)
  subclass := m (p + 15)
  progIf := m (p + 16)
  revisionId := m (p + 17)
  bist := m (p + 18)
  headerType := m (p + 19)
  latencyTimer := m (p + 20)
  cacheLineSize := m (p + 21)

/-- The assignments to the members of the structure at `p`. -/
def storePciDevice (m : Mem) (p : Word) (device : PciDevice) : Mem :=
  let m := m.store16 (p + 0) device.bus
  let m := m.store16 (p + 2) device.device
  let m := m.store16 (p + 4) device.function
  let m := m.store16 (p + 6) device.vendorId
  let m := m.store16 (p + 8) device.deviceId
  let m := m.store16 (p + 12) device.command
  let m := m.store16 (p + 10) device.status
  let m := m.store8 (p + 14) device.classCode
  let m := m.store8 (p + 15) device.subclass
  let m := m.store8 (p + 16) device.progIf
  let m := m.store8 (p + 17) device.revisionId
  let m := m.store8 (p + 18) device.bist
  let m := m.store8 (p + 19) device.headerType
  let m := m.store8 (p + 20) device.latencyTimer
  m.store8 (p + 21) device.cacheLineSize

/-! ## `pci_init` -/

/-- The heap and the static variables, with the indices at which `devices` has been written. -/
structure PciState where
  heap : Heap
  devices : Nat → Word
  deviceCount : Word
  stores : List Nat

/-- The state before `pci_init`. -/
def PciState.boot (heap : Heap) : PciState := ⟨heap, fun _ => 0, 0, []⟩

/-- The body of the loop over functions; the first component is `header_type`. -/
def pciFunction (config : ConfigSpace) (b d : Nat) (st : Word × PciState) (f : Nat) :
    Except Halt (Word × PciState) := do
  let (headerType, s) := st
  let bus := BitVec.ofNat 8 b
  let dev := BitVec.ofNat 8 d
  let function := BitVec.ofNat 8 f
  -- reuse the header type for the first function
  let headerType :=
    if 0 < f then (pciHeaderType config bus dev function).setWidth 32 else headerType
  let deviceId := pciDeviceId config bus dev function
  let vendorId := pciVendorId config bus dev function
  if vendorId = 0 ∨ vendorId = 0xFFFF then
    return (headerType, s)
  let (device, heap) ← malloc s.heap sizeofPciDevice
  let mem := storePciDevice heap.mem device {
    bus := BitVec.ofNat 16 b
    device := BitVec.ofNat 16 d
    function := BitVec.ofNat 16 f
    vendorId
    deviceId
    command := pciCommand config bus dev function
    status := pciStatus config bus dev function
    classCode := pciClassCode config bus dev function
    subclass := pciSubclass config bus dev function
    progIf := pciProgIf config bus dev function
    revisionId := pciRevisionId config bus dev function
    bist := pciBist config bus dev function
    headerType := headerType.setWidth 8
    latencyTimer := pciLatencyTimer config bus dev function
    cacheLineSize := pciCacheLineSize config bus dev function }
  return (headerType, {
    heap := { heap with mem }
    devices := fun i => if i = s.deviceCount.toNat then device else s.devices i
    deviceCount := s.deviceCount + 1
    stores := s.stores ++ [s.deviceCount.toNat] })

/-- The body of the loop over devices. -/
def pciSlot (config : ConfigSpace) (b : Nat) (s : PciState) (d : Nat) : Except Halt PciState := do
  let bus := BitVec.ofNat 8 b
  let dev := BitVec.ofNat 8 d
  let headerType : Word := (pciHeaderType config bus dev 0).setWidth 32
  let multifunction := headerType &&& 1 <<< 7 ≠ 0
  let functions := if multifunction then 8 else 1
  let (_, s) ← (List.range functions).foldlM (pciFunction config b d) (headerType, s)
  return s

/-- `pci_init`. -/
def pciInit (config : ConfigSpace) (s : PciState) : Except Halt PciState :=
  (List.range 256).foldlM (fun s b => (List.range 32).foldlM (pciSlot config b) s) s

end Hjortron
