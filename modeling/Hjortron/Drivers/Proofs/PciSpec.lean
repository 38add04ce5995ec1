import Hjortron.Drivers.Pci
import Hjortron.Memory.Proofs.Ledger
import Hjortron.Misc.Run
import Mathlib.Tactic.IntervalCases

/-!
# Enumeration of the PCI bus

`pci_init` visits the functions in the order of their coordinates, and allocates a structure for
each one that is present. It stores the pointers without looking at the size of its table.
-/

namespace Hjortron

/-! ## Statement -/

/-- A function answers with a vendor. -/
def Present (config : ConfigSpace) (a : PciAddress) : Prop :=
  (config a 0).extractLsb' 0 16 ≠ 0 ∧ (config a 0).extractLsb' 0 16 ≠ 0xFFFF

instance (config : ConfigSpace) (a : PciAddress) : Decidable (Present config a) :=
  inferInstanceAs (Decidable (_ ∧ _))

/-- A device with several functions says so in bit 7 of the header type of function 0. -/
def MultifunctionBit (config : ConfigSpace) : Prop :=
  ∀ a, a.function ≠ 0 → Present config a → (config { a with function := 0 } 0xC).getLsbD 23 = true

/-- The fields of a function in the configuration space. -/
def deviceAt (config : ConfigSpace) (a : PciAddress) : PciDevice where
  bus := a.bus.setWidth 16
  device := a.device.setWidth 16
  function := a.function.setWidth 16
  vendorId := (config a 0).extractLsb' 0 16
  deviceId := (config a 0).extractLsb' 16 16
  status := (config a 4).extractLsb' 16 16
  command := (config a 4).extractLsb' 0 16
  classCode := (config a 8).extractLsb' 24 8
  subclass := (config a 8).extractLsb' 16 8
  progIf := (config a 8).extractLsb' 8 8
  revisionId := (config a 8).extractLsb' 0 8
  bist := (config a 0xC).extractLsb' 24 8
  headerType := (config a 0xC).extractLsb' 16 8
  latencyTimer := (config a 0xC).extractLsb' 8 8
  cacheLineSize := (config a 0xC).extractLsb' 0 8

/-- The function with the coordinates `b`, `d` and `f`. -/
def pciAddress (b d f : Nat) : PciAddress := ⟨BitVec.ofNat 8 b, BitVec.ofNat 5 d, BitVec.ofNat 3 f⟩

/-- The functions of a device that are present. -/
def presentInSlot (config : ConfigSpace) (b d : Nat) : List PciAddress :=
  ((List.range 8).map (pciAddress b d)).filter (Present config)

/-- All functions that are present. -/
def presentFunctions (config : ConfigSpace) : List PciAddress :=
  (List.range 256).flatMap fun b => (List.range 32).flatMap (presentInSlot config b)

/-- The coordinates as one number. -/
def PciAddress.number (a : PciAddress) : Nat :=
  256 * a.bus.toNat + 8 * a.device.toNat + a.function.toNat

/-- After `pci_init` the table holds exactly the functions that are present, and nothing has been
written outside of it. -/
structure Enumerated (config : ConfigSpace) (s : PciState) : Prop where
  count : s.deviceCount.toNat = (presentFunctions config).length
  devices : ∀ i a, (presentFunctions config)[i]? = some a →
    loadPciDevice s.heap.mem (s.devices i) = deviceAt config a
  inside : ∀ i ∈ s.stores, i < 0xFF

variable {config : ConfigSpace} {heap : Heap} {s : PciState} {a : PciAddress} {b d f lo hi n : Nat}
  {m m' : Mem} {p x : Word} {done : List PciAddress}

/-! ## The functions that are present -/

theorem mem_presentFunctions : a ∈ presentFunctions config ↔ Present config a := by
  simp only [presentFunctions, presentInSlot, List.mem_flatMap, List.mem_filter, List.mem_map,
    List.mem_range, decide_eq_true_iff]
  constructor
  · rintro ⟨-, -, -, -, -, h⟩
    exact h
  · intro h
    refine ⟨a.bus.toNat, a.bus.isLt, a.device.toNat, a.device.isLt, ⟨a.function.toNat,
      a.function.isLt, ?_⟩, h⟩
    simp [pciAddress]

theorem number_pciAddress (hb : b < 256) (hd : d < 32) (hf : f < 8) :
    (pciAddress b d f).number = 256 * b + 8 * d + f := by
  simp only [PciAddress.number, pciAddress, BitVec.toNat_ofNat]
  omega

theorem number_of_mem_presentInSlot (hb : b < 256) (hd : d < 32)
    (ha : a ∈ presentInSlot config b d) :
    256 * b + 8 * d ≤ a.number ∧ a.number < 256 * b + 8 * d + 8 := by
  obtain ⟨f, hf, rfl⟩ := List.mem_map.mp (List.mem_of_mem_filter ha)
  rw [List.mem_range] at hf
  rw [number_pciAddress hb hd hf]
  omega

theorem presentInSlot_sorted (hb : b < 256) (hd : d < 32) :
    (presentInSlot config b d).Pairwise fun a a' => a.number < a'.number := by
  apply List.Pairwise.filter
  rw [List.pairwise_map]
  apply List.Pairwise.imp_of_mem _ List.pairwise_lt_range
  intro f f' hf hf' hlt
  rw [List.mem_range] at hf hf'
  rw [number_pciAddress hb hd hf, number_pciAddress hb hd hf']
  omega

/-- The list is in the order of bus, device and function, without repetitions. -/
theorem presentFunctions_sorted :
    (presentFunctions config).Pairwise fun a a' => a.number < a'.number := by
  rw [presentFunctions, List.pairwise_flatMap]
  constructor
  · intro b hb
    rw [List.mem_range] at hb
    rw [List.pairwise_flatMap]
    constructor
    · intro d hd
      exact presentInSlot_sorted hb (List.mem_range.mp hd)
    · apply List.Pairwise.imp_of_mem _ List.pairwise_lt_range
      intro d d' hd hd' hlt a ha a' ha'
      have hnumber := number_of_mem_presentInSlot hb (List.mem_range.mp hd) ha
      have hnumber' := number_of_mem_presentInSlot hb (List.mem_range.mp hd') ha'
      omega
  · apply List.Pairwise.imp_of_mem _ List.pairwise_lt_range
    intro b b' hb hb' hlt a ha a' ha'
    obtain ⟨d, hd, ha⟩ := List.mem_flatMap.mp ha
    obtain ⟨d', hd', ha'⟩ := List.mem_flatMap.mp ha'
    rw [List.mem_range] at hb hb' hd hd'
    have hnumber := number_of_mem_presentInSlot hb hd ha
    have hnumber' := number_of_mem_presentInSlot hb' hd' ha'
    omega

theorem number_lt (a : PciAddress) : a.number < 65536 := by
  have hb := a.bus.isLt
  have hd := a.device.isLt
  have hf := a.function.isLt
  unfold PciAddress.number
  omega

theorem nodup_of_sorted {l : List PciAddress}
    (hsorted : l.Pairwise fun a a' => a.number < a'.number) : l.Nodup :=
  hsorted.imp fun hlt heq => absurd (heq ▸ hlt) (Nat.lt_irrefl _)

theorem presentFunctions_nodup : (presentFunctions config).Nodup :=
  nodup_of_sorted presentFunctions_sorted

/-- A list of the functions in the order of their coordinates is the list of those present. -/
theorem presentFunctions_eq {l : List PciAddress}
    (hsorted : l.Pairwise fun a a' => a.number < a'.number)
    (hmem : ∀ a, Present config a ↔ a ∈ l) : presentFunctions config = l := by
  apply List.Perm.eq_of_pairwise ?_ presentFunctions_sorted hsorted
  · apply (List.perm_ext_iff_of_nodup presentFunctions_nodup (nodup_of_sorted hsorted)).mpr
    intro a
    rw [mem_presentFunctions, hmem]
  · intro a a' _ _ hlt hlt'
    omega

theorem length_presentFunctions_le : (presentFunctions config).length ≤ 65536 := by
  have hnodup : ((presentFunctions config).map PciAddress.number).Nodup :=
    (List.pairwise_map.mpr presentFunctions_sorted).imp Nat.ne_of_lt
  have hsub : (presentFunctions config).map PciAddress.number ⊆ List.range 65536 := by
    intro k hk
    obtain ⟨a, -, rfl⟩ := List.mem_map.mp hk
    exact List.mem_range.mpr (number_lt a)
  have hle := (List.subperm_of_subset hnodup hsub).length_le
  rwa [List.length_map, List.length_range] at hle

/-! ## Configuration words -/

section

variable (config : ConfigSpace) (a : PciAddress) (offset : Byte)

theorem getConfigAddress_bus : (getConfigAddress a.bus (a.device.setWidth 8)
    (a.function.setWidth 8) offset).extractLsb' 16 8 = a.bus := by
  ext i hi
  interval_cases i <;> simp [getConfigAddress]

theorem getConfigAddress_device : (getConfigAddress a.bus (a.device.setWidth 8)
    (a.function.setWidth 8) offset).extractLsb' 11 5 = a.device := by
  ext i hi
  interval_cases i <;> simp [getConfigAddress]

theorem getConfigAddress_function : (getConfigAddress a.bus (a.device.setWidth 8)
    (a.function.setWidth 8) offset).extractLsb' 8 3 = a.function := by
  ext i hi
  interval_cases i <;> simp [getConfigAddress]

theorem getConfigAddress_offset : (getConfigAddress a.bus (a.device.setWidth 8)
    (a.function.setWidth 8) offset).extractLsb' 2 6 ++ 0#2 = offset &&& 0xFC := by
  apply BitVec.eq_of_getLsbD_eq
  intro i hi
  rw [BitVec.getLsbD_append]
  interval_cases i <;> simp [getConfigAddress]

theorem getConfigAddress_enabled : (getConfigAddress a.bus (a.device.setWidth 8)
    (a.function.setWidth 8) offset).getLsbD 31 = true := by
  simp [getConfigAddress]

/-- The address is packed so that the word of the function is read. -/
theorem pciRead_eq : pciRead config a.bus (a.device.setWidth 8) (a.function.setWidth 8) offset =
    config a (offset &&& 0xFC) := by
  rw [pciRead, ConfigSpace.port, if_pos (getConfigAddress_enabled a offset), getConfigAddress_bus,
    getConfigAddress_device, getConfigAddress_function, getConfigAddress_offset]

end

theorem high_half (w : Word) : (w >>> 16).setWidth 16 = w.extractLsb' 16 16 := by
  ext i hi
  simp

theorem low_half (w : Word) : (w &&& 0xFFFF).setWidth 16 = w.extractLsb' 0 16 := by
  ext i hi
  interval_cases i <;> simp

theorem shifted_byte (w : Word) (k : Nat) :
    (w >>> k &&& 0xFF).setWidth 8 = w.extractLsb' k 8 := by
  ext i hi
  interval_cases i <;> simp

theorem low_byte (w : Word) : w.setWidth 8 = w.extractLsb' 0 8 := by
  ext i hi
  simp

/-- A coordinate in a wider type. -/
theorem ofNat_eq_setWidth {v w k : Nat} (hk : k < 2 ^ v) :
    BitVec.ofNat w k = (BitVec.ofNat v k).setWidth w := by
  apply BitVec.eq_of_toNat_eq
  rw [BitVec.toNat_setWidth, BitVec.toNat_ofNat, BitVec.toNat_ofNat, Nat.mod_eq_of_lt hk]

/-- What the driver reads at coordinates of the loops. -/
theorem pciRead_loop (hd : d < 32) (hf : f < 8) (offset : Byte) :
    pciRead config (BitVec.ofNat 8 b) (BitVec.ofNat 8 d) (BitVec.ofNat 8 f) offset =
      config (pciAddress b d f) (offset &&& 0xFC) := by
  rw [ofNat_eq_setWidth (show d < 2 ^ 5 from hd), ofNat_eq_setWidth (show f < 2 ^ 3 from hf)]
  exact pciRead_eq config (pciAddress b d f) offset

/-! ## The structure -/

theorem loadPciDevice_storePciDevice (m : Mem) (p : Word) (device : PciDevice) :
    loadPciDevice (storePciDevice m p device) p = device := by
  have hhalf (v : Half) : v.extractLsb' 8 8 ++ v.extractLsb' 0 8 = v := by
    apply BitVec.eq_of_getLsbD_eq
    intro i hi
    rw [BitVec.getLsbD_append]
    by_cases h : i < 8
    · simp [h]
    · simp [h, show 8 + (i - 8) = i by omega, show i - 8 < 8 by omega]
  simp [loadPciDevice, storePciDevice, Mem.store16, Mem.load16, Mem.store8, BitVec.add_assoc, hhalf]

theorem storePciDevice_frame {device : PciDevice} (hx : ¬ InRange p 22 x) :
    storePciDevice m p device x = m x := by
  rw [storePciDevice]
  repeat rw [Mem.store8_member (by decide) hx]
  repeat rw [Mem.store16_member (by decide) hx]

/-- A structure is determined by its bytes. -/
theorem loadPciDevice_congr (h : ∀ x, InRange p 22 x → m x = m' x) :
    loadPciDevice m p = loadPciDevice m' p := by
  have hbyte (k : Nat) (hk : k < 22) : m (p + BitVec.ofNat 32 k) = m' (p + BitVec.ofNat 32 k) :=
    h _ (inRange_add hk (by decide))
  simp (disch := decide) only [loadPciDevice, Mem.load16, BitVec.add_assoc, BitVec.reduceAdd,
    BitVec.ofNat_eq_ofNat, hbyte]

/-! ## One function -/

/-- The header type of a function, as the local variable holds it. -/
def headerTypeAt (config : ConfigSpace) (a : PciAddress) : Word :=
  (deviceAt config a).headerType.setWidth 32

/-- The state after the structure of `a` has been stored at `p`. -/
def PciState.add (s : PciState) (heap : Heap) (p : Word) (device : PciDevice) : PciState where
  heap := { heap with mem := storePciDevice heap.mem p device }
  devices := fun i => if i = s.deviceCount.toNat then p else s.devices i
  deviceCount := s.deviceCount + 1
  stores := s.stores ++ [s.deviceCount.toNat]

theorem pciHeaderType_eq (hd : d < 32) (hf : f < 8) :
    pciHeaderType config (BitVec.ofNat 8 b) (BitVec.ofNat 8 d) (BitVec.ofNat 8 f) =
      (deviceAt config (pciAddress b d f)).headerType := by
  rw [pciHeaderType, pciRead_loop hd hf, shifted_byte]
  rfl

/-- The values of the members are the fields of the function. -/
theorem pciDevice_eq (config : ConfigSpace) (hb : b < 256) (hd : d < 32) (hf : f < 8) :
    ({ bus := BitVec.ofNat 16 b
       device := BitVec.ofNat 16 d
       function := BitVec.ofNat 16 f
       vendorId := pciVendorId config (BitVec.ofNat 8 b) (BitVec.ofNat 8 d) (BitVec.ofNat 8 f)
       deviceId := pciDeviceId config (BitVec.ofNat 8 b) (BitVec.ofNat 8 d) (BitVec.ofNat 8 f)
       command := pciCommand config (BitVec.ofNat 8 b) (BitVec.ofNat 8 d) (BitVec.ofNat 8 f)
       status := pciStatus config (BitVec.ofNat 8 b) (BitVec.ofNat 8 d) (BitVec.ofNat 8 f)
       classCode := pciClassCode config (BitVec.ofNat 8 b) (BitVec.ofNat 8 d) (BitVec.ofNat 8 f)
       subclass := pciSubclass config (BitVec.ofNat 8 b) (BitVec.ofNat 8 d) (BitVec.ofNat 8 f)
       progIf := pciProgIf config (BitVec.ofNat 8 b) (BitVec.ofNat 8 d) (BitVec.ofNat 8 f)
       revisionId := pciRevisionId config (BitVec.ofNat 8 b) (BitVec.ofNat 8 d) (BitVec.ofNat 8 f)
       bist := pciBist config (BitVec.ofNat 8 b) (BitVec.ofNat 8 d) (BitVec.ofNat 8 f)
       headerType := (headerTypeAt config (pciAddress b d f)).setWidth 8
       latencyTimer := pciLatencyTimer config (BitVec.ofNat 8 b) (BitVec.ofNat 8 d)
         (BitVec.ofNat 8 f)
       cacheLineSize := pciCacheLineSize config (BitVec.ofNat 8 b) (BitVec.ofNat 8 d)
         (BitVec.ofNat 8 f) } : PciDevice) = deviceAt config (pciAddress b d f) := by
  have hbus : BitVec.ofNat 16 b = (pciAddress b d f).bus.setWidth 16 := ofNat_eq_setWidth hb
  have hdevice : BitVec.ofNat 16 d = (pciAddress b d f).device.setWidth 16 := ofNat_eq_setWidth hd
  have hfunction : BitVec.ofNat 16 f = (pciAddress b d f).function.setWidth 16 :=
    ofNat_eq_setWidth hf
  have hheader : (headerTypeAt config (pciAddress b d f)).setWidth 8 =
      (deviceAt config (pciAddress b d f)).headerType := by
    apply BitVec.eq_of_toNat_eq
    rw [headerTypeAt, BitVec.toNat_setWidth, BitVec.toNat_setWidth_of_le (by decide)]
    exact Nat.mod_eq_of_lt (BitVec.isLt _)
  simp only [pciVendorId, pciDeviceId, pciCommand, pciStatus, pciClassCode, pciSubclass, pciProgIf,
    pciRevisionId, pciBist, pciLatencyTimer, pciCacheLineSize, pciRead_loop hd hf, high_half,
    low_half, shifted_byte, hheader, hbus, hdevice, hfunction]
  simp only [low_byte]
  rfl

/-- The iteration for a function, with its header type in the variable. -/
theorem pciFunction_eq {headerType : Word} (hb : b < 256) (hd : d < 32) (hf : f < 8)
    (hheader : f = 0 → headerType = headerTypeAt config (pciAddress b d f)) :
    pciFunction config b d (headerType, s) f =
      if Present config (pciAddress b d f) then
        (malloc s.heap sizeofPciDevice).map fun r => (headerTypeAt config (pciAddress b d f),
          s.add r.2 r.1 (deviceAt config (pciAddress b d f)))
      else
        .ok (headerTypeAt config (pciAddress b d f), s) := by
  have hreread : (if 0 < f then
      (pciHeaderType config (BitVec.ofNat 8 b) (BitVec.ofNat 8 d) (BitVec.ofNat 8 f)).setWidth 32
      else headerType) = headerTypeAt config (pciAddress b d f) := by
    split
    · rw [pciHeaderType_eq hd hf]
      rfl
    · exact hheader (by omega)
  have hvendor : pciVendorId config (BitVec.ofNat 8 b) (BitVec.ofNat 8 d) (BitVec.ofNat 8 f) =
      (config (pciAddress b d f) 0).extractLsb' 0 16 := by
    rw [pciVendorId, pciRead_loop hd hf, low_half]
    rfl
  have hdevice := pciDevice_eq config hb hd hf
  rw [hvendor] at hdevice
  simp only [pciFunction, hreread, hvendor, hdevice]
  by_cases hpresent : Present config (pciAddress b d f)
  · rw [if_pos hpresent, if_neg (not_or.mpr hpresent)]
    cases malloc s.heap sizeofPciDevice with
    | error e => rfl
    | ok r => rfl
  · rw [if_neg hpresent, if_pos]
    · rfl
    · by_contra hor
      exact hpresent (not_or.mp hor)

/-! ## The loops -/

/-- The state when the functions in `done` have been stored and room for `n` functions in all has
been left: each has a live block with its fields. -/
structure Enumerating (config : ConfigSpace) (lo hi n : Nat) (s : PciState)
    (done : List PciAddress) : Prop where
  count : s.deviceCount.toNat = done.length
  stores : s.stores = List.range done.length
  blocks : ∃ live, Roomy lo hi s.heap live (38 * (n - done.length) + 1) ∧
    ∀ i a, done[i]? = some a → (s.devices i, sizeofPciDevice) ∈ live ∧
      loadPciDevice s.heap.mem (s.devices i) = deviceAt config a

/-- One more function: neither the new block nor its header overlaps the structures so far. -/
theorem Enumerating.add (h : Enumerating config lo hi n s done) (hlen : done.length + 1 ≤ n)
    (hn : n ≤ 65536) (a : PciAddress) :
    ∃ p heap, malloc s.heap sizeofPciDevice = .ok (p, heap) ∧
      Enumerating config lo hi n (s.add heap p (deviceAt config a)) (done ++ [a]) := by
  obtain ⟨live, hroomy, hdevices⟩ := h.blocks
  have hroom : 38 * (n - done.length) + 1 =
      sizeofPciDevice.toNat + 16 + (38 * (n - (done.length + 1)) + 1) := by
    show _ = 22 + 16 + _
    omega
  rw [hroom] at hroomy
  obtain ⟨p, heap, hmalloc, hroomy'⟩ := hroomy.malloc_rest (by decide) (Nat.succ_pos _)
  have hframe := (hroomy.ledger.malloc hmalloc).frame
  refine ⟨p, heap, hmalloc, ?_, ?_, (p, sizeofPciDevice) :: live, ?_, ?_⟩
  · show (s.deviceCount + 1).toNat = _
    have hcount := h.count
    rw [List.length_append, List.length_singleton]
    bv_omega
  · show s.stores ++ [s.deviceCount.toNat] = _
    rw [h.stores, h.count, List.length_append, List.length_singleton, List.range_succ]
  · rw [List.length_append, List.length_singleton]
    apply hroomy'.write
    intro x hx
    exact storePciDevice_frame fun hin => hx (.inr (.inr ⟨_, List.mem_cons_self .., hin⟩))
  · intro i a' ha'
    show (if i = s.deviceCount.toNat then p else s.devices i, _) ∈ _ ∧
      loadPciDevice (storePciDevice heap.mem p _) (if i = s.deviceCount.toNat then p
        else s.devices i) = _
    rw [h.count]
    by_cases hlast : i = done.length
    · rw [hlast, List.getElem?_concat_length] at ha'
      rw [if_pos hlast, ← Option.some.inj ha', loadPciDevice_storePciDevice]
      exact ⟨List.mem_cons_self .., rfl⟩
    · have hlt : i < done.length := by
        have := (List.getElem?_eq_some_iff.mp ha').1
        rw [List.length_append, List.length_singleton] at this
        omega
      rw [List.getElem?_append_left hlt] at ha'
      obtain ⟨hlive, hload⟩ := hdevices i a' ha'
      rw [if_neg hlast, ← hload]
      refine ⟨List.mem_cons_of_mem _ hlive, loadPciDevice_congr fun x hx => ?_⟩
      have hstable : Stable lo hi live x := .inr (.inr ⟨_, hlive, hx⟩)
      rw [storePciDevice_frame (hroomy'.ledger.not_inRange hstable), hframe x hstable]

/-- The function, if it is present. -/
def ifPresent (config : ConfigSpace) (a : PciAddress) : List PciAddress :=
  if Present config a then [a] else []

theorem filter_present (config : ConfigSpace) (b d : Nat) (fs : List Nat) :
    (fs.map (pciAddress b d)).filter (Present config) =
      fs.flatMap fun f => ifPresent config (pciAddress b d f) := by
  induction fs with
  | nil => rfl
  | cons f fs ih =>
    rw [List.map_cons, List.filter_cons, ih, List.flatMap_cons, ifPresent]
    by_cases hpresent : Present config (pciAddress b d f) <;> simp [hpresent]

theorem pciFunction_step {headerType : Word} (hb : b < 256) (hd : d < 32) (hf : f < 8)
    (hheader : f = 0 → headerType = headerTypeAt config (pciAddress b d f))
    (h : Enumerating config lo hi n s done) (hn : n ≤ 65536)
    (hlen : (done ++ ifPresent config (pciAddress b d f)).length ≤ n) :
    ∃ t, pciFunction config b d (headerType, s) f = .ok t ∧
      Enumerating config lo hi n t.2 (done ++ ifPresent config (pciAddress b d f)) := by
  rw [pciFunction_eq hb hd hf hheader]
  unfold ifPresent at hlen ⊢
  by_cases hpresent : Present config (pciAddress b d f)
  · rw [if_pos hpresent] at hlen ⊢
    rw [List.length_append, List.length_singleton] at hlen
    obtain ⟨p, heap, hmalloc, hadd⟩ := h.add hlen hn (pciAddress b d f)
    rw [if_pos hpresent, hmalloc]
    exact ⟨_, rfl, hadd⟩
  · rw [if_neg hpresent, if_neg hpresent, List.append_nil]
    exact ⟨_, rfl, h⟩

/-- The loop over functions of a device, with the header type of function 0 in the variable. -/
theorem pciFunctions_step (k : Nat) (hb : b < 256) (hd : d < 32) (hk : k < 8)
    (h : Enumerating config lo hi n s done) (hn : n ≤ 65536)
    (hlen : (done ++ (List.range (k + 1)).flatMap
      fun f => ifPresent config (pciAddress b d f)).length ≤ n) :
    ∃ t, (List.range (k + 1)).foldlM (pciFunction config b d)
        (headerTypeAt config (pciAddress b d 0), s) = .ok t ∧
      Enumerating config lo hi n t.2 (done ++ (List.range (k + 1)).flatMap
        fun f => ifPresent config (pciAddress b d f)) := by
  rw [List.range_succ_eq_map, List.flatMap_cons, ← List.append_assoc] at hlen ⊢
  have hfirst : (done ++ ifPresent config (pciAddress b d 0)).length ≤ n := by
    rw [List.length_append] at hlen
    exact Nat.le_trans (Nat.le_add_right _ _) hlen
  obtain ⟨u, hu, henum⟩ := pciFunction_step hb hd (by decide) (fun _ => rfl) h hn hfirst
  rw [List.foldlM_cons, hu]
  let Inv (t : Word × PciState) (done : List PciAddress) := Enumerating config lo hi n t.2 done
  apply foldlM_collect (I := Inv) _ henum hlen
  intro f hf t done ht hlen
  obtain ⟨f', hf', rfl⟩ := List.mem_map.mp hf
  rw [List.mem_range] at hf'
  exact pciFunction_step hb hd (by omega) (fun hzero => absurd hzero (Nat.succ_ne_zero _)) ht hn
    hlen

/-- Bit 7 of the header type is bit 23 of the configuration word. -/
theorem multifunction_iff : headerTypeAt config a &&& 1 <<< 7 ≠ 0 ↔
    (config a 0xC).getLsbD 23 = true := by
  have hbit : (headerTypeAt config a).getLsbD 7 = (config a 0xC).getLsbD 23 := by
    simp [headerTypeAt, deviceAt]
  have hmask : (1 <<< 7 : Word) = BitVec.twoPow 32 7 := by decide
  rw [hmask, BitVec.and_twoPow, hbit]
  cases (config a 0xC).getLsbD 23 <;> decide

/-- A device without the bit has no functions above 0. -/
theorem presentInSlot_of_single (hrule : MultifunctionBit config)
    (hsingle : (config (pciAddress b d 0) 0xC).getLsbD 23 = false) :
    presentInSlot config b d = ifPresent config (pciAddress b d 0) := by
  have habsent (f : Nat) (hf : f ∈ List.range 7) :
      ifPresent config (pciAddress b d (f + 1)) = [] := by
    rw [List.mem_range] at hf
    rw [ifPresent, if_neg]
    intro hpresent
    have hne : (pciAddress b d (f + 1)).function ≠ 0 := by
      intro hzero
      have hnat := congrArg BitVec.toNat hzero
      simp only [pciAddress, BitVec.toNat_ofNat, BitVec.ofNat_eq_ofNat] at hnat
      omega
    have haddress : { pciAddress b d (f + 1) with function := 0 } = pciAddress b d 0 := rfl
    have hbit := hrule _ hne hpresent
    rw [haddress, hsingle] at hbit
    cases hbit
  rw [presentInSlot, filter_present, List.range_succ_eq_map, List.flatMap_cons, List.flatMap_map,
    List.flatMap_eq_nil_iff.mpr habsent, List.append_nil]

/-- One device. -/
theorem pciSlot_step (hrule : MultifunctionBit config) (hb : b < 256) (hd : d < 32)
    (h : Enumerating config lo hi n s done) (hn : n ≤ 65536)
    (hlen : (done ++ presentInSlot config b d).length ≤ n) :
    ∃ t, pciSlot config b s d = .ok t ∧
      Enumerating config lo hi n t (done ++ presentInSlot config b d) := by
  have hheader : ((pciHeaderType config (BitVec.ofNat 8 b) (BitVec.ofNat 8 d) 0).setWidth 32 :
      Word) = headerTypeAt config (pciAddress b d 0) :=
    congrArg (BitVec.setWidth 32) (pciHeaderType_eq hd (by decide))
  simp only [pciSlot, hheader]
  by_cases hmulti : headerTypeAt config (pciAddress b d 0) &&& 1 <<< 7 ≠ 0
  · rw [presentInSlot, filter_present] at hlen ⊢
    obtain ⟨t, ht, henum⟩ := pciFunctions_step 7 hb hd (by decide) h hn hlen
    rw [if_pos hmulti, ht]
    exact ⟨_, rfl, henum⟩
  · have hsingle := presentInSlot_of_single (b := b) (d := d) hrule
      (Bool.eq_false_iff.mpr fun hbit => hmulti (multifunction_iff.mpr hbit))
    rw [hsingle, ← List.append_nil (ifPresent _ _)] at hlen ⊢
    obtain ⟨t, ht, henum⟩ := pciFunctions_step 0 hb hd (by decide) h hn hlen
    rw [if_neg hmulti, ht]
    exact ⟨_, rfl, henum⟩

/-- The whole bus. -/
theorem pciInit_enumerating (hrule : MultifunctionBit config) (hn : n ≤ 65536)
    (h : Enumerating config lo hi n s []) (hlen : (presentFunctions config).length ≤ n) :
    ∃ t, pciInit config s = .ok t ∧ Enumerating config lo hi n t (presentFunctions config) := by
  rw [← List.nil_append (presentFunctions config), presentFunctions] at hlen ⊢
  apply foldlM_collect (I := Enumerating config lo hi n) _ h hlen
  intro b hb s done hs hlen
  apply foldlM_collect (I := Enumerating config lo hi n) _ hs hlen
  intro d hd s done hs hlen
  exact pciSlot_step hrule (List.mem_range.mp hb) (List.mem_range.mp hd) hs hn hlen

/-- With room on the heap for the structures `pci_init` returns. -/
theorem pciInit_boot (hrule : MultifunctionBit config) {bs : List BlockList.Block}
    (hheap : HeapInv heap bs)
    (hroom : ∃ b ∈ bs, b.Fits (38 * (presentFunctions config).length + 1)) :
    ∃ t, pciInit config (.boot heap) = .ok t ∧ Enumerating config 0 (2 ^ 32)
      (presentFunctions config).length t (presentFunctions config) := by
  obtain ⟨b, hb, hfit⟩ := hroom
  obtain ⟨live, hroomy⟩ := hheap.roomy hb hfit
  exact pciInit_enumerating hrule length_presentFunctions_le
    ⟨rfl, rfl, live, hroomy, fun i a ha => by cases ha⟩ le_rfl

/-- **Enumeration of the bus.** With room on the heap for the structures, `pci_init` stores exactly
the functions that are present, in order and with their fields, without writing outside of its
table, exactly if there are at most 255 of them. -/
theorem pciInit_enumerated_iff (config : ConfigSpace) (hrule : MultifunctionBit config)
    (heap : Heap) (bs : List BlockList.Block) (hheap : HeapInv heap bs)
    (hroom : ∃ b ∈ bs, b.Fits (38 * (presentFunctions config).length + 1)) :
    (∃ s, pciInit config (.boot heap) = .ok s ∧ Enumerated config s) ↔
      (presentFunctions config).length ≤ 0xFF := by
  obtain ⟨t, hrun, henum⟩ := pciInit_boot hrule hheap hroom
  constructor
  · rintro ⟨s, hs, henumerated⟩
    obtain rfl : t = s := Except.ok.inj (hrun.symm.trans hs)
    by_contra hmany
    have hstore : 0xFF ∈ t.stores := by
      rw [henum.stores]
      exact List.mem_range.mpr (by omega)
    exact absurd (henumerated.inside _ hstore) (by decide)
  · intro hfew
    obtain ⟨live, -, hdevices⟩ := henum.blocks
    refine ⟨t, hrun, henum.count, fun i a ha => (hdevices i a ha).2, fun i hi => ?_⟩
    rw [henum.stores, List.mem_range] at hi
    omega

/-- A bus with a host bridge at device 0, and at device 1 a bridge with its functions 0, 1 and 3. -/
def chipset : ConfigSpace := fun a offset =>
  if a = ⟨0, 0, 0⟩ then
    if offset = 0 then 0x12378086 else if offset = 8 then 0x06000002 else 0
  else if a = ⟨0, 1, 0⟩ then
    if offset = 0 then 0x70008086 else if offset = 8 then 0x06010000
    else if offset = 0xC then 0x00800000 else 0
  else if a = ⟨0, 1, 1⟩ then
    if offset = 0 then 0x70108086 else if offset = 8 then 0x01018000 else 0
  else if a = ⟨0, 1, 3⟩ then
    if offset = 0 then 0x71138086 else if offset = 8 then 0x06800003 else 0
  else 0xFFFFFFFF

theorem present_chipset :
    Present chipset a ↔ a ∈ [⟨0, 0, 0⟩, ⟨0, 1, 0⟩, ⟨0, 1, 1⟩, (⟨0, 1, 3⟩ : PciAddress)] := by
  constructor
  · intro ha
    by_contra hmem
    simp only [List.mem_cons, List.not_mem_nil, or_false, not_or] at hmem
    apply ha.2
    rw [chipset, if_neg hmem.1, if_neg hmem.2.1, if_neg hmem.2.2.1, if_neg hmem.2.2.2]
    decide
  · intro hmem
    simp only [List.mem_cons, List.not_mem_nil, or_false] at hmem
    rcases hmem with rfl | rfl | rfl | rfl <;> decide

theorem presentFunctions_chipset :
    presentFunctions chipset = [⟨0, 0, 0⟩, ⟨0, 1, 0⟩, ⟨0, 1, 1⟩, ⟨0, 1, 3⟩] := by
  apply presentFunctions_eq (by decide)
  intro a
  exact present_chipset

/-- Four functions on two devices. -/
theorem pciInit_enumerated_iff_chipset :
    MultifunctionBit chipset ∧ (presentFunctions chipset).length = 4 ∧
      ∃ s, pciInit chipset (.boot (oneChunk (fun _ => 0) 0x100000 0x1000000)) = .ok s ∧
        Enumerated chipset s := by
  have hrule : MultifunctionBit chipset := by
    intro a hne ha
    have hmem := present_chipset.mp ha
    simp only [List.mem_cons, List.not_mem_nil, or_false] at hmem
    rcases hmem with rfl | rfl | rfl | rfl
    · exact absurd rfl hne
    · exact absurd rfl hne
    · decide
    · decide
  have hlen : (presentFunctions chipset).length = 4 := by
    rw [presentFunctions_chipset]
    rfl
  refine ⟨hrule, hlen, (pciInit_enumerated_iff chipset hrule _ _
    (heapInv_oneChunk (by decide) (by decide)) ⟨_, List.mem_singleton_self _, rfl, ?_⟩).mpr
      (by omega)⟩
  show _ ≤ 0x1000000
  omega

/-- A bus on which all functions of all devices are present. -/
def crowdedBus : ConfigSpace := fun a offset =>
  if a.bus = 0 then
    if offset = 0xC then 0x00800000 else 0x12378086
  else 0xFFFFFFFF

/-- Its functions. -/
def crowdedFunctions : List PciAddress :=
  (List.range 256).map fun k => ⟨0, BitVec.ofNat 5 (k / 8), BitVec.ofNat 3 (k % 8)⟩

/-- The last of its 256 functions is stored behind the table. -/
theorem pciInit_leaves_table : MultifunctionBit crowdedBus ∧
    ∃ s, pciInit crowdedBus (.boot (oneChunk (fun _ => 0) 0x100000 0x1000000)) = .ok s ∧
      ¬ ∀ i ∈ s.stores, i < 0xFF := by
  have hpresent (a : PciAddress) : Present crowdedBus a ↔ a.bus = 0 := by
    constructor
    · intro ha
      by_contra hne
      apply ha.2
      rw [crowdedBus, if_neg hne]
      decide
    · intro hbus
      rw [Present, crowdedBus, if_pos hbus]
      decide
  have hrule : MultifunctionBit crowdedBus := by
    intro a _ ha
    rw [crowdedBus, if_pos ((hpresent a).mp ha)]
    decide
  have hnodup : crowdedFunctions.Nodup := by
    apply List.Nodup.of_map PciAddress.number
    have hrange : crowdedFunctions.map PciAddress.number = List.range 256 := by decide +kernel
    rw [hrange]
    exact List.nodup_range
  have hsub : crowdedFunctions ⊆ presentFunctions crowdedBus := by
    intro a ha
    obtain ⟨k, -, rfl⟩ := List.mem_map.mp ha
    exact mem_presentFunctions.mpr ((hpresent _).mpr rfl)
  have hmany : 256 ≤ (presentFunctions crowdedBus).length := by
    have hle := (List.subperm_of_subset hnodup hsub).length_le
    rwa [crowdedFunctions, List.length_map, List.length_range] at hle
  have hfit : 38 * (presentFunctions crowdedBus).length + 1 ≤ 0x1000000 := by
    have hle : (presentFunctions crowdedBus).length ≤ 65536 := length_presentFunctions_le
    omega
  have hheap : HeapInv (oneChunk (fun _ => 0) 0x100000 0x1000000) [⟨0x100000, 0x1000000, false⟩] :=
    heapInv_oneChunk (by decide) (by decide)
  obtain ⟨t, hrun, henum⟩ := pciInit_boot hrule hheap ⟨_, List.mem_singleton_self _, rfl, hfit⟩
  refine ⟨hrule, t, hrun, fun hinside => ?_⟩
  have hstore : 0xFF ∈ t.stores := by
    rw [henum.stores]
    exact List.mem_range.mpr (by omega)
  exact absurd (hinside _ hstore) (by decide)

end Hjortron
