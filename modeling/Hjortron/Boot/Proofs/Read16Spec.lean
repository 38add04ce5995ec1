import Hjortron.Boot.Proofs.ReadFileSpec
import Hjortron.Boot.Read16

/-!
# Sector numbers on hard disks

The BIOS packs the two high bits of the largest cylinder number into the register with the number
of sectors per track. `start` stores this register whole, so that `read16` divides by too large a
number on every disk with more than 256 cylinders.
-/

namespace Hjortron

/-! ## The packed registers -/

/-- The sectors per track. -/
def DriveParameters.sectors (r : DriveParameters) : Nat := r.cl.toNat % 64

/-- The maximum cylinder number. -/
def DriveParameters.maxCylinder (r : DriveParameters) : Nat := r.ch.toNat + 256 * (r.cl.toNat / 64)

/-- The maximum head number. -/
def DriveParameters.maxHead (r : DriveParameters) : Nat := r.dh.toNat

/-- The number of sectors of the drive. -/
def DriveParameters.total (r : DriveParameters) : Nat :=
  (r.maxCylinder + 1) * (r.maxHead + 1) * r.sectors

/-- The sector of a call of `int 0x13`. -/
def Int13.sector (i : Int13) : Nat := i.cl.toNat % 64

/-- The cylinder of a call of `int 0x13`. -/
def Int13.cylinder (i : Int13) : Nat := i.ch.toNat + 256 * (i.cl.toNat / 64)

/-- The head of a call of `int 0x13`. -/
def Int13.head (i : Int13) : Nat := i.dh.toNat

/-- The call addresses sector number `lba` of the drive. -/
structure DriveParameters.Addresses (r : DriveParameters) (lba : Nat) (i : Int13) : Prop where
  sector : 1 ≤ i.sector ∧ i.sector ≤ r.sectors
  head : i.head ≤ r.maxHead
  lba : (i.cylinder * (r.maxHead + 1) + i.head) * r.sectors + (i.sector - 1) = lba

variable {r : DriveParameters} {geometry : BootGeometry} {bpb : BootGeometry} {lba : Half}

/-- Cylinder, head and sector number determine a sector. -/
theorem chs_eq (lba sectors heads : Nat) :
    (lba / sectors / heads * heads + lba / sectors % heads) * sectors + lba % sectors = lba := by
  rw [Nat.div_add_mod', Nat.div_add_mod']

theorem DriveParameters.sectors_lt (r : DriveParameters) : r.sectors < 64 :=
  Nat.mod_lt _ (by decide)

/-! ## `start` -/

theorem toNat_setLowByte {w : Half} (hw : w.toNat < 256) (b : Byte) :
    (setLowByte w b).toNat = b.toNat := by
  have hhigh : (w.extractLsb' 8 8).toNat = 0 := by
    rw [BitVec.extractLsb'_toNat, Nat.shiftRight_eq_div_pow]
    omega
  rw [setLowByte, append_toNat, hhigh]
  omega

/-- On a hard disk the low bits of the two fields are the registers of the BIOS. -/
theorem startGeometry_toNat {dl : Byte} (hdl : dl &&& 0x80 ≠ 0)
    (hspt : bpb.sectorsPerTrack.toNat < 256) (hhpc : bpb.headsPerCylinder.toNat < 256)
    (hdh : r.dh.toNat ≤ 254) :
    (startGeometry bpb dl r).sectorsPerTrack.toNat = r.cl.toNat ∧
      (startGeometry bpb dl r).headsPerCylinder.toNat = r.maxHead + 1 := by
  have hinc : (r.dh + 1).toNat = r.dh.toNat + 1 := by bv_omega
  rw [startGeometry, if_neg hdl]
  exact ⟨toNat_setLowByte hspt _, (toNat_setLowByte hhpc _).trans hinc⟩

/-! ## `read16` -/

/-- `div` of a word, with `dx` cleared. -/
theorem div16_half (ax : Half) {d : Half} (hd : d ≠ 0) :
    div16 (ax.setWidth 32) d = .ok (ax / d, ax % d) := by
  have hax := ax.isLt
  have hq : ((ax.setWidth 32 : Word) / d.setWidth 32).toNat = ax.toNat / d.toNat := by
    rw [BitVec.toNat_udiv, BitVec.toNat_setWidth_of_le (by omega),
      BitVec.toNat_setWidth_of_le (by omega)]
  have hr : ((ax.setWidth 32 : Word) % d.setWidth 32).toNat = ax.toNat % d.toNat := by
    rw [BitVec.toNat_umod, BitVec.toNat_setWidth_of_le (by omega),
      BitVec.toNat_setWidth_of_le (by omega)]
  have hle : ax.toNat / d.toNat ≤ ax.toNat := Nat.div_le_self _ _
  have hmod : ax.toNat % d.toNat ≤ ax.toNat := Nat.mod_le _ _
  have hquot : ((ax.setWidth 32 : Word) / d.setWidth 32).setWidth 16 = ax / d := by
    apply BitVec.eq_of_toNat_eq
    rw [BitVec.toNat_setWidth, hq, BitVec.toNat_udiv, Nat.mod_eq_of_lt (by omega)]
  have hrem : ((ax.setWidth 32 : Word) % d.setWidth 32).setWidth 16 = ax % d := by
    apply BitVec.eq_of_toNat_eq
    rw [BitVec.toNat_setWidth, hr, BitVec.toNat_umod, Nat.mod_eq_of_lt (by omega)]
  rw [div16, if_neg hd, hq, if_neg (by omega), hquot, hrem]

/-- `read16` divides by a geometry without zeros. -/
theorem read16_eq (bootDrive al : Byte) (lba : Half) (hspt : geometry.sectorsPerTrack ≠ 0)
    (hhpc : geometry.headsPerCylinder ≠ 0) :
    read16 geometry bootDrive al lba =
      .ok {
        ah := 0x02, al, dl := bootDrive
        ch := (lba / geometry.sectorsPerTrack / geometry.headsPerCylinder).setWidth 8
        cl := ((lba % geometry.sectorsPerTrack).setWidth 8 + 1 : Byte) |||
          (lba / geometry.sectorsPerTrack / geometry.headsPerCylinder).extractLsb' 8 8 <<< 6
        dh := (lba / geometry.sectorsPerTrack % geometry.headsPerCylinder).setWidth 8 } := by
  simp only [read16, div16_half _ hspt, div16_half _ hhpc, bind, Except.bind, pure, Except.pure]

/-- A cylinder number below 256 leaves the high bits of `cl` clear. -/
theorem cl_of_cylinder_lt {c : Half} (hc : c.toNat < 256) (s : Byte) :
    s ||| c.extractLsb' 8 8 <<< 6 = s := by
  have hhigh : c.extractLsb' 8 8 = 0 := by
    apply BitVec.eq_of_toNat_eq
    rw [BitVec.extractLsb'_toNat, Nat.shiftRight_eq_div_pow, Nat.div_eq_of_lt hc]
    rfl
  rw [hhigh]
  exact BitVec.or_zero

/-- Where the cylinder number is below 256, `read16` passes on quotients and remainders. -/
theorem read16_toNat (geometry : BootGeometry) (bootDrive al : Byte) (lba : Half)
    (hspt : 1 ≤ geometry.sectorsPerTrack.toNat)
    (hspt' : geometry.sectorsPerTrack.toNat < 256)
    (hhpc : 1 ≤ geometry.headsPerCylinder.toNat) (hhpc' : geometry.headsPerCylinder.toNat < 256)
    (hc : lba.toNat / geometry.sectorsPerTrack.toNat / geometry.headsPerCylinder.toNat < 256) :
    ∃ i, read16 geometry bootDrive al lba = .ok i ∧
      i.ch.toNat = lba.toNat / geometry.sectorsPerTrack.toNat /
        geometry.headsPerCylinder.toNat ∧
      i.cl.toNat = lba.toNat % geometry.sectorsPerTrack.toNat + 1 ∧
      i.dh.toNat = lba.toNat / geometry.sectorsPerTrack.toNat %
        geometry.headsPerCylinder.toNat := by
  have hcylinder : (lba / geometry.sectorsPerTrack / geometry.headsPerCylinder).toNat =
      lba.toNat / geometry.sectorsPerTrack.toNat / geometry.headsPerCylinder.toNat := by
    rw [BitVec.toNat_udiv, BitVec.toNat_udiv]
  have hsector := Nat.mod_lt lba.toNat hspt
  have hhead := Nat.mod_lt (lba.toNat / geometry.sectorsPerTrack.toNat) hhpc
  refine ⟨_, read16_eq bootDrive al lba ?_ ?_, ?_, ?_, ?_⟩
  · intro h
    rw [h] at hspt
    exact absurd hspt (by decide)
  · intro h
    rw [h] at hhpc
    exact absurd hhpc (by decide)
  · show BitVec.toNat (BitVec.setWidth 8 _) = _
    rw [BitVec.toNat_setWidth, hcylinder, Nat.mod_eq_of_lt hc]
  · show BitVec.toNat (_ ||| _) = _
    rw [cl_of_cylinder_lt (by omega), BitVec.toNat_add, BitVec.toNat_setWidth, BitVec.toNat_umod]
    show (_ % 256 + 1) % 256 = _
    omega
  · show BitVec.toNat (BitVec.setWidth 8 _) = _
    rw [BitVec.toNat_setWidth, BitVec.toNat_umod, BitVec.toNat_udiv]
    exact Nat.mod_eq_of_lt (by omega)

/-! ## Geometries -/

/-- On a disk with at most 256 cylinders every sector is addressed. -/
theorem DriveParameters.addresses_of_lt (bootDrive al : Byte) (hs : 1 ≤ r.sectors)
    (hdh : r.dh.toNat ≤ 254) (hspt : geometry.sectorsPerTrack.toNat = r.cl.toNat)
    (hhpc : geometry.headsPerCylinder.toNat = r.maxHead + 1) (hmax : r.maxCylinder < 256)
    (hlba : lba.toNat < r.total) :
    ∃ i, read16 geometry bootDrive al lba = .ok i ∧ r.Addresses lba.toNat i := by
  have hlt := r.sectors_lt
  have hcl : r.cl.toNat = r.sectors := by
    unfold maxCylinder at hmax
    unfold sectors
    omega
  rw [hcl] at hspt
  have hcylinder : lba.toNat / r.sectors / (r.maxHead + 1) < 256 := by
    have hlba' : lba.toNat < (r.maxCylinder + 1) * ((r.maxHead + 1) * r.sectors) := by
      rwa [← Nat.mul_assoc]
    rw [Nat.div_div_eq_div_mul, Nat.mul_comm r.sectors]
    exact Nat.lt_of_lt_of_le (Nat.div_lt_of_lt_mul (by rwa [Nat.mul_comm])) hmax
  obtain ⟨i, hrun, hch, hcl, hdh'⟩ := read16_toNat geometry bootDrive al lba
    (by omega) (by omega) (by omega) (by unfold maxHead at hhpc; omega) (by rwa [hspt, hhpc])
  rw [hspt, hhpc] at hch hdh'
  rw [hspt] at hcl
  have hsector := Nat.mod_lt lba.toNat hs
  have hisector : i.sector = lba.toNat % r.sectors + 1 := by
    unfold Int13.sector
    omega
  have hicylinder : i.cylinder = lba.toNat / r.sectors / (r.maxHead + 1) := by
    unfold Int13.cylinder
    omega
  refine ⟨i, hrun, ⟨by omega, by omega⟩, ?_, ?_⟩
  · rw [Int13.head, hdh']
    exact Nat.le_of_lt_succ (Nat.mod_lt _ (Nat.succ_pos _))
  · rw [hisector, hicylinder, Int13.head, hdh', Nat.add_sub_cancel]
    exact chs_eq _ _ _

/-- On a disk with more cylinders the first sector of the second track is not. -/
theorem DriveParameters.not_addresses (bootDrive al : Byte) (hs : 1 ≤ r.sectors)
    (hdh : r.dh.toNat ≤ 254) (hspt : geometry.sectorsPerTrack.toNat = r.cl.toNat)
    (hhpc : geometry.headsPerCylinder.toNat = r.maxHead + 1) (hmax : 256 ≤ r.maxCylinder)
    (hlba : lba.toNat = r.sectors) {i : Int13} (hrun : read16 geometry bootDrive al lba = .ok i) :
    ¬ r.Addresses lba.toNat i := by
  have hlt := r.sectors_lt
  have hclt := r.cl.isLt
  have hcl : r.sectors < r.cl.toNat := by
    have hch := r.ch.isLt
    unfold maxCylinder at hmax
    unfold sectors
    omega
  have hdiv : lba.toNat / r.cl.toNat = 0 := Nat.div_eq_of_lt (by omega)
  obtain ⟨i', hrun', -, hcl', -⟩ := read16_toNat geometry bootDrive al lba
    (by omega) (by omega) (by omega) (by unfold maxHead at hhpc; omega)
    (by rw [hspt, hdiv, Nat.zero_div]; decide)
  obtain rfl : i' = i := Except.ok.inj (hrun'.symm.trans hrun)
  rw [hspt, Nat.mod_eq_of_lt (by omega)] at hcl'
  intro h
  have hsector := h.sector
  unfold Int13.sector at hsector
  omega

/-- **Sector addresses on hard disks.** With the geometry that `start` stores, `read16` addresses
every 16-bit sector number of the drive exactly if its largest cylinder number is below 256. -/
theorem read16_addresses_iff (bpb : BootGeometry) (dl al : Byte) (r : DriveParameters)
    (hdl : dl &&& 0x80 ≠ 0) (hs : 1 ≤ r.sectors) (hdh : r.dh.toNat ≤ 254)
    (hspt : bpb.sectorsPerTrack.toNat < 256) (hhpc : bpb.headsPerCylinder.toNat < 256) :
    (∀ lba : Half, lba.toNat < r.total →
      ∃ i, read16 (startGeometry bpb dl r) dl al lba = .ok i ∧ r.Addresses lba.toNat i) ↔
      r.maxCylinder < 256 := by
  obtain ⟨hspt', hhpc'⟩ := startGeometry_toNat (r := r) hdl hspt hhpc hdh
  constructor
  · intro h
    by_contra hmax
    rw [Nat.not_lt] at hmax
    have hlt := r.sectors_lt
    have hlba : (BitVec.ofNat 16 r.sectors).toNat = r.sectors := by
      rw [BitVec.toNat_ofNat, Nat.mod_eq_of_lt (by omega)]
    have htotal : r.sectors < r.total := by
      have hmany : 1 < (r.maxCylinder + 1) * (r.maxHead + 1) := by
        have hle : r.maxCylinder + 1 ≤ (r.maxCylinder + 1) * (r.maxHead + 1) :=
          Nat.le_mul_of_pos_right _ (Nat.succ_pos _)
        omega
      exact (Nat.lt_mul_iff_one_lt_left hs).mpr hmany
    obtain ⟨i, hrun, haddress⟩ := h (BitVec.ofNat 16 r.sectors) (by rwa [hlba])
    exact DriveParameters.not_addresses dl al hs hdh hspt' hhpc' hmax hlba hrun haddress
  · intro hmax lba hlba
    exact DriveParameters.addresses_of_lt dl al hs hdh hspt' hhpc' hmax hlba

/-- The largest sector number on a disk with 256 cylinders of 16 heads and 63 sectors. -/
theorem read16_addresses_small :
    ∃ i, read16 (startGeometry ⟨0, 0⟩ 0x80 ⟨0xFF, 63, 15⟩) 0x80 1 0xFFFF = .ok i ∧
      DriveParameters.Addresses ⟨0xFF, 63, 15⟩ (0xFFFF : Half).toNat i :=
  (read16_addresses_iff ⟨0, 0⟩ 0x80 1 ⟨0xFF, 63, 15⟩ (by decide) (by decide) (by decide)
    (by decide) (by decide)).mpr (by decide) 0xFFFF (by decide)

/-- A disk with 257 cylinders of 16 heads and 63 sectors: sector number 63 is the first of head 1,
but `read16` passes on sector 0 of cylinder 256. -/
theorem read16_misses_large : (63 : Half).toNat < DriveParameters.total ⟨0, 127, 15⟩ ∧
    read16 (startGeometry ⟨0, 0⟩ 0x80 ⟨0, 127, 15⟩) 0x80 1 63 =
      .ok { ah := 0x02, al := 1, ch := 0, cl := 64, dh := 0, dl := 0x80 } ∧
    ¬ DriveParameters.Addresses ⟨0, 127, 15⟩ 63
      { ah := 0x02, al := 1, ch := 0, cl := 64, dh := 0, dl := 0x80 } := by
  refine ⟨by decide, by decide, fun h => ?_⟩
  exact absurd h.sector.1 (by decide)

end Hjortron
