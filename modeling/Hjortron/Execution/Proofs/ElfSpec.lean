import Hjortron.Execution.Proofs.ElfBuffers

/-!
# `elf_read`

The passes write to the image only, so the allocator's headers and the file stay as they are, and
freeing the file buffer changes headers only.
-/

namespace Hjortron

open BlockList

variable {file m m₀ : Mem} {n i j a len : Nat} {base image : Word}

/-! ## Relocations of well-formed files -/

namespace ElfWellFormed

variable (hwf : ElfWellFormed file n)
include hwf

/-- Relocated words lie in the image. -/
theorem relocOffset_le (hr : (i, j) ∈ relocations file) :
    relocOffset file i j + 4 ≤ imageLength file (sectionCount file) := by
  obtain ⟨hi, htype, hj⟩ := mem_relocations.mp hr
  have hrel := hwf.rel i hi htype
  have hinside := (hrel.relocs j hj).inside
  have hend := sectionEnd_le_imageLength hrel.target.1 hrel.target.2
  unfold sectionEnd sectionStart at hend
  rw [← elfFindSh_eq_sectionAt] at hend
  unfold relocOffset
  unfold targetAt at hinside ⊢
  omega

theorem relocatable : Relocatable file n := by
  refine ⟨hwf.loadable.toTableInside, fun i hi htype => ?_⟩
  have hrel := hwf.rel i hi htype
  refine ⟨hrel.entsize, hrel.target.1, hrel.symtab, hrel.contents,
    fun j hj => (hrel.relocs j hj).symbol_inside, fun j hj => ?_⟩
  exact (hrel.relocs j hj).defined.imp_right fun h => h.2.1

/-- Every relocation changes a word. -/
theorem relocEffect_eq (image : Word) (hr : (i, j) ∈ relocations file) :
    relocEffect file image (i, j) = .apply (relocPatch file image (i, j)) := by
  obtain ⟨hi, htype, hj⟩ := mem_relocations.mp hr
  have hok := (hwf.rel i hi htype).relocs j hj
  have htype0 : relocType file i j ≠ 0 := by
    rcases hok.type with h | h
    · rw [h]
      decide
    · rw [h]
      decide
  have hdefined : stShndx file (symbolAt file i j) ≠ shnUndef := by
    rcases hok.defined with habs | hdef
    · rw [habs]
      decide
    · exact hdef.1
  unfold relocEffect
  rw [if_neg (not_or.mpr ⟨htype0, hok.symbol⟩), if_neg hdefined, if_pos hok.type]

theorem effects_eq (image : Word) :
    (relocations file).map (relocEffect file image) =
      ((relocations file).map (relocPatch file image)).map .apply := by
  rw [List.map_map]
  exact List.map_congr_left fun r hr => hwf.relocEffect_eq image hr

/-- Relocations write to the image only. -/
theorem writesIn (image : Word) (r : Nat × Nat) (hr : r ∈ relocations file) :
    (relocEffect file image r).WritesIn image (imageLength file (sectionCount file)) :=
  writesIn_relocEffect image (hwf.loadable.imageLength_lt (Nat.le_refl _)) (hwf.relocOffset_le hr)

end ElfWellFormed

/-! ## The image after relocation -/

/-- The bytes of a relocated word before relocation. -/
theorem ElfWellFormed.imageByte_reloc (hwf : ElfWellFormed file n)
    (hr : (i, j) ∈ relocations file) {c : Nat} (hc : c < 4) :
    imageByte file (relocOffset file i j + c) (sectionCount file) =
      if shType file (targetAt file i) = shtProgbits then
        file (shOffset file (targetAt file i) + rOffset file (relocAt file i j) +
          BitVec.ofNat 32 c)
      else 0 := by
  obtain ⟨hi, htype, hj⟩ := mem_relocations.mp hr
  have hrel := hwf.rel i hi htype
  have hinside := (hrel.relocs j hj).inside
  have htarget : targetAt file i = sectionAt file (shInfo file (sectionAt file i)).toNat :=
    elfFindSh_eq_sectionAt _
  have hrange : sectionStart file (shInfo file (sectionAt file i)).toNat ≤
        relocOffset file i j + c ∧
      relocOffset file i j + c < sectionEnd file (shInfo file (sectionAt file i)).toNat := by
    rw [htarget] at hinside
    unfold relocOffset sectionEnd sectionStart
    rw [htarget]
    omega
  split_ifs with hprog
  · rw [htarget] at hprog
    rw [hwf.imageByte_of_covers hrel.target.1 (Nat.le_refl _)
      ⟨hrel.target.2, hprog, hrange⟩, ← htarget, BitVec.add_assoc]
    congr 2
    unfold relocOffset sectionStart
    rw [htarget]
    bv_omega
  · apply imageByte_of_not_covers
    intro s hs hcov
    have heq := hwf.eq_of_overlap ⟨hs, hcov.1⟩ hrel.target hcov.2.2 hrange
    apply hprog
    rw [htarget, ← heq]
    exact hcov.2.1

/-- The addend is in the image before relocation. -/
theorem ImageAt.load32_addend (hwf : ElfWellFormed file n)
    (hlen : len = imageLength file (sectionCount file))
    (h : ImageAt m₀ m image len fun a => imageByte file a (sectionCount file))
    (hr : (i, j) ∈ relocations file) :
    m.load32 (image + BitVec.ofNat 32 (relocOffset file i j)) = addend file i j := by
  have hle := hwf.relocOffset_le hr
  have hbyte (c : Nat) (hc : c < 4) :
      m (image + BitVec.ofNat 32 (relocOffset file i j) + BitVec.ofNat 32 c) =
        if shType file (targetAt file i) = shtProgbits then
          file (shOffset file (targetAt file i) + rOffset file (relocAt file i j) +
            BitVec.ofNat 32 c)
        else 0 := by
    rw [BitVec.add_assoc, ← BitVec.ofNat_add, h.bytes _ (by omega), hwf.imageByte_reloc hr hc]
  unfold addend
  split_ifs at hbyte ⊢ with hprog
  · exact Mem.load32_ext hbyte
  · have hzero : m.load32 (image + BitVec.ofNat 32 (relocOffset file i j)) =
        Mem.load32 (fun _ => 0) 0 := Mem.load32_ext hbyte
    rw [hzero]
    rfl

/-- The words of different relocations are apart in memory. -/
theorem ElfWellFormed.pairwise_relocPatch (hwf : ElfWellFormed file n) (image : Word) :
    ((relocations file).map (relocPatch file image)).Pairwise
      fun p q => Apart p.addr 4 q.addr 4 := by
  have hlt := hwf.loadable.imageLength_lt (Nat.le_refl (sectionCount file))
  have hapart := hwf.apart
  rw [List.pairwise_map] at hapart ⊢
  apply hapart.imp_of_mem
  intro r s hr hs hrs
  have hrle := hwf.relocOffset_le hr
  have hsle := hwf.relocOffset_le hs
  unfold relocPatch Apart
  bv_omega

/-- What the patches make of the image. -/
structure Relocated (file m : Mem) (image : Word) : Prop where
  words : ∀ r ∈ relocations file,
    m.load32 (image + BitVec.ofNat 32 (relocOffset file r.1 r.2)) =
      relocatedWord file image r.1 r.2
  bytes : ∀ a < imageLength file (sectionCount file),
    (∀ r ∈ relocations file, a < relocOffset file r.1 r.2 ∨ relocOffset file r.1 r.2 + 4 ≤ a) →
      m (image + BitVec.ofNat 32 a) = imageByte file a (sectionCount file)

theorem relocated_of_imageAt (hwf : ElfWellFormed file n)
    (hlen : len = imageLength file (sectionCount file))
    (h : ImageAt m₀ m image len fun a => imageByte file a (sectionCount file)) :
    Relocated file (((relocations file).map (relocPatch file image)).foldl Mem.patch m) image := by
  have hlt := hwf.loadable.imageLength_lt (Nat.le_refl (sectionCount file))
  constructor
  · intro r hr
    have hpatch := Mem.load32_foldl_patch (m := m) (p := relocPatch file image r)
      (hwf.pairwise_relocPatch image) (List.mem_map_of_mem hr)
    have haddr : (relocPatch file image r).addr =
      image + BitVec.ofNat 32 (relocOffset file r.1 r.2) := rfl
    rw [haddr] at hpatch
    rw [hpatch, h.load32_addend hwf hlen hr]
    unfold relocPatch relocatedWord
    split_ifs with htype
    · rfl
    · exact (add_sub_assoc _ _ _).symm
  · intro a ha hout
    rw [Mem.foldl_patch_of_not_inRange]
    · exact h.bytes a (by omega)
    · intro p hp
      obtain ⟨r, hr, rfl⟩ := List.mem_map.mp hp
      have hle := hwf.relocOffset_le hr
      have hor := hout r hr
      unfold relocPatch InRange
      bv_omega

/-- The image depends on its own bytes only. -/
theorem Relocated.frame {m' : Mem} (hwf : ElfWellFormed file n) (h : Relocated file m image)
    (hm : ∀ y, InRange image (imageLength file (sectionCount file)) y → m' y = m y) :
    Relocated file m' image := by
  have hlt := hwf.loadable.imageLength_lt (Nat.le_refl (sectionCount file))
  constructor
  · intro r hr
    have hle := hwf.relocOffset_le hr
    rw [← h.words r hr]
    apply Mem.load32_congr
    intro y hy
    apply hm
    unfold InRange at hy ⊢
    bv_omega
  · intro a ha hout
    rw [hm _ (by unfold InRange; bv_omega)]
    exact h.bytes a ha hout

/-! ## `elf_read` -/

/-- The memory between the second `malloc` and `free`, when all relocations write to the image. -/
theorem loaded_image {heap : Heap} {bs : List Block} {f c : Block}
    (hbuf : LoadBuffers heap bs f c file n (imageLength file (sectionCount file)))
    (hn : n < 2 ^ 32) (hload : Loadable file n) (hreloc : Relocatable file n)
    (hin : ∀ r ∈ relocations file, (relocEffect file (payloadPtr c) r).WritesIn (payloadPtr c)
      (imageLength file (sectionCount file))) :
    ∃ mem, ImageAt heap.mem mem (payloadPtr c) (imageLength file (sectionCount file))
        (fun a => imageByte file a (sectionCount file)) ∧
      relocateLoop (payloadPtr f) (payloadPtr f) (payloadPtr c) (2 ^ 16) 0
          (copyLoop (payloadPtr f) (payloadPtr f) (payloadPtr c) (2 ^ 16) 0
            (memset heap.mem (payloadPtr c) 0
              (BitVec.ofNat 32 (imageLength file (sectionCount file))))) =
        .ok (RelocEffect.runAll ((relocations file).map (relocEffect file (payloadPtr c))) mem) ∧
      ∀ y, ¬ InRange (payloadPtr c) (imageLength file (sectionCount file)) y →
        (RelocEffect.runAll ((relocations file).map (relocEffect file (payloadPtr c))) mem).1 y =
          heap.mem y := by
  have hlt := hload.imageLength_lt (Nat.le_refl (sectionCount file))
  have hcount : sectionCount file ≤ 2 ^ 16 := Nat.le_of_lt (eShnum file 0).isLt
  have hcopy := copyLoop_spec hload hn rfl hbuf.apart hbuf.bytes
    (Nat.zero_add (sectionCount file)) hcount (imageAt_memset heap.mem (payloadPtr c) hlt)
  have hshow := hbuf.bytes.of_apart hbuf.apart hcopy.frame
  refine ⟨_, hcopy, ?_, fun y hy => ?_⟩
  · rw [relocations, List.range_eq_range']
    exact relocateLoop_eq hreloc hn hbuf.file_ne_zero hbuf.file_no_wrap hbuf.apart hin hshow
      (Nat.zero_add (sectionCount file)) hcount
  · rw [RelocEffect.runAll_of_not_inRange (fun e he => ?_) hy]
    · exact hcopy.frame y hy
    · obtain ⟨r, hr, rfl⟩ := List.mem_map.mp he
      exact hin r hr

/-- The first pass finds the length of the image. -/
theorem Loadable.imageLengthLoop_eq (hload : Loadable file n) (hn : n < 2 ^ 32)
    (hshow : Shows m base file n) : imageLengthLoop m base (2 ^ 16) 0 0 =
      BitVec.ofNat 32 (imageLength file (sectionCount file)) := by
  rw [hshow.imageLengthLoop_eq hload.toTableInside hn]
  exact Hjortron.imageLengthLoop_eq hload (Nat.zero_add (sectionCount file))
    (Nat.le_of_lt (eShnum file 0).isLt)

/-- `elf_read` of a file whose relocations write to the image only: the image that its second
`malloc` has found holds the sections with the effects of all relocations, and the results are
assigned if no relocation ends the function. -/
theorem elfRead_run {fsRead : Heap → Word → Word → Except Halt Heap}
    {heap heap₁ heap₂ heap₃ : Heap} {bs : List Block} {size : Word} (buffer entry : Word)
    (hinv : HeapInv heap bs) (hload : Loadable file size.toNat)
    (hreloc : Relocatable file size.toNat) (hfile : elfIsFile file 0 = true)
    (hsupported : elfIsSupported file 0 = true)
    (hin : ∀ r ∈ relocations file,
      (relocEffect file image r).WritesIn image (imageLength file (sectionCount file)))
    (hm₁ : malloc heap size = .ok (base, heap₁))
    (hread : fsRead heap₁ base size = .ok heap₂)
    (hdel : FileDelivered heap₁ heap₂ base file size.toNat)
    (hm₂ : malloc heap₂ (BitVec.ofNat 32 (imageLength file (sectionCount file))) =
      .ok (image, heap₃)) :
    ∃ mem heap' bs' b,
      ImageAt heap₃.mem mem image (imageLength file (sectionCount file))
        (fun a => imageByte file a (sectionCount file)) ∧
      elfRead fsRead heap size buffer entry = .ok (heap',
        if (RelocEffect.runAll ((relocations file).map (relocEffect file image)) mem).2 then
          (image, eEntry file 0) else (buffer, entry)) ∧
      HeapInv heap' bs' ∧ b ∈ bs' ∧ b.used = true ∧ image = payloadPtr b ∧
      imageLength file (sectionCount file) ≤ b.len ∧
      ∀ y, InRange image (imageLength file (sectionCount file)) y → heap'.mem y =
        (RelocEffect.runAll ((relocations file).map (relocEffect file image)) mem).1 y := by
  have hn := size.isLt
  have hlen : (BitVec.ofNat 32 (imageLength file (sectionCount file))).toNat =
      imageLength file (sectionCount file) := by
    rw [BitVec.toNat_ofNat, Nat.mod_eq_of_lt (hload.imageLength_lt (Nat.le_refl _))]
  obtain ⟨bs₃, f, c, rfl, rfl, hbuf⟩ := loadBuffers hinv hm₁ hread hdel hm₂
  rw [hlen] at hbuf
  obtain ⟨mem, hcopy, hrelocate, hframe⟩ := loaded_image hbuf hn hload hreloc hin
  obtain ⟨bs', mem', hfree, hinv', hc, himage, hshow⟩ := hbuf.free_file hframe
  refine ⟨mem, { heap₃ with mem := mem' }, bs', c, hcopy, ?_, hinv', hc, hbuf.image_used, rfl,
    hbuf.image_fits, himage⟩
  have hchecks := hdel.bytes.checks hload.header hn
  have hlength := hload.imageLengthLoop_eq hn hdel.bytes
  have hnull : decide (payloadPtr f ≠ 0) = true := decide_eq_true hbuf.file_ne_zero
  have hentry : eEntry mem' (payloadPtr f) = eEntry file 0 := by
    have hheader := hload.header
    exact hshow.header32 24 (show 28 ≤ size.toNat by omega) hn
  simp only [elfRead, hm₁, hread, elfCheckFile, elfCheckSupport, hchecks.1, hchecks.2,
    hfile, hsupported, hnull, Bool.and_self, assert_true, hlength, hm₂, hrelocate, hfree,
    hentry, bind, Except.bind, pure, Except.pure]
  split_ifs <;> rfl

/-- **Loading an object file.** For a well-formed file that `fs_read` delivers, and when the heap
has room for the file and the image, `elf_read` returns the block `image` that its second
`malloc` has found and the entry point of the file. The image is as long as the loaded sections
need; every relocated word has the value of the i386 relocation, and all other bytes are those
of the sections. -/
theorem elfRead_image {fsRead : Heap → Word → Word → Except Halt Heap}
    {heap heap₁ heap₂ heap₃ : Heap} {bs : List Block} {size : Word} (buffer entry : Word)
    (hinv : HeapInv heap bs) (hwf : ElfWellFormed file size.toNat)
    (hm₁ : malloc heap size = .ok (base, heap₁))
    (hread : fsRead heap₁ base size = .ok heap₂)
    (hdel : FileDelivered heap₁ heap₂ base file size.toNat)
    (hm₂ : malloc heap₂ (BitVec.ofNat 32 (imageLength file (sectionCount file))) =
      .ok (image, heap₃)) :
    ∃ heap' bs' b, elfRead fsRead heap size buffer entry = .ok (heap', image, eEntry file 0) ∧
      HeapInv heap' bs' ∧ b ∈ bs' ∧ b.used = true ∧ image = payloadPtr b ∧
      imageLength file (sectionCount file) ≤ b.len ∧ Relocated file heap'.mem image := by
  have hn := size.isLt
  have hlt := hwf.loadable.imageLength_lt (Nat.le_refl (sectionCount file))
  have hlen : (BitVec.ofNat 32 (imageLength file (sectionCount file))).toNat =
      imageLength file (sectionCount file) := by
    rw [BitVec.toNat_ofNat, Nat.mod_eq_of_lt hlt]
  obtain ⟨mem, heap', bs', b, hcopy, hrun, hinv', hb, hbu, himage, hle, hbytes⟩ :=
    elfRead_run buffer entry hinv hwf.loadable hwf.relocatable hwf.isFile hwf.isSupported
      (hwf.writesIn image) hm₁ hread hdel hm₂
  rw [hwf.effects_eq, RelocEffect.runAll_apply] at hrun hbytes
  refine ⟨heap', bs', b, hrun, hinv', hb, hbu, himage, hle, ?_⟩
  exact (relocated_of_imageAt hwf rfl hcopy).frame hwf hbytes

/-- An object file with eight bytes of code, four bytes without contents, and two relocations: the
address of the latter, and a displacement to the absolute symbol `0x1000`. -/
def sampleObject : Mem := fun x =>
  let words : List Word :=
    [0x464C457F, 0x00010101, 0, 0, 0x00030001, 1, 4, 0, 124, 0, 0x00000034, 0x00280000, 5,
      4, 0xFFFFFFFC,
      0, 0, 0, 0, 0, 0, 4, 0x00020001, 0, 0x1000, 0, 0xFFF10000,
      0, 0x101, 4, 0x202,
      0, 0, 0, 0, 0, 0, 0, 0, 0, 0,
      0, 1, 6, 0, 52, 8, 0, 0, 4, 0,
      0, 8, 3, 8, 60, 4, 0, 0, 4, 0,
      0, 2, 0, 0, 60, 48, 0, 0, 4, 16,
      0, 9, 0, 0, 108, 16, 3, 1, 4, 8]
  (words.getD (x.toNat / 4) 0 >>> (8 * (x.toNat % 4))).setWidth 8

theorem sampleObject_wellFormed : ElfWellFormed sampleObject 324 := by
  decide +kernel

theorem elfRead_image_sample :
    ∃ heap heap', mallocInit 0x20000 pcMap (Heap.boot fun _ => 0) = .ok heap ∧
      elfRead (deliver sampleObject) heap 324 0 0 = .ok (heap', 0x20164, 4) ∧
      heap'.mem.load32 0x20164 = 0x20170 ∧ heap'.mem.load32 0x20168 = 0xFFFE0E94 := by
  have hlength : imageLength sampleObject (sectionCount sampleObject) = 12 := by decide +kernel
  obtain ⟨heap, heap₁, heap₂, heap₃, hinit, hinv, hm₁, hfs, hdel, hm₂⟩ :=
    sample_buffers sampleObject
  obtain ⟨heap', -, -, hread, -, -, -, -, -, hrel⟩ :=
    elfRead_image 0 0 hinv sampleObject_wellFormed hm₁ hfs hdel (by rw [hlength]; exact hm₂)
  have hentry : eEntry sampleObject 0 = 4 := by decide +kernel
  rw [hentry] at hread
  have hmem : (4, 0) ∈ relocations sampleObject ∧ (4, 1) ∈ relocations sampleObject := by
    decide +kernel
  refine ⟨heap, heap', hinit, hread, ?_, ?_⟩
  · exact (hrel.words _ hmem.1).trans (by decide +kernel)
  · exact (hrel.words _ hmem.2).trans (by decide +kernel)

end Hjortron
