import Hjortron.Execution.Proofs.ElfNull

/-!
# Relocations of sections that are not loaded

`elf_read` applies the relocations of all sections, also of those that are not loaded, at the
address that the section would have. The image is the one of the file without the relocations of
such a section if these are skipped or add 0.
-/

namespace Hjortron

open BlockList

variable {file m m' : Mem} {i j s len : Nat} {image : Word}

/-! ## Effects on the image -/

namespace RelocEffect

/-- The effect changes nothing. -/
def Inert : RelocEffect → Prop
  | skip => True
  | apply p => p.delta = 0
  | fail => False

/-- The effect changes at most a word of the image. -/
def Local (image : Word) (len : Nat) (e : RelocEffect) : Prop :=
  ∀ p, e = apply p → p.delta = 0 ∨ ∀ y, InRange p.addr 4 y → InRange image len y

theorem Inert.run_eq {e : RelocEffect} (h : e.Inert) (m : Mem) : e.run m = (m, true) := by
  cases e with
  | skip => rfl
  | apply p => rw [run, Mem.patch_zero h]
  | fail => exact h.elim

theorem Inert.local {e : RelocEffect} (h : e.Inert) : e.Local image len := by
  rintro p rfl
  exact .inl h

theorem Local.writesIn {e : RelocEffect} (h : e.Local image len) : e.WritesIn image len := by
  intro m y hy
  cases e with
  | skip => rfl
  | apply p =>
    rcases h p rfl with hzero | hin
    · rw [run, Mem.patch_zero hzero]
    · exact Mem.patch_of_not_inRange fun hword => hy (hin y hword)
  | fail => rfl

/-- The word that the effect changes. -/
def patch? : RelocEffect → Option Patch
  | apply p => some p
  | _ => none

theorem patch?_eq_some {e : RelocEffect} {p : Patch} : e.patch? = some p ↔ e = apply p := by
  cases e <;> simp [patch?]

/-- Effects that do not end the function are patches. -/
theorem runAll_of_ne_fail {es : List RelocEffect} (h : ∀ e ∈ es, e ≠ fail) (m : Mem) :
    runAll es m = ((es.filterMap patch?).foldl Mem.patch m, true) := by
  induction es generalizing m with
  | nil => rfl
  | cons e es ih =>
    have htail := ih fun e' he' => h e' (List.mem_cons_of_mem _ he')
    cases e with
    | skip => exact htail m
    | apply p => exact htail (m.patch p)
    | fail => exact absurd rfl (h fail (List.mem_cons_self ..))

/-- Inert effects can be left out. -/
theorem runAll_filter {α : Type} {f : α → RelocEffect} {keep : α → Bool} {l : List α}
    (h : ∀ a ∈ l, keep a = false → (f a).Inert) (m : Mem) :
    runAll (l.map f) m = runAll ((l.filter keep).map f) m := by
  induction l generalizing m with
  | nil => rfl
  | cons a l ih =>
    have htail := ih fun b hb => h b (List.mem_cons_of_mem _ hb)
    rw [List.map_cons, runAll, List.filter_cons]
    cases hkeep : keep a with
    | true =>
      rw [if_pos rfl, List.map_cons, runAll, htail]
    | false =>
      rw [if_neg Bool.false_ne_true, (h a (List.mem_cons_self ..) hkeep).run_eq m]
      exact htail m

/-- Effects on the image depend on the image only. -/
theorem runAll_congr {es : List RelocEffect} (hes : ∀ e ∈ es, e.Local image len)
    (hm : ∀ y, InRange image len y → m y = m' y) :
    (runAll es m).2 = (runAll es m').2 ∧
      ∀ y, InRange image len y → (runAll es m).1 y = (runAll es m').1 y := by
  induction es generalizing m m' with
  | nil => exact ⟨rfl, hm⟩
  | cons e es ih =>
    have htail := fun e' he' => hes e' (List.mem_cons_of_mem _ he')
    have hlocal := hes e (List.mem_cons_self ..)
    cases e with
    | skip => exact ih htail hm
    | apply p =>
      refine ih htail fun y hy => ?_
      rcases hlocal p rfl with hzero | hin
      · rw [run, run, Mem.patch_zero hzero, Mem.patch_zero hzero]
        exact hm y hy
      · exact Mem.patch_congr hm hin hy
    | fail => exact ⟨rfl, hm⟩

end RelocEffect

/-! ## Effects of an object file -/

namespace ObjectWellFormed

section Effects

variable {n : Nat} (hwf : ObjectWellFormed file n)
include hwf

/-- No relocation ends the function. -/
theorem relocEffect_ne_fail (image : Word) (r : Nat × Nat) (hr : r ∈ relocations file) :
    relocEffect file image r ≠ .fail := by
  obtain ⟨hi, htype, hj⟩ := mem_relocations.mp hr
  have hrel := hwf.rel r.1 hi htype
  unfold relocEffect
  split_ifs with hskip hundef hsupported
  · exact RelocEffect.noConfusion
  · exact absurd hundef (hrel.defined r.2 hj (not_or.mp hskip).2)
  · exact RelocEffect.noConfusion
  · have htypes := (hrel.type r.2 hj).resolve_left (not_or.mp hskip).1
    exact absurd htypes hsupported

/-- Relocations of loaded sections change the image only. -/
theorem local_of_not_stray (image : Word) (hr : (i, j) ∈ relocations file)
    (hloaded : ¬ Stray file i) :
    (relocEffect file image (i, j)).Local image (imageLength file (sectionCount file)) := by
  obtain ⟨hi, htype, hj⟩ := mem_relocations.mp hr
  have hrel := hwf.rel i hi htype
  have halloc : shAlloc file (targetAt file i) = true := by
    have h : ¬ shAlloc file (targetAt file i) = false := fun h => hloaded ⟨hi, htype, h⟩
    simpa using h
  rw [targetAt, elfFindSh_eq_sectionAt] at halloc
  have hend := sectionEnd_le_imageLength hrel.target halloc
  have hinside := hrel.inside j hj
  have hlt := hwf.loadable.imageLength_lt (Nat.le_refl (sectionCount file))
  unfold sectionEnd sectionStart at hend
  rw [← elfFindSh_eq_sectionAt] at hend
  unfold targetAt at hinside
  have hle : relocOffset file i j + 4 ≤ imageLength file (sectionCount file) := by
    unfold relocOffset targetAt
    omega
  intro p hp
  refine .inr fun y hy => ?_
  unfold relocEffect at hp
  split_ifs at hp
  cases hp
  unfold relocPatch InRange at hy
  unfold InRange
  bv_omega

end Effects

end ObjectWellFormed

/-! ## Two runs -/

/-- A run of `elf_read` on a file of `size` bytes, up to the `malloc` that returns `image`. -/
structure LoadRun (file : Mem) (size image : Word) where
  fsRead : Heap → Word → Word → Except Halt Heap
  heap : Heap
  blocks : List Block
  base : Word
  heapWithBuffer : Heap
  heapWithFile : Heap
  heapWithImage : Heap
  inv : HeapInv heap blocks
  file_buffer : malloc heap size = .ok (base, heapWithBuffer)
  file_read : fsRead heapWithBuffer base size = .ok heapWithFile
  file_delivered : FileDelivered heapWithBuffer heapWithFile base file size.toNat
  image_buffer : malloc heapWithFile (imageLengthLoop heapWithFile.mem base (2 ^ 16) 0 0) =
    .ok (image, heapWithImage)

/-- What the run returns. -/
def LoadRun.result {size : Word} (run : LoadRun file size image) (buffer entry : Word) :
    Except Halt (Heap × Word × Word) :=
  elfRead run.fsRead run.heap size buffer entry

/-- Both runs return the image buffer, with the same entry point and the same image. -/
def SameImage {file file' : Mem} {size : Word} (run : LoadRun file size image)
    (run' : LoadRun file' size image) : Prop :=
  ∀ buffer entry, ∃ heap heap' e, run.result buffer entry = .ok (heap, image, e) ∧
    run'.result buffer entry = .ok (heap', image, e) ∧
    ∀ y, InRange image (imageLength file (sectionCount file)) y → heap.mem y = heap'.mem y

/-- All words that relocations change lie in the image, and no two of them overlap. -/
structure RelocationsApart (file : Mem) (image : Word) : Prop where
  inside : ∀ r ∈ relocations file, ∀ p, relocEffect file image r = .apply p →
    ∀ y, InRange p.addr 4 y → InRange image (imageLength file (sectionCount file)) y
  apart : (relocations file).Pairwise fun r r' => ∀ p q, relocEffect file image r = .apply p →
    relocEffect file image r' = .apply q → Apart p.addr 4 q.addr 4

/-- A run whose relocations change the image only. -/
theorem LoadRun.result_eq {size : Word} (run : LoadRun file size image)
    (hload : Loadable file size.toNat) (hreloc : Relocatable file size.toNat)
    (hfile : elfIsFile file 0 = true) (hsupported : elfIsSupported file 0 = true)
    (hlocal : ∀ r ∈ relocations file,
      (relocEffect file image r).Local image (imageLength file (sectionCount file)))
    (hok : ∀ r ∈ relocations file, relocEffect file image r ≠ .fail) (buffer entry : Word) :
    ∃ mem heap,
      (∀ y, InRange image (imageLength file (sectionCount file)) y →
        mem y = imageByte file (y - image).toNat (sectionCount file)) ∧
      run.result buffer entry = .ok (heap, image, eEntry file 0) ∧
      ∀ y, InRange image (imageLength file (sectionCount file)) y → heap.mem y =
        (RelocEffect.runAll ((relocations file).map (relocEffect file image)) mem).1 y := by
  have hm₂ := run.image_buffer
  rw [hload.imageLengthLoop_eq size.isLt run.file_delivered.bytes] at hm₂
  obtain ⟨mem, heap, -, -, hcopy, hrun, -, -, -, -, -, hbytes⟩ :=
    elfRead_run buffer entry run.inv hload hreloc hfile hsupported
      (fun r hr => (hlocal r hr).writesIn) run.file_buffer run.file_read run.file_delivered hm₂
  refine ⟨mem, heap, fun y hy => ?_, ?_, hbytes⟩
  · have hbyte := hcopy.bytes _ hy
    rwa [BitVec.ofNat_toNat, BitVec.setWidth_eq, add_sub_cancel] at hbyte
  · rw [RelocEffect.runAll_of_ne_fail, if_pos rfl] at hrun
    · exact hrun
    · intro e he
      obtain ⟨r, hr, rfl⟩ := List.mem_map.mp he
      exact hok r hr

namespace ObjectWellFormed

variable {size : Word} (hwf : ObjectWellFormed file size.toNat) (hs : Stray file s)
include hwf hs

/-- A run on the file and one on the file without section `s`, when all relocations change the image
only. -/
theorem two_runs (hlocal : ∀ r ∈ relocations file,
      (relocEffect file image r).Local image (imageLength file (sectionCount file)))
    (run : LoadRun file size image) (run' : LoadRun (nullSection file s) size image)
    (buffer entry : Word) :
    ∃ mem mem' heap heap',
      (∀ y, InRange image (imageLength file (sectionCount file)) y → mem y = mem' y) ∧
      run.result buffer entry = .ok (heap, image, eEntry file 0) ∧
      run'.result buffer entry = .ok (heap', image, eEntry file 0) ∧
      (∀ y, InRange image (imageLength file (sectionCount file)) y → heap.mem y =
        (RelocEffect.runAll ((relocations file).map (relocEffect file image)) mem).1 y) ∧
      ∀ y, InRange image (imageLength file (sectionCount file)) y → heap'.mem y =
        (RelocEffect.runAll (((relocations file).filter fun r => r.1 ≠ s).map
          (relocEffect file image)) mem').1 y := by
  have hn := size.isLt
  have hok := hwf.relocEffect_ne_fail image
  have hchecks := hwf.nullSection_checks hn hs.1
  have hlength := hwf.nullSection_imageLength hn hs.1 (Nat.le_refl (sectionCount file))
  -- a relocation that is left is one of the file
  have hleft (r : Nat × Nat) (hr : r ∈ relocations (nullSection file s)) :
      r ∈ relocations file ∧
        relocEffect (nullSection file s) image r = relocEffect file image r := by
    rw [hwf.nullSection_relocations hn hs.1] at hr
    have hr := (List.mem_filter.mp hr).1
    obtain ⟨hi, htype, hj⟩ := mem_relocations.mp hr
    exact ⟨hr, hwf.nullSection_relocEffect hn hs.1 hi htype hj image⟩
  obtain ⟨mem, heap, hmem, hresult, hbytes⟩ := run.result_eq hwf.loadable hwf.relocatable
    hwf.isFile hwf.isSupported hlocal hok buffer entry
  obtain ⟨mem', heap', hmem', hresult', hbytes'⟩ := run'.result_eq
    (hwf.nullSection_loadable hn hs.1) (hwf.nullSection_relocatable hn hs.1)
    (hchecks.1.trans hwf.isFile) (hchecks.2.trans hwf.isSupported)
    (fun r hr => by
      rw [(hleft r hr).2, hwf.nullSection_sectionCount hn hs.1, hlength]
      exact hlocal r (hleft r hr).1)
    (fun r hr => by
      rw [(hleft r hr).2]
      exact hok r (hleft r hr).1) buffer entry
  rw [hwf.nullSection_sectionCount hn hs.1, hlength] at hmem' hbytes'
  rw [(hwf.nullSection_header hn hs.1).2.2] at hresult'
  rw [hwf.nullSection_effects hn hs.1] at hbytes'
  refine ⟨mem, mem', heap, heap', fun y hy => ?_, hresult, hresult', hbytes, hbytes'⟩
  rw [hmem y hy, hmem' y hy, hwf.nullSection_imageByte hn hs.1 hs.2.1 (Nat.le_refl _)]

/-- The image is the same when the relocations of the section change nothing, and those of other
unloaded sections change the image only. -/
theorem sameImage
    (hothers : ∀ r ∈ relocations file, Stray file r.1 → r.1 ≠ s →
      (relocEffect file image r).Local image (imageLength file (sectionCount file)))
    (hinert : ∀ j < relocCount file s, (relocEffect file image (s, j)).Inert)
    (run : LoadRun file size image) (run' : LoadRun (nullSection file s) size image) :
    SameImage run run' := by
  have hsection (r : Nat × Nat) (hr : r ∈ relocations file) (heq : r.1 = s) :
      (relocEffect file image r).Inert := by
    subst heq
    exact hinert r.2 (mem_relocations.mp hr).2.2
  have hlocal (r : Nat × Nat) (hr : r ∈ relocations file) :
      (relocEffect file image r).Local image (imageLength file (sectionCount file)) := by
    by_cases heq : r.1 = s
    · exact (hsection r hr heq).local
    · by_cases hstray : Stray file r.1
      · exact hothers r hr hstray heq
      · exact hwf.local_of_not_stray image hr hstray
  have hleft (r : Nat × Nat) (hr : r ∈ relocations file) (hkeep : decide (r.1 ≠ s) = false) :
      (relocEffect file image r).Inert := hsection r hr (by simpa using hkeep)
  intro buffer entry
  obtain ⟨mem, mem', heap, heap', hmem, hresult, hresult', hbytes, hbytes'⟩ :=
    hwf.two_runs hs hlocal run run' buffer entry
  refine ⟨heap, heap', _, hresult, hresult', fun y hy => ?_⟩
  rw [hbytes y hy, hbytes' y hy, RelocEffect.runAll_filter hleft]
  refine (RelocEffect.runAll_congr (fun e he => ?_) hmem).2 y hy
  obtain ⟨r, hr, rfl⟩ := List.mem_map.mp he
  exact hlocal r (List.mem_filter.mp hr).1

/-- A relocation that changes a word shows in the image, when no other one changes it too. -/
theorem inert_of_sameImage (hapart : RelocationsApart file image)
    {run : LoadRun file size image} {run' : LoadRun (nullSection file s) size image}
    (hsame : SameImage run run') (hj : j < relocCount file s) :
    (relocEffect file image (s, j)).Inert := by
  have hr : (s, j) ∈ relocations file := mem_relocations.mpr ⟨hs.1, hs.2.1, hj⟩
  cases heffect : relocEffect file image (s, j) with
  | skip => trivial
  | fail => exact absurd heffect (hwf.relocEffect_ne_fail image _ hr)
  | apply p =>
    obtain ⟨mem, mem', heap, heap', hmem, hresult, hresult', hbytes, hbytes'⟩ :=
      hwf.two_runs hs (fun r hr p hp => .inr (hapart.inside r hr p hp)) run run' 0 0
    obtain ⟨_, _, _, hresult₁, hresult₂, hequal⟩ := hsame 0 0
    cases hresult.symm.trans hresult₁
    cases hresult'.symm.trans hresult₂
    have hin := hapart.inside _ hr p heffect
    have hne (es : List (Nat × Nat)) (hes : ∀ r ∈ es, r ∈ relocations file) :
        ∀ e ∈ es.map (relocEffect file image), e ≠ .fail := by
      intro e he
      obtain ⟨r, hr, rfl⟩ := List.mem_map.mp he
      exact hwf.relocEffect_ne_fail image r (hes r hr)
    rw [RelocEffect.runAll_of_ne_fail (hne _ fun r hr => hr)] at hbytes
    rw [RelocEffect.runAll_of_ne_fail (hne _ fun r hr => (List.mem_filter.mp hr).1)] at hbytes'
    -- the word in the image of the file
    have hword : heap.mem.load32 p.addr = mem.load32 p.addr + p.delta := by
      rw [Mem.load32_congr fun y hy => hbytes y (hin y hy)]
      apply Mem.load32_foldl_patch
      · rw [List.pairwise_filterMap, List.pairwise_map]
        exact hapart.apart.imp fun h p hp q hq =>
          h p q (RelocEffect.patch?_eq_some.mp hp) (RelocEffect.patch?_eq_some.mp hq)
      · exact List.mem_filterMap.mpr ⟨_, List.mem_map_of_mem hr, by rw [heffect]; rfl⟩
    -- and in the image without the section
    have hword' : heap'.mem.load32 p.addr = mem'.load32 p.addr := by
      rw [Mem.load32_congr fun y hy => hbytes' y (hin y hy)]
      apply Mem.load32_foldl_patch_apart
      intro q hq
      obtain ⟨e, he, hq⟩ := List.mem_filterMap.mp hq
      obtain ⟨r, hr', rfl⟩ := List.mem_map.mp he
      obtain ⟨hr', hne⟩ := List.mem_filter.mp hr'
      have hsymm : Std.Symm fun r r' : Nat × Nat => ∀ p q,
          relocEffect file image r = .apply p → relocEffect file image r' = .apply q →
            Apart p.addr 4 q.addr 4 :=
        ⟨fun r r' h p q hp hq => (h q p hq hp).symm⟩
      refine hapart.apart.forall hr' hr (fun heq => ?_) q p
        (RelocEffect.patch?_eq_some.mp hq) heffect
      rw [heq] at hne
      simp at hne
    have hsum : mem.load32 p.addr + p.delta = mem.load32 p.addr := by
      rw [← hword, Mem.load32_congr fun y hy => hequal y (hin y hy), hword']
      exact Mem.load32_congr fun y hy => (hmem y (hin y hy)).symm
    exact add_eq_left.mp hsum

end ObjectWellFormed

/-! ## A file with debug information -/

/-- An object file with eight bytes of code and four bytes of debug information, which refer to the
code. -/
def strayObject : Mem := fun x =>
  let words : List Word :=
    [0x464C457F, 0x00010101, 0, 0, 0x00030001, 1, 0, 0, 104, 0, 0x00000034, 0x00280000, 5,
      0x90909090, 0xC3909090,
      0, 0, 0, 0, 0, 4, 0, 0x00010003,
      0,
      0, 0x101,
      0, 0, 0, 0, 0, 0, 0, 0, 0, 0,
      0, 1, 6, 0, 52, 8, 0, 0, 4, 0,
      0, 2, 0, 0, 60, 32, 0, 0, 4, 16,
      0, 1, 0, 0, 92, 4, 0, 0, 1, 0,
      0, 9, 0, 0, 96, 8, 2, 3, 4, 8]
  (words.getD (x.toNat / 4) 0 >>> (8 * (x.toNat % 4))).setWidth 8

/-- The file with a relocation of no type. -/
def untypedObject : Mem := strayObject.store32 100 0x100

theorem strayObject_wellFormed : ObjectWellFormed strayObject 304 ∧ Stray strayObject 4 := by
  decide +kernel

theorem untypedObject_wellFormed : ObjectWellFormed untypedObject 304 ∧ Stray untypedObject 4 := by
  decide +kernel

/-- Files of 304 bytes with an image of 8 bytes are loaded to the same place. -/
theorem nonempty_loadRun (htable : TableInside file 304)
    (hlen : imageLengthLoop file 0 (2 ^ 16) 0 0 = 8) : Nonempty (LoadRun file 304 0x20150) := by
  obtain ⟨heap, heap₁, heap₂, heap₃, -, hinv, hm₁, hfs, hdel, hm₂⟩ :=
    pcMap_buffers file (by decide : (304 : Word) ≠ 0) (by decide : (8 : Word) ≠ 0) rfl
      (List.mem_cons_self ..) rfl
  refine ⟨⟨deliver file, heap, _, _, heap₁, heap₂, heap₃, hinv, hm₁, hfs, hdel, ?_⟩⟩
  rw [hdel.bytes.imageLengthLoop_eq htable (by decide), hlen]
  exact hm₂

/-- The word that the relocation changes. -/
theorem strayObject_effect :
    relocEffect strayObject 0x20150 (4, 0) = .apply ⟨0x20150, 0x20154⟩ := by
  unfold relocEffect
  rw [if_neg (by decide +kernel), if_neg (by decide +kernel), if_pos (by decide +kernel)]
  have hpatch : relocPatch strayObject 0x20150 (4, 0) = ⟨0x20150, 0x20154⟩ := by decide +kernel
  rw [hpatch]

theorem strayObject_apart : RelocationsApart strayObject 0x20150 := by
  have hrelocations : relocations strayObject = [(4, 0)] := by decide +kernel
  have hlength : imageLength strayObject (sectionCount strayObject) = 8 := by decide +kernel
  constructor
  · intro r hr p hp
    rw [hrelocations, List.mem_singleton] at hr
    rw [hr, strayObject_effect] at hp
    cases hp
    intro y hy
    rw [hlength]
    exact Nat.lt_of_lt_of_le hy (by decide)
  · rw [hrelocations]
    exact List.pairwise_singleton _ _

/-- **Relocations of sections that are not loaded.** For every well-formed object file and every
section `s` of relocations for a section that is not loaded, the image is that of the file with the
type of `s` changed to `SHT_NULL` if all relocations of `s` are skipped or add 0, as long as those
of other unloaded sections stay in the image. When the words that relocations change lie in the
image and do not overlap, it is not the same otherwise. -/
theorem unloaded_relocations {size : Word} (hwf : ObjectWellFormed file size.toNat)
    (hs : Stray file s) (run : LoadRun file size image)
    (run' : LoadRun (nullSection file s) size image) :
    ((∀ r ∈ relocations file, Stray file r.1 → r.1 ≠ s →
        (relocEffect file image r).Local image (imageLength file (sectionCount file))) →
      (∀ j < relocCount file s, (relocEffect file image (s, j)).Inert) → SameImage run run') ∧
      (RelocationsApart file image → SameImage run run' →
        ∀ j < relocCount file s, (relocEffect file image (s, j)).Inert) :=
  ⟨fun hothers hinert => hwf.sameImage hs hothers hinert run run',
    fun hapart hsame _ hj => hwf.inert_of_sameImage hs hapart hsame hj⟩

theorem unloaded_relocations_sample : ∃ (run : LoadRun untypedObject 304 0x20150)
    (run' : LoadRun (nullSection untypedObject 4) 304 0x20150), SameImage run run' := by
  obtain ⟨run⟩ := nonempty_loadRun untypedObject_wellFormed.1.loadable.toTableInside
    (by decide +kernel)
  obtain ⟨run'⟩ := nonempty_loadRun (untypedObject_wellFormed.1.nullSection_loadable (by decide)
    untypedObject_wellFormed.2.1).toTableInside (by decide +kernel)
  have hrelocations : relocations untypedObject = [(4, 0)] := by decide +kernel
  have hothers : ∀ r ∈ relocations untypedObject, Stray untypedObject r.1 → r.1 ≠ 4 →
      (relocEffect untypedObject 0x20150 r).Local 0x20150
        (imageLength untypedObject (sectionCount untypedObject)) := by
    intro r hr _ hne
    rw [hrelocations, List.mem_singleton] at hr
    exact absurd (congrArg Prod.fst hr) hne
  have hcount : relocCount untypedObject 4 = 1 := by decide +kernel
  have hinert : ∀ j < relocCount untypedObject 4,
      (relocEffect untypedObject 0x20150 (4, j)).Inert := by
    intro j hj
    rw [hcount] at hj
    obtain rfl : j = 0 := by omega
    rw [relocEffect, if_pos (by decide +kernel)]
    trivial
  exact ⟨run, run', (unloaded_relocations untypedObject_wellFormed.1 untypedObject_wellFormed.2
    run run').1 hothers hinert⟩

/-- The relocation of the debug information changes the first instruction. -/
theorem strayObject_changed : ObjectWellFormed strayObject 304 ∧ Stray strayObject 4 ∧
    ∃ (run : LoadRun strayObject 304 0x20150)
      (run' : LoadRun (nullSection strayObject 4) 304 0x20150), ¬ SameImage run run' := by
  obtain ⟨hwf, hs⟩ := strayObject_wellFormed
  obtain ⟨run⟩ := nonempty_loadRun hwf.loadable.toTableInside (by decide +kernel)
  obtain ⟨run'⟩ := nonempty_loadRun (hwf.nullSection_loadable (by decide) hs.1).toTableInside
    (by decide +kernel)
  refine ⟨hwf, hs, run, run', fun hsame => ?_⟩
  have hinert := hwf.inert_of_sameImage hs strayObject_apart hsame
    (show 0 < relocCount strayObject 4 by decide +kernel)
  rw [strayObject_effect] at hinert
  exact absurd hinert (show ¬ (0x20154 : Word) = 0 by decide)

end Hjortron
