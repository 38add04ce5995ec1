import Hjortron.Filesystem.Proofs.DriverHeap

/-!
# `fat12_open` on the heap

`fat12_open` returns NULL exactly where the function without the heap does, and otherwise a new
block with the handle that it returns there.
-/

namespace Hjortron

namespace Driver

open Logged

/-- What `fat12_open` has done on the heap when its result as a value is the last argument: a
block with the handle, or NULL and a block that is lost. -/
inductive Opens (lo hi : Nat) (live : List (Word × Word)) (heap heap' : Heap) :
    Option Word → Option FsFile → Prop
  | missing {lost : Word × Word} : Keeps lo hi live (fun _ => False) heap heap' [lost] →
      Opens lo hi live heap heap' none none
  | found {ptr : Word} {file : FsFile} :
      Keeps lo hi live (fun _ => False) heap heap' [(ptr, sizeofFsFile)] →
      fileAt heap'.mem ptr = file → Opens lo hi live heap heap' (some ptr) (some file)

section

variable {lo hi : Nat} {live own : List (Word × Word)} {directory : Half → Directory}
  {stack : Nat → Byte} {heap heap₁ heap₂ : Heap} {log : List DriverEvent} {entries len n : Word}
  {path buffer : List Byte} {E : List DirectoryEntry} {i : Nat} {handle : Option Word}

/-- The entries of a directory are a new block. -/
theorem readDirectory_keeps {cluster : Half} {r : Word × Word}
    (h : Keeps lo hi live (fun _ => False) heap heap₁ own)
    (hrun : (fat12ReadDirectory directory cluster).Runs heap₁ r heap₂ log) :
    Keeps lo hi live (fun _ => False) heap heap₂
      ((r.1, BitVec.ofNat 32 (32 * (directory cluster).count)) :: own) := by
  rcases runs_bind_iff.mp hrun with ⟨ptr, heap', _, _, hmalloc, hrest, rfl⟩
  rcases runs_bind_iff.mp hrest with ⟨_, _, _, _, hwrite, hreturn, rfl⟩
  rcases runs_pure_iff.mp hreturn with ⟨rfl, rfl, rfl⟩
  have hcount := (directory cluster).count_lt
  apply (h.malloc hmalloc).1.write (fun _ h => absurd h not_false) _ hwrite
  intro x _ hx
  have hout := hx _ List.mem_cons_self
  have hsize : (BitVec.ofNat 32 (32 * (directory cluster).count)).toNat =
      32 * (directory cluster).count := by
    rw [BitVec.toNat_ofNat]
    exact Nat.mod_eq_of_lt hcount
  rw [hsize] at hout
  rw [Mem.blit_apply (Nat.le_of_lt hcount)]
  exact if_neg hout

/-- The assignments to a new handle stay inside it. -/
theorem storeFile_frame {m : Mem} {file x : Word} {entry : DirectoryEntry}
    (hx : ¬ InRange file 284 x) : storeFile m file entry x = m x := by
  unfold storeFile
  rw [Mem.blit_apply (by decide), if_neg, Mem.store32_member (n := 284) (by decide) hx,
    Mem.store32_member (n := 284) (by decide) hx, Mem.store32_member (n := 284) (by decide) hx]
  intro hin
  apply hx
  unfold InRange
  omega

/-- The end of `fat12_open`: the handle takes the place of the entries. -/
theorem opens_handle {entry : DirectoryEntry}
    (h : Keeps lo hi live (fun _ => False) heap heap₁ [(entries, n)])
    (hrun : Runs (do
      let file ← malloc sizeofFsFile
      write fun m => storeFile m file entry
      free entries
      return some file : Action (Option Word)) heap₁ handle heap₂ log) :
    Opens lo hi live heap heap₂ handle
      (some ⟨fat12FormatFileName entry.filename emptyName, entry.size, 0, entry.cluster⟩) := by
  rcases runs_bind_iff.mp hrun with ⟨file, heap₃, _, _, hmalloc, hrest, rfl⟩
  rcases runs_bind_iff.mp hrest with ⟨_, heap₄, _, _, hwrite, hrest', rfl⟩
  rcases runs_bind_iff.mp hrest' with ⟨_, heap₅, _, _, hfree, hreturn, rfl⟩
  rcases runs_pure_iff.mp hreturn with ⟨rfl, rfl, rfl⟩
  have hmade := (h.malloc hmalloc).1
  have hstored : Keeps lo hi live (fun _ => False) heap heap₄
      [(file, sizeofFsFile), (entries, n)] := by
    apply hmade.write (fun _ h => absurd h not_false) _ hwrite
    intro x _ hx
    exact storeFile_frame (hx _ List.mem_cons_self)
  rcases hstored.free [(file, sizeofFsFile)] [] hfree with ⟨hend, hframe⟩
  refine .found hend ?_
  have hbytes : fileAt heap₅.mem file = fileAt heap₄.mem file := by
    apply fileAt_congr
    intro x hx
    exact hframe x (.inr (.inr ⟨(file, sizeofFsFile), by simp, hx⟩))
  rw [hbytes, (runs_write_iff.mp hwrite).1]
  exact fileAt_storeFile

/-- The end of the path in `fat12_open`. -/
theorem runs_openFile_opens (h : Keeps lo hi live (fun _ => False) heap heap₁ [(entries, n)])
    (hE : entriesAt heap₁.mem entries len = E)
    (hrun : (openFile stack entries len buffer).Runs heap₁ handle heap₂ log) :
    ∃ o, Hjortron.openFile stack E buffer = some o ∧
      Opens lo hi live heap heap₂ handle o.handle := by
  rw [openFile] at hrun
  rw [Hjortron.openFile]
  have hnull (hrun : (pure none : Action (Option Word)).Runs heap₁ handle heap₂ log) :
      Opens lo hi live heap heap₂ handle none := by
    rcases runs_pure_iff.mp hrun with ⟨rfl, rfl, -⟩
    exact .missing h
  by_cases h0 : strlen buffer = 0
  · rw [if_pos h0] at hrun ⊢
    exact ⟨_, rfl, hnull hrun⟩
  · rw [if_neg h0] at hrun ⊢
    cases hloop : extensionLoop stack 24 1 buffer [0, 0, 0] with
    | none =>
      rw [hloop] at hrun
      exact absurd hrun not_runs_fail
    | some r =>
      rcases r with ⟨buffer', ext⟩
      rw [hloop] at hrun
      dsimp only at hrun ⊢
      by_cases hext : ext.getD 0 0 = 0
      · rw [if_pos hext] at hrun ⊢
        exact ⟨_, rfl, hnull hrun⟩
      · rw [if_neg hext] at hrun ⊢
        have hrest := runs_lookup hE hrun
        generalize findEntry E fat12AttributeArchive buffer' = found at hrest ⊢
        cases found with
        | none => exact ⟨_, rfl, hnull hrest⟩
        | some entry => exact ⟨_, rfl, opens_handle h hrest⟩

/-- The loop of `fat12_open`. -/
theorem runs_openLoop_opens (path : List Byte)
    (h : Keeps lo hi live (fun _ => False) heap heap₁ [(entries, n)])
    (hE : entriesAt heap₁.mem entries len = E)
    (hrun : (openLoop directory stack entries len buffer i path).Runs heap₁ handle heap₂ log) :
    ∃ o, Hjortron.openLoop (fun c => (directory c).entries) stack E buffer i path = some o ∧
      Opens lo hi live heap heap₂ handle o.handle := by
  induction path generalizing entries len n E buffer i heap₁ log with
  | nil => exact runs_openFile_opens h hE hrun
  | cons c path ih =>
    rw [openLoop] at hrun
    rw [Hjortron.openLoop]
    by_cases hslash : c = ascii '/'
    · rw [if_pos hslash] at hrun ⊢
      have hrest := runs_lookup hE hrun
      generalize findEntry E fat12AttributeDirectory buffer = found at hrest ⊢
      cases found with
      | none =>
        rcases runs_pure_iff.mp hrest with ⟨rfl, rfl, -⟩
        exact ⟨_, rfl, .missing h⟩
      | some entry =>
        rcases runs_bind_iff.mp hrest with ⟨_, heap₃, _, _, hfree, hrest', rfl⟩
        rcases runs_bind_iff.mp hrest' with ⟨r, heap₄, _, _, hread, hloop, rfl⟩
        have hfreed := (h.free [] [] hfree).1
        exact ih (readDirectory_keeps hfreed hread) (runs_readDirectory hread).2 hloop
    · rw [if_neg hslash] at hrun ⊢
      by_cases h11 : i = 11
      · rw [if_pos h11] at hrun ⊢
        rcases runs_pure_iff.mp hrun with ⟨rfl, rfl, -⟩
        exact ⟨_, rfl, .missing h⟩
      · rw [if_neg h11] at hrun ⊢
        exact ih h hE hrun

/-- `fat12_open` on the heap does what it does without the heap. -/
theorem fat12Open_opens (hledger : Ledger lo hi heap live)
    (hrun : (fat12Open directory stack path).Runs heap handle heap₂ log) :
    ∃ o, Hjortron.fat12Open (fun c => (directory c).entries) stack path = some o ∧
      Opens lo hi live heap heap₂ handle o.handle := by
  rcases runs_bind_iff.mp hrun with ⟨r, heap₁, _, _, hread, hloop, rfl⟩
  have hstart : Keeps lo hi live (fun _ => False) heap heap [] := .refl hledger
  exact runs_openLoop_opens path (readDirectory_keeps hstart hread) (runs_readDirectory hread).2
    hloop

end

end Driver

end Hjortron
