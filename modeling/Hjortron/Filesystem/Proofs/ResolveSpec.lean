import Hjortron.Filesystem.Proofs.PathSpec

/-!
# Files in a directory

`fat12_open` of `d/f` looks `f` up in the directory that `fat12_opendir` of `d` finds. The two
parsers differ in the slash they accept and in their code for the end of a path; neither matters
for a path that does not end in a slash.
-/

namespace Hjortron

section

variable {readDirectory readDirectory' : Half → List DirectoryEntry} {stack : Nat → Byte}
  {entries : List DirectoryEntry} {buffer s path : List Byte} {i : Nat}

/-! ## `fat12_open` returns -/

/-- The extension loop ends when the name buffer has no NUL. -/
theorem extensionLoop_isSome (hlen : buffer.length = 12) (hnul : 0 ∉ buffer) :
    (extensionLoop stack 24 1 buffer [0, 0, 0]).isSome = true := by
  rcases noDot_or_firstDot buffer with hno | ⟨d, hd, hdot⟩
  · rw [hno.loop_eq (by decide)]
    rfl
  · rw [hdot.loop_eq hd ?_ (by decide)]
    · rfl
    · have hin : d + 1 < buffer.length := by omega
      rw [bufferByte, List.getD_eq_getElem?_getD, List.getElem?_eq_getElem hin, Option.getD_some]
      intro h0
      exact hnul (h0 ▸ List.getElem_mem hin)

theorem openFile_isSome (hlen : buffer.length = 12) (hnul : 0 ∉ buffer) :
    (openFile stack entries buffer).isSome = true := by
  have hsome : (extensionLoop stack 24 1 buffer [0, 0, 0]).isSome = true :=
    extensionLoop_isSome hlen hnul
  obtain ⟨⟨buffer', ext⟩, hloop⟩ := Option.isSome_iff_exists.mp hsome
  unfold openFile
  rw [hloop]
  split
  · rfl
  · dsimp only
    split
    · rfl
    · split <;> rfl

/-- Without a dot the path is rejected. -/
theorem NoDot.openFile (h : NoDot buffer) (hstr : strlen buffer ≠ 0) :
    openFile stack entries buffer = some ⟨none, [.entries]⟩ := by
  rw [Hjortron.openFile, if_neg hstr, h.loop_eq (by decide)]
  rfl

/-- `fat12_open` returns for every path. -/
theorem openLoop_isSome (hlen : buffer.length = 12) (hnul : 0 ∉ buffer) (hpath : 0 ∉ path) :
    (openLoop readDirectory stack entries buffer i path).isSome = true := by
  induction path generalizing entries buffer i with
  | nil => exact openFile_isSome hlen hnul
  | cons c path ih =>
    simp only [List.mem_cons, not_or] at hpath
    rw [openLoop]
    split
    · split
      · rfl
      · exact ih rfl not_mem_blankBuffer hpath.2
    · split
      · rfl
      · exact ih (by simpa using hlen) (not_mem_set hnul (Ne.symm hpath.1)) hpath.2

/-- A component is looked up in the entries at hand, whatever other directories hold. -/
theorem openLoop_congr (hslash : ascii '/' ∉ s) :
    openLoop readDirectory stack entries buffer i s =
      openLoop readDirectory' stack entries buffer i s := by
  induction s generalizing buffer i with
  | nil => rfl
  | cons c s ih =>
    simp only [List.mem_cons, not_or] at hslash
    rw [openLoop, openLoop, if_neg (Ne.symm hslash.1), if_neg (Ne.symm hslash.1), ih hslash.2]

/-! ## A directory and a file in it -/

/-- A path that does not end in a slash is not trimmed. -/
theorem trimPath_of_getLast? (hnul : 0 ∉ path) (hlast : path.getLast? ≠ some (ascii '/')) :
    trimPath path = path := by
  rw [trimPath_eq hnul, List.rdropWhile_eq_self_iff]
  intro hne hslash
  apply hlast
  rw [List.getLast?_eq_some_getLast hne]
  exact congrArg some (by simpa using hslash)

/-- `fat12_open` of `path/s` goes on in the directory that `fat12_opendir` of `path` finds. -/
theorem fat12Open_directory (stack : Nat → Byte) (name s : List Byte) (hne : path ≠ [])
    (hnul : 0 ∉ path) (hlast : path.getLast? ≠ some (ascii '/')) :
    fat12Open readDirectory stack (path ++ ascii '/' :: s) =
      match (fat12Opendir readDirectory name path).handle with
      | none => some ⟨none, [.entries]⟩
      | some dir =>
        openLoop readDirectory stack (readDirectory (dir.ref.setWidth 16)) blankBuffer 0 s := by
  have hdir : fat12Opendir readDirectory name path =
      opendirLoop readDirectory (readDirectory 0) blankBuffer 0 path := by
    rw [fat12Opendir, trimPath_of_getLast? hnul hlast, if_neg hne]
  rw [hdir]
  exact openLoop_directory hlast hnul (by simp [blankBuffer]) not_mem_blankBuffer

/-- Opening `path/s`: NULL when `fat12_opendir` does not find `path`, and otherwise what
`fat12_open` of `s` gives on a disk with the entries of that directory in its root. Both calls are
assumed to find the same bytes behind the name buffer, which the loop reads when the dot stands
behind the ninth character; `DotInside.opens_same` needs no such assumption. -/
theorem open_in_directory (stack : Nat → Byte) (name : List Byte) (hne : path ≠ [])
    (hnul : 0 ∉ path) (hlast : path.getLast? ≠ some (ascii '/')) (hs : 0 ∉ s)
    (hslash : ascii '/' ∉ s) :
    ((fat12Opendir readDirectory name path).handle = none →
      ∃ blocks, fat12Open readDirectory stack (path ++ ascii '/' :: s) = some ⟨none, blocks⟩) ∧
    ∀ dir, (fat12Opendir readDirectory name path).handle = some dir →
      ∀ readDirectory', readDirectory' 0 = readDirectory (dir.ref.setWidth 16) →
        ∃ o o', fat12Open readDirectory stack (path ++ ascii '/' :: s) = some o ∧
          fat12Open readDirectory' stack s = some o' ∧ o.handle = o'.handle := by
  have hopen : fat12Open readDirectory stack (path ++ ascii '/' :: s) = _ :=
    fat12Open_directory stack name s hne hnul hlast
  constructor
  · intro hnone
    rw [hnone] at hopen
    exact ⟨_, hopen⟩
  · intro dir hsome readDirectory' hroot
    rw [hsome] at hopen
    have hreturns : (fat12Open readDirectory' stack s).isSome = true :=
      openLoop_isSome rfl not_mem_blankBuffer hs
    obtain ⟨o, ho⟩ := Option.isSome_iff_exists.mp hreturns
    refine ⟨o, o, ?_, ho, rfl⟩
    rw [hopen, ← ho, fat12Open, hroot]
    exact openLoop_congr hslash

/-- A disk with a directory `BIN` at cluster 7 that holds `INIT.ELF`. -/
def binDisk (cluster : Half) : List DirectoryEntry :=
  if cluster = 0 then
    [⟨"BIN        ".toList.map ascii, rfl, fat12AttributeDirectory, 0, 7, 0⟩]
  else
    [archiveEntry "INIT    ELF" rfl]

theorem open_in_directory_bin :
    ∃ o o', fat12Open binDisk (fun _ => 0) ("BIN/INIT.ELF".toList.map ascii) = some o ∧
      fat12Open (fun _ => binDisk 7) (fun _ => 0) ("INIT.ELF".toList.map ascii) = some o' ∧
      o.handle = o'.handle :=
  (open_in_directory (fun _ => 0) [] (by decide : "BIN".toList.map ascii ≠ []) (by decide)
    (by decide) (by decide : 0 ∉ "INIT.ELF".toList.map ascii) (by decide)).2
    ⟨fat12FormatDirName ("BIN        ".toList.map ascii) emptyName, 7⟩ rfl (fun _ => binDisk 7) rfl

end

end Hjortron
