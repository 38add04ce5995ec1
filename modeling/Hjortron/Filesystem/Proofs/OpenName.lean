import Hjortron.Filesystem.Proofs.Components
import Hjortron.Misc.CyclicOrder

/-!
# Under which names `fat12_open` opens a file

The last component of a path is padded with spaces to eleven characters, and what follows its
first dot is moved to the place of the extension. Three characters of an extension are looked at;
the others are overwritten, and spaces in front of the dot are taken for padding. `SpelledOut`
says for which components nothing is lost this way.
-/

namespace Hjortron

/-- A string without its trailing spaces. -/
def trimSpaces (s : List Byte) : List Byte := s.rdropWhile (· == ascii ' ')

/-- What stands before the dot that `fat12_open` finds. It does not look at the first character. -/
def fileBase (s : List Byte) : List Byte :=
  s.take 1 ++ (s.drop 1).takeWhile (· ≠ ascii '.')

/-- What follows that dot. -/
def fileExtension (s : List Byte) : List Byte :=
  ((s.drop 1).dropWhile (· ≠ ascii '.')).drop 1

/-- At most eight characters before the dot, the last of them no space, and nothing but spaces
behind the third character of the extension. -/
structure SpelledOut (s : List Byte) : Prop where
  base_length : (fileBase s).length ≤ 8
  base_last : (fileBase s).getLast? ≠ some (ascii ' ')
  extension : ∀ c ∈ (fileExtension s).drop 3, c = ascii ' '

/-- `fat12_open` returns NULL because a component is too long or because the last one has no
extension, or the last component is spelled out. -/
def KeepsName (path : List Byte) : Prop :=
  (∃ s ∈ components path, 11 < s.length) ∨ ascii '.' ∉ (lastComponent path).drop 1 ∨
    SpelledOut (lastComponent path)

/-- The three bytes that `fat12_open` takes for the extension of a component. -/
def takenExtension (stack : Nat → Byte) (s : List Byte) : List Byte :=
  [bufferByte stack (nameBuffer s) ((fileBase s).length + 1),
    bufferByte stack (nameBuffer s) ((fileBase s).length + 2),
    bufferByte stack (nameBuffer s) ((fileBase s).length + 3)]

/-- The name that `fat12_open` looks for in the directory. -/
def soughtName (stack : Nat → Byte) (s : List Byte) : List Byte :=
  (fillFrom (fileBase s).length (nameBuffer s) (takenExtension stack s)).take 11

/-- An entry of the file that `fat12_open` looks for under the component `s`. -/
structure IsSought (stack : Nat → Byte) (s : List Byte) (e : DirectoryEntry) : Prop where
  attributes : e.attributes = fat12AttributeArchive
  filename : e.filename = soughtName stack s
  not_nul : 0 ∉ e.filename

/-- The path leads through directories to one that has a file of the name that `fat12_open`
looks for. -/
def NamesFile (readDirectory : Half → List DirectoryEntry) (stack : Nat → Byte)
    (path : List Byte) : Prop :=
  ∃ entries, descend readDirectory (readDirectory 0) (components path).dropLast = some entries ∧
    (lastComponent path).length ≤ 11 ∧ ascii '.' ∈ (lastComponent path).drop 1 ∧
    ∃ e ∈ entries, IsSought stack (lastComponent path) e

section

variable {readDirectory : Half → List DirectoryEntry} {stack : Nat → Byte}
  {entries : List DirectoryEntry} {filename s path base ext rest : List Byte} {d : Nat}

/-! ## Trailing spaces -/

theorem trimSpaces_append_dot : trimSpaces (base ++ ascii '.' :: ext) =
    base ++ ascii '.' :: trimSpaces ext := by
  induction ext using List.reverseRecOn with
  | nil => simp [trimSpaces, show ascii '.' ≠ ascii ' ' by decide]
  | append_singleton ext c ih =>
    unfold trimSpaces at ih ⊢
    rw [← List.cons_append, ← List.append_assoc, List.rdropWhile_concat, List.rdropWhile_concat]
    by_cases hc : (c == ascii ' ') = true
    · rw [if_pos hc, if_pos hc, ih]
    · rw [if_neg hc, if_neg hc, List.append_assoc, List.cons_append]

theorem trimSpaces_append (h : ∀ c ∈ ext, c = ascii ' ') :
    trimSpaces (base ++ ext) = trimSpaces base := by
  induction ext using List.reverseRecOn with
  | nil => rw [List.append_nil]
  | append_singleton ext c ih =>
    rw [List.forall_mem_append, List.forall_mem_singleton] at h
    rw [← ih h.1, trimSpaces, trimSpaces, ← List.append_assoc, List.rdropWhile_concat,
      if_pos (beq_iff_eq.mpr h.2)]

/-- What is trimmed are spaces. -/
theorem exists_spaces (s : List Byte) :
    ∃ spaces, s = trimSpaces s ++ spaces ∧ ∀ c ∈ spaces, c = ascii ' ' := by
  refine ⟨s.rtakeWhile (· == ascii ' '), List.rdropWhile_append_rtakeWhile.symm, fun c hc => ?_⟩
  simpa using List.mem_rtakeWhile_imp hc

theorem trimSpaces_eq_self_iff : trimSpaces s = s ↔ s.getLast? ≠ some (ascii ' ') := by
  rw [trimSpaces, List.rdropWhile_eq_self_iff]
  constructor
  · intro h hlast
    have hne : s ≠ [] := by
      rintro rfl
      cases hlast
    rw [List.getLast?_eq_some_getLast hne] at hlast
    exact h hne (beq_iff_eq.mpr (Option.some.inj hlast))
  · intro h hne hlast
    apply h
    rw [List.getLast?_eq_some_getLast hne, beq_iff_eq.mp hlast]

/-- Cutting a string behind its third character loses nothing but spaces. -/
theorem trimSpaces_take_iff :
    trimSpaces (ext.take 3) = trimSpaces ext ↔ ∀ c ∈ ext.drop 3, c = ascii ' ' := by
  constructor
  · intro h c hc
    obtain ⟨spaces, hsplit, hspaces⟩ := exists_spaces ext
    have hle : (trimSpaces ext).length ≤ 3 := by
      rw [← h]
      exact (List.rdropWhile_prefix _ _).length_le.trans (by simp)
    rw [hsplit, List.drop_append, List.drop_eq_nil_of_le hle, List.nil_append] at hc
    exact hspaces c (List.mem_of_mem_drop hc)
  · intro h
    conv_rhs => rw [← List.take_append_drop 3 ext]
    exact (trimSpaces_append h).symm

/-- A dot in front of the trimmed end of a base is no dot of the string. -/
theorem trimmed_dot_iff {a b : List Byte} :
    trimSpaces base ++ ascii '.' :: a = base ++ ascii '.' :: b ↔
      trimSpaces base = base ∧ a = b := by
  constructor
  · intro h
    obtain ⟨spaces, hsplit, hspaces⟩ := exists_spaces base
    conv_rhs at h => rw [hsplit]
    rw [List.append_assoc] at h
    cases spaces with
    | nil =>
      rw [List.append_nil] at hsplit
      exact ⟨hsplit.symm, (List.cons.inj (List.append_cancel_left h)).2⟩
    | cons c spaces =>
      have hc : ascii '.' = c := (List.cons.inj (List.append_cancel_left h)).1
      rw [hspaces c List.mem_cons_self] at hc
      exact absurd hc (by decide)
  · rintro ⟨hbase, rfl⟩
    rw [hbase]

/-! ## The dot -/

theorem fileBase_append (h : ascii '.' ∈ s.drop 1) :
    s = fileBase s ++ ascii '.' :: fileExtension s := by
  have hsplit : (s.drop 1).dropWhile (· ≠ ascii '.') = ascii '.' :: fileExtension s := by
    obtain ⟨pre, post, hpost, hpre⟩ := List.eq_append_cons_of_mem h
    rw [fileExtension, hpost, dropWhile_ne_append_cons hpre]
    rfl
  rw [fileBase, List.append_assoc, ← hsplit, List.takeWhile_append_dropWhile]
  exact (List.take_append_drop 1 s).symm

theorem fileBase_ne_nil (h : ascii '.' ∈ s.drop 1) : fileBase s ≠ [] := by
  cases s with
  | nil => cases h
  | cons c s => simp [fileBase]

theorem fileBase_tail (h : ascii '.' ∈ s.drop 1) : ascii '.' ∉ (fileBase s).tail := by
  cases s with
  | nil => cases h
  | cons c s =>
    intro hmem
    simpa using List.mem_takeWhile_imp hmem

/-! ## The end of the path -/

theorem le_length_fillFrom : 11 ≤ (fillFrom d (nameBuffer s) ext).length := by
  rw [fillFrom, List.length_mapIdx]
  exact le_length_nameBuffer

theorem length_soughtName : (soughtName stack s).length = 11 := by
  rw [soughtName, List.length_take]
  exact Nat.min_eq_left le_length_fillFrom

theorem nameBuffer_eq (h : ascii '.' ∈ s.drop 1) : nameBuffer s = fileBase s ++ ascii '.' ::
    (fileExtension s ++ List.replicate (12 - s.length) (ascii ' ')) := by
  rw [nameBuffer]
  conv_lhs => enter [1]; rw [fileBase_append h]
  rw [List.append_assoc, List.cons_append]

theorem length_fileBase (h : ascii '.' ∈ s.drop 1) :
    s.length = (fileBase s).length + 1 + (fileExtension s).length := by
  conv_lhs => rw [fileBase_append h]
  rw [List.length_append, List.length_cons]
  omega

theorem openFile_dot (hs : s.length ≤ 11) (hnul : 0 ∉ s) (hdot : ascii '.' ∈ s.drop 1) :
    openFile stack entries (nameBuffer s) =
      match findEntry entries fat12AttributeArchive
        (fillFrom (fileBase s).length (nameBuffer s) (takenExtension stack s)) with
      | none => some ⟨none, [.entries]⟩
      | some entry =>
        some ⟨some ⟨fat12FormatFileName entry.filename emptyName, entry.size, 0, entry.cluster⟩,
          [.handle]⟩ := by
  have hlength := length_fileBase hdot
  have hstr : strlen (nameBuffer s) ≠ 0 := strlen_nameBuffer hnul
  have hfirst : bufferByte stack (nameBuffer s) ((fileBase s).length + 1) ≠ 0 :=
    bufferByte_ne_zero hs hnul (by omega)
  have hloop : extensionLoop stack 24 1 (nameBuffer s) [0, 0, 0] =
      some (fillFrom (fileBase s).length (nameBuffer s) (takenExtension stack s),
        takenExtension stack s) := by
    unfold takenExtension
    rw [nameBuffer_eq hdot] at hfirst ⊢
    exact extensionLoop_base (fileBase_ne_nil hdot) (fileBase_tail hdot) (by omega) hfirst
      (by decide)
  rw [openFile, if_neg hstr, hloop]
  exact if_neg hfirst

theorem openFile_no_dot (hs : s.length ≤ 11) (hnul : 0 ∉ s) (hdot : ascii '.' ∉ s.drop 1) :
    openFile stack entries (nameBuffer s) = some ⟨none, [.entries]⟩ := by
  have hstr : strlen (nameBuffer s) ≠ 0 := strlen_nameBuffer hnul
  have hno : NoDot (nameBuffer s) := by
    intro j hj h11 hget
    have hin : j < (nameBuffer s).length := by
      rw [length_nameBuffer hs]
      omega
    rw [List.getD_eq_getElem?_getD, List.getElem?_eq_getElem hin, Option.getD_some] at hget
    by_cases hjs : j < s.length
    · apply hdot
      simp only [nameBuffer, List.getElem_append_left hjs] at hget
      rw [← hget]
      exact List.mem_drop_iff_getElem.mpr ⟨j - 1, by omega, by congr 1; omega⟩
    · simp only [nameBuffer, List.getElem_append_right (Nat.le_of_not_lt hjs),
        List.getElem_replicate] at hget
      exact absurd hget (by decide)
  exact hno.openFile hstr

/-! ## The file that is found -/

theorem isSought_of_findEntry {e : DirectoryEntry}
    (hfind : findEntry entries fat12AttributeArchive
      (fillFrom (fileBase s).length (nameBuffer s) (takenExtension stack s)) = some e) :
    e ∈ entries ∧ IsSought stack s e := by
  have hcmp := List.find?_some hfind
  rw [Bool.and_eq_true, beq_iff_eq, fat12Strcmp_iff e.length_filename.ge le_length_fillFrom,
    List.take_of_length_le e.length_filename.le] at hcmp
  exact ⟨List.mem_of_find?_eq_some hfind, hcmp.1, hcmp.2.1, hcmp.2.2⟩

theorem IsSought.exists_findEntry {e : DirectoryEntry} (h : IsSought stack s e)
    (he : e ∈ entries) : ∃ found, findEntry entries fat12AttributeArchive
      (fillFrom (fileBase s).length (nameBuffer s) (takenExtension stack s)) = some found := by
  rw [← Option.isSome_iff_exists, findEntry, List.find?_isSome]
  refine ⟨e, he, ?_⟩
  rw [Bool.and_eq_true, beq_iff_eq, fat12Strcmp_iff e.length_filename.ge le_length_fillFrom,
    List.take_of_length_le e.length_filename.le]
  exact ⟨h.attributes, h.filename, h.not_nul⟩

/-- A handle has the name of an entry that was sought. -/
theorem openFile_handle {o : Opened FsFile} {file : FsFile} (hs : s.length ≤ 11) (hnul : 0 ∉ s)
    (hopen : openFile stack entries (nameBuffer s) = some o) (hhandle : o.handle = some file) :
    ascii '.' ∈ s.drop 1 ∧ ∃ e ∈ entries, IsSought stack s e ∧
      file.name = fat12FormatFileName e.filename emptyName := by
  by_cases hdot : ascii '.' ∈ s.drop 1
  · refine ⟨hdot, ?_⟩
    rw [openFile_dot hs hnul hdot] at hopen
    cases hfind : findEntry entries fat12AttributeArchive
        (fillFrom (fileBase s).length (nameBuffer s) (takenExtension stack s)) with
    | none =>
      rw [hfind] at hopen
      rw [← Option.some.inj hopen] at hhandle
      cases hhandle
    | some e =>
      rw [hfind] at hopen
      rw [← Option.some.inj hopen] at hhandle
      obtain ⟨he, hsought⟩ := isSought_of_findEntry hfind
      exact ⟨e, he, hsought, by rw [← Option.some.inj hhandle]⟩
  · rw [openFile_no_dot hs hnul hdot] at hopen
    rw [← Option.some.inj hopen] at hhandle
    cases hhandle

/-- A handle comes from a path that names a file. -/
theorem fat12Open_handle {o : Opened FsFile} {file : FsFile} (hnul : 0 ∉ path)
    (hopen : fat12Open readDirectory stack path = some o) (hhandle : o.handle = some file) :
    NamesFile readDirectory stack path ∧ ∃ e, IsSought stack (lastComponent path) e ∧
      file.name = fat12FormatFileName e.filename emptyName := by
  have hlast := not_mem_lastComponent path hnul
  rw [fat12Open, openLoop_eq path _ hnul] at hopen
  cases hdescend : descend readDirectory (readDirectory 0) (components path).dropLast with
  | none =>
    rw [hdescend] at hopen
    rw [← Option.some.inj hopen] at hhandle
    cases hhandle
  | some entries =>
    rw [hdescend, Option.elim_some] at hopen
    split at hopen
    · rw [← Option.some.inj hopen] at hhandle
      cases hhandle
    · rename_i hlong
      have hshort := Nat.le_of_not_lt hlong
      obtain ⟨hdot, e, he, hsought, hname⟩ := openFile_handle hshort hlast hopen hhandle
      exact ⟨⟨entries, hdescend, hshort, hdot, e, he, hsought⟩, e, hsought, hname⟩

/-- `fat12_open` returns a handle exactly when the path names a file. -/
theorem fat12Open_handle_iff (hnul : 0 ∉ path) :
    (∃ o file, fat12Open readDirectory stack path = some o ∧ o.handle = some file) ↔
      NamesFile readDirectory stack path := by
  constructor
  · rintro ⟨o, file, hopen, hhandle⟩
    exact (fat12Open_handle hnul hopen hhandle).1
  · rintro ⟨entries, hdescend, hshort, hdot, e, he, hsought⟩
    obtain ⟨found, hfind⟩ := hsought.exists_findEntry he
    rw [fat12Open, openLoop_eq path _ hnul, hdescend, Option.elim_some, if_neg (by omega),
      openFile_dot hshort (not_mem_lastComponent path hnul) hdot, hfind]
    exact ⟨_, _, rfl, rfl⟩

/-! ## The name that is sought -/

theorem take_fillFrom_of_le {j : Nat} (hj : j ≤ d) :
    (fillFrom d filename ext).take j = filename.take j := by
  refine List.ext_getElem? fun n => ?_
  rw [fillFrom, List.getElem?_take, List.getElem?_take, List.getElem?_mapIdx]
  by_cases hn : n < j
  · rw [if_pos hn, if_pos hn]
    cases filename[n]? with
    | none => rfl
    | some c => rw [Option.map_some, if_neg (by omega)]
  · rw [if_neg hn, if_neg hn]

/-- With a base of at most eight characters the name is padded as in a directory entry. -/
theorem soughtName_eq (hs : s.length ≤ 11) (hdot : ascii '.' ∈ s.drop 1)
    (hbase : (fileBase s).length ≤ 8) :
    soughtName stack s = fileBase s ++
      (List.replicate (8 - (fileBase s).length) (ascii ' ') ++ takenExtension stack s) := by
  have hlength := length_fileBase hdot
  have htail : 10 ≤ (fileBase s).length +
      (fileExtension s ++ List.replicate (12 - s.length) (ascii ' ')).length := by
    rw [List.length_append, List.length_replicate]
    omega
  rw [soughtName, nameBuffer_eq hdot, take_fillFrom hbase htail rfl]

/-- The base of the name that is sought: eight characters of the base of the component. -/
theorem baseName_soughtName (hs : s.length ≤ 11) (hdot : ascii '.' ∈ s.drop 1) :
    baseName (soughtName stack s) = trimSpaces ((fileBase s).take 8) := by
  have htake : (soughtName stack s).take 8 =
      (fileBase s).take 8 ++ List.replicate (8 - (fileBase s).length) (ascii ' ') := by
    by_cases hbase : (fileBase s).length ≤ 8
    · rw [soughtName_eq hs hdot hbase, ← List.append_assoc, List.take_of_length_le hbase]
      refine List.take_left' ?_
      rw [List.length_append, List.length_replicate]
      omega
    · rw [soughtName, List.take_take, Nat.min_eq_left (by decide), take_fillFrom_of_le (by omega),
        nameBuffer_eq hdot, List.take_append_of_le_length (by omega), Nat.sub_eq_zero_of_le
        (by omega), List.replicate_zero, List.append_nil]
  have hspaces : ∀ c ∈ List.replicate (8 - (fileBase s).length) (ascii ' '), c = ascii ' ' :=
    fun c hc => List.eq_of_mem_replicate hc
  rw [← trimSpaces_append hspaces, ← htake]
  rfl

/-- The extension that is taken is padded with spaces of the name buffer. -/
theorem takenExtension_eq (hs : s.length ≤ 11) (hdot : ascii '.' ∈ s.drop 1)
    (hbase : (fileBase s).length ≤ 8) :
    takenExtension stack s =
      (fileExtension s ++ List.replicate (12 - s.length) (ascii ' ')).take 3 := by
  have hlength := length_fileBase hdot
  have htail : 3 ≤ (fileExtension s ++ List.replicate (12 - s.length) (ascii ' ')).length := by
    rw [List.length_append, List.length_replicate]
    omega
  rw [takenExtension, nameBuffer_eq hdot]
  match fileExtension s ++ List.replicate (12 - s.length) (ascii ' '), htail with
  | a :: b :: c :: tail, _ => simp [bufferByte]

theorem extension_soughtName (hs : s.length ≤ 11) (hdot : ascii '.' ∈ s.drop 1)
    (hbase : (fileBase s).length ≤ 8) :
    trimSpaces (extension (soughtName stack s)) = trimSpaces ((fileExtension s).take 3) := by
  have hdrop : extension (soughtName stack s) = takenExtension stack s := by
    rw [extension, soughtName_eq hs hdot hbase, ← List.append_assoc]
    refine List.drop_left' ?_
    rw [List.length_append, List.length_replicate]
    omega
  rw [hdrop, takenExtension_eq hs hdot hbase, List.take_append]
  apply trimSpaces_append
  intro c hc
  exact List.eq_of_mem_replicate (List.mem_of_mem_take hc)

/-- A base of more than eight characters does not fit in front of the dot. -/
theorem take_dot_ne {a b : List Byte} (hbase : 8 < base.length) (htail : ascii '.' ∉ base.tail) :
    base ++ ascii '.' :: a ≠ trimSpaces (base.take 8) ++ ascii '.' :: b := by
  intro h
  obtain ⟨spaces, hsplit, hspaces⟩ := exists_spaces (base.take 8)
  have hbase_eq : base = trimSpaces (base.take 8) ++ (spaces ++ base.drop 8) := by
    rw [← List.append_assoc, ← hsplit, List.take_append_drop]
  conv_lhs at h => rw [hbase_eq]
  rw [List.append_assoc] at h
  cases spaces with
  | nil =>
    rw [List.nil_append, List.drop_eq_getElem_cons hbase] at h
    have hc := (List.cons.inj (List.append_cancel_left h)).1
    apply htail
    rw [← hc, ← List.drop_one]
    exact List.mem_drop_iff_getElem.mpr ⟨7, by omega, rfl⟩
  | cons c spaces =>
    have hc := (List.cons.inj (List.append_cancel_left h)).1
    rw [hspaces c List.mem_cons_self] at hc
    exact absurd hc (by decide)

/-- The name of the entry is the component exactly when the component is spelled out. -/
theorem soughtName_iff (hs : s.length ≤ 11) (hdot : ascii '.' ∈ s.drop 1) :
    trimSpaces s = trimSpaces (baseName (soughtName stack s) ++
      ascii '.' :: extension (soughtName stack s)) ↔ SpelledOut s := by
  rw [baseName_soughtName hs hdot, trimSpaces_append_dot]
  conv_lhs => enter [1]; rw [fileBase_append hdot, trimSpaces_append_dot]
  by_cases hbase : (fileBase s).length ≤ 8
  · rw [List.take_of_length_le hbase, extension_soughtName hs hdot hbase, eq_comm,
      trimmed_dot_iff, trimSpaces_eq_self_iff, trimSpaces_take_iff]
    exact ⟨fun h => ⟨hbase, h.1, h.2⟩, fun h => ⟨h.base_last, h.extension⟩⟩
  · refine iff_of_false ?_ fun h => hbase h.base_length
    exact take_dot_ne (Nat.lt_of_not_le hbase) (fileBase_tail hdot)

/-! ## A disk on which the path can be opened -/

/-- A directory entry under whose name `fat12_open` finds the component `s`. -/
def directoryNamed (s : List Byte) : DirectoryEntry where
  filename := (nameBuffer s).take 11
  length_filename := by
    rw [List.length_take]
    exact Nat.min_eq_left le_length_nameBuffer
  attributes := fat12AttributeDirectory
  clusterHigh := 0
  clusterLow := 0
  size := 0

/-- A file that is found under the last component `s` when spaces follow the name buffer. -/
def fileNamed (s : List Byte) : DirectoryEntry where
  filename := soughtName (fun _ => ascii ' ') s
  length_filename := length_soughtName
  attributes := fat12AttributeArchive
  clusterHigh := 0
  clusterLow := 0
  size := 0

/-- A disk on which every directory has the file and the directories of a path. -/
def diskFor (path : List Byte) (_ : Half) : List DirectoryEntry :=
  fileNamed (lastComponent path) :: (components path).map directoryNamed

theorem not_mem_fillFrom (hbuffer : 0 ∉ filename) (hext : 0 ∉ ext) (h3 : ext.length = 3) :
    0 ∉ fillFrom d filename ext := by
  intro hmem
  obtain ⟨j, hj, hget⟩ := List.mem_mapIdx.mp hmem
  have hjth : filename[j] ≠ 0 := fun h0 => hbuffer (h0 ▸ List.getElem_mem hj)
  split at hget
  · rename_i hin
    split at hget
    · rw [List.getD_eq_getElem?_getD, List.getElem?_eq_getElem (by omega), Option.getD_some] at hget
      exact hext (hget ▸ List.getElem_mem _)
    · exact absurd hget (by decide)
  · exact hjth hget

theorem not_mem_soughtName (hnul : 0 ∉ s) : 0 ∉ soughtName (fun _ => ascii ' ') s := by
  have hbyte : ∀ k, 0 ≠ bufferByte (fun _ => ascii ' ') (nameBuffer s) k := by
    intro k
    rw [bufferByte, List.getD_eq_getElem?_getD]
    cases hget : (nameBuffer s)[k]? with
    | none => decide
    | some c => exact fun h0 => not_mem_nameBuffer hnul (h0 ▸ List.mem_of_getElem? hget)
  intro hmem
  refine not_mem_fillFrom (not_mem_nameBuffer hnul) ?_ rfl (List.mem_of_mem_take hmem)
  rw [takenExtension, List.mem_cons, List.mem_cons, List.mem_singleton, not_or, not_or]
  exact ⟨hbyte _, hbyte _, hbyte _⟩

/-- The components of a path that leads to a directory are not too long. -/
theorem length_le_of_descend {E : List DirectoryEntry} {cs : List (List Byte)}
    (h : descend readDirectory entries cs = some E) : ∀ s ∈ cs, s.length ≤ 11 := by
  induction cs generalizing entries with
  | nil => simp
  | cons s cs ih =>
    rw [descend] at h
    split at h
    · cases h
    · rename_i hs
      obtain ⟨e, -, hrest⟩ := Option.bind_eq_some_iff.mp h
      rw [List.forall_mem_cons]
      exact ⟨Nat.le_of_not_lt hs, ih hrest⟩

/-- With all its components in every directory a path leads to a directory. -/
theorem descend_of_forall_mem {cs : List (List Byte)} (hlen : ∀ s ∈ cs, s.length ≤ 11)
    (hdirs : ∀ s ∈ cs, directoryNamed s ∈ entries) :
    descend (fun _ => entries) entries cs = some entries := by
  induction cs with
  | nil => rfl
  | cons s cs ih =>
    rw [List.forall_mem_cons] at hlen hdirs
    have hfind : (entries.find? fun e => e.attributes == fat12AttributeDirectory &&
        e.filename == (nameBuffer s).take 11).isSome = true := by
      rw [List.find?_isSome]
      exact ⟨directoryNamed s, hdirs.1, by simp [directoryNamed]⟩
    obtain ⟨e, he⟩ := Option.isSome_iff_exists.mp hfind
    rw [descend, if_neg (Nat.not_lt_of_le hlen.1), he]
    exact ih hlen.2 hdirs.2

/-- Every path with components of at most eleven characters and an extension names some file. -/
theorem namesFile_diskFor (hnul : 0 ∉ path) (hlen : ∀ s ∈ components path, s.length ≤ 11)
    (hdot : ascii '.' ∈ (lastComponent path).drop 1) :
    NamesFile (diskFor path) (fun _ => ascii ' ') path := by
  have hdescend : descend (diskFor path) (diskFor path 0) (components path).dropLast =
      some (diskFor path 0) := by
    apply descend_of_forall_mem
    · exact fun s hs => hlen s (List.mem_of_mem_dropLast hs)
    · intro s hs
      exact List.mem_cons_of_mem _ (List.mem_map_of_mem (List.mem_of_mem_dropLast hs))
  refine ⟨_, hdescend, hlen _ (lastComponent_mem path), hdot, _, List.mem_cons_self, rfl, rfl, ?_⟩
  exact not_mem_soughtName (not_mem_lastComponent path hnul)

/-! ## The name of an opened file -/

theorem NamesFile.length_le (h : NamesFile readDirectory stack path) :
    ∀ s ∈ components path, s.length ≤ 11 := by
  obtain ⟨entries, hdescend, hlast, -⟩ := h
  intro s hs
  rw [components_eq path, List.mem_append, List.mem_singleton] at hs
  obtain hs | rfl := hs
  · exact length_le_of_descend hdescend s hs
  · exact hlast

/-- A file that is opened has the name of the last component exactly when that is spelled out. -/
theorem opened_name_iff {o : Opened FsFile} {file : FsFile} (hnul : 0 ∉ path)
    (hopen : fat12Open readDirectory stack path = some o) (hhandle : o.handle = some file) :
    trimSpaces (lastComponent path) = trimSpaces (cstr file.name) ↔
      SpelledOut (lastComponent path) := by
  obtain ⟨⟨_, -, hlast, hdot, -⟩, e, hsought, hname⟩ := fat12Open_handle hnul hopen hhandle
  rw [hname, cstr_formatFileName e.length_filename hsought.not_nul, hsought.filename]
  exact soughtName_iff hlast hdot

/-- `fat12_open` opens no file under a wrong name exactly for the paths that keep their name. -/
theorem opens_under_own_name_iff (hnul : 0 ∉ path) :
    (∀ readDirectory stack o file, fat12Open readDirectory stack path = some o →
      o.handle = some file → trimSpaces (lastComponent path) = trimSpaces (cstr file.name)) ↔
      KeepsName path := by
  constructor
  · intro h
    by_cases hlen : ∀ s ∈ components path, s.length ≤ 11
    · by_cases hdot : ascii '.' ∈ (lastComponent path).drop 1
      · have hnames := namesFile_diskFor hnul hlen hdot
        obtain ⟨o, file, hopen, hhandle⟩ := (fat12Open_handle_iff hnul).mpr hnames
        have hname := h _ _ o file hopen hhandle
        exact .inr (.inr ((opened_name_iff hnul hopen hhandle).mp hname))
      · exact .inr (.inl hdot)
    · left
      push Not at hlen
      exact hlen
  · intro hkeeps readDirectory stack o file hopen hhandle
    have hnames := (fat12Open_handle hnul hopen hhandle).1
    obtain ⟨s, hs, hlong⟩ | hno | hspelled := hkeeps
    · exact absurd (hnames.length_le s hs) (Nat.not_le_of_lt hlong)
    · obtain ⟨_, -, -, hdot, -⟩ := hnames
      exact absurd hdot hno
    · exact (opened_name_iff hnul hopen hhandle).mpr hspelled

theorem opens_under_own_name_iff_init :
    KeepsName ("BIN/INIT.ELF".toList.map ascii) ∧
      ∀ readDirectory stack o file,
        fat12Open readDirectory stack ("BIN/INIT.ELF".toList.map ascii) = some o →
        o.handle = some file →
        trimSpaces (lastComponent ("BIN/INIT.ELF".toList.map ascii)) =
          trimSpaces (cstr file.name) := by
  have hkeeps : KeepsName ("BIN/INIT.ELF".toList.map ascii) :=
    .inr (.inr ⟨by decide, by decide, by decide⟩)
  exact ⟨hkeeps, (opens_under_own_name_iff (by decide)).mpr hkeeps⟩

/-- `INIT.ELFX` opens `INIT.ELF`. -/
theorem opens_under_other_name :
    ∃ o file, fat12Open (fun _ => [archiveEntry "INIT    ELF" rfl]) (fun _ => 0)
        ("INIT.ELFX".toList.map ascii) = some o ∧ o.handle = some file ∧
      trimSpaces (lastComponent ("INIT.ELFX".toList.map ascii)) ≠ trimSpaces (cstr file.name) := by
  refine ⟨_, _, rfl, rfl, ?_⟩
  rw [cstr_formatFileName rfl (by decide)]
  decide

end

end Hjortron
