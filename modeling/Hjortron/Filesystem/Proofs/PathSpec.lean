import Hjortron.Filesystem.Fat12

/-!
# Paths and names

How `fat12_open` and `fat12_opendir` take a path apart, what the extension loop does to the name
buffer, and the names that `fat12_readdir` reports. The formatter writes the base name, a dot and
all three bytes of the extension; the parser undoes this as long as the result fits the eleven
characters that it accepts, that is, for base names of at most seven characters.
-/

namespace Hjortron

/-- The base of an 8.3 name: the first eight bytes without trailing spaces. -/
def baseName (filename : List Byte) : List Byte := (filename.take 8).rdropWhile (· == ascii ' ')

/-- The three bytes of the extension, trailing spaces included. -/
def extension (filename : List Byte) : List Byte := filename.drop 8

/-- An 8.3 name: a base, and no dot, slash or NUL anywhere. -/
structure Valid83 (filename : List Byte) : Prop where
  base : baseName filename ≠ []
  plain : ∀ c ∈ filename, c ≠ ascii '.' ∧ c ≠ ascii '/' ∧ c ≠ 0

section

variable {readDirectory : Half → List DirectoryEntry} {stack : Nat → Byte}
  {entries : List DirectoryEntry} {buffer ext filename s path : List Byte} {i k d fuel n : Nat}

/-! ## The name that is reported -/

theorem Valid83.not_nul (h : Valid83 filename) : 0 ∉ filename :=
  fun hmem => (h.plain 0 hmem).2.2 rfl

theorem length_baseName_le : (baseName filename).length ≤ 8 :=
  (List.rdropWhile_prefix _ _).length_le.trans (by simp)

theorem Valid83.baseName_plain (h : Valid83 filename) :
    ∀ c ∈ baseName filename, c ≠ ascii '.' ∧ c ≠ ascii '/' ∧ c ≠ 0 := fun c hc =>
  h.plain c (List.mem_of_mem_take ((List.rdropWhile_prefix _ _).subset hc))

theorem Valid83.extension_plain (h : Valid83 filename) :
    ∀ c ∈ extension filename, c ≠ ascii '.' ∧ c ≠ ascii '/' ∧ c ≠ 0 := fun c hc =>
  h.plain c (List.mem_of_mem_drop hc)

theorem Valid83.reported_slash (h : Valid83 filename) :
    ascii '/' ∉ baseName filename ++ ascii '.' :: extension filename := by
  simp only [List.mem_append, List.mem_cons, not_or]
  exact ⟨fun hm => (h.baseName_plain _ hm).2.1 rfl, by decide,
    fun hm => (h.extension_plain _ hm).2.1 rfl⟩

/-- The string that `fat12_format_file_name` leaves in an empty name field. -/
theorem cstr_formatFileName (hlen : filename.length = 11) (h : 0 ∉ filename) :
    cstr (fat12FormatFileName filename emptyName) =
      baseName filename ++ ascii '.' :: extension filename := by
  have hnul : 0 ∉ filename.take 8 := fun hmem => h (List.mem_of_mem_take hmem)
  have hbnul : 0 ∉ baseName filename := not_mem_rdropWhile hnul
  have hb8 : (baseName filename).length ≤ 8 := length_baseName_le
  have hext : (extension filename).length = 3 := by simp [extension, hlen]
  have hcopy : copyInto emptyName 0 filename 8 = filename.take 8 ++ 0 :: List.replicate 247 0 := by
    simp only [copyInto, emptyName, List.take_zero, List.nil_append, Nat.zero_add,
      List.drop_replicate, Nat.reduceSub]
    rfl
  have htrim : strtrim (copyInto emptyName 0 filename 8) (ascii ' ') =
      baseName filename ++ 0 :: List.replicate (255 - (baseName filename).length) 0 := by
    have hpad : List.replicate (8 - (baseName filename).length) (0 : Byte) ++
        0 :: List.replicate 247 0 = 0 :: List.replicate (255 - (baseName filename).length) 0 := by
      rw [← List.replicate_succ, ← List.replicate_succ, List.replicate_append_replicate]
      congr 1
      omega
    rw [hcopy, strtrim_append hnul, show (filename.take 8).length = 8 by simp [hlen]]
    change baseName filename ++ (List.replicate (8 - (baseName filename).length) 0 ++ _) = _
    rw [hpad]
  have hstr : strlen (baseName filename ++ 0 ::
      List.replicate (255 - (baseName filename).length) 0) = (baseName filename).length :=
    strlen_append_nul hbnul
  simp only [fat12FormatFileName, htrim, hstr]
  rw [List.set_append_right _ _ le_rfl, Nat.sub_self, List.set_cons_zero, copyInto]
  have htake : (baseName filename ++ ascii '.' ::
      List.replicate (255 - (baseName filename).length) 0).take ((baseName filename).length + 1) =
      baseName filename ++ [ascii '.'] := by
    simp [List.take_append]
  have hdrop : (baseName filename ++ ascii '.' ::
      List.replicate (255 - (baseName filename).length) 0).drop
        ((baseName filename).length + 1 + 3) =
      0 :: List.replicate (251 - (baseName filename).length) 0 := by
    rw [← List.replicate_succ, Nat.add_assoc, List.drop_length_add_append, List.drop_succ_cons,
      List.drop_replicate]
    congr 1
    omega
  rw [htake, hdrop, show (filename.drop 8).take 3 = extension filename from
    List.take_of_length_le (by simp [hlen]), List.append_assoc, List.append_assoc,
    List.singleton_append, ← List.cons_append, ← List.append_assoc]
  refine cstr_append_nul ?_
  simp only [List.mem_append, List.mem_cons, not_or]
  refine ⟨hbnul, by decide, fun hmem => h (List.mem_of_mem_drop hmem)⟩

/-! ## The extension loop -/

/-- The name buffer after the extension has been written to its place, from index `k` on. -/
def fillFrom (k : Nat) (buffer ext : List Byte) : List Byte :=
  buffer.mapIdx fun j c =>
    if k ≤ j ∧ j < 11 then
      if 8 ≤ j then ext.getD (j - 8) 0 else ascii ' '
    else
      c

theorem fillFrom_of_le (hk : 11 ≤ k) : fillFrom k buffer ext = buffer := by
  refine List.ext_getElem? fun j => ?_
  rw [fillFrom, List.getElem?_mapIdx]
  cases buffer[j]? with
  | none => rfl
  | some c => simp only [Option.map_some, if_neg (show ¬ (k ≤ j ∧ j < 11) by omega)]

theorem fillFrom_set {v : Byte} (hk : k < 11)
    (hv : v = if 8 ≤ k then ext.getD (k - 8) 0 else ascii ' ') :
    fillFrom (k + 1) (buffer.set k v) ext = fillFrom k buffer ext := by
  refine List.ext_getElem? fun j => ?_
  rw [fillFrom, fillFrom, List.getElem?_mapIdx, List.getElem?_mapIdx, List.getElem?_set]
  by_cases hkj : k = j
  · subst hkj
    by_cases hlen : k < buffer.length
    · simp [hlen, hk, hv]
    · simp [hlen]
  · rw [if_neg hkj]
    cases buffer[j]? with
    | none => rfl
    | some c =>
      have hiff : k + 1 ≤ j ∧ j < 11 ↔ k ≤ j ∧ j < 11 := by omega
      simp only [Option.map_some, hiff]

/-- The iterations after the extension has been found. -/
theorem extensionLoop_fill (hext : ext.getD 0 0 ≠ 0) (hk : k ≤ 11) (hfuel : 11 - k < fuel) :
    extensionLoop stack fuel k buffer ext = some (fillFrom k buffer ext, ext) := by
  induction hn : 11 - k generalizing k buffer fuel with
  | zero =>
    obtain ⟨fuel, rfl⟩ := Nat.exists_eq_succ_of_ne_zero (Nat.ne_of_gt (Nat.zero_lt_of_lt hfuel))
    rw [extensionLoop, if_neg (by omega), fillFrom_of_le (by omega)]
  | succ n ih =>
    obtain ⟨fuel, rfl⟩ := Nat.exists_eq_succ_of_ne_zero (Nat.ne_of_gt (Nat.zero_lt_of_lt hfuel))
    rw [extensionLoop, if_pos (by omega), if_pos hext]
    by_cases h8 : 8 ≤ k
    · rw [if_pos h8, ih (by omega) (by omega) (by omega),
        fillFrom_set (by omega) (by rw [if_pos h8])]
    · rw [if_neg h8, ih (by omega) (by omega) (by omega),
        fillFrom_set (by omega) (by rw [if_neg h8])]

/-- The iterations before the first dot. -/
theorem extensionLoop_scan (hext : ext.getD 0 0 = 0) (hkd : k ≤ d) (hd : d ≤ 11)
    (hdots : ∀ j, k ≤ j → j < d → buffer.getD j 0 ≠ ascii '.') :
    extensionLoop stack (fuel + (d - k)) k buffer ext = extensionLoop stack fuel d buffer ext := by
  induction hn : d - k generalizing k with
  | zero =>
    obtain rfl : k = d := by omega
    rfl
  | succ n ih =>
    rw [← Nat.add_assoc, extensionLoop, if_pos (by omega), if_neg (by simpa using hext),
      if_neg (hdots k le_rfl (by omega))]
    exact ih (by omega) (fun j hj => hdots j (by omega)) (by omega)

/-- The first dot where the loop looks. It skips the first character. -/
structure FirstDot (buffer : List Byte) (d : Nat) : Prop where
  pos : 1 ≤ d
  dot : buffer.getD d 0 = ascii '.'
  first : ∀ j, 1 ≤ j → j < d → buffer.getD j 0 ≠ ascii '.'

/-- No dot where the loop looks. -/
def NoDot (buffer : List Byte) : Prop := ∀ j, 1 ≤ j → j < 11 → buffer.getD j 0 ≠ ascii '.'

theorem noDot_or_firstDot (buffer : List Byte) : NoDot buffer ∨ ∃ d < 11, FirstDot buffer d := by
  by_cases hdot : ∃ d, 1 ≤ d ∧ d < 11 ∧ buffer.getD d 0 = ascii '.'
  · classical
    obtain ⟨h1, h11, hd⟩ := Nat.find_spec hdot
    refine .inr ⟨Nat.find hdot, h11, h1, hd, ?_⟩
    intro j hj hlt hjd
    exact Nat.find_min hdot hlt ⟨hj, by omega, hjd⟩
  · exact .inl fun j hj h11 hjd => hdot ⟨j, hj, h11, hjd⟩

/-- The whole loop when the first dot is at index `d`. -/
theorem FirstDot.loop_eq (h : FirstDot buffer d) (hd : d < 11)
    (hnul : bufferByte stack buffer (d + 1) ≠ 0) (hfuel : 12 ≤ fuel) :
    extensionLoop stack fuel 1 buffer [0, 0, 0] =
      some (fillFrom d buffer [bufferByte stack buffer (d + 1), bufferByte stack buffer (d + 2),
        bufferByte stack buffer (d + 3)], [bufferByte stack buffer (d + 1),
        bufferByte stack buffer (d + 2), bufferByte stack buffer (d + 3)]) := by
  have hpos := h.pos
  obtain ⟨rest, hrest⟩ := Nat.exists_eq_add_of_le' (show 1 ≤ fuel - (d - 1) by omega)
  rw [show fuel = rest + 1 + (d - 1) by omega, extensionLoop_scan rfl hpos hd.le h.first,
    extensionLoop, if_pos hd, if_neg (by simp), if_pos h.dot]
  exact extensionLoop_fill (by simpa using hnul) (by omega) (by omega)

/-- The whole loop when there is no dot. -/
theorem NoDot.loop_eq (h : NoDot buffer) (hfuel : 11 ≤ fuel) :
    extensionLoop stack fuel 1 buffer [0, 0, 0] = some (buffer, [0, 0, 0]) := by
  obtain ⟨rest, rfl⟩ := Nat.exists_eq_add_of_le' hfuel
  rw [show rest + 11 = rest + 1 + (11 - 1) from rfl, extensionLoop_scan rfl (by decide) le_rfl h]
  rfl

/-! ## Components of a path -/

/-- Writing a component to the name buffer starts with its first character. -/
theorem copyInto_set {c : Byte} (hi : i < buffer.length) :
    copyInto (buffer.set i c) (i + 1) s s.length = copyInto buffer i (c :: s) (c :: s).length := by
  have htake : (buffer.set i c).take (i + 1) = buffer.take i ++ [c] := by
    rw [List.take_set, List.take_add_one, List.set_append_right _ _ (by simp)]
    simp [hi, List.length_take, Nat.min_eq_left hi.le]
  rw [copyInto, copyInto, htake, List.drop_set_of_lt (by omega)]
  simp [Nat.add_assoc, Nat.add_comm 1]

/-- Characters of a component are written to the name buffer. -/
theorem openLoop_component (hslash : ascii '/' ∉ s) (hi : i + s.length ≤ 11)
    (hlen : buffer.length = 12) :
    openLoop readDirectory stack entries buffer i (s ++ path) =
      openLoop readDirectory stack entries (copyInto buffer i s s.length) (i + s.length) path := by
  induction s generalizing buffer i with
  | nil => simp [copyInto]
  | cons c s ih =>
    simp only [List.mem_cons, not_or] at hslash
    simp only [List.length_cons] at hi
    rw [List.cons_append, openLoop, if_neg (Ne.symm hslash.1), if_neg (by omega),
      ih hslash.2 (by omega) (by simpa using hlen), copyInto_set (by omega), List.length_cons,
      Nat.add_assoc, Nat.add_comm 1]

theorem opendirLoop_component (hslash : ascii '/' ∉ s) (hi : i + s.length ≤ 11)
    (hlen : buffer.length = 12) :
    opendirLoop readDirectory entries buffer i (s ++ path) =
      opendirLoop readDirectory entries (copyInto buffer i s s.length) (i + s.length) path := by
  induction s generalizing buffer i with
  | nil => simp [copyInto]
  | cons c s ih =>
    simp only [List.mem_cons, not_or] at hslash
    simp only [List.length_cons] at hi
    rw [List.cons_append, opendirLoop, if_neg fun h => hslash.1 h.1.symm, if_neg (by omega),
      ih hslash.2 (by omega) (by simpa using hlen), copyInto_set (by omega), List.length_cons,
      Nat.add_assoc, Nat.add_comm 1]

theorem copyInto_blank :
    copyInto blankBuffer 0 s s.length = s ++ List.replicate (12 - s.length) (ascii ' ') := by
  rw [copyInto, blankBuffer, List.drop_replicate, Nat.zero_add]
  simp

/-- A string of more than eleven characters, split in front of the twelfth. -/
theorem exists_twelfth (hslash : ascii '/' ∉ s) (hs : 11 < s.length) :
    ∃ x, x ≠ ascii '/' ∧ s = s.take 11 ++ x :: s.drop 12 ∧ (s.take 11).length = 11 ∧
      ascii '/' ∉ s.take 11 := by
  have hx := List.drop_eq_getElem_cons hs
  refine ⟨s.get ⟨11, hs⟩, fun heq => hslash (heq ▸ List.get_mem s _), ?_, ?_, ?_⟩
  · change s = s.take 11 ++ s[11] :: s.drop 12
    rw [← hx, List.take_append_drop]
  · rw [List.length_take]
    exact Nat.min_eq_left hs.le
  · exact fun h => hslash (List.mem_of_mem_take h)

/-- A component of more than eleven characters is rejected. -/
theorem openLoop_overflow (hslash : ascii '/' ∉ s) (hs : 11 < s.length) :
    openLoop readDirectory stack entries blankBuffer 0 (s ++ path) = some ⟨none, [.entries]⟩ := by
  obtain ⟨x, hx, hsplit, hlen, htake⟩ := exists_twelfth hslash hs
  rw [hsplit, List.append_assoc, openLoop_component htake (by omega) rfl, hlen, List.cons_append,
    openLoop, if_neg hx, if_pos rfl]

theorem opendirLoop_overflow (hslash : ascii '/' ∉ s) (hs : 11 < s.length) :
    opendirLoop readDirectory entries blankBuffer 0 (s ++ path) = ⟨none, [.entries]⟩ := by
  obtain ⟨x, hx, hsplit, hlen, htake⟩ := exists_twelfth hslash hs
  rw [hsplit, List.append_assoc, opendirLoop_component htake (by omega) rfl, hlen,
    List.cons_append, opendirLoop, if_neg fun h => hx h.1, if_pos rfl]

/-! ## Comparing names -/

theorem fat12Strcmp_iff {a b : List Byte} (ha : n ≤ a.length) (hb : n ≤ b.length) :
    fat12Strcmp a b n = true ↔ a.take n = b.take n ∧ 0 ∉ a.take n := by
  induction n generalizing a b with
  | zero => simp [fat12Strcmp]
  | succ n ih =>
    cases a with
    | nil => simp at ha
    | cons x a =>
      cases b with
      | nil => simp at hb
      | cons y b =>
        simp only [List.length_cons, Nat.succ_le_succ_iff] at ha hb
        simp only [fat12Strcmp, Bool.and_eq_true, bne_iff_ne, beq_iff_eq, ih ha hb,
          List.take_succ_cons, List.cons.injEq, List.mem_cons, not_or]
        constructor
        · rintro ⟨⟨hx, rfl⟩, htake, hnul⟩
          exact ⟨⟨rfl, htake⟩, hx.symm, hnul⟩
        · rintro ⟨⟨rfl, htake⟩, hx, hnul⟩
          exact ⟨⟨Ne.symm hx, rfl⟩, htake, hnul⟩

/-- Looking a name without NUL up in a directory compares all eleven bytes. -/
theorem findEntry_eq {attributes : Byte} (hbuf : buffer.take 11 = filename)
    (hlen : filename.length = 11) (hnul : 0 ∉ filename) :
    findEntry entries attributes buffer =
      entries.find? fun e => e.attributes == attributes && e.filename == filename := by
  have hbl : 11 ≤ buffer.length := by
    rw [← hbuf, List.length_take] at hlen
    omega
  have hpred : ∀ e : DirectoryEntry,
      fat12Strcmp e.filename buffer 11 = (e.filename == filename) := by
    intro e
    have htake : e.filename.take 11 = e.filename :=
      List.take_of_length_le e.length_filename.le
    rw [Bool.eq_iff_iff, fat12Strcmp_iff e.length_filename.ge hbl, hbuf, htake, beq_iff_eq]
    constructor
    · exact fun h => h.1
    · rintro h
      exact ⟨h, h ▸ hnul⟩
  simp only [findEntry, hpred]

/-- An 8.3 name is its base padded with spaces and its extension. -/
theorem filename_eq (hlen : filename.length = 11) :
    filename = baseName filename ++
      (List.replicate (8 - (baseName filename).length) (ascii ' ') ++ extension filename) := by
  have hsplit : baseName filename ++ (filename.take 8).rtakeWhile (· == ascii ' ') =
      filename.take 8 := List.rdropWhile_append_rtakeWhile
  have hspaces : (filename.take 8).rtakeWhile (· == ascii ' ') =
      List.replicate (8 - (baseName filename).length) (ascii ' ') := by
    refine List.eq_replicate_iff.mpr ⟨?_, fun c hc => by simpa using List.mem_rtakeWhile_imp hc⟩
    have := congrArg List.length hsplit
    rw [List.length_append, List.length_take] at this
    omega
  rw [← List.append_assoc, ← hspaces, hsplit]
  exact (List.take_append_drop 8 filename).symm

/-- The name buffer that holds a reported name. -/
def reportedBuffer (filename : List Byte) : List Byte :=
  baseName filename ++ ascii '.' :: extension filename ++
    List.replicate (8 - (baseName filename).length) (ascii ' ')

/-- Moving an extension to its place pads the base with spaces. -/
theorem take_fillFrom {base tail ext : List Byte} (hbase : base.length ≤ 8)
    (htail : 10 ≤ base.length + tail.length) (hext : ext.length = 3) :
    (fillFrom base.length (base ++ ascii '.' :: tail) ext).take 11 =
      base ++ (List.replicate (8 - base.length) (ascii ' ') ++ ext) := by
  have hget : ∀ j < 11, ∃ c, (base ++ ascii '.' :: tail)[j]? = some c := by
    intro j hj
    refine ⟨_, List.getElem?_eq_getElem ?_⟩
    rw [List.length_append, List.length_cons]
    omega
  refine List.ext_getElem? fun j => ?_
  rw [fillFrom, List.getElem?_take, List.getElem?_mapIdx]
  by_cases hj : j < 11
  · rw [if_pos hj]
    by_cases hjb : j < base.length
    · rw [List.getElem?_append_left hjb, List.getElem?_append_left hjb,
        List.getElem?_eq_getElem hjb, Option.map_some, if_neg (by omega)]
    · obtain ⟨c, hc⟩ := hget j hj
      rw [hc, Option.map_some, if_pos (by omega), List.getElem?_append_right (by omega)]
      by_cases h8 : 8 ≤ j
      · rw [if_pos h8, List.getElem?_append_right (by simp; omega), List.length_replicate,
          show j - base.length - (8 - base.length) = j - 8 by omega,
          List.getD_eq_getElem?_getD, List.getElem?_eq_getElem (by omega), Option.getD_some]
      · rw [if_neg h8, List.getElem?_append_left (by simp; omega),
          List.getElem?_replicate_of_lt (by omega)]
  · rw [if_neg hj, List.getElem?_eq_none]
    simp only [List.length_append, List.length_replicate]
    omega

/-- For a reported name this gives the name in the directory. -/
theorem fillFrom_reported (hlen : filename.length = 11)
    (hbase : (baseName filename).length ≤ 7) :
    (fillFrom (baseName filename).length (reportedBuffer filename)
      (extension filename)).take 11 = filename := by
  have hext : (extension filename).length = 3 := by simp [extension, hlen]
  have htail : 10 ≤ (baseName filename).length + (extension filename ++
      List.replicate (8 - (baseName filename).length) (ascii ' ')).length := by
    rw [List.length_append, List.length_replicate]
    omega
  rw [reportedBuffer, List.append_assoc, List.cons_append, take_fillFrom (by omega) htail hext]
  exact (filename_eq hlen).symm

/-- The loop finds the first dot behind the first character. -/
theorem extensionLoop_base {base tail : List Byte} (hbase : base ≠ [])
    (hdots : ascii '.' ∉ base.tail) (hlt : base.length < 11)
    (hnul : bufferByte stack (base ++ ascii '.' :: tail) (base.length + 1) ≠ 0)
    (hfuel : 12 ≤ fuel) :
    extensionLoop stack fuel 1 (base ++ ascii '.' :: tail) [0, 0, 0] =
      some (fillFrom base.length (base ++ ascii '.' :: tail)
        [bufferByte stack (base ++ ascii '.' :: tail) (base.length + 1),
          bufferByte stack (base ++ ascii '.' :: tail) (base.length + 2),
          bufferByte stack (base ++ ascii '.' :: tail) (base.length + 3)],
        [bufferByte stack (base ++ ascii '.' :: tail) (base.length + 1),
          bufferByte stack (base ++ ascii '.' :: tail) (base.length + 2),
          bufferByte stack (base ++ ascii '.' :: tail) (base.length + 3)]) := by
  have hfirst : FirstDot (base ++ ascii '.' :: tail) base.length := by
    constructor
    · exact List.length_pos_iff.mpr hbase
    · rw [List.getD_eq_getElem?_getD, List.getElem?_append_right le_rfl, Nat.sub_self]
      rfl
    · intro j hj hjd hdot
      rw [List.getD_eq_getElem?_getD, List.getElem?_append_left hjd, List.getElem?_eq_getElem hjd,
        Option.getD_some] at hdot
      apply hdots
      rw [← List.drop_one, ← hdot]
      exact List.mem_drop_iff_getElem.mpr ⟨j - 1, by omega, by congr 1; omega⟩
  exact hfirst.loop_eq hlt hnul hfuel

/-! ## Opening a reported name -/

theorem extensionLoop_reported (hlen : filename.length = 11) (h : Valid83 filename)
    (hbase : (baseName filename).length ≤ 7) :
    extensionLoop stack 24 1 (reportedBuffer filename) [0, 0, 0] =
      some (fillFrom (baseName filename).length (reportedBuffer filename) (extension filename),
        extension filename) := by
  have hextplain := h.extension_plain
  have hdots : ascii '.' ∉ (baseName filename).tail := fun hmem =>
    (h.baseName_plain _ (List.mem_of_mem_tail hmem)).1 rfl
  have hext : (extension filename).length = 3 := by simp [extension, hlen]
  obtain ⟨e₀, e₁, e₂, he⟩ : ∃ e₀ e₁ e₂, extension filename = [e₀, e₁, e₂] :=
    List.length_eq_three.mp hext
  rw [reportedBuffer, he, List.append_assoc, List.cons_append]
  rw [he] at hextplain
  have hbytes : ∀ k c, [ascii '.', e₀, e₁, e₂][k]? = some c →
      bufferByte stack (baseName filename ++ ascii '.' :: ([e₀, e₁, e₂] ++
        List.replicate (8 - (baseName filename).length) (ascii ' ')))
        ((baseName filename).length + k) = c := by
    intro k c hk
    have hk4 : k < 4 := (List.getElem?_eq_some_iff.mp hk).1
    rw [bufferByte, List.getD_eq_getElem?_getD, List.getElem?_append_right (by omega),
      Nat.add_sub_cancel_left, ← List.cons_append, List.getElem?_append_left (by simpa using hk4),
      hk, Option.getD_some]
  rw [extensionLoop_base h.base hdots (by omega)]
  · simp only [hbytes 1 e₀ rfl, hbytes 2 e₁ rfl, hbytes 3 e₂ rfl]
  · rw [hbytes 1 e₀ rfl]
    exact (hextplain e₀ (by simp)).2.2
  · decide

theorem openFile_reported (hlen : filename.length = 11) (h : Valid83 filename)
    (hbase : (baseName filename).length ≤ 7) {e : DirectoryEntry}
    (hfind : entries.find? (fun e => e.attributes == fat12AttributeArchive &&
      e.filename == filename) = some e) :
    openFile stack entries (reportedBuffer filename) =
      some ⟨some ⟨fat12FormatFileName e.filename emptyName, e.size, 0, e.cluster⟩, [.handle]⟩ := by
  have hstr : strlen (reportedBuffer filename) ≠ 0 := by
    obtain ⟨x, xs, hx⟩ := List.exists_cons_of_ne_nil h.base
    have hx0 : x ≠ 0 := (h.baseName_plain x (by simp [hx])).2.2
    simpa [strlen, cstr, reportedBuffer, hx] using hx0
  have hext0 : (extension filename).getD 0 0 ≠ 0 := by
    have hext : 0 < (extension filename).length := by simp [extension, hlen]
    rw [List.getD_eq_getElem?_getD, List.getElem?_eq_getElem hext, Option.getD_some]
    exact (h.extension_plain _ (List.getElem_mem hext)).2.2
  rw [openFile, if_neg hstr, extensionLoop_reported hlen h hbase]
  simp only [if_neg hext0]
  rw [findEntry_eq (fillFrom_reported hlen hbase) hlen h.not_nul, hfind]

/-- Opening a reported name of a directory. -/
theorem openLoop_reported (hlen : filename.length = 11) (h : Valid83 filename)
    (hbase : (baseName filename).length ≤ 7) {e : DirectoryEntry}
    (hfind : entries.find? (fun e => e.attributes == fat12AttributeArchive &&
      e.filename == filename) = some e) :
    openLoop readDirectory stack entries blankBuffer 0
        (baseName filename ++ ascii '.' :: extension filename) =
      some ⟨some ⟨fat12FormatFileName e.filename emptyName, e.size, 0, e.cluster⟩, [.handle]⟩ := by
  have hext : (extension filename).length = 3 := by simp [extension, hlen]
  rw [← List.append_nil (_ ++ _), openLoop_component h.reported_slash
    (by simp only [List.length_append, List.length_cons]; omega) rfl, copyInto_blank, openLoop,
    show 12 - (baseName filename ++ ascii '.' :: extension filename).length =
      8 - (baseName filename).length by simp only [List.length_append, List.length_cons]; omega]
  exact openFile_reported hlen h hbase hfind

/-! ## Directories -/

theorem strlen_ne_zero (hne : buffer ≠ []) (hnul : 0 ∉ buffer) : strlen buffer ≠ 0 := by
  obtain ⟨x, xs, rfl⟩ := List.exists_cons_of_ne_nil hne
  have hx : x ≠ 0 := fun h => hnul (h ▸ List.mem_cons_self)
  simpa [strlen, cstr] using hx

theorem not_mem_set {c : Byte} (hnul : 0 ∉ buffer) (hc : c ≠ 0) : 0 ∉ buffer.set i c :=
  fun hmem => (List.mem_or_eq_of_mem_set hmem).elim hnul fun heq => hc heq.symm

theorem not_mem_blankBuffer : 0 ∉ blankBuffer := by decide

/-- `fat12_open` walks through the directories of a path like `fat12_opendir`, and goes on in the
directory that this finds. -/
theorem openLoop_directory (hlast : path.getLast? ≠ some (ascii '/')) (hpath : 0 ∉ path)
    (hne : buffer ≠ []) (hnul : 0 ∉ buffer) :
    openLoop readDirectory stack entries buffer i (path ++ ascii '/' :: s) =
      match (opendirLoop readDirectory entries buffer i path).handle with
      | none => some ⟨none, [.entries]⟩
      | some dir =>
        openLoop readDirectory stack (readDirectory (dir.ref.setWidth 16)) blankBuffer 0 s := by
  induction path generalizing entries buffer i with
  | nil =>
    rw [opendirLoop, openDirectory, if_neg (strlen_ne_zero hne hnul), List.nil_append, openLoop,
      if_pos rfl]
    cases findEntry entries fat12AttributeDirectory buffer with
    | none => rfl
    | some entry => rfl
  | cons c path ih =>
    have hrest : path.getLast? ≠ some (ascii '/') := by
      cases path with
      | nil => simp
      | cons x xs => simpa using hlast
    simp only [List.mem_cons, not_or] at hpath
    rw [opendirLoop, List.cons_append, openLoop]
    by_cases hc : c = ascii '/'
    · have hnil : path ≠ [] := by
        rintro rfl
        simp [hc] at hlast
      rw [if_pos hc, if_pos ⟨hc, hnil⟩]
      cases findEntry entries fat12AttributeDirectory buffer with
      | none => rfl
      | some entry => exact ih hrest hpath.2 (by simp [blankBuffer]) not_mem_blankBuffer
    · have hstep : ¬ (c = ascii '/' ∧ path ≠ []) := fun h => hc h.1
      rw [if_neg hc, if_neg hstep]
      by_cases hi : i = 11
      · rw [if_pos hi, if_pos hi]
      · rw [if_neg hi, if_neg hi]
        exact ih hrest hpath.2 (by simpa using hne) (not_mem_set hnul (Ne.symm hpath.1))

theorem trimPath_eq (hnul : 0 ∉ path) : trimPath path = path.rdropWhile (· == ascii '/') :=
  cstr_strtrim hnul

theorem trimPath_getLast? (hnul : 0 ∉ path) : (trimPath path).getLast? ≠ some (ascii '/') := by
  rw [trimPath_eq hnul]
  intro hlast
  have hne : path.rdropWhile (· == ascii '/') ≠ [] := by
    intro h0
    simp [h0] at hlast
  have hnot := List.rdropWhile_last_not (· == ascii '/') path hne
  rw [List.getLast?_eq_some_getLast hne] at hlast
  simp [Option.some.inj hlast] at hnot

/-- `dir + '/' + s`, or `s` for the root directory. -/
def joinPath (dir s : List Byte) : List Byte := if dir = [] then s else dir ++ ascii '/' :: s

/-- Opening a name in a directory that `fat12_opendir` resolves. -/
theorem fat12Open_joinPath {dir : FsDir} {name : List Byte} (hnul : 0 ∉ path)
    (hdir : (fat12Opendir readDirectory name path).handle = some dir) :
    fat12Open readDirectory stack (joinPath (trimPath path) s) =
      openLoop readDirectory stack (readDirectory (dir.ref.setWidth 16)) blankBuffer 0 s := by
  rw [fat12Opendir] at hdir
  rw [fat12Open, joinPath]
  split at hdir
  · rename_i h0
    rw [if_pos h0, ← Option.some.inj hdir]
    rfl
  · rename_i h0
    have hnul' : 0 ∉ trimPath path := by
      rw [trimPath_eq hnul]
      exact not_mem_rdropWhile hnul
    rw [if_neg h0, openLoop_directory (trimPath_getLast? hnul) hnul' (by simp [blankBuffer])
      not_mem_blankBuffer, hdir]

/-- An archive entry with an 8.3 name is reported under that name. -/
theorem direntOf_archive {e : DirectoryEntry} (hattr : e.attributes = fat12AttributeArchive)
    (h : Valid83 e.filename) :
    direntOf e = some ⟨fat12FormatFileName e.filename emptyName, .file⟩ := by
  have hdot : ∀ name : List Byte, name.length = 11 → ascii '.' ∈ name →
      fat12Strcmp e.filename name 11 = false := by
    intro name hlen hmem
    rw [Bool.eq_false_iff]
    intro hcmp
    have htake := ((fat12Strcmp_iff e.length_filename.ge hlen.ge).mp hcmp).1
    rw [List.take_of_length_le e.length_filename.le, List.take_of_length_le hlen.le] at htake
    exact (h.plain _ (htake ▸ hmem)).1 rfl
  rw [direntOf, if_neg (fun hn => hn.2 hattr), hdot dotName rfl (by decide),
    hdot dotDotName rfl (by decide), if_neg (by decide), if_pos hattr]

/-- A reported name can be opened exactly when its base has at most seven characters. -/
theorem open_reported_name_iff (stack : Nat → Byte) {dir : FsDir} {e : DirectoryEntry}
    {name : List Byte} (hnul : 0 ∉ path)
    (hdir : (fat12Opendir readDirectory name path).handle = some dir)
    (he : e ∈ readDirectory (dir.ref.setWidth 16))
    (hattr : e.attributes = fat12AttributeArchive) (h : Valid83 e.filename) :
    ∃ dirent first,
      direntOf e = some dirent ∧ dirent ∈ (fat12Readdir readDirectory dir 0).dirents.map Prod.snd ∧
      (readDirectory (dir.ref.setWidth 16)).find? (fun x =>
        x.attributes == fat12AttributeArchive && x.filename == e.filename) = some first ∧
      ((∃ file blocks,
          fat12Open readDirectory stack (joinPath (trimPath path) (cstr dirent.name)) =
            some ⟨some file, blocks⟩ ∧ file.ref = first.cluster ∧ file.len = first.size) ↔
        (baseName e.filename).length ≤ 7) := by
  have hdirent := direntOf_archive hattr h
  obtain ⟨first, hfirst⟩ : ∃ first, (readDirectory (dir.ref.setWidth 16)).find? (fun x =>
      x.attributes == fat12AttributeArchive && x.filename == e.filename) = some first := by
    rw [← Option.isSome_iff_exists, List.find?_isSome]
    exact ⟨e, he, by simp [hattr]⟩
  refine ⟨_, first, hdirent, ?_, hfirst, ?_⟩
  · have hmem := List.mem_filterMap.mpr ⟨e, he, hdirent⟩
    obtain ⟨j, hj, hget⟩ := List.mem_iff_getElem.mp hmem
    exact List.mem_map.mpr ⟨_, List.mem_mapIdx.mpr ⟨j, hj, rfl⟩, hget⟩
  · rw [fat12Open_joinPath hnul hdir, cstr_formatFileName e.length_filename h.not_nul]
    by_cases hbase : (baseName e.filename).length ≤ 7
    · refine iff_of_true ?_ hbase
      exact ⟨_, _, openLoop_reported e.length_filename h hbase hfirst, rfl, rfl⟩
    · refine iff_of_false ?_ hbase
      rintro ⟨file, blocks, hopen, -⟩
      have hext : (extension e.filename).length = 3 := by simp [extension, e.length_filename]
      rw [← List.append_nil (_ ++ _), openLoop_overflow h.reported_slash
        (by simp only [List.length_append, List.length_cons]; omega)] at hopen
      simp at hopen

/-- An archive entry of 1 KiB at cluster 5. -/
def archiveEntry (name : String) (h : (name.toList.map ascii).length = 11) : DirectoryEntry :=
  ⟨name.toList.map ascii, h, fat12AttributeArchive, 0, 5, 1024⟩

theorem open_reported_name_iff_init :
    ∃ dirent first, direntOf (archiveEntry "INIT    ELF" rfl) = some dirent ∧
      [archiveEntry "INIT    ELF" rfl].find? (fun x => x.attributes == fat12AttributeArchive &&
        x.filename == (archiveEntry "INIT    ELF" rfl).filename) = some first ∧
      ∃ file blocks, fat12Open (fun _ => [archiveEntry "INIT    ELF" rfl]) (fun _ => 0)
          (joinPath (trimPath []) (cstr dirent.name)) = some ⟨some file, blocks⟩ ∧
        file.ref = first.cluster ∧ file.len = first.size := by
  have hroot : (fat12Opendir (fun _ => [archiveEntry "INIT    ELF" rfl]) [] []).handle =
    some ⟨[], 0⟩ := rfl
  obtain ⟨dirent, first, h₁, -, h₂, h₃⟩ := open_reported_name_iff
    (e := archiveEntry "INIT    ELF" rfl) (fun _ => 0) (by simp) hroot (by simp) rfl
    ⟨by decide, by decide⟩
  exact ⟨dirent, first, h₁, h₂, h₃.mpr (by decide)⟩

/-- `CALENDAR.TXT` is reported and cannot be opened. -/
theorem open_reported_name_fails :
    Valid83 (archiveEntry "CALENDARTXT" rfl).filename ∧
      ∃ dirent, direntOf (archiveEntry "CALENDARTXT" rfl) = some dirent ∧
        fat12Open (fun _ => [archiveEntry "CALENDARTXT" rfl]) (fun _ => 0)
          (joinPath (trimPath []) (cstr dirent.name)) = some ⟨none, [.entries]⟩ := by
  have hv : Valid83 (archiveEntry "CALENDARTXT" rfl).filename := ⟨by decide, by decide⟩
  refine ⟨hv, _, direntOf_archive rfl hv, ?_⟩
  rw [cstr_formatFileName (archiveEntry "CALENDARTXT" rfl).length_filename hv.not_nul]
  rfl

end

end Hjortron
