import Hjortron.Display.Display

/-!
# The console shows the last rows of what was written

`Page` is the abstract console: rows of 80 columns without end, on which text is laid out once
and never moves. The screen is the part of it that ends with the row of the cursor, but at least
with row 24; scrolling the buffer is moving that part down by a row.
-/

namespace Hjortron

/-! ## The abstract console -/

/-- The cell of a row nothing has been written to. -/
def blankCell : TextData := ⟨0, defaultForeground, defaultBackground⟩

/-- Rows of 80 columns without end, and the place of the next character. -/
structure Page where
  cell : Nat → Nat → TextData
  row : Nat
  column : Nat

namespace Page

/-- The blank page. -/
def empty : Page := ⟨fun _ _ => blankCell, 0, 0⟩

/-- Goes to the start of the next row. -/
def newline (page : Page) : Page := { page with row := page.row + 1, column := 0 }

/-- Writes a cell and goes to the next column, or to the next row after the last column. -/
def put (page : Page) (data : TextData) : Page :=
  let written := { page with
    cell := fun r c => if r = page.row ∧ c = page.column then data else page.cell r c }
  if page.column + 1 = 80 then written.newline else { written with column := page.column + 1 }

/-- Lays out one character. -/
def type (page : Page) (c : Byte) (attr : TextAttribute) : Page :=
  if c = 0 then page
  else if c = 10 then page.newline
  else page.put ⟨c, attr.foreground.setWidth 4, attr.background.setWidth 4⟩

/-- Lays out a text. -/
def layout (text : List (Byte × TextAttribute)) : Page :=
  text.foldl (fun page c => page.type c.1 c.2) empty

/-- The first of the 25 rows shown: the last is the row of the cursor, but at least row 24. -/
def top (page : Page) : Nat := max 24 page.row - 24

/-- The cursor is in a column, and nothing has been written from its place on. -/
structure WellFormed (page : Page) : Prop where
  column : page.column < 80
  blank : ∀ r c, page.row < r ∨ page.row = r ∧ page.column ≤ c → page.cell r c = blankCell

end Page

/-- Writes a text with `putcf`. -/
def putText (d : Display) (text : List (Byte × TextAttribute)) : Display :=
  text.foldl (fun d c => putcf d c.1 c.2) d

/-- The screen shows the rows of `page` from `top` on, the cursor stands at its place, and the
cells beyond the screen are those of `buffer`. -/
structure ShowsFrom (buffer : Word → TextData) (top : Nat) (page : Page) (d : Display) : Prop where
  cells : ∀ r < 25, ∀ c < 80, d.buffer (BitVec.ofNat 32 (80 * r + c)) = page.cell (top + r) c
  cursor : d.cursor.toNat + 80 * top = 80 * page.row + page.column
  outside : ∀ i, 2000 ≤ i.toNat → d.buffer i = buffer i

variable {buffer : Word → TextData} {i j : Word} {n top : Nat} {page : Page} {d : Display}
  {text : List (Byte × TextAttribute)}

/-! ## The loops over cells -/

theorem clearCell_eq : clearCell buffer i = Function.update buffer i blankCell := by
  simp [clearCell, setCode, setForeground, setBackground, blankCell]

theorem clearCells_apply (hn : i.toNat + n ≤ 2000) :
    clearCells buffer i n j = if i.toNat ≤ j.toNat ∧ j.toNat < i.toNat + n then blankCell
      else buffer j := by
  induction n generalizing buffer i with
  | zero => simp [clearCells]
  | succ n ih =>
    have hsucc : (i + 1).toNat = i.toNat + 1 := by bv_omega
    rw [clearCells, ih (by omega), clearCell_eq, Function.update_apply, hsucc]
    simp only [← BitVec.toNat_inj]
    grind

/-- The row below is still in place when it is copied: the loop runs upwards. -/
theorem shiftCells_apply (hn : i.toNat + n ≤ 2000) :
    shiftCells buffer i n j = if i.toNat ≤ j.toNat ∧ j.toNat < i.toNat + n then buffer (j + 80)
      else buffer j := by
  induction n generalizing buffer i with
  | zero => simp [shiftCells]
  | succ n ih =>
    have hsucc : (i + 1).toNat = i.toNat + 1 := by bv_omega
    have hbehind : i.toNat ≤ j.toNat → j.toNat < 2000 → j + 80 ≠ i := by bv_omega
    rw [shiftCells, ih (by omega), Function.update_apply, Function.update_apply, hsucc]
    rw [displayWidth]
    by_cases hj : j = i
    · subst hj
      simp
    · have hne : j.toNat ≠ i.toNat := fun h => hj (BitVec.toNat_inj.mp h)
      grind

theorem toNat_cell {r c : Nat} (hr : r < 25) (hc : c < 80) :
    (BitVec.ofNat 32 (80 * r + c)).toNat = 80 * r + c := by
  rw [BitVec.toNat_ofNat, Nat.mod_eq_of_lt (by omega)]

/-! ## Scrolling -/

theorem displayClear_buffer (d : Display) (i : Word) :
    (displayClear d).buffer i = if i.toNat < 2000 then blankCell else d.buffer i := by
  have hcells : (displayClear d).buffer =
      clearCells d.buffer 0 (displayWidth * displayHeight).toNat := by
    simp only [displayClear]
  have hlen : (displayWidth * displayHeight).toNat = 2000 := by decide
  rw [hcells, hlen, clearCells_apply (by decide)]
  simp

theorem showsFrom_displayClear (d : Display) :
    ShowsFrom d.buffer 0 Page.empty (displayClear d) where
  cells r hr c hc := by
    rw [displayClear_buffer, toNat_cell hr hc, if_pos (by omega)]
    rfl
  cursor := rfl
  outside i hi := by
    rw [displayClear_buffer, if_neg (by omega)]

/-- The cursor is still on the screen, and nothing moves. -/
theorem displayScroll_of_lt (h : d.cursor.toNat < 2000) : displayScroll d = d := by
  rw [displayScroll, if_neg]
  rw [BitVec.le_def, Nat.not_le]
  exact h

/-- The cursor has left the screen: every row moves up, and a blank row follows. -/
theorem displayScroll_buffer (h : d.cursor.toNat = 2000) :
    (displayScroll d).cursor = 1920 ∧ ∀ i,
      (displayScroll d).buffer i = if i.toNat < 1920 then d.buffer (i + 80)
        else if i.toNat < 2000 then blankCell else d.buffer i := by
  have hscroll : displayScroll d =
      { d with buffer := clearCells (shiftCells d.buffer 0 1920) 1920 80, cursor := 1920 } := by
    rw [displayScroll, if_pos (by rw [BitVec.le_def, h]; decide)]
    rfl
  rw [hscroll]
  refine ⟨rfl, fun i => ?_⟩
  dsimp only
  rw [clearCells_apply (by decide), shiftCells_apply (by decide)]
  simp only [BitVec.reduceToNat]
  grind

/-- Where the cursor is a row below the screen, scrolling shows that row. -/
theorem ShowsFrom.scroll (h : ShowsFrom buffer top page d) (hp : page.WellFormed)
    (hrow : page.row = top + 25) (hcol : page.column = 0) :
    ShowsFrom buffer (top + 1) page (displayScroll d) := by
  have hout : d.cursor.toNat = 2000 := by
    have := h.cursor
    omega
  obtain ⟨hcursor, hbuffer⟩ := displayScroll_buffer hout
  constructor
  · intro r hr c hc
    rw [hbuffer, toNat_cell hr hc]
    by_cases hlast : r = 24
    · rw [if_neg (by omega), if_pos (by omega), hp.blank (top + 1 + r) c (by omega)]
    · have hnext : BitVec.ofNat 32 (80 * r + c) + 80 = BitVec.ofNat 32 (80 * (r + 1) + c) := by
        apply BitVec.eq_of_toNat_eq
        rw [BitVec.toNat_add, toNat_cell hr hc, toNat_cell (by omega) hc]
        simp only [BitVec.reduceToNat]
        omega
      rw [if_pos (by omega), hnext, h.cells (r + 1) (by omega) c hc]
      congr 1
      omega
  · rw [hcursor]
    simp only [BitVec.reduceToNat]
    omega
  · intro i hi
    rw [hbuffer, if_neg (by omega), if_neg (by omega), h.outside i hi]

/-- `display_update_cursor` shows the rows that end with the row of the cursor again. -/
theorem ShowsFrom.updateCursor (h : ShowsFrom buffer top page d) (hp : page.WellFormed)
    (htop : page.top = top ∨ page.top = top + 1 ∧ page.column = 0) :
    ShowsFrom buffer page.top page (displayUpdateCursor d) := by
  have hcol := hp.column
  have hcursor := h.cursor
  have hscroll : ShowsFrom buffer page.top page (displayScroll d) := by
    rcases htop with heq | ⟨hnext, hcol⟩
    · have hlt : d.cursor.toNat < 2000 := by
        unfold Page.top at heq
        omega
      rw [displayScroll_of_lt hlt, heq]
      exact h
    · rw [hnext]
      apply h.scroll hp _ hcol
      unfold Page.top at hnext
      omega
  exact ⟨hscroll.cells, hscroll.cursor, hscroll.outside⟩

/-! ## Typing -/

theorem Page.newline_wellFormed (hp : page.WellFormed) : page.newline.WellFormed where
  column := by simp [Page.newline]
  blank r c hr := hp.blank r c (by simp only [Page.newline] at hr; omega)

theorem Page.put_wellFormed (hp : page.WellFormed) (data : TextData) :
    (page.put data).WellFormed := by
  have hwritten : ∀ r c, page.row < r ∨ page.row = r ∧ page.column < c →
      (if r = page.row ∧ c = page.column then data else page.cell r c) = blankCell := by
    intro r c hr
    rw [if_neg (by omega), hp.blank r c (by omega)]
  have hcol := hp.column
  unfold Page.put
  split
  · refine ⟨by simp only [newline]; omega, fun r c hr => hwritten r c ?_⟩
    simp only [newline] at hr
    omega
  · refine ⟨by simp only; omega, fun r c hr => hwritten r c ?_⟩
    simp only at hr
    omega

theorem Page.type_wellFormed (hp : page.WellFormed) (c : Byte) (attr : TextAttribute) :
    (page.type c attr).WellFormed := by
  unfold Page.type
  split
  · exact hp
  · split
    · exact newline_wellFormed hp
    · exact put_wellFormed hp _

/-- The rows shown move by at most one, and then the cursor is at the start of its row. -/
theorem Page.newline_top (page : Page) :
    page.newline.top = page.top ∨ page.newline.top = page.top + 1 ∧ page.newline.column = 0 := by
  have hrow : page.newline.row = page.row + 1 := rfl
  have hcol : page.newline.column = 0 := rfl
  unfold top
  omega

theorem Page.put_top (page : Page) (data : TextData) :
    (page.put data).top = page.top ∨
      (page.put data).top = page.top + 1 ∧ (page.put data).column = 0 := by
  unfold put
  split
  · exact newline_top _
  · exact Or.inl rfl

/-- The linear cursor of the buffer, moved to the next line. -/
theorem ShowsFrom.newline (h : ShowsFrom buffer page.top page d) (hp : page.WellFormed) :
    ShowsFrom buffer page.top page.newline
      { d with cursor := d.cursor + (displayWidth - d.cursor % displayWidth) } := by
  refine ⟨h.cells, ?_, h.outside⟩
  have hcol := hp.column
  have hcursor := h.cursor
  have hmod : d.cursor.toNat % 80 = page.column := by omega
  have hlt : d.cursor.toNat < 2000 := by
    unfold Page.top at hcursor
    omega
  have hnext : (d.cursor + (displayWidth - d.cursor % displayWidth)).toNat =
      d.cursor.toNat + (80 - page.column) := by
    have hrest : (d.cursor % displayWidth).toNat = d.cursor.toNat % 80 := rfl
    have hwidth : displayWidth.toNat = 80 := rfl
    rw [BitVec.toNat_add, BitVec.toNat_sub, hrest, hwidth, hmod]
    omega
  simp only [Page.newline, hnext]
  omega

/-- A cell written at the cursor. -/
theorem ShowsFrom.put (h : ShowsFrom buffer page.top page d) (hp : page.WellFormed)
    (data : TextData) :
    ShowsFrom buffer page.top (page.put data)
      { d with buffer := Function.update d.buffer d.cursor data, cursor := d.cursor + 1 } := by
  have hcol := hp.column
  have hcursor := h.cursor
  have hlt : d.cursor.toNat < 2000 := by
    unfold Page.top at hcursor
    omega
  have hcell : ∀ r c, (page.put data).cell r c =
      if r = page.row ∧ c = page.column then data else page.cell r c := by
    intro r c
    unfold Page.put
    split <;> rfl
  have hplace : 80 * (page.put data).row + (page.put data).column =
      80 * page.row + page.column + 1 := by
    unfold Page.put
    split <;> simp only [Page.newline] <;> omega
  constructor
  · intro r hr c hc
    have hat : BitVec.ofNat 32 (80 * r + c) = d.cursor ↔
        page.top + r = page.row ∧ c = page.column := by
      rw [← BitVec.toNat_inj, toNat_cell hr hc]
      omega
    simp only [Function.update_apply, hcell, h.cells r hr c hc, hat]
  · rw [hplace]
    have hnext : (d.cursor + 1).toNat = d.cursor.toNat + 1 := by bv_omega
    simp only [hnext]
    omega
  · intro i hi
    have hne : i ≠ d.cursor := by
      rintro rfl
      omega
    simp only [Function.update_of_ne hne, h.outside i hi]

/-- `putcf` on the screen is typing on the page. -/
theorem ShowsFrom.putcf (h : ShowsFrom buffer page.top page d) (hp : page.WellFormed) (c : Byte)
    (attr : TextAttribute) :
    ShowsFrom buffer (page.type c attr).top (page.type c attr) (putcf d c attr) := by
  have hwf := Page.type_wellFormed hp c attr
  unfold Hjortron.putcf
  unfold Page.type at hwf ⊢
  split
  · exact h
  · split
    · rename_i h0 h10
      rw [if_neg h0, if_pos h10] at hwf
      exact (h.newline hp).updateCursor hwf page.newline_top
    · rename_i h0 h10
      rw [if_neg h0, if_neg h10] at hwf
      have hcells : setBackground (setForeground (setCode d.buffer d.cursor c) d.cursor
          (attr.foreground.setWidth 4)) d.cursor (attr.background.setWidth 4) =
          Function.update d.buffer d.cursor
            ⟨c, attr.foreground.setWidth 4, attr.background.setWidth 4⟩ := by
        simp [setBackground, setForeground, setCode]
      simp only [hcells]
      exact (h.put hp _).updateCursor hwf (page.put_top _)

theorem putText_shows (d : Display) (text : List (Byte × TextAttribute)) :
    (Page.layout text).WellFormed ∧
      ShowsFrom d.buffer (Page.layout text).top (Page.layout text)
        (putText (displayClear d) text) := by
  induction text using List.reverseRecOn with
  | nil =>
    exact ⟨⟨by decide, fun r c hr => rfl⟩, showsFrom_displayClear d⟩
  | append_singleton text c ih =>
    obtain ⟨hp, h⟩ := ih
    unfold Page.layout putText at *
    rw [List.foldl_append, List.foldl_append]
    exact ⟨Page.type_wellFormed hp c.1 c.2, h.putcf hp c.1 c.2⟩

/-- After any text the screen shows the 25 rows of its layout that end with the later of row 24
and the row of the cursor. The cursor is on the screen before and after every character, and no
cell beyond the screen is written. -/
theorem display_shows_layout (d : Display) (text : List (Byte × TextAttribute)) :
    (∀ r < 25, ∀ c < 80, (putText (displayClear d) text).buffer (BitVec.ofNat 32 (80 * r + c)) =
      (Page.layout text).cell ((Page.layout text).top + r) c) ∧
    (putText (displayClear d) text).cursor.toNat =
      80 * ((Page.layout text).row - (Page.layout text).top) + (Page.layout text).column ∧
    (∀ typed, typed <+: text → (putText (displayClear d) typed).cursor.toNat < 2000) ∧
    ∀ i, 2000 ≤ i.toNat → (putText (displayClear d) text).buffer i = d.buffer i := by
  have hcursor : ∀ typed, (putText (displayClear d) typed).cursor.toNat =
      80 * ((Page.layout typed).row - (Page.layout typed).top) + (Page.layout typed).column := by
    intro typed
    obtain ⟨-, h⟩ := putText_shows d typed
    have := h.cursor
    unfold Page.top at *
    omega
  obtain ⟨-, h⟩ := putText_shows d text
  refine ⟨h.cells, hcursor text, ?_, h.outside⟩
  intro typed _
  have hcol := (putText_shows d typed).1.column
  rw [hcursor typed]
  unfold Page.top
  omega

end Hjortron
