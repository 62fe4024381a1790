import Vjft.Term.Clipping

/-!
# Messages in frames (`term/iface.c`)

The frame is drawn first and the text inside of it, in a window that begins two columns to the right
of the left line and ends two columns to the left of the right one.
-/

namespace Vjft.Term

/-! ### Lines and frames -/

def drawHorizontalLine (buffer : ScreenBuffer) (x y cols : ℤ) (sym : Sym) : ScreenBuffer :=
  (List.range cols.toNat).foldl (fun buffer (i : ℕ) =>
    bufferedPutchar buffer y (x + i) sym defaultFgColor defaultBgColor) buffer

def drawVerticalLine (buffer : ScreenBuffer) (x y rows : ℤ) (sym : Sym) : ScreenBuffer :=
  (List.range rows.toNat).foldl (fun buffer (i : ℕ) =>
    bufferedPutchar buffer (y + i) x sym defaultFgColor defaultBgColor) buffer

/-- `U'┌'` -/
def topLeft : Sym := 0x250C

/-- `U'┐'` -/
def topRight : Sym := 0x2510

/-- `U'└'` -/
def bottomLeft : Sym := 0x2514

/-- `U'┘'` -/
def bottomRight : Sym := 0x2518

/-- `U'─'` -/
def horizontal : Sym := 0x2500

/-- `U'│'` -/
def vertical : Sym := 0x2502

/-- The calls of `display_message_with_frame` in front of that of `display_wrapped`. -/
def drawFrame (buffer : ScreenBuffer) (x y maxWidth neededRows : ℤ) : ScreenBuffer :=
  let putchar (row col : ℤ) (sym : Sym) (buffer : ScreenBuffer) : ScreenBuffer :=
    bufferedPutchar buffer row col sym defaultFgColor defaultBgColor
  let buffer := putchar y x topLeft buffer
  let buffer := putchar y (x + maxWidth - 1) topRight buffer
  let buffer := putchar (y + neededRows + 2 - 1) x bottomLeft buffer
  let buffer := putchar (y + neededRows + 2 - 1) (x + maxWidth - 1) bottomRight buffer
  let buffer := drawHorizontalLine buffer (x + 1) y (maxWidth - 2) horizontal
  let buffer := drawHorizontalLine buffer (x + 1) (y + neededRows + 2 - 1) (maxWidth - 2) horizontal
  let buffer := drawVerticalLine buffer x (y + 1) (neededRows + 2 - 2) vertical
  drawVerticalLine buffer (x + maxWidth - 1) (y + 1) (neededRows + 2 - 2) vertical

/-- The buffer after the call, and what the call returns. -/
def displayMessageWithFrame (buffer : ScreenBuffer) (text : Bytes) (cursorPos x y maxWidth
    maxHeight : ℤ) : Except Stop (ScreenBuffer × ℤ) := do
  let relMaxWidth := maxWidth - 4
  if relMaxWidth ≤ 0 then pure (buffer, 0)
  else
    let size ← calcDisplaySize text relMaxWidth cursorPos
    let buffer := drawFrame buffer x y maxWidth size.needRows
    let pen ← displayWrapped buffer text ⟨x + 2, y, relMaxWidth, size.needRows, 0, -1, -1⟩
    pure (pen.backBuffer, maxHeight)

/-! ### The border -/

/-- The symbol that a cell of the border is to have. -/
def borderSym (x y maxWidth neededRows row col : ℤ) : Option Sym :=
  let right := x + maxWidth - 1
  let bottom := y + neededRows + 1
  if row = y ∧ col = x then some topLeft
  else if row = y ∧ col = right then some topRight
  else if row = bottom ∧ col = x then some bottomLeft
  else if row = bottom ∧ col = right then some bottomRight
  else if (row = y ∨ row = bottom) ∧ x < col ∧ col < right then some horizontal
  else if (col = x ∨ col = right) ∧ y < row ∧ row < bottom then some vertical
  else none

/-- A call of `buffered_putchar` in the default colours. -/
def plainCall (row col : ℤ) (sym : Sym) : Putchar :=
  ⟨.filler, row, col, sym, defaultFgColor, defaultBgColor⟩

def horizontalCalls (x y cols : ℤ) (sym : Sym) : List Putchar :=
  (List.range cols.toNat).map fun i : ℕ => plainCall y (x + i) sym

def verticalCalls (x y rows : ℤ) (sym : Sym) : List Putchar :=
  (List.range rows.toNat).map fun i : ℕ => plainCall (y + i) x sym

section Border

variable {buffer : ScreenBuffer} {x y cols rows maxWidth neededRows : ℤ} {sym : Sym}
  {call : Putchar}

lemma drawHorizontalLine_eq :
    drawHorizontalLine buffer x y cols sym = buffer.putAll (horizontalCalls x y cols sym) := by
  rw [drawHorizontalLine, horizontalCalls, ScreenBuffer.putAll, List.foldl_map]
  rfl

lemma drawVerticalLine_eq :
    drawVerticalLine buffer x y rows sym = buffer.putAll (verticalCalls x y rows sym) := by
  rw [drawVerticalLine, verticalCalls, ScreenBuffer.putAll, List.foldl_map]
  rfl

/-- The numbers of a range that starts anywhere. -/
lemma exists_mem_range_iff {a n c : ℤ} :
    (∃ i ∈ List.range n.toNat, a + (i : ℕ) = c) ↔ a ≤ c ∧ c < a + n := by
  constructor
  · rintro ⟨i, hi, rfl⟩
    have hlt := List.mem_range.mp hi
    omega
  · rintro ⟨hle, hlt⟩
    exact ⟨(c - a).toNat, List.mem_range.mpr (by omega), by omega⟩

lemma mem_horizontalCalls :
    call ∈ horizontalCalls x y cols sym ↔
      ∃ col, (x ≤ col ∧ col < x + cols) ∧ call = plainCall y col sym := by
  rw [horizontalCalls, List.mem_map]
  constructor
  · rintro ⟨i, hi, rfl⟩
    exact ⟨_, exists_mem_range_iff.mp ⟨i, hi, rfl⟩, rfl⟩
  · rintro ⟨col, hcol, rfl⟩
    obtain ⟨i, hi, rfl⟩ := exists_mem_range_iff.mpr hcol
    exact ⟨i, hi, rfl⟩

lemma mem_verticalCalls :
    call ∈ verticalCalls x y rows sym ↔
      ∃ row, (y ≤ row ∧ row < y + rows) ∧ call = plainCall row x sym := by
  rw [verticalCalls, List.mem_map]
  constructor
  · rintro ⟨i, hi, rfl⟩
    exact ⟨_, exists_mem_range_iff.mp ⟨i, hi, rfl⟩, rfl⟩
  · rintro ⟨row, hrow, rfl⟩
    obtain ⟨i, hi, rfl⟩ := exists_mem_range_iff.mpr hrow
    exact ⟨i, hi, rfl⟩

/-- The calls that draw the border. -/
def borderCalls (x y maxWidth neededRows : ℤ) : List Putchar :=
  let right := x + maxWidth - 1
  let bottom := y + neededRows + 2 - 1
  [plainCall y x topLeft, plainCall y right topRight, plainCall bottom x bottomLeft,
    plainCall bottom right bottomRight] ++
  horizontalCalls (x + 1) y (maxWidth - 2) horizontal ++
  horizontalCalls (x + 1) bottom (maxWidth - 2) horizontal ++
  verticalCalls x (y + 1) (neededRows + 2 - 2) vertical ++
  verticalCalls right (y + 1) (neededRows + 2 - 2) vertical

lemma drawFrame_eq :
    drawFrame buffer x y maxWidth neededRows =
      buffer.putAll (borderCalls x y maxWidth neededRows) := by
  simp only [drawFrame, borderCalls, drawHorizontalLine_eq, drawVerticalLine_eq,
    ScreenBuffer.putAll_append]
  rfl

lemma plainCall_eq_iff {row col row' col' : ℤ} {sym' : Sym} :
    plainCall row col sym = plainCall row' col' sym' ↔ row = row' ∧ col = col' ∧ sym = sym' := by
  rw [plainCall, plainCall, Putchar.mk.injEq]
  tauto

/-- Every call is one in the default colours. -/
lemma exists_of_mem_borderCalls (h : call ∈ borderCalls x y maxWidth neededRows) :
    ∃ row col sym, call = plainCall row col sym := by
  simp only [borderCalls, List.mem_append, List.mem_cons, List.not_mem_nil, or_false,
    mem_horizontalCalls, mem_verticalCalls] at h
  rcases h with (((((h | h | h | h) | ⟨col, -, h⟩) | ⟨col, -, h⟩) | ⟨row, -, h⟩) | ⟨row, -, h⟩)
  all_goals exact ⟨_, _, _, h⟩

/-- The calls draw the border. -/
lemma mem_borderCalls_iff (hw : 2 ≤ maxWidth) (hrows : 0 ≤ neededRows) {row col : ℤ} :
    plainCall row col sym ∈ borderCalls x y maxWidth neededRows ↔
      borderSym x y maxWidth neededRows row col = some sym := by
  simp only [borderCalls, List.mem_append, List.mem_cons, List.not_mem_nil, or_false,
    mem_horizontalCalls, mem_verticalCalls, plainCall_eq_iff]
  rw [borderSym]
  constructor
  · intro h
    rcases h with (((((⟨rfl, rfl, rfl⟩ | ⟨rfl, rfl, rfl⟩ | ⟨rfl, rfl, rfl⟩ | ⟨rfl, rfl, rfl⟩) |
      ⟨_, hcol, rfl, rfl, rfl⟩) | ⟨_, hcol, rfl, rfl, rfl⟩) | ⟨_, hrow, rfl, rfl, rfl⟩) |
      ⟨_, hrow, rfl, rfl, rfl⟩)
    all_goals split_ifs <;> first | rfl | omega
  · intro h
    split_ifs at h with h1 h2 h3 h4 h5 h6
    all_goals obtain rfl := Option.some.inj h
    · exact .inl (.inl (.inl (.inl (.inl ⟨h1.1, h1.2, rfl⟩))))
    · exact .inl (.inl (.inl (.inl (.inr (.inl ⟨h2.1, h2.2, rfl⟩)))))
    · exact .inl (.inl (.inl (.inl (.inr (.inr (.inl ⟨by omega, h3.2, rfl⟩))))))
    · exact .inl (.inl (.inl (.inl (.inr (.inr (.inr ⟨by omega, h4.2, rfl⟩))))))
    · rcases h5 with ⟨hrow | hrow, hl, hr⟩
      · exact .inl (.inl (.inl (.inr ⟨col, by omega, hrow, rfl, rfl⟩)))
      · exact .inl (.inl (.inr ⟨col, by omega, by omega, rfl, rfl⟩))
    · rcases h6 with ⟨hcol | hcol, ht, hb⟩
      · exact .inl (.inr ⟨row, by omega, rfl, hcol, rfl⟩)
      · exact .inr ⟨row, by omega, rfl, hcol, rfl⟩

/-- The border is at the edges of its rectangle. -/
lemma borderSym_bounds {row col : ℤ} (hw : 2 ≤ maxWidth) (hrows : 0 ≤ neededRows)
    (h : borderSym x y maxWidth neededRows row col = some sym) :
    (x ≤ col ∧ col < x + maxWidth) ∧ (y ≤ row ∧ row ≤ y + neededRows + 1) ∧
      (row = y ∨ row = y + neededRows + 1 ∨ col = x ∨ col = x + maxWidth - 1) := by
  rw [borderSym] at h
  split_ifs at h <;> omega

/-- The symbols of the border are seen if what is drawn later is somewhere else. -/
lemma sym_drawFrame_putAll (hw : 2 ≤ maxWidth) (hrows : 0 ≤ neededRows) {calls : List Putchar}
    (hcalls : ∀ call ∈ calls, borderSym x y maxWidth neededRows call.row call.col = none)
    {row col : ℤ} (hhas : buffer.Contains row col)
    (h : borderSym x y maxWidth neededRows row col = some sym) :
    (((drawFrame buffer x y maxWidth neededRows).putAll calls).cells row col).sym = sym := by
  have hmem := (mem_borderCalls_iff hw hrows).mpr h
  have hlook := @ScreenBuffer.look_putAll_of_mem buffer _ _ hmem hhas ?_
  · have hkeep : ∀ call ∈ calls, call.stroke.1 ≠ (row, col) := by
      intro call hcall heq
      obtain ⟨rfl, rfl⟩ := Prod.mk.inj heq
      exact absurd ((hcalls call hcall).symm.trans h) nofun
    rw [drawFrame_eq, ScreenBuffer.cells_putAll_of_ne hkeep]
    exact congrArg Prod.fst hlook
  · intro call hcall hcell
    obtain ⟨row', col', sym', rfl⟩ := exists_of_mem_borderCalls hcall
    obtain ⟨hrow, hcol⟩ : row' = row ∧ col' = col := Prod.mk.inj hcell
    rw [mem_borderCalls_iff hw hrows, hrow, hcol, h] at hcall
    obtain rfl := Option.some.inj hcall
    rfl

end Border

/-! ### The text in the frame -/

section Text

variable {buffer : ScreenBuffer} {x y maxWidth : ℤ} {cs : List CodePoint} {i : ℕ}

/-- The window in which the text of a frame is drawn. -/
def frameWindow (x y maxWidth : ℤ) (cs : List CodePoint) : Window :=
  ⟨x + 2, y, maxWidth - 4, rowsOf (maxWidth - 4) cs, 0, -1, -1⟩

/-- The text is drawn inside of the border; the last column may be that behind the end mark. -/
lemma frameWindow_bounds (hw : 5 ≤ maxWidth) {call : Putchar} (hi : i ≤ cs.length)
    (h : call ∈ (frameWindow x y maxWidth cs).callsAt cs i) :
    (y < call.row ∧ call.row ≤ y + rowsOf (maxWidth - 4) cs) ∧
      x + 1 < call.col ∧ call.col < x + maxWidth - 1 := by
  have hplace : drawPlace (maxWidth - 4) cs i = place (maxWidth - 4) cs i :=
    drawPlace_eq_place (by omega) hi
  obtain ⟨hcol, hcol'⟩ := col_bounds (w := maxWidth - 4) (by omega) hi
  obtain ⟨hfrom, hlimit, hcell⟩ := Window.mem_callsAt h
  simp only [frameWindow, hplace, Window.cell, Putchar.stroke, Prod.mk.injEq] at hfrom hlimit hcell
  omega

/-- A drawing of the text in the frame is a drawing of calls inside of the border. -/
lemma exists_calls_frameWindow (hw : 5 ≤ maxWidth) (buffer : ScreenBuffer) (x y : ℤ)
    (cs : List CodePoint) :
    ∃ pen calls, displayWrapped buffer (CStr.toMemory (utf8.encode cs))
        (frameWindow x y maxWidth cs) = .ok pen ∧ pen.backBuffer = buffer.putAll calls ∧
      ∀ call ∈ calls, (y < call.row ∧ call.row ≤ y + rowsOf (maxWidth - 4) cs) ∧
        x + 1 < call.col ∧ call.col < x + maxWidth - 1 := by
  obtain ⟨pen, hpen, hdrawn⟩ := displayWrapped_drawn buffer (frameWindow x y maxWidth cs) cs
  have hbounds : ∀ n ≤ cs.length + 1, ∀ call ∈ (frameWindow x y maxWidth cs).callsBefore cs n,
      (y < call.row ∧ call.row ≤ y + rowsOf (maxWidth - 4) cs) ∧
        x + 1 < call.col ∧ call.col < x + maxWidth - 1 := by
    intro n hn call hcall
    obtain ⟨j, hj, hmem⟩ := Window.mem_callsBefore.mp hcall
    exact frameWindow_bounds hw (by omega) hmem
  cases hdrawn with
  | whole _ hbuffer _ => exact ⟨pen, _, hpen, hbuffer, hbounds _ le_rfl⟩
  | stuck i hi _ _ hbuffer => exact ⟨pen, _, hpen, hbuffer, hbounds i (Nat.le_succ_of_le hi)⟩

/-- If there is room for a text, the frame is drawn and the text inside of it. -/
lemma displayMessageWithFrame_eq (buffer : ScreenBuffer) (cs : List CodePoint)
    (cursorPos x y maxHeight : ℤ) (hw : 5 ≤ maxWidth) :
    displayMessageWithFrame buffer (CStr.toMemory (utf8.encode cs)) cursorPos x y maxWidth
        maxHeight =
      (displayWrapped (drawFrame buffer x y maxWidth (rowsOf (maxWidth - 4) cs))
        (CStr.toMemory (utf8.encode cs)) (frameWindow x y maxWidth cs)).map
          fun pen => (pen.backBuffer, maxHeight) := by
  obtain ⟨needCols, hsize⟩ := calcDisplaySize_encode (maxWidth - 4) cursorPos cs
  rw [displayMessageWithFrame]
  dsimp only
  rw [if_neg (by omega), hsize, ok_bind]
  rfl

/-- What a message in a frame changes is in the rectangle of the frame, and its border is whole. -/
theorem displayMessageWithFrame_border (buffer : ScreenBuffer) (cs : List CodePoint)
    (cursorPos x y maxHeight : ℤ) {maxWidth : ℤ} (hw : 5 ≤ maxWidth) :
    ∃ size result,
      calcDisplaySize (CStr.toMemory (utf8.encode cs)) (maxWidth - 4) cursorPos = .ok size ∧
      displayMessageWithFrame buffer (CStr.toMemory (utf8.encode cs)) cursorPos x y maxWidth
        maxHeight = .ok (result, maxHeight) ∧
      (result.rows = buffer.rows ∧ result.cols = buffer.cols) ∧
      (∀ row col, result.cells row col ≠ buffer.cells row col →
        (x ≤ col ∧ col ≤ x + maxWidth - 1) ∧ (y ≤ row ∧ row ≤ y + size.needRows + 1)) ∧
      ∀ row col sym, buffer.Contains row col →
        borderSym x y maxWidth size.needRows row col = some sym →
        (result.cells row col).sym = sym := by
  obtain ⟨needCols, hsize⟩ := calcDisplaySize_encode (maxWidth - 4) cursorPos cs
  obtain ⟨pen, calls, hpen, hbuffer, hcalls⟩ := exists_calls_frameWindow hw
    (drawFrame buffer x y maxWidth (rowsOf (maxWidth - 4) cs)) x y cs
  have hw2 : 2 ≤ maxWidth := by omega
  have hrows : 0 ≤ rowsOf (maxWidth - 4) cs :=
    Int.le_of_lt ((one_le_row le_rfl).trans (row_le_rowsOf le_rfl))
  refine ⟨_, pen.backBuffer, hsize, ?_, ?_, ?_, ?_⟩
  · rw [displayMessageWithFrame]
    dsimp only
    rw [if_neg (by omega), hsize, ok_bind]
    exact congrArg (· >>= fun pen => pure (pen.backBuffer, maxHeight)) hpen
  · rw [hbuffer, drawFrame_eq, ← ScreenBuffer.putAll_append]
    exact ScreenBuffer.size_putAll _ _
  · intro row col hne
    rw [hbuffer, drawFrame_eq, ← ScreenBuffer.putAll_append] at hne
    by_contra hout
    dsimp only at hout
    refine hne (ScreenBuffer.cells_putAll_of_ne (k := (row, col)) ?_)
    intro call hcall heq
    obtain ⟨hrow, hcol⟩ : call.row = row ∧ call.col = col := Prod.mk.inj heq
    rcases List.mem_append.mp hcall with h | h
    · obtain ⟨row', col', sym, rfl⟩ := exists_of_mem_borderCalls h
      obtain ⟨hin, hin', -⟩ := borderSym_bounds hw2 hrows ((mem_borderCalls_iff hw2 hrows).mp h)
      obtain ⟨rfl, rfl⟩ : row' = row ∧ col' = col := ⟨hrow, hcol⟩
      exact hout ⟨by omega, hin'⟩
    · have hin := hcalls call h
      omega
  · intro row col sym hhas h
    rw [hbuffer]
    refine sym_drawFrame_putAll hw2 hrows ?_ hhas h
    intro call hcall
    have hin := hcalls call hcall
    rw [Option.eq_none_iff_forall_ne_some]
    intro sym' hsym
    obtain ⟨-, -, hedge⟩ := borderSym_bounds hw2 hrows hsym
    omega

/-- A frame with one column for the text, in a corner of the screen. -/
theorem displayMessageWithFrame_border_narrow :
    let cs := [CodePoint.ofChar 'a']
    let buffer : ScreenBuffer := ⟨6, 6, fun _ _ => ⟨0x20, 32, 40, false⟩⟩
    ∃ result, displayMessageWithFrame buffer (CStr.toMemory (utf8.encode cs)) 0 0 0 5 1 =
        .ok (result, 1) ∧
      (result.cells 4 4).sym = bottomRight ∧ result.cells 0 5 = buffer.cells 0 5 := by
  intro cs buffer
  obtain ⟨size, result, hsize, hresult, -, hkeep, hborder⟩ :=
    displayMessageWithFrame_border buffer cs 0 0 0 1 (show 5 ≤ (5 : ℤ) by decide)
  have hrows : size.needRows = 3 :=
    (Except.ok.inj (congrArg (Except.map DisplaySize.needRows) hsize)).symm
  refine ⟨result, hresult, ?_, ?_⟩
  · refine hborder 4 4 bottomRight (by decide) ?_
    rw [hrows]
    rfl
  · by_contra hne
    exact absurd (hkeep 0 5 hne).1.2 (by decide)

end Text

end Vjft.Term
