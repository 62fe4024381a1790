import Vjft.Term.Clipping

/-!
# The input area (`reDraw` of `term/main.c`)

The message that is being written gets up to half of the rows above the minibuffer. `reDraw`
measures it, decides from which row on it is shown, and draws it; the rows are numbered from 1 on.
-/

namespace Vjft.Term

/-! ### The code -/

/-- The column of the vertical line. -/
def vert : ℤ := 25

/-- The variables of `reDraw` with `ib_` in front of their names, and `up`. -/
structure InputArea where
  relMaxWidth : ℤ
  needRows : ℤ
  fromRow : ℤ
  cursorRow : ℤ
  cursorCol : ℤ
  up : ℤ

def ibRelMaxWidth (winCols : ℤ) : ℤ := winCols - vert - 5

/-- The last row of the input area. -/
def inputBottom (winRows mbNeedRows : ℤ) : ℤ := winRows - mbNeedRows - 2

def maxIbRows (winRows mbNeedRows : ℤ) : ℤ := (inputBottom winRows mbNeedRows).tdiv 2

/-- `ib_from_row` and `ib_need_rows` after the three-way test. -/
def scroll (maxIbRows ibNeedRows ibCursorRow : ℤ) : ℤ × ℤ :=
  if ibNeedRows > maxIbRows then
    if ibCursorRow ≤ maxIbRows then (0, maxIbRows)
    else (ibCursorRow - maxIbRows, maxIbRows)
  else (0, ibNeedRows)

def inputArea (winRows winCols mbNeedRows : ℤ) (size : DisplaySize) : InputArea :=
  let cursor := size.cursor.getD (0, 0)
  let rows := scroll (maxIbRows winRows mbNeedRows) size.needRows cursor.1
  { relMaxWidth := ibRelMaxWidth winCols
    needRows := rows.2
    fromRow := rows.1
    cursorRow := cursor.1
    cursorCol := cursor.2
    up := inputBottom winRows mbNeedRows - rows.2 }

/-- The arguments of the call of `display_wrapped`. -/
def InputArea.window (ib : InputArea) (cursorPos markerPos : ℤ) : Window :=
  ⟨vert + 3, ib.up, ib.relMaxWidth, ib.needRows, ib.fromRow, cursorPos, markerPos⟩

/-- The part of `reDraw` that is about the input area, up to the call that draws its text. -/
def reDrawInput (buffer : ScreenBuffer) (text : Bytes) (cursorPos markerPos winRows winCols
    mbNeedRows : ℤ) : Except Stop (InputArea × Pen) := do
  let size ← calcDisplaySize text (ibRelMaxWidth winCols) cursorPos
  let ib := inputArea winRows winCols mbNeedRows size
  let pen ← displayWrapped buffer text (ib.window cursorPos markerPos)
  pure (ib, pen)

/-! ### Scrolling -/

/-- The cursor is in one of the rows that are shown. -/
lemma scroll_shows {maxRows needRows cursorRow : ℤ} (hmax : 1 ≤ maxRows) (hone : 1 ≤ cursorRow)
    (hneed : cursorRow ≤ needRows) :
    let rows := scroll maxRows needRows cursorRow
    rows.1 < cursorRow ∧ cursorRow ≤ rows.1 + rows.2 ∧ rows.2 ≤ maxRows := by
  intro rows
  rw [show rows = scroll maxRows needRows cursorRow from rfl, scroll]
  split_ifs with hfull hrow
  · exact ⟨hone, by omega, le_rfl⟩
  · exact ⟨by omega, by omega, le_rfl⟩
  · exact ⟨hone, by omega, not_lt.mp hfull⟩

/-- Half of the rows above the minibuffer are not more than there are. -/
lemma two_mul_maxIbRows_le {winRows mbNeedRows : ℤ} (h : 1 ≤ maxIbRows winRows mbNeedRows) :
    2 * maxIbRows winRows mbNeedRows ≤ inputBottom winRows mbNeedRows := by
  rw [maxIbRows] at h ⊢
  rcases le_total 0 (inputBottom winRows mbNeedRows) with hbottom | hbottom
  · rw [Int.tdiv_eq_ediv_of_nonneg hbottom]
    exact Int.mul_ediv_self_le (by decide)
  · have hneg := Int.tdiv_nonneg (Int.neg_nonneg_of_nonpos hbottom) (show 0 ≤ (2 : ℤ) by decide)
    rw [Int.neg_tdiv] at hneg
    omega

/-- The cursor is in one of the rows that are shown, and these are on the screen. -/
lemma inputArea_shows {winRows winCols : ℤ} {mbNeedRows : ℕ} {size : DisplaySize} {pl : ℤ × ℤ}
    (hmax : 1 ≤ maxIbRows winRows mbNeedRows) (hcursor : size.cursor = some pl)
    (hone : 1 ≤ pl.1) (hneed : pl.1 ≤ size.needRows) :
    let ib := inputArea winRows winCols mbNeedRows size
    (ib.fromRow < ib.cursorRow ∧ ib.cursorRow ≤ ib.fromRow + ib.needRows) ∧
      0 ≤ ib.up ∧ ib.up + ib.needRows < winRows := by
  intro ib
  obtain ⟨hfrom, hlimit, hle⟩ := scroll_shows hmax hone hneed
  have hhalf := two_mul_maxIbRows_le hmax
  have hrow : ib.cursorRow = pl.1 := by
    simp only [ib, inputArea, hcursor, Option.getD_some]
  have hrows : (ib.fromRow, ib.needRows) =
      scroll (maxIbRows winRows mbNeedRows) size.needRows pl.1 := by
    simp only [ib, inputArea, hcursor, Option.getD_some]
  have hup : ib.up = inputBottom winRows mbNeedRows - ib.needRows := rfl
  rw [← hrows] at hfrom hlimit hle
  rw [hrow]
  refine ⟨⟨hfrom, hlimit⟩, ?_, ?_⟩
  · dsimp only at hle
    omega
  · rw [hup, inputBottom]
    omega

/-! ### The cell of a character -/

section Cell

variable {buffer : ScreenBuffer} {win : Window} {cs : List CodePoint} {i c : ℕ} {s : Pen}

/-- The symbol that is drawn for character `i`, or for the end of the text. -/
def symAt (cs : List CodePoint) (i : ℕ) : Sym := (cs[i]?.map CodePoint.val).getD endOfText

/-- There is a call for the cell of a character other than a newline. -/
lemma exists_mem_callsAt (hnl : cs[i]? ≠ some newline)
    (hfrom : win.fromRow < (drawPlace win.relMaxWidth cs i).1)
    (hlimit : (drawPlace win.relMaxWidth cs i).1 ≤ win.relMaxRows + win.fromRow) :
    ∃ call ∈ win.callsAt cs i,
      call.stroke = (win.cell (drawPlace win.relMaxWidth cs i), symAt cs i, win.colors i) := by
  rw [Window.callsAt, if_neg (not_lt.mpr hlimit), symAt]
  cases hc : cs[i]? with
  | some c =>
    have hne : c ≠ newline := fun h => hnl (hc.trans (congrArg some h))
    simp only [Window.symCalls, if_pos hfrom, charCalls, if_neg hne]
    exact ⟨_, List.mem_singleton_self _, rfl⟩
  | none =>
    simp only [Window.markCalls, if_pos hfrom]
    exact ⟨_, List.mem_cons_self, rfl⟩

/-- A character is seen in its cell, whatever is drawn behind it. -/
lemma look_putAll_cell {n : ℕ} (hin : i < n) (hn : n ≤ cs.length + 1)
    (hnl : cs[i]? ≠ some newline) (hfrom : win.fromRow < (drawPlace win.relMaxWidth cs i).1)
    (hlimit : (drawPlace win.relMaxWidth cs i).1 ≤ win.relMaxRows + win.fromRow)
    (hhas : buffer.Has (win.cell (drawPlace win.relMaxWidth cs i))) :
    (buffer.putAll (win.callsBefore cs n)).look (win.cell (drawPlace win.relMaxWidth cs i)) =
      (symAt cs i, win.colors i) := by
  obtain ⟨call, hcall, hstroke⟩ := exists_mem_callsAt hnl hfrom hlimit
  have hlook := Window.look_putAll_callsBefore buffer hn
    (Window.mem_callsBefore.mpr ⟨i, hin, hcall⟩)
  rw [hstroke] at hlook
  exact hlook hhas

/-- A pen that is in the buffer up to character `c` gets beyond it. -/
lemma Drawn.exists_putAll_callsBefore (h : Drawn buffer win cs s) (hc : c ≤ cs.length)
    (hsees : ∀ i ≤ c, win.Sees buffer cs i) :
    ∃ n, c < n ∧ n ≤ cs.length + 1 ∧ s.backBuffer = buffer.putAll (win.callsBefore cs n) := by
  cases h with
  | whole _ hbuffer _ => exact ⟨cs.length + 1, Nat.lt_succ_of_le hc, le_rfl, hbuffer⟩
  | stuck i hi hsee _ hbuffer =>
    exact ⟨i, not_le.mp fun hic => hsee (hsees i hic), Nat.le_succ_of_le hi, hbuffer⟩

/-- A character is seen if its row is one of those that are shown, and is on the screen. -/
lemma displayWrapped_look {pl : ℤ × ℤ} (hplace : place win.relMaxWidth cs c = pl)
    (hw : 1 ≤ win.relMaxWidth) (habsX : 0 ≤ win.absX) (habsY : -1 ≤ win.absY)
    (hcols : win.absX + win.relMaxWidth < buffer.cols) (hc : c ≤ cs.length)
    (hnl : cs[c]? ≠ some newline) (hfrom : win.fromRow < pl.1)
    (hlimit : pl.1 ≤ win.fromRow + win.relMaxRows)
    (hrows : win.absY + (pl.1 - win.fromRow) < buffer.rows) :
    buffer.Has (win.cell pl) ∧
      ∃ pen, displayWrapped buffer (CStr.toMemory (utf8.encode cs)) win = .ok pen ∧
        pen.backBuffer.look (win.cell pl) = (symAt cs c, win.colors c) := by
  obtain ⟨h0, hcol⟩ := col_bounds hw hc
  rw [hplace] at h0 hcol
  rw [← drawPlace_eq_place hw hc] at hplace
  subst hplace
  have hhas : buffer.Has (win.cell (drawPlace win.relMaxWidth cs c)) := by
    refine ⟨?_, ?_, ?_, ?_⟩ <;> dsimp only [Window.cell] <;> omega
  obtain ⟨pen, hpen, hdrawn⟩ := displayWrapped_drawn buffer win cs
  obtain ⟨n, hn, hlen, hbuffer⟩ := hdrawn.exists_putAll_callsBefore hc fun i =>
    Window.sees_of_le hw habsX habsY hcols hc hfrom hrows
  refine ⟨hhas, pen, hpen, ?_⟩
  rw [hbuffer]
  exact look_putAll_cell hn hlen hnl hfrom (hlimit.trans_eq (Int.add_comm _ _)) hhas

end Cell

/-! ### The cursor -/

/-- What `calc_display_size` has for the cursor. -/
lemma calcDisplaySize_cursor (w : ℤ) {cs : List CodePoint} {cursorPos : ℕ}
    (hc : cursorPos ≤ cs.length) :
    ∃ needCols, calcDisplaySize (CStr.toMemory (utf8.encode cs)) w cursorPos =
      .ok ⟨needCols, rowsOf w cs, some (place w cs cursorPos)⟩ := by
  obtain ⟨needCols, hsize⟩ := calcDisplaySize_encode w cursorPos cs
  rw [if_pos (by omega), Int.toNat_natCast] at hsize
  exact ⟨needCols, hsize⟩

/-- The cursor is in a row that is shown, and its cell is on the screen and has its colours. The
back buffer is of the size of the terminal. -/
theorem reDrawInput_cursor (buffer : ScreenBuffer) {cs : List CodePoint} {cursorPos : ℕ}
    (markerPos : ℤ) (mbNeedRows : ℕ) (hc : cursorPos ≤ cs.length) (hnl : newline ∉ cs)
    (hwidth : 1 ≤ ibRelMaxWidth buffer.cols) (hrows : 1 ≤ maxIbRows buffer.rows mbNeedRows) :
    ∃ ib pen,
      reDrawInput buffer (CStr.toMemory (utf8.encode cs)) cursorPos markerPos buffer.rows
        buffer.cols mbNeedRows = .ok (ib, pen) ∧
      (ib.fromRow < ib.cursorRow ∧ ib.cursorRow ≤ ib.fromRow + ib.needRows) ∧
      let row := ib.up + (ib.cursorRow - ib.fromRow)
      let col := vert + 3 + ib.cursorCol
      buffer.Contains row col ∧
        (pen.backBuffer.cells row col).look =
          (symAt cs cursorPos, brightWhiteFgColor, greenBgColor) := by
  obtain ⟨needCols, hsize⟩ := calcDisplaySize_cursor (ibRelMaxWidth buffer.cols) hc
  obtain ⟨h0, hcol⟩ := col_bounds hwidth hc
  let ib := inputArea buffer.rows buffer.cols mbNeedRows
    ⟨needCols, rowsOf (ibRelMaxWidth buffer.cols) cs,
      some (place (ibRelMaxWidth buffer.cols) cs cursorPos)⟩
  let win := ib.window cursorPos markerPos
  obtain ⟨⟨hfrom, hlimit⟩, hup, hbottom⟩ : (ib.fromRow < ib.cursorRow ∧
      ib.cursorRow ≤ ib.fromRow + ib.needRows) ∧ 0 ≤ ib.up ∧ ib.up + ib.needRows < buffer.rows :=
    inputArea_shows hrows rfl (one_le_row hc) (row_le_rowsOf hc)
  have hrow : ib.up + (ib.cursorRow - ib.fromRow) < buffer.rows := by omega
  have hcols : win.absX + win.relMaxWidth < buffer.cols := by
    have hwin : win.absX + win.relMaxWidth = 25 + 3 + (buffer.cols - 25 - 5) := rfl
    omega
  have hsym : cs[cursorPos]? ≠ some newline := fun h => hnl (List.mem_of_getElem? h)
  obtain ⟨hhas, pen, hpen, hlook⟩ := @displayWrapped_look buffer win cs cursorPos _ rfl hwidth
    (show 0 ≤ vert + 3 by decide) (hup.trans' (by decide)) hcols hc hsym hfrom hlimit hrow
  refine ⟨ib, pen, ?_, ⟨hfrom, hlimit⟩, hhas, hlook.trans ?_⟩
  · rw [reDrawInput, hsize, ok_bind]
    exact congrArg (· >>= fun pen => pure (ib, pen)) hpen
  · rw [Window.colors]
    exact congrArg (symAt cs cursorPos, ·) (if_pos rfl)

/-- One column for the text, and the cursor behind three letters: of the five rows, two are
shown. -/
theorem reDrawInput_cursor_scrolled :
    let cs := [CodePoint.ofChar 'a', CodePoint.ofChar 'b', CodePoint.ofChar 'c']
    let buffer : ScreenBuffer := ⟨10, 31, fun _ _ => ⟨0x20, 32, 40, false⟩⟩
    (∃ ib pen,
      reDrawInput buffer (CStr.toMemory (utf8.encode cs)) 3 (-1) 10 31 4 = .ok (ib, pen) ∧
        (pen.backBuffer.cells (ib.up + (ib.cursorRow - ib.fromRow))
          (vert + 3 + ib.cursorCol)).look = (endOfText, 97, 42)) ∧
      scroll (maxIbRows 10 4) (rowsOf (ibRelMaxWidth 31) cs) (place (ibRelMaxWidth 31) cs 3).1 =
        (2, 2) := by
  intro cs buffer
  obtain ⟨ib, pen, hredraw, -, -, hlook⟩ :=
    @reDrawInput_cursor buffer cs 3 (-1) 4 (by decide) (by decide) (by decide) (by decide)
  exact ⟨⟨ib, pen, hredraw, hlook⟩, by decide⟩

end Vjft.Term
