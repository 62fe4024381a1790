import Vjft.Lib.TextBuffer
import Vjft.Term.Drawing

/-!
# Windows that take the whole text, and windows that do not

The rows that `calc_display_size` counts are those that are drawn, unless the end mark fills the
last column. Of a window that reaches out of the back buffer, the part inside is drawn only as long
as the pen has not been outside.
-/

namespace Vjft.Term

/-! ### The row of the end mark -/

section LastRow

variable {w : ℤ} {cs : List CodePoint} {i : ℕ}

/-- The column is the number of characters behind the last newline, counted up to the width. -/
lemma place_col (hw : 1 ≤ w) (hi : i ≤ cs.length) :
    (place w cs i).2 = ((cs.take i).rtakeWhile (· ≠ newline)).length % w := by
  induction i with
  | zero => rfl
  | succ i ih =>
    have hlt : i < cs.length := hi
    obtain ⟨h0, hcol⟩ := col_bounds hw hlt.le
    rw [place_succ hlt, TextBuffer.rtakeWhile_take _ cs hlt, advance]
    by_cases hc : cs[i] = newline
    · rw [if_pos (.inl hc), if_neg (by simp [hc])]
      rfl
    · have hemod : (((cs.take i).rtakeWhile (· ≠ newline)).length + 1 : ℤ) % w =
          ((place w cs i).2 + 1) % w := by
        rw [ih hlt.le, Int.emod_add_emod]
      rw [if_pos (show cs[i] ≠ newline from hc), Int.natCast_add, Int.natCast_one, hemod]
      by_cases hfull : w ≤ (place w cs i).2 + 1
      · rw [if_pos (.inr hfull), le_antisymm hcol hfull, Int.emod_self]
      · rw [if_neg (not_or.mpr ⟨hc, hfull⟩)]
        exact (Int.emod_eq_of_lt (by omega) (by omega)).symm

/-- One row too many is counted when the end mark is in the last column. -/
lemma rowsOf_eq_iff (hw : 1 ≤ w) :
    rowsOf w cs = (place w cs cs.length).1 ↔
      ¬ w ∣ ((cs.rtakeWhile (· ≠ newline)).length + 1 : ℕ) := by
  obtain ⟨h0, hcol⟩ := col_bounds hw (le_refl cs.length)
  have hemod := place_col hw (le_refl cs.length)
  rw [List.take_length] at hemod
  have hdvd : w ∣ ((cs.rtakeWhile (· ≠ newline)).length + 1 : ℕ) ↔
      w ≤ (place w cs cs.length).2 + 1 := by
    rw [Int.dvd_iff_emod_eq_zero, Int.natCast_add, Int.natCast_one, ← Int.emod_add_emod, ← hemod]
    constructor
    · intro h
      by_contra hlt
      rw [Int.emod_eq_of_lt (by omega) (by omega)] at h
      omega
    · intro h
      rw [le_antisymm hcol h, Int.emod_self]
  rw [hdvd, rowsOf]
  split_ifs with h
  · exact iff_of_false (by omega) (not_not.mpr h)
  · exact iff_of_true rfl h

/-- The pen stays between the left border and the place behind the last column. -/
lemma penPlace_col_bounds (hw : 1 ≤ w) (hi : i ≤ cs.length) :
    0 ≤ (penPlace w cs i).2 ∧ (penPlace w cs i).2 ≤ w := by
  have hw0 : 0 ≤ w := (Int.le_of_lt Int.one_pos).trans hw
  cases i with
  | zero => exact ⟨le_rfl, hw0⟩
  | succ i =>
    have hlt : i < cs.length := hi
    obtain ⟨h0, hcol⟩ := col_bounds hw hlt.le
    rw [penPlace_succ hlt, drawPlace_eq_place hw hlt.le, behind]
    split_ifs
    · exact ⟨le_rfl, hw0⟩
    · exact ⟨Int.add_nonneg h0 (by decide), hcol⟩

variable {buffer : ScreenBuffer} {win : Window} {c : ℕ}

/-- A window is seen down to the row of a character if this row is in the buffer. -/
lemma Window.sees_of_le (hw : 1 ≤ win.relMaxWidth) (habsX : 0 ≤ win.absX) (habsY : -1 ≤ win.absY)
    (hcols : win.absX + win.relMaxWidth < buffer.cols) (hc : c ≤ cs.length)
    (hfrom : win.fromRow < (drawPlace win.relMaxWidth cs c).1)
    (hrows : win.absY + ((drawPlace win.relMaxWidth cs c).1 - win.fromRow) < buffer.rows)
    (hi : i ≤ c) : win.Sees buffer cs i := by
  have hrow := penRow_le_drawRow (w := win.relMaxWidth) hi hc
  obtain ⟨h0, hcol⟩ := penPlace_col_bounds hw (hi.trans hc)
  rw [Window.Sees, Window.penCell]
  split_ifs with hshown
  · refine ⟨?_, ?_, ?_, ?_⟩ <;> dsimp only [Window.cell] <;> omega
  · refine ⟨le_rfl, ?_, le_rfl, ?_⟩ <;> dsimp only <;> omega

/-- A window in the buffer that takes all rows is seen as a whole. -/
lemma Window.Fits.sees (hfit : win.Fits buffer (place win.relMaxWidth cs cs.length).1)
    (hi : i ≤ cs.length) : win.Sees buffer cs i := by
  have hplace := drawPlace_eq_place hfit.one_le_width (le_refl cs.length)
  refine Window.sees_of_le hfit.one_le_width hfit.absX hfit.absY hfit.right le_rfl ?_ ?_ hi
  · rw [hplace, hfit.fromRow]
    exact one_le_row le_rfl
  · rw [hplace, hfit.fromRow, Int.sub_zero]
    exact hfit.bottom

/-- What the window shows is drawn if the pen is always in the buffer. -/
lemma displayWrapped_of_sees (hsees : ∀ i ≤ cs.length, win.Sees buffer cs i) :
    ∃ pen, displayWrapped buffer (CStr.toMemory (utf8.encode cs)) win = .ok pen ∧
      pen.calls = win.allCalls cs ∧ pen.backBuffer = buffer.putAll (win.allCalls cs) := by
  obtain ⟨pen, hpen, hdrawn⟩ := displayWrapped_drawn buffer win cs
  cases hdrawn with
  | whole hcalls hbuffer _ => exact ⟨pen, hpen, hcalls, hbuffer⟩
  | stuck i hi hsee _ _ => exact absurd (hsees i hi) hsee

lemma site_of_mem_callsAt {call : Putchar} (hi : i < cs.length) (h : call ∈ win.callsAt cs i) :
    call.site ≠ .endOfText := by
  rw [Window.callsAt, List.getElem?_eq_getElem hi] at h
  split_ifs at h
  · exact absurd h List.not_mem_nil
  · simp only [Window.symCalls, charCalls] at h
    split_ifs at h
    · rw [List.eq_of_mem_replicate h]
      exact Site.noConfusion
    · rw [List.mem_singleton.mp h]
      exact Site.noConfusion
    · exact absurd h List.not_mem_nil

/-- The only end mark is the one behind the last character. -/
lemma filter_endOfText_allCalls (hfrom : win.fromRow < (drawPlace win.relMaxWidth cs cs.length).1)
    (hlimit : (drawPlace win.relMaxWidth cs cs.length).1 ≤ win.relMaxRows + win.fromRow) :
    ((win.allCalls cs).filter (·.site = .endOfText)).map Putchar.row =
      [(win.cell (drawPlace win.relMaxWidth cs cs.length)).1] := by
  have hbefore : (win.callsBefore cs cs.length).filter (·.site = .endOfText) = [] := by
    rw [List.filter_eq_nil_iff]
    intro call hcall
    obtain ⟨j, hj, hmem⟩ := Window.mem_callsBefore.mp hcall
    simpa using site_of_mem_callsAt hj hmem
  have hlast (pl : ℤ × ℤ) : (lastCalls win pl).filter (·.site = .endOfText) = [] := by
    rw [List.filter_eq_nil_iff]
    intro call hcall
    rw [Window.mem_lastCalls hcall]
    simp
  rw [Window.allCalls, Window.callsBefore_succ, List.filter_append, hbefore, List.nil_append,
    Window.callsAt, if_neg (not_lt.mpr hlimit), List.getElem?_eq_none le_rfl]
  simp only [Window.markCalls, if_pos hfrom]
  rw [List.filter_cons, if_pos (by rfl), hlast]
  rfl

/-- The rows that `calc_display_size` counts for a text are those up to the end mark, unless the
mark is in the last column. -/
theorem needRows_eq_lastRow_iff (cs : List CodePoint) (p : ℤ) {win : Window}
    {buffer : ScreenBuffer} (hfit : win.Fits buffer (place win.relMaxWidth cs cs.length).1) :
    ∃ size pen row,
      calcDisplaySize (CStr.toMemory (utf8.encode cs)) win.relMaxWidth p = .ok size ∧
      displayWrapped buffer (CStr.toMemory (utf8.encode cs)) win = .ok pen ∧
      (pen.calls.filter (·.site = .endOfText)).map Putchar.row = [win.absY + row] ∧
      (∀ call ∈ pen.calls, call.row ≤ win.absY + row) ∧
      (size.needRows = row ↔
        ¬ win.relMaxWidth ∣ ((cs.rtakeWhile (· ≠ newline)).length + 1 : ℕ)) := by
  have hw := hfit.one_le_width
  obtain ⟨needCols, hsize⟩ := calcDisplaySize_encode win.relMaxWidth p cs
  obtain ⟨pen, hpen, hcalls, -⟩ := displayWrapped_of_sees fun i => hfit.sees (i := i)
  have hplace := drawPlace_eq_place hw (le_refl cs.length)
  have hcell (pl : ℤ × ℤ) : (win.cell pl).1 = win.absY + pl.1 := by
    rw [Window.cell, hfit.fromRow, Int.sub_zero]
  refine ⟨_, pen, (place win.relMaxWidth cs cs.length).1, hsize, hpen, ?_, ?_, rowsOf_eq_iff hw⟩
  · rw [hcalls, filter_endOfText_allCalls, hplace, hcell]
    · rw [hplace, hfit.fromRow]
      exact one_le_row le_rfl
    · rw [hplace, hfit.fromRow, Int.add_zero]
      exact hfit.rows_le
  · intro call hcall
    rw [hcalls] at hcall
    obtain ⟨j, hj, hmem⟩ := Window.mem_callsBefore.mp hcall
    have hj' : j ≤ cs.length := Nat.le_of_lt_succ hj
    have hrow : call.row = win.absY + (place win.relMaxWidth cs j).1 := by
      rw [← drawPlace_eq_place hw hj']
      obtain ⟨-, -, hstroke | ⟨-, -, -, hstroke⟩⟩ := Window.mem_callsAt hmem
      · exact (congrArg Prod.fst hstroke).trans (hcell _)
      · exact (congrArg Prod.fst hstroke).trans (hcell _)
    rw [hrow]
    exact Int.add_le_add_left (row_le_row hj' le_rfl) _

/-- One letter in three columns. -/
theorem needRows_eq_lastRow_three_columns :
    let cs := [CodePoint.ofChar 'a']
    let win : Window := ⟨0, -1, 3, 1, 0, -1, -1⟩
    let buffer : ScreenBuffer := ⟨1, 4, fun _ _ => ⟨0x20, 32, 40, true⟩⟩
    ∃ size pen, calcDisplaySize (CStr.toMemory (utf8.encode cs)) 3 (-1) = .ok size ∧
      displayWrapped buffer (CStr.toMemory (utf8.encode cs)) win = .ok pen ∧
      (pen.calls.filter (·.site = .endOfText)).map Putchar.row = [-1 + size.needRows] := by
  intro cs win buffer
  have hfit : win.Fits buffer (place win.relMaxWidth cs cs.length).1 := by
    constructor <;> decide
  obtain ⟨size, pen, row, hsize, hpen, hrow, -, hiff⟩ := needRows_eq_lastRow_iff cs (-1) hfit
  refine ⟨size, pen, hsize, hpen, ?_⟩
  rw [hrow, hiff.mpr (by decide)]

/-- In two columns the end mark is behind the letter, and a second row is counted. -/
theorem needRows_two_columns :
    let cs := [CodePoint.ofChar 'a']
    let win : Window := ⟨0, -1, 2, 2, 0, -1, -1⟩
    let buffer : ScreenBuffer := ⟨2, 3, fun _ _ => ⟨0x20, 32, 40, true⟩⟩
    (calcDisplaySize (CStr.toMemory (utf8.encode cs)) 2 (-1)).map DisplaySize.needRows = .ok 2 ∧
      (displayWrapped buffer (CStr.toMemory (utf8.encode cs)) win).map (fun pen =>
        (pen.calls.filter (·.site = .endOfText)).map Putchar.row) = .ok [-1 + 1] :=
  ⟨rfl, rfl⟩

end LastRow

/-! ### Cut off by the screen -/

/-- The call at another place of the screen. -/
def Putchar.shift (dx dy : ℤ) (call : Putchar) : Putchar :=
  { call with row := call.row + dy, col := call.col + dx }

/-- The cells of a buffer are also in a larger one, at another place. -/
def ScreenBuffer.IsPartOf (dx dy : ℤ) (buffer big : ScreenBuffer) : Prop :=
  ∀ row col, buffer.Contains row col →
    big.Contains (row + dy) (col + dx) ∧ buffer.cells row col = big.cells (row + dy) (col + dx)

namespace ScreenBuffer

variable {buffer big : ScreenBuffer} {dx dy : ℤ}

/-- A call does the same to both buffers. -/
lemma IsPartOf.put (h : buffer.IsPartOf dx dy big) (call : Putchar) :
    (buffer.put call).IsPartOf dx dy (big.put (call.shift dx dy)) := by
  intro row col hhas
  replace hhas := (contains_putAll buffer [call] row col).mp hhas
  obtain ⟨hbig, hcell⟩ := h row col hhas
  refine ⟨(contains_putAll big [_] _ _).mpr hbig, ?_⟩
  by_cases hne : call.stroke.1 = (row, col)
  · obtain ⟨rfl, rfl⟩ := Prod.mk.inj hne
    calc (buffer.put call).cells call.row call.col
        = (buffer.cells call.row call.col).put call := cells_put_self hhas
      _ = (big.cells (call.row + dy) (call.col + dx)).put call := by rw [hcell]
      _ = _ := (@cells_put_self big (call.shift dx dy) hbig).symm
  · have hne' : (call.shift dx dy).stroke.1 ≠ (row + dy, col + dx) := by
      intro heq
      obtain ⟨hrow, hcol⟩ := Prod.mk.inj heq
      exact hne (Prod.ext (add_right_cancel hrow) (add_right_cancel hcol))
    calc (buffer.put call).cells row col = buffer.cells row col := cells_put_of_ne hne
      _ = big.cells (row + dy) (col + dx) := hcell
      _ = _ := (cells_put_of_ne hne').symm

lemma IsPartOf.putAll (h : buffer.IsPartOf dx dy big) (calls : List Putchar) :
    (buffer.putAll calls).IsPartOf dx dy (big.putAll (calls.map (.shift dx dy))) := by
  induction calls generalizing buffer big with
  | nil => exact h
  | cons call calls ih => exact ih (h.put call)

end ScreenBuffer

namespace Window

variable {win : Window} {buffer : ScreenBuffer} {cs : List CodePoint} {i : ℕ}

/-- The window at another place of the screen. -/
def shift (dx dy : ℤ) (win : Window) : Window :=
  { win with absX := win.absX + dx, absY := win.absY + dy }

/-- The pen is in the buffer in front of every character up to the last row of the window. -/
def SeesAll (win : Window) (buffer : ScreenBuffer) (cs : List CodePoint) : Prop :=
  ∀ i ≤ cs.length, (penPlace win.relMaxWidth cs i).1 ≤ win.relMaxRows + win.fromRow →
    win.Sees buffer cs i

/-- What comes behind a character in front of which the pen is outside of the buffer is outside too,
or it is there already. -/
def LosesNothing (win : Window) (buffer : ScreenBuffer) (cs : List CodePoint) : Prop :=
  ∀ i ≤ cs.length, ¬ win.Sees buffer cs i → ∀ j ≤ cs.length, i ≤ j →
    ∀ call ∈ win.callsAt cs j, buffer.Shows call

instance (win : Window) (buffer : ScreenBuffer) (cs : List CodePoint) :
    Decidable (win.SeesAll buffer cs) := inferInstanceAs (Decidable (∀ _ ≤ _, _ → _))

instance (win : Window) (buffer : ScreenBuffer) (cs : List CodePoint) :
    Decidable (win.LosesNothing buffer cs) :=
  inferInstanceAs (Decidable (∀ _ ≤ _, _ → ∀ _ ≤ _, _ → ∀ _ ∈ _, _))

lemma charCalls_shift (dx dy : ℤ) (win : Window) (curPos : ℕ) (c : CodePoint) (pl : ℤ × ℤ) :
    charCalls (win.shift dx dy) curPos c pl = (charCalls win curPos c pl).map (.shift dx dy) := by
  simp only [charCalls, shift, Int.add_right_comm _ dx, Int.add_right_comm _ dy]
  split_ifs
  · rw [List.map_replicate]
    rfl
  · rfl

lemma markCalls_shift (dx dy : ℤ) (win : Window) (curPos : ℕ) (pl : ℤ × ℤ) :
    (win.shift dx dy).markCalls curPos pl = (win.markCalls curPos pl).map (.shift dx dy) := by
  simp only [markCalls, endCall, lastCalls, shift, Int.add_right_comm _ dx,
    Int.add_right_comm _ dy]
  split_ifs
  · rw [List.map_cons, List.map_replicate]
    rfl
  · rfl
  · rfl

/-- The calls move with the window. -/
lemma callsAt_shift (dx dy : ℤ) (win : Window) (cs : List CodePoint) (i : ℕ) :
    (win.shift dx dy).callsAt cs i = (win.callsAt cs i).map (.shift dx dy) := by
  rw [callsAt, callsAt]
  by_cases hlimit : (drawPlace win.relMaxWidth cs i).1 > win.relMaxRows + win.fromRow
  · rw [if_pos hlimit]
    exact if_pos hlimit
  · rw [if_neg hlimit]
    refine (if_neg hlimit).trans ?_
    cases cs[i]? with
    | none => exact markCalls_shift dx dy win i _
    | some c =>
      dsimp only
      rw [symCalls, symCalls, apply_ite (List.map (Putchar.shift dx dy))]
      exact if_congr Iff.rfl (charCalls_shift dx dy win i c _) rfl

lemma allCalls_shift (dx dy : ℤ) (win : Window) (cs : List CodePoint) :
    (win.shift dx dy).allCalls cs = (win.allCalls cs).map (.shift dx dy) := by
  rw [allCalls, allCalls, callsBefore, callsBefore, List.map_flatMap]
  congr 1
  funext i
  exact callsAt_shift dx dy win cs i

/-- There is a buffer that takes the window, and has all cells of another one. -/
lemma exists_seesAll (win : Window) (buffer : ScreenBuffer) (cs : List CodePoint) :
    ∃ dx dy big, buffer.IsPartOf dx dy big ∧ (win.shift dx dy).SeesAll big cs := by
  obtain ⟨dx, hdx, hx⟩ : ∃ dx, 0 ≤ dx ∧ 0 ≤ win.absX + dx :=
    ⟨max 0 (-win.absX), by omega, by omega⟩
  obtain ⟨dy, hdy, hy⟩ : ∃ dy, 0 ≤ dy ∧ 0 ≤ win.absY + dy :=
    ⟨max 0 (-win.absY), by omega, by omega⟩
  obtain ⟨rows, hrows, hrow0, hlast⟩ : ∃ rows, buffer.rows + dy ≤ rows ∧ 0 < rows ∧
      win.absY + dy + (2 * cs.length + 1 - win.fromRow) < rows :=
    ⟨max (buffer.rows + dy) (max 1 (win.absY + dy + (2 * cs.length + 2 - win.fromRow))),
      by omega, by omega, by omega⟩
  obtain ⟨cols, hcols, hcol0, hlast'⟩ : ∃ cols, buffer.cols + dx ≤ cols ∧ 0 < cols ∧
      win.absX + dx + cs.length < cols :=
    ⟨max (buffer.cols + dx) (max 1 (win.absX + dx + cs.length + 1)), by omega, by omega, by omega⟩
  refine ⟨dx, dy, ⟨rows, cols, fun row col => buffer.cells (row - dy) (col - dx)⟩, ?_, ?_⟩
  · rintro row col ⟨hrow, hrow', hcol, hcol'⟩
    refine ⟨⟨?_, ?_, ?_, ?_⟩, ?_⟩
    · exact Int.add_nonneg hrow hdy
    · exact (Int.add_lt_add_right hrow' dy).trans_le hrows
    · exact Int.add_nonneg hcol hdx
    · exact (Int.add_lt_add_right hcol' dx).trans_le hcols
    · simp only [Int.add_sub_cancel]
  · intro i hi _
    obtain ⟨hrow, hcol⟩ := penPlace_le win.relMaxWidth hi
    rw [Sees, penCell]
    split_ifs with hfrom
    · refine ⟨?_, ?_, ?_, ?_⟩ <;> dsimp only [cell, shift] at hfrom ⊢ <;> omega
    · exact ⟨le_rfl, hrow0, le_rfl, hcol0⟩

/-- A window that is seen as a whole loses nothing. -/
lemma SeesAll.losesNothing (h : win.SeesAll buffer cs) : win.LosesNothing buffer cs := by
  intro i hi hsee j hj hij call hcall
  have hlimit : win.relMaxRows + win.fromRow < (penPlace win.relMaxWidth cs i).1 :=
    not_le.mp fun hle => hsee (h i hi hle)
  have hrow : (penPlace win.relMaxWidth cs i).1 ≤ (drawPlace win.relMaxWidth cs i).1 :=
    penRow_le_drawRow le_rfl hi
  rw [callsAt_eq_nil (hlimit.trans_le hrow) hij hj] at hcall
  exact absurd hcall List.not_mem_nil

end Window

section Clipped

variable {win : Window} {buffer : ScreenBuffer} {cs : List CodePoint} {s : Pen}

lemma Drawn.backBuffer_of_losesNothing (h : Drawn buffer win cs s)
    (hloses : win.LosesNothing buffer cs) : s.backBuffer = buffer.putAll (win.allCalls cs) := by
  cases h with
  | whole _ hbuffer _ => exact hbuffer
  | stuck i hi hsee _ hbuffer =>
    obtain ⟨rest, hall, hrest⟩ := win.exists_allCalls_eq_append hi
    rw [hbuffer, hall, ScreenBuffer.putAll_append]
    refine (ScreenBuffer.putAll_of_shows ?_).symm
    intro call hcall hhas
    obtain ⟨j, hij, hj, hmem⟩ := hrest call hcall
    rw [ScreenBuffer.look, ScreenBuffer.cells_putAll_of_ne]
    · exact hloses i hi hsee j hj hij call hmem ((ScreenBuffer.has_putAll _ _ _).mp hhas)
    · exact Window.ne_of_mem_callsBefore hij hj hmem

/-- What the pen has not got to is there already, if the cells are those of a whole drawing. -/
lemma Drawn.losesNothing (h : Drawn buffer win cs s)
    (hcells : ∀ row col, buffer.Contains row col →
      s.backBuffer.cells row col = (buffer.putAll (win.allCalls cs)).cells row col) :
    win.LosesNothing buffer cs := by
  intro i hi hsee j hj hij call hcall hhas
  cases h with
  | whole _ _ hnil =>
    rw [hnil i hi hsee j hij hj] at hcall
    exact absurd hcall List.not_mem_nil
  | stuck i' hi' _ hbefore hpart =>
    have hle : i' ≤ i := not_lt.mp fun h => hsee (hbefore i h)
    have hlook := Window.look_putAll_callsBefore buffer le_rfl
      (Window.mem_callsBefore.mpr ⟨j, Nat.lt_succ_of_le hj, hcall⟩) hhas
    rw [← Window.allCalls, ScreenBuffer.look, ← hcells _ _ hhas, hpart,
      ScreenBuffer.cells_putAll_of_ne (Window.ne_of_mem_callsBefore (hle.trans hij) hj hcall)]
      at hlook
    exact hlook

end Clipped

/-- The cells are those of the same drawing in a buffer that takes all of it exactly when the pen,
once it is outside, has nothing left to put inside. -/
theorem displayWrapped_clips_iff (win : Window) (cs : List CodePoint) (buffer : ScreenBuffer) :
    (∃ dx dy big, buffer.IsPartOf dx dy big ∧ (win.shift dx dy).SeesAll big cs) ∧
    ∀ dx dy big, buffer.IsPartOf dx dy big → (win.shift dx dy).SeesAll big cs →
      ∃ pen pen', displayWrapped buffer (CStr.toMemory (utf8.encode cs)) win = .ok pen ∧
        displayWrapped big (CStr.toMemory (utf8.encode cs)) (win.shift dx dy) = .ok pen' ∧
        ((∀ row col, buffer.Contains row col → pen.backBuffer.cells row col =
          pen'.backBuffer.cells (row + dy) (col + dx)) ↔ win.LosesNothing buffer cs) := by
  refine ⟨win.exists_seesAll buffer cs, ?_⟩
  intro dx dy big hpart hsees
  obtain ⟨pen, hpen, hdrawn⟩ := displayWrapped_drawn buffer win cs
  obtain ⟨pen', hpen', hdrawn'⟩ := displayWrapped_drawn big (win.shift dx dy) cs
  have hwhole : ∀ row col, buffer.Contains row col →
      (buffer.putAll (win.allCalls cs)).cells row col =
        pen'.backBuffer.cells (row + dy) (col + dx) := by
    intro row col hhas
    rw [hdrawn'.backBuffer_of_losesNothing hsees.losesNothing, Window.allCalls_shift]
    exact (hpart.putAll _ row col ((ScreenBuffer.contains_putAll _ _ _ _).mpr hhas)).2
  refine ⟨pen, pen', hpen, hpen', ?_, ?_⟩
  · intro hsame
    refine hdrawn.losesNothing fun row col hhas => ?_
    rw [hsame row col hhas, hwhole row col hhas]
  · intro hloses row col hhas
    rw [hdrawn.backBuffer_of_losesNothing hloses, hwhole row col hhas]

/-- The second row of the text is below the screen. -/
theorem displayWrapped_clips_second_row :
    let cs := [CodePoint.ofChar 'a', newline, CodePoint.ofChar 'b']
    let win : Window := ⟨0, 0, 5, 2, 0, -1, -1⟩
    let buffer : ScreenBuffer := ⟨2, 8, fun _ _ => ⟨0x20, 32, 40, false⟩⟩
    let big : ScreenBuffer := ⟨3, 8, fun _ _ => ⟨0x20, 32, 40, false⟩⟩
    ∃ pen pen', displayWrapped buffer (CStr.toMemory (utf8.encode cs)) win = .ok pen ∧
      displayWrapped big (CStr.toMemory (utf8.encode cs)) win = .ok pen' ∧
      ∀ row col, buffer.Contains row col →
        pen.backBuffer.cells row col = pen'.backBuffer.cells (row + 0) (col + 0) := by
  intro cs win buffer big
  have hpart : buffer.IsPartOf 0 0 big := by
    rintro row col ⟨hrow, hrows, hcol, hcols⟩
    rw [Int.add_zero, Int.add_zero]
    exact ⟨⟨hrow, hrows.trans (by decide), hcol, hcols⟩, rfl⟩
  obtain ⟨pen, pen', hpen, hpen', hiff⟩ :=
    (displayWrapped_clips_iff win cs buffer).2 0 0 big hpart (by decide)
  exact ⟨pen, pen', hpen, hpen', hiff.mpr (by decide)⟩

/-- The first row of the text is above the screen, and the second one, which is not, is not drawn
either. -/
theorem displayWrapped_loses_second_row :
    let cs := [CodePoint.ofChar 'a', newline, CodePoint.ofChar 'b']
    let win : Window := ⟨0, -2, 5, 2, 0, -1, -1⟩
    let buffer : ScreenBuffer := ⟨3, 8, fun _ _ => ⟨0x20, 32, 40, false⟩⟩
    let big : ScreenBuffer := ⟨6, 8, fun _ _ => ⟨0x20, 32, 40, false⟩⟩
    (buffer.IsPartOf 0 3 big ∧ (win.shift 0 3).SeesAll big cs) ∧
      (displayWrapped buffer (CStr.toMemory (utf8.encode cs)) win).map (fun pen =>
        (pen.backBuffer.cells 0 0).sym) = .ok 0x20 ∧
      (displayWrapped big (CStr.toMemory (utf8.encode cs)) (win.shift 0 3)).map (fun pen =>
        (pen.backBuffer.cells 3 0).sym) = .ok 0x62 := by
  intro cs win buffer big
  have hsees : (win.shift 0 3).SeesAll big cs := by decide
  obtain ⟨pen, hpen, hdrawn⟩ := displayWrapped_drawn big (win.shift 0 3) cs
  let call : Putchar := ⟨.character, 3, 0, 0x62, 32, 40⟩
  have hcall : call ∈ (win.shift 0 3).allCalls cs := by decide
  refine ⟨⟨?_, hsees⟩, rfl, ?_⟩
  · rintro row col ⟨hrow, hrows, hcol, hcols⟩
    refine ⟨⟨?_, ?_, ?_, ?_⟩, rfl⟩
    · exact Int.add_nonneg hrow (by decide)
    · exact Int.add_lt_add_right hrows 3
    · exact Int.add_nonneg hcol le_rfl
    · exact Int.add_lt_add_right hcols 0
  · rw [hpen, Except.map, hdrawn.backBuffer_of_losesNothing hsees.losesNothing]
    have hlook := Window.look_putAll_callsBefore big le_rfl hcall (by decide)
    rw [← Window.allCalls] at hlook
    generalize big.putAll ((win.shift 0 3).allCalls cs) = result at hlook ⊢
    exact congrArg (fun look : Look => Except.ok look.1) hlook

end Vjft.Term
