import Vjft.Term.Iface
import Mathlib.Algebra.Order.Group.Int
import Mathlib.Data.Prod.Lex
import Mathlib.Tactic.SplitIfs

/-!
# The layout of a text

Both loops of `term/iface.c` put the characters of a text at the same places: one goes on to a new
row as soon as a row is full, the other one when there is a further character to put.
-/

namespace Vjft.Term

/-! ### Places -/

/-- The place behind a character, in a row and a column of a window of width `w`. -/
def advance (w : ℤ) (pl : ℤ × ℤ) (c : CodePoint) : ℤ × ℤ :=
  if c = newline ∨ w ≤ pl.2 + 1 then (pl.1 + 1, 0) else (pl.1, pl.2 + 1)

/-- The place of character `i`. -/
def place (w : ℤ) (cs : List CodePoint) (i : ℕ) : ℤ × ℤ := (cs.take i).foldl (advance w) (1, 0)

/-- The rows that a text needs, counting the one behind a terminator in the last column. -/
def rowsOf (w : ℤ) (cs : List CodePoint) : ℤ :=
  let pl := place w cs cs.length
  if w ≤ pl.2 + 1 then pl.1 + 1 else pl.1

/-- The columns in use in the rows of the first `i` characters. -/
def maxColTo (w : ℤ) (cs : List CodePoint) : ℕ → ℤ
  | 0 => 0
  | i + 1 => max (maxColTo w cs i) ((place w cs i).2 + 1)

/-- The columns that a text needs. In the last row the terminator counts twice. -/
def colsOf (w : ℤ) (cs : List CodePoint) : ℤ :=
  let pl := place w cs cs.length
  max (if w ≤ pl.2 + 1 then 1 else pl.2 + 2) (maxColTo w cs (cs.length + 1))

section Place

variable {w : ℤ} {cs : List CodePoint} {i j : ℕ}

lemma place_succ (h : i < cs.length) : place w cs (i + 1) = advance w (place w cs i) cs[i] := by
  rw [place, ← List.take_append_getElem h, List.foldl_append]
  rfl

/-- A step goes to a later place in reading order. -/
lemma lt_advance (w : ℤ) (pl : ℤ × ℤ) (c : CodePoint) : toLex pl < toLex (advance w pl c) := by
  rw [Prod.Lex.toLex_lt_toLex, advance]
  split_ifs
  · exact .inl (Int.lt_succ _)
  · exact .inr ⟨rfl, Int.lt_succ _⟩

lemma place_lt_place (hij : i < j) (hj : j ≤ cs.length) :
    toLex (place w cs i) < toLex (place w cs j) := by
  induction j with
  | zero => omega
  | succ j ih =>
    have hlt : j < cs.length := hj
    rw [place_succ hlt]
    have hstep := lt_advance w (place w cs j) cs[j]
    rcases Nat.lt_succ_iff_lt_or_eq.mp hij with h | rfl
    · exact (ih h hlt.le).trans hstep
    · exact hstep

lemma row_le_row (hij : i ≤ j) (hj : j ≤ cs.length) : (place w cs i).1 ≤ (place w cs j).1 := by
  rcases hij.lt_or_eq with h | rfl
  · rcases Prod.Lex.toLex_lt_toLex.mp (place_lt_place (w := w) h hj) with h | h
    · exact h.le
    · exact h.1.le
  · exact le_rfl

lemma row_le_rowsOf (hi : i ≤ cs.length) : (place w cs i).1 ≤ rowsOf w cs := by
  have h := row_le_row (w := w) hi le_rfl
  rw [rowsOf]
  split_ifs
  · omega
  · exact h

lemma one_le_row (hi : i ≤ cs.length) : 1 ≤ (place w cs i).1 := row_le_row (Nat.zero_le i) hi

/-- Every place is inside of the window. -/
lemma col_bounds (hw : 1 ≤ w) (hi : i ≤ cs.length) :
    0 ≤ (place w cs i).2 ∧ (place w cs i).2 < w := by
  induction i with
  | zero => exact ⟨le_rfl, hw⟩
  | succ i ih =>
    have hlt : i < cs.length := hi
    obtain ⟨h0, h1⟩ := ih hlt.le
    rw [place_succ hlt, advance]
    split_ifs with h
    · exact ⟨le_rfl, hw⟩
    · have hw' := (not_or.mp h).2
      constructor
      · exact Int.add_nonneg h0 (by decide)
      · exact not_le.mp hw'

end Place

/-! ### Measuring -/

lemma val_eq_newline_iff (c : CodePoint) : c.val = 0x0A ↔ c = newline := by
  rw [← UInt32.toNat_inj]
  constructor
  · intro h
    exact CodePoint.ext h
  · rintro rfl
    rfl

section Measure

variable {w p : ℤ} {cs : List CodePoint} {i : ℕ} {m : Measure}

/-- The loop of `calc_display_size` in front of character `i`. -/
structure MeasuredTo (w p : ℤ) (cs : List CodePoint) (i : ℕ) (m : Measure) : Prop where
  bytePos : m.bytePos = utf8.offset cs i
  place : (m.curRow, m.curCol) = place w cs i
  cursor : m.cursor = if 0 ≤ p ∧ p < i then some (Term.place w cs p.toNat) else none

lemma cursor_measure (h : MeasuredTo w p cs i m) (codepoint : Sym) :
    (m.measure w p i codepoint).cursor =
      if 0 ≤ p ∧ p < (i + 1 : ℕ) then some (place w cs p.toNat) else none := by
  have hcursor : (m.measure w p i codepoint).cursor =
      if (i : ℤ) = p then some (m.curRow, m.curCol) else m.cursor := by
    rw [Measure.measure]
    split_ifs <;> rfl
  rw [hcursor, h.cursor, h.place]
  by_cases hip : (i : ℤ) = p
  · subst hip
    rw [if_pos rfl, if_pos (by omega), Int.toNat_natCast]
  · rw [if_neg hip]
    congr 1
    apply propext
    omega

lemma place_measure (w p : ℤ) (i : ℕ) (codepoint : Sym) (m : Measure) :
    ((m.measure w p i codepoint).curRow, (m.measure w p i codepoint).curCol) =
      if codepoint = 0x0A ∨ w ≤ m.curCol + 1 then (m.curRow + 1, 0)
      else (m.curRow, m.curCol + 1) := by
  rw [Measure.measure]
  split_ifs <;> rfl

/-- A round of the loop. -/
lemma MeasuredTo.measure (h : MeasuredTo w p cs i m) (hi : i < cs.length) :
    MeasuredTo w p cs (i + 1) { m.measure w p i cs[i].val with
      bytePos := m.bytePos + utf8CharLength (byteAt (utf8.encode cs) m.bytePos) } := by
  constructor
  · rw [h.bytePos, offset_add_utf8CharLength hi]
  · rw [place_succ hi, ← h.place, advance]
    simp only [place_measure, val_eq_newline_iff]
  · exact cursor_measure h _

/-- The terminator counts as a character of the last row. -/
lemma MeasuredTo.curRow_measure_zero (h : MeasuredTo w p cs cs.length m) :
    (m.measure w p cs.length 0).curRow = rowsOf w cs := by
  have hplace := congrArg Prod.fst (place_measure w p cs.length 0 m)
  rw [rowsOf, ← h.place]
  rw [apply_ite Prod.fst] at hplace
  refine hplace.trans ?_
  apply if_congr _ rfl rfl
  rw [or_iff_right (by decide)]

lemma maxCol_measure (w p : ℤ) (i : ℕ) (codepoint : Sym) (m : Measure) :
    (m.measure w p i codepoint).maxCol = max m.maxCol (m.curCol + 1) := by
  have hmax : (m.measure w p i codepoint).maxCol =
      if m.curCol + 1 > m.maxCol then m.curCol + 1 else m.maxCol := by
    rw [Measure.measure]
    split_ifs <;> rfl
  rw [hmax]
  split_ifs <;> omega

lemma MeasuredTo.maxCol_measure (h : MeasuredTo w p cs i m) (hmax : m.maxCol = maxColTo w cs i)
    (codepoint : Sym) : (m.measure w p i codepoint).maxCol = maxColTo w cs (i + 1) := by
  rw [Term.maxCol_measure, hmax, maxColTo, ← h.place]

/-- The terminator is counted, and then again. -/
lemma MeasuredTo.curCol_measure_zero (h : MeasuredTo w p cs cs.length m) :
    (m.measure w p cs.length 0).curCol + 1 =
      if w ≤ (Term.place w cs cs.length).2 + 1 then 1
      else (Term.place w cs cs.length).2 + 2 := by
  have hplace := congrArg Prod.snd (place_measure w p cs.length 0 m)
  rw [apply_ite Prod.snd] at hplace
  dsimp only at hplace
  have hzero : ¬ (0 : Sym) = 0x0A := by decide
  simp only [hplace, ← h.place, hzero, false_or]
  split_ifs <;> omega

/-- The rest of the loop up to the terminator. -/
lemma MeasuredTo.loop_eq {n : ℕ} (h : MeasuredTo w p cs i m) (hmax : m.maxCol = maxColTo w cs i)
    (hi : i ≤ cs.length) (hn : i + n = cs.length + 1) :
    ∃ m', MeasuredTo w p cs cs.length m' ∧ m'.maxCol = maxColTo w cs cs.length ∧
      calcDisplaySize.loop (CStr.toMemory (utf8.encode cs)) w p n i m =
        .ok { m'.measure w p cs.length 0 with
          curCol := (m'.measure w p cs.length 0).curCol + 1 } := by
  induction n generalizing i m with
  | zero => omega
  | succ n ih =>
    rcases hi.lt_or_eq with hi | rfl
    · obtain ⟨hbyte, hcode⟩ := reads_char h.bytePos hi
      rw [calcDisplaySize.loop_succ hbyte hcode, if_neg (CodePoint.val_ne_zero _)]
      exact ih (h.measure hi) (h.maxCol_measure hmax _) hi (by omega)
    · obtain ⟨hbyte, hcode⟩ := reads_end h.bytePos
      rw [calcDisplaySize.loop_succ hbyte hcode, if_pos rfl]
      exact ⟨m, h, hmax, rfl⟩

/-- What `calc_display_size` returns for a well-formed text. -/
lemma calcDisplaySize_eq (w p : ℤ) (cs : List CodePoint) :
    calcDisplaySize (CStr.toMemory (utf8.encode cs)) w p =
      .ok ⟨colsOf w cs, rowsOf w cs,
        if 0 ≤ p ∧ p ≤ cs.length then some (place w cs p.toNat) else none⟩ := by
  have hstart : MeasuredTo w p cs 0 ⟨0, 1, 0, 0, none⟩ := by
    refine ⟨(utf8.offset_zero cs).symm, rfl, (if_neg ?_).symm⟩
    omega
  obtain ⟨m, hm, hmax, hloop⟩ := hstart.loop_eq rfl (Nat.zero_le _) (Nat.zero_add _)
  rw [calcDisplaySize, InMemory.utf8Strlen_of_completes (completes_encode cs), utf8Strlen_encode,
    ok_bind, hloop, ok_bind]
  dsimp only
  rw [hm.curRow_measure_zero, hm.curCol_measure_zero, hm.maxCol_measure hmax, cursor_measure hm]
  have hcols : (if (if w ≤ (place w cs cs.length).2 + 1 then 1 else (place w cs cs.length).2 + 2) >
        maxColTo w cs (cs.length + 1) then
        if w ≤ (place w cs cs.length).2 + 1 then 1 else (place w cs cs.length).2 + 2
      else maxColTo w cs (cs.length + 1)) = colsOf w cs := by
    rw [colsOf]
    split_ifs <;> omega
  have hcursor : (0 ≤ p ∧ p < (cs.length + 1 : ℕ)) = (0 ≤ p ∧ p ≤ cs.length) := by
    apply propext
    omega
  simp only [hcols, hcursor]
  rfl

lemma calcDisplaySize_encode (w p : ℤ) (cs : List CodePoint) :
    ∃ needCols, calcDisplaySize (CStr.toMemory (utf8.encode cs)) w p =
      .ok ⟨needCols, rowsOf w cs,
        if 0 ≤ p ∧ p ≤ cs.length then some (place w cs p.toNat) else none⟩ :=
  ⟨_, calcDisplaySize_eq w p cs⟩

end Measure

/-! ### The back buffer -/

/-- The effect of a recorded call. -/
def ScreenBuffer.put (buffer : ScreenBuffer) (call : Putchar) : ScreenBuffer :=
  bufferedPutchar buffer call.row call.col call.sym call.fgColor call.bgColor

def ScreenBuffer.putAll (buffer : ScreenBuffer) (calls : List Putchar) : ScreenBuffer :=
  calls.foldl put buffer

namespace ScreenBuffer

lemma size_put (buffer : ScreenBuffer) (call : Putchar) :
    (buffer.put call).rows = buffer.rows ∧ (buffer.put call).cols = buffer.cols := by
  simp only [put, bufferedPutchar]
  split_ifs <;> exact ⟨rfl, rfl⟩

lemma putAll_append (buffer : ScreenBuffer) (calls calls' : List Putchar) :
    buffer.putAll (calls ++ calls') = (buffer.putAll calls).putAll calls' := List.foldl_append

lemma size_putAll (buffer : ScreenBuffer) (calls : List Putchar) :
    (buffer.putAll calls).rows = buffer.rows ∧ (buffer.putAll calls).cols = buffer.cols := by
  induction calls generalizing buffer with
  | nil => exact ⟨rfl, rfl⟩
  | cons call calls ih =>
    obtain ⟨hrows, hcols⟩ := size_put buffer call
    obtain ⟨hrows', hcols'⟩ := ih (buffer.put call)
    exact ⟨hrows'.trans hrows, hcols'.trans hcols⟩

/-- Drawing does not change which cells there are. -/
lemma contains_putAll (buffer : ScreenBuffer) (calls : List Putchar) (row col : ℤ) :
    (buffer.putAll calls).Contains row col ↔ buffer.Contains row col := by
  obtain ⟨hrows, hcols⟩ := size_putAll buffer calls
  rw [Contains, Contains, hrows, hcols]

end ScreenBuffer

/-! ### Drawing -/

namespace Pen

/-- The pen after some calls at the place where it stands. -/
def calling (s : Pen) (calls : List Putchar) : Pen :=
  { s with backBuffer := s.backBuffer.putAll calls, calls := s.calls ++ calls }

lemma calling_calling (s : Pen) (calls calls' : List Putchar) :
    (s.calling calls).calling calls' = s.calling (calls ++ calls') := by
  simp only [calling, ScreenBuffer.putAll_append, List.append_assoc]

/-- The call with which the rest of a row is filled. -/
def fillerCall (s : Pen) : Putchar :=
  ⟨.filler, s.scrRow, s.scrCol, Term.filler, defaultFgColor, defaultBgColor⟩

lemma loop_fullfiller (n : ℕ) (s : Pen) :
    fullfiller.loop n s =
      { s.calling (List.replicate n s.fillerCall) with relCol := s.relCol + n } := by
  induction n generalizing s with
  | zero => simp [fullfiller.loop, calling, ScreenBuffer.putAll]
  | succ n ih =>
    rw [fullfiller.loop, ih]
    have hcol : s.relCol + 1 + n = s.relCol + (n + 1 : ℕ) := by omega
    have hcalls : (s.calling [s.fillerCall]).calling (List.replicate n s.fillerCall) =
        s.calling (List.replicate (n + 1) s.fillerCall) := calling_calling s _ _
    calc _ = { (s.calling [s.fillerCall]).calling (List.replicate n s.fillerCall) with
          relCol := s.relCol + 1 + n } := rfl
      _ = _ := by rw [hcalls, hcol]

/-- The pen at a place of the window. -/
def moveTo (win : Window) (pl : ℤ × ℤ) (s : Pen) : Pen :=
  { s with relRow := pl.1, relCol := pl.2, scrRow := win.absY + pl.1, scrCol := win.absX + pl.2 }

section Window

variable {win : Window} {pl : ℤ × ℤ} {s : Pen}

lemma incRelRow_eq (hfrom : win.fromRow = 0) (hrow : 0 ≤ s.relRow) :
    s.incRelRow win = s.moveTo win (s.relRow + 1, 0) := by
  rw [incRelRow, if_pos, moveTo, hfrom, Int.sub_zero, Int.add_zero]
  rw [IsNotSkippedRow, hfrom]
  exact Int.lt_add_one_of_le hrow

/-- With `from_row = 0` no row is skipped. -/
lemma isNotSkippedRow (hfrom : win.fromRow = 0) (hrow : 1 ≤ s.relRow) : s.IsNotSkippedRow win := by
  rw [IsNotSkippedRow, hfrom]
  exact hrow

lemma fullfiller_eq (hfrom : win.fromRow = 0) (hrow : 1 ≤ s.relRow) :
    s.fullfiller win =
      { s.calling (List.replicate (win.relMaxWidth + 1 - s.relCol).toNat s.fillerCall) with
        relCol := s.relCol + (win.relMaxWidth + 1 - s.relCol).toNat } := by
  rw [fullfiller, if_pos (isNotSkippedRow hfrom hrow), loop_fullfiller]

lemma drawSym_eq (hfrom : win.fromRow = 0) (hrow : 1 ≤ s.relRow) (site : Site) (sym : Sym)
    (colors : ℤ × ℤ) :
    s.drawSym win site sym colors =
      { s.calling [⟨site, s.scrRow, s.scrCol, sym, colors.1, colors.2⟩] with
        scrCol := s.scrCol + 1 } := by
  rw [drawSym, if_pos (isNotSkippedRow hfrom hrow)]
  rfl

end Window

end Pen

/-- The calls that draw the character at a place. -/
def charCalls (win : Window) (curPos : ℕ) (c : CodePoint) (pl : ℤ × ℤ) : List Putchar :=
  if c = newline then
    List.replicate (win.relMaxWidth + 1 - pl.2).toNat
      ⟨.filler, win.absY + pl.1, win.absX + pl.2, filler, defaultFgColor, defaultBgColor⟩
  else
    [⟨.character, win.absY + pl.1, win.absX + pl.2, c.val, (win.colors curPos).1,
      (win.colors curPos).2⟩]

namespace Pen

variable {win : Window} {pl : ℤ × ℤ} {s : Pen}

lemma draw_newline (hfrom : win.fromRow = 0) (hrow : 1 ≤ pl.1) (i : ℕ) :
    (s.moveTo win pl).draw win i newline.val =
      ((s.calling (charCalls win i newline pl)).moveTo win (pl.1 + 1, 0), false) := by
  rw [draw, if_pos ((val_eq_newline_iff newline).mpr rfl), fullfiller_eq hfrom hrow,
    incRelRow_eq hfrom, charCalls, if_pos rfl]
  · rfl
  · exact le_trans (by decide) hrow

lemma draw_character (hfrom : win.fromRow = 0) (hrow : 1 ≤ pl.1) (i : ℕ) {c : CodePoint}
    (hc : c ≠ newline) :
    (s.moveTo win pl).draw win i c.val =
      ((s.calling (charCalls win i c pl)).moveTo win (pl.1, pl.2 + 1), false) := by
  rw [draw, if_neg (mt (val_eq_newline_iff c).mp hc), if_neg c.val_ne_zero,
    drawSym_eq hfrom hrow, charCalls, if_neg hc]
  simp only [moveTo, calling, Int.add_assoc]

/-- At the terminator the pen only moves on the screen. -/
lemma draw_zero (hfrom : win.fromRow = 0) (hrow : 1 ≤ pl.1) (i : ℕ) :
    (s.moveTo win pl).draw win i 0 =
      ({ (s.moveTo win pl).calling [⟨.endOfText, win.absY + pl.1, win.absX + pl.2, endOfText,
          (win.colors i).1, (win.colors i).2⟩] with scrCol := win.absX + pl.2 + 1 }, true) := by
  have hzero : ¬ (0 : Sym) = 0x0A := by decide
  rw [draw, if_neg hzero, if_pos rfl, drawSym_eq hfrom hrow]
  rfl

end Pen

/-- The window takes so many rows, and lies inside of the back buffer. -/
structure Window.Fits (win : Window) (buffer : ScreenBuffer) (rows : ℤ) : Prop where
  one_le_width : 1 ≤ win.relMaxWidth
  fromRow : win.fromRow = 0
  rows_le : rows ≤ win.relMaxRows
  absX : 0 ≤ win.absX
  absY : -1 ≤ win.absY
  right : win.absX + win.relMaxWidth < buffer.cols
  bottom : win.absY + rows < buffer.rows

lemma Window.Fits.contains {win : Window} {buffer : ScreenBuffer} {rows r c : ℤ}
    (hfit : win.Fits buffer rows) (hr : 1 ≤ r) (hrows : r ≤ rows) (hc : 0 ≤ c)
    (hwidth : c ≤ win.relMaxWidth) : buffer.Contains (win.absY + r) (win.absX + c) := by
  have hX := hfit.absX
  have hY := hfit.absY
  have hright := hfit.right
  have hbottom := hfit.bottom
  refine ⟨?_, ?_, ?_, ?_⟩ <;> omega

/-- The calls that draw the characters in front of character `i`. -/
def callsTo (win : Window) (cs : List CodePoint) (i : ℕ) : List Putchar :=
  (List.range i).flatMap fun j =>
    cs[j]?.toList.flatMap fun c => charCalls win j c (place win.relMaxWidth cs j)

/-- Where these characters are handled. -/
def handledTo (win : Window) (cs : List CodePoint) (i : ℕ) : List Handled :=
  (List.range i).map fun j =>
    ⟨j, (place win.relMaxWidth cs j).1, (place win.relMaxWidth cs j).2⟩

lemma callsTo_succ (win : Window) {cs : List CodePoint} {i : ℕ} (hi : i < cs.length) :
    callsTo win cs (i + 1) =
      callsTo win cs i ++ charCalls win i cs[i] (place win.relMaxWidth cs i) := by
  rw [callsTo, List.range_succ, List.flatMap_append, List.flatMap_singleton,
    List.getElem?_eq_getElem hi, Option.toList_some, List.flatMap_singleton]
  rfl

lemma handledTo_succ (win : Window) (cs : List CodePoint) (i : ℕ) :
    handledTo win cs (i + 1) = handledTo win cs i ++
      [⟨i, (place win.relMaxWidth cs i).1, (place win.relMaxWidth cs i).2⟩] := by
  rw [handledTo, List.range_succ, List.map_append]
  rfl

/-- Every character is handled once. -/
lemma filter_handledTo (win : Window) (cs : List CodePoint) {i j : ℕ} (hj : j < i) :
    (handledTo win cs i).filter (·.curPos = j) =
      [⟨j, (place win.relMaxWidth cs j).1, (place win.relMaxWidth cs j).2⟩] := by
  have hone : (List.range i).filter (· = j) = [j] := by
    rw [List.filter_eq, List.count_range, if_pos hj]
    rfl
  rw [handledTo, List.filter_map]
  exact congrArg (List.map _) hone

section Drawn

variable {buffer : ScreenBuffer} {win : Window} {cs : List CodePoint} {i : ℕ} {s : Pen}

/-- The loop of `display_wrapped` in front of character `i`. The pen is at the place of the
character, or behind the row in front of it when this row is full. -/
structure DrawnTo (buffer : ScreenBuffer) (win : Window) (cs : List CodePoint) (i : ℕ) (s : Pen) :
    Prop where
  bytePos : s.bytePos = utf8.offset cs i
  place : (s.relRow, s.relCol) = place win.relMaxWidth cs i ∨
    s.relCol = win.relMaxWidth ∧ (s.relRow + 1, 0) = Term.place win.relMaxWidth cs i
  scrRow : s.scrRow = win.absY + s.relRow
  scrCol : s.scrCol = win.absX + s.relCol
  one_le_relRow : 1 ≤ s.relRow
  backBuffer : s.backBuffer = buffer.putAll s.calls
  calls : s.calls = callsTo win cs i
  handled : s.handled = handledTo win cs i

/-- The wrap test brings the pen to the place that the character has. -/
lemma DrawnTo.wrap_eq (h : DrawnTo buffer win cs i s)
    (hfit : win.Fits buffer (rowsOf win.relMaxWidth cs)) (hi : i ≤ cs.length) :
    s.wrap win = s.moveTo win (Term.place win.relMaxWidth cs i) := by
  obtain ⟨-, hcol⟩ := col_bounds hfit.one_le_width hi
  rcases h.place with hpl | ⟨hfull, hpl⟩
  · rw [← hpl] at hcol ⊢
    rw [Pen.wrap, if_neg (not_le.mpr hcol), Pen.moveTo, ← h.scrRow, ← h.scrCol]
  · have hrow : 0 ≤ s.relRow := le_trans (by decide) h.one_le_relRow
    rw [Pen.wrap, if_pos hfull.ge, Pen.incRelRow_eq hfit.fromRow hrow, hpl]

/-- The pen is in the back buffer. -/
lemma DrawnTo.contains (h : DrawnTo buffer win cs i s)
    (hfit : win.Fits buffer (rowsOf win.relMaxWidth cs)) (hi : i ≤ cs.length) :
    s.backBuffer.Contains s.scrRow s.scrCol := by
  obtain ⟨hcol0, hcol⟩ := col_bounds hfit.one_le_width hi
  have hrow := row_le_rowsOf (w := win.relMaxWidth) hi
  rw [h.backBuffer, ScreenBuffer.contains_putAll, h.scrRow, h.scrCol]
  rcases h.place with hpl | ⟨hfull, hpl⟩
  · rw [← hpl] at hrow hcol0 hcol
    exact hfit.contains h.one_le_relRow hrow hcol0 hcol.le
  · rw [← hpl] at hrow
    have hw := hfit.one_le_width
    exact hfit.contains h.one_le_relRow ((Int.lt_succ _).le.trans hrow) (by omega) hfull.le

/-- A round, up to the character itself. -/
lemma DrawnTo.handle_eq (h : DrawnTo buffer win cs i s)
    (hfit : win.Fits buffer (rowsOf win.relMaxWidth cs)) (hi : i ≤ cs.length) (codepoint : Sym) :
    s.handle win i codepoint =
      (({ s with handled := handledTo win cs (i + 1) } : Pen).moveTo win
        (Term.place win.relMaxWidth cs i)).draw win i codepoint := by
  have hrow : (Term.place win.relMaxWidth cs i).1 ≤ win.relMaxRows + win.fromRow := by
    rw [hfit.fromRow, Int.add_zero]
    exact (row_le_rowsOf hi).trans hfit.rows_le
  rw [Pen.handle, h.wrap_eq hfit hi, handledTo_succ, ← h.handled]
  exact if_neg (not_lt.mpr hrow)

/-- A round of the loop. -/
lemma DrawnTo.handle (h : DrawnTo buffer win cs i s)
    (hfit : win.Fits buffer (rowsOf win.relMaxWidth cs)) (hi : i < cs.length) :
    ∃ s', s.handle win i cs[i].val = (s', false) ∧ s'.bytePos = s.bytePos ∧
      DrawnTo buffer win cs (i + 1) { s' with bytePos := utf8.offset cs (i + 1) } := by
  have hone := one_le_row (w := win.relMaxWidth) hi.le
  have hbuffer : s.backBuffer.putAll (charCalls win i cs[i] (Term.place win.relMaxWidth cs i)) =
      buffer.putAll (callsTo win cs (i + 1)) := by
    rw [callsTo_succ win hi, ScreenBuffer.putAll_append, ← h.calls, ← h.backBuffer]
  have hcalls : s.calls ++ charCalls win i cs[i] (Term.place win.relMaxWidth cs i) =
      callsTo win cs (i + 1) := by
    rw [callsTo_succ win hi, h.calls]
  rw [h.handle_eq hfit hi.le]
  by_cases hc : cs[i] = newline
  · rw [hc, Pen.draw_newline hfit.fromRow hone]
    rw [hc] at hbuffer hcalls
    refine ⟨_, rfl, rfl, rfl, .inl ?_, rfl, rfl, ?_, ?_, hcalls, rfl⟩
    · rw [place_succ hi, advance, if_pos (.inl hc)]
      rfl
    · exact Int.le_add_of_nonneg_left (le_trans (by decide) hone)
    · exact hbuffer.trans (congrArg buffer.putAll hcalls.symm)
  · rw [Pen.draw_character hfit.fromRow hone i hc]
    refine ⟨_, rfl, rfl, rfl, ?_, rfl, rfl, hone, ?_, hcalls, rfl⟩
    · rw [place_succ hi, advance]
      by_cases hfull : win.relMaxWidth ≤ (Term.place win.relMaxWidth cs i).2 + 1
      · obtain ⟨-, hcol⟩ := col_bounds hfit.one_le_width hi.le
        rw [if_pos (.inr hfull)]
        exact .inr ⟨le_antisymm hcol hfull, rfl⟩
      · rw [if_neg (not_or.mpr ⟨hc, hfull⟩)]
        exact .inl rfl
    · exact hbuffer.trans (congrArg buffer.putAll hcalls.symm)

lemma displayWrapped.loop_succ {text : Bytes} {n curPos : ℕ} {byte : UInt8} {codepoint : Sym}
    (hbyte : readByte text s.bytePos = .ok byte)
    (hcode : codepointAt text s.bytePos (utf8CharLength byte) = .ok codepoint)
    (hin : s.backBuffer.Contains s.scrRow s.scrCol) :
    loop text win (n + 1) curPos s =
      match s.handle win curPos codepoint with
      | (s', true) => .ok s'
      | (s', false) => loop text win n (curPos + 1)
          { s' with bytePos := s'.bytePos + utf8CharLength byte } := by
  simp only [loop, hbyte, ok_bind, hcode, if_pos hin]
  rfl

/-- The call for the end of a text. -/
def endCall (win : Window) (curPos : ℕ) (pl : ℤ × ℤ) : Putchar :=
  ⟨.endOfText, win.absY + pl.1, win.absX + pl.2, endOfText, (win.colors curPos).1,
    (win.colors curPos).2⟩

/-- The calls that fill the last row, unless it is empty. -/
def lastCalls (win : Window) (pl : ℤ × ℤ) : List Putchar :=
  if pl.2 ≠ 0 then
    List.replicate (win.relMaxWidth + 1 - pl.2).toNat
      ⟨.filler, win.absY + pl.1, win.absX + pl.2 + 1, filler, defaultFgColor, defaultBgColor⟩
  else []

/-- The last round of the loop. -/
lemma DrawnTo.handle_zero (h : DrawnTo buffer win cs cs.length s)
    (hfit : win.Fits buffer (rowsOf win.relMaxWidth cs)) :
    let pl := Term.place win.relMaxWidth cs cs.length
    ∃ s', s.handle win cs.length 0 = (s', true) ∧ (s'.relRow, s'.relCol) = pl ∧
      s'.scrRow = win.absY + pl.1 ∧ s'.scrCol = win.absX + pl.2 + 1 ∧
      s'.calls = callsTo win cs cs.length ++ [endCall win cs.length pl] ∧
      s'.handled = handledTo win cs (cs.length + 1) ∧ s'.backBuffer = buffer.putAll s'.calls := by
  intro pl
  have hone : 1 ≤ pl.1 := one_le_row (le_refl cs.length)
  rw [h.handle_eq hfit le_rfl, Pen.draw_zero hfit.fromRow hone]
  refine ⟨_, rfl, rfl, rfl, rfl, ?_, rfl, ?_⟩
  · rw [← h.calls]
    rfl
  · refine Eq.trans ?_ (ScreenBuffer.putAll_append _ _ _).symm
    exact congrArg (ScreenBuffer.putAll · _) h.backBuffer

/-- The rest of the loop: the rounds up to the terminator, and the one for the terminator. -/
lemma DrawnTo.loop_eq {n : ℕ} (h : DrawnTo buffer win cs i s)
    (hfit : win.Fits buffer (rowsOf win.relMaxWidth cs)) (hi : i ≤ cs.length)
    (hn : i + n = cs.length + 1) :
    ∃ s', DrawnTo buffer win cs cs.length s' ∧
      displayWrapped.loop (CStr.toMemory (utf8.encode cs)) win n i s =
        .ok (s'.handle win cs.length 0).1 := by
  induction n generalizing i s with
  | zero => omega
  | succ n ih =>
    rcases hi.lt_or_eq with hi | rfl
    · obtain ⟨hbyte, hcode⟩ := reads_char h.bytePos hi
      obtain ⟨s', hs', hbytePos, hdrawn⟩ := h.handle hfit hi
      rw [displayWrapped.loop_succ hbyte hcode (h.contains hfit hi.le), hs']
      dsimp only
      rw [hbytePos, h.bytePos, offset_add_utf8CharLength hi]
      exact ih hdrawn hi (by omega)
    · obtain ⟨hbyte, hcode⟩ := reads_end h.bytePos
      rw [displayWrapped.loop_succ hbyte hcode (h.contains hfit le_rfl)]
      obtain ⟨s', hs', -⟩ := h.handle_zero hfit
      refine ⟨s, h, ?_⟩
      rw [hs']

/-- Drawing a well-formed text in a window that takes it. -/
lemma displayWrapped_encode (hfit : win.Fits buffer (rowsOf win.relMaxWidth cs)) :
    ∃ s, displayWrapped buffer (CStr.toMemory (utf8.encode cs)) win = .ok s ∧
      s.calls = callsTo win cs cs.length ++
        endCall win cs.length (place win.relMaxWidth cs cs.length) ::
          lastCalls win (place win.relMaxWidth cs cs.length) ∧
      s.handled = handledTo win cs (cs.length + 1) ∧ s.backBuffer = buffer.putAll s.calls := by
  have hone := one_le_row (w := win.relMaxWidth) (le_refl cs.length)
  have hstart : DrawnTo buffer win cs 0 ((Pen.start buffer).incRelRow win) := by
    rw [Pen.incRelRow_eq hfit.fromRow le_rfl]
    exact ⟨(utf8.offset_zero cs).symm, .inl rfl, rfl, rfl, le_rfl, rfl, rfl, rfl⟩
  obtain ⟨s, h, hloop⟩ := hstart.loop_eq hfit (Nat.zero_le _) (Nat.zero_add _)
  obtain ⟨s', hs', hpl, hscrRow, hscrCol, hcalls, hhandled, hbuffer⟩ := h.handle_zero hfit
  rw [displayWrapped, InMemory.utf8Strlen_of_completes (completes_encode cs), utf8Strlen_encode,
    ok_bind, hloop, ok_bind, hs']
  obtain ⟨hrow, hcol⟩ := Prod.mk.injEq .. ▸ hpl
  rw [lastCalls]
  -- a row that is not empty is filled up to its end
  by_cases hzero : (place win.relMaxWidth cs cs.length).2 ≠ 0
  · rw [if_pos hzero]
    refine ⟨_, congrArg Except.ok ((if_pos (hcol ▸ hzero)).trans
      (Pen.fullfiller_eq hfit.fromRow (hrow ▸ hone))), ?_, hhandled, ?_⟩
    · change s'.calls ++ List.replicate _ s'.fillerCall = _
      rw [hcalls, List.append_assoc, Pen.fillerCall, hscrRow, hscrCol, hcol]
      rfl
    · refine Eq.trans ?_ (ScreenBuffer.putAll_append _ _ _).symm
      exact congrArg (ScreenBuffer.putAll · _) hbuffer
  · rw [if_neg hzero]
    exact ⟨s', congrArg Except.ok (if_neg (hcol ▸ hzero)), hcalls, hhandled, hbuffer⟩

end Drawn

/-! ### What is drawn -/

/-- The calls draw the characters other than newline: each of them once, inside of the back buffer,
at cells that follow each other in reading order and that no other call draws on. -/
structure DrawsOnce (buffer : ScreenBuffer) (cs : List CodePoint) (calls : List Putchar) :
    Prop where
  syms : (calls.filter (·.site = .character)).map Putchar.sym =
    (cs.filter (· ≠ newline)).map CodePoint.val
  inside : ∀ call ∈ calls, call.site = .character → buffer.Contains call.row call.col
  order : calls.Pairwise fun a b => a.site = .character ∨ b.site = .character →
    toLex (a.row, a.col) < toLex (b.row, b.col)

section Order

variable {buffer : ScreenBuffer} {win : Window} {cs : List CodePoint} {i : ℕ}

lemma cell_of_mem_charCalls {curPos : ℕ} {c : CodePoint} {pl : ℤ × ℤ} {call : Putchar}
    (h : call ∈ charCalls win curPos c pl) :
    call.row = win.absY + pl.1 ∧ call.col = win.absX + pl.2 := by
  rw [charCalls] at h
  split_ifs at h
  · rw [List.eq_of_mem_replicate h]
    exact ⟨rfl, rfl⟩
  · rw [List.mem_singleton.mp h]
    exact ⟨rfl, rfl⟩

lemma mem_callsTo {call : Putchar} (h : call ∈ callsTo win cs i) :
    ∃ j, j < i ∧ ∃ hj : j < cs.length,
      call ∈ charCalls win j cs[j] (place win.relMaxWidth cs j) := by
  rw [callsTo, List.mem_flatMap] at h
  obtain ⟨j, hj, h⟩ := h
  rw [List.mem_flatMap] at h
  obtain ⟨c, hc, h⟩ := h
  obtain ⟨hlt, rfl⟩ := List.getElem?_eq_some_iff.mp (Option.mem_toList.mp hc)
  exact ⟨j, List.mem_range.mp hj, hlt, h⟩

/-- The calls for one character: a single one, or fillers only. -/
lemma pairwise_charCalls (curPos : ℕ) (c : CodePoint) (pl : ℤ × ℤ) :
    (charCalls win curPos c pl).Pairwise fun a b => a.site = .character ∨ b.site = .character →
      toLex (a.row, a.col) < toLex (b.row, b.col) := by
  rw [charCalls]
  split_ifs
  · rw [List.pairwise_replicate]
    refine .inr ?_
    intro h
    exact absurd (or_self_iff.mp h) nofun
  · exact List.pairwise_singleton _ _

/-- Cells are in the order of their places. -/
lemma cell_lt_cell {pl pl' : ℤ × ℤ} (h : toLex pl < toLex pl') :
    toLex (win.absY + pl.1, win.absX + pl.2) < toLex (win.absY + pl'.1, win.absX + pl'.2) := by
  rw [Prod.Lex.toLex_lt_toLex] at h ⊢
  rcases h with h | ⟨h1, h2⟩
  · exact .inl (Int.add_lt_add_left h _)
  · exact .inr ⟨congrArg (win.absY + ·) h1, Int.add_lt_add_left h2 _⟩

lemma pairwise_callsTo (hi : i ≤ cs.length) :
    (callsTo win cs i).Pairwise fun a b => a.site = .character ∨ b.site = .character →
      toLex (a.row, a.col) < toLex (b.row, b.col) := by
  induction i with
  | zero => exact List.Pairwise.nil
  | succ i ih =>
    have hlt : i < cs.length := hi
    rw [callsTo_succ win hlt, List.pairwise_append]
    refine ⟨ih hlt.le, pairwise_charCalls _ _ _, ?_⟩
    intro a ha b hb _
    obtain ⟨j, hj, hjlen, ha⟩ := mem_callsTo ha
    obtain ⟨hrow, hcol⟩ := cell_of_mem_charCalls ha
    obtain ⟨hrow', hcol'⟩ := cell_of_mem_charCalls hb
    rw [hrow, hcol, hrow', hcol']
    exact cell_lt_cell (place_lt_place hj hlt.le)

lemma filter_charCalls (curPos : ℕ) (c : CodePoint) (pl : ℤ × ℤ) :
    ((charCalls win curPos c pl).filter (·.site = .character)).map Putchar.sym =
      ([c].filter (· ≠ newline)).map CodePoint.val := by
  rw [charCalls]
  split_ifs with h
  · simp [h]
  · simp [h]

lemma filter_callsTo (hi : i ≤ cs.length) :
    ((callsTo win cs i).filter (·.site = .character)).map Putchar.sym =
      ((cs.take i).filter (· ≠ newline)).map CodePoint.val := by
  induction i with
  | zero => rfl
  | succ i ih =>
    have hlt : i < cs.length := hi
    rw [callsTo_succ win hlt, List.filter_append, List.map_append, ih hlt.le, filter_charCalls,
      ← List.take_append_getElem hlt, List.filter_append, List.map_append]

/-- The calls behind the last character draw no character, and not on a cell of one. -/
lemma mem_endCalls {pl : ℤ × ℤ} {curPos : ℕ} {call : Putchar}
    (h : call ∈ endCall win curPos pl :: lastCalls win pl) :
    call.site ≠ .character ∧
      toLex (win.absY + pl.1, win.absX + pl.2) ≤ toLex (call.row, call.col) := by
  rcases List.mem_cons.mp h with rfl | h
  · exact ⟨nofun, le_rfl⟩
  · rw [lastCalls] at h
    split_ifs at h
    · rw [List.eq_of_mem_replicate h]
      refine ⟨nofun, ?_⟩
      rw [Prod.Lex.toLex_le_toLex]
      exact .inr ⟨rfl, (Int.lt_succ _).le⟩
    · exact absurd h List.not_mem_nil

lemma drawsOnce_calls (hfit : win.Fits buffer (rowsOf win.relMaxWidth cs)) :
    DrawsOnce buffer cs (callsTo win cs cs.length ++
      endCall win cs.length (place win.relMaxWidth cs cs.length) ::
        lastCalls win (place win.relMaxWidth cs cs.length)) := by
  have hend : ∀ call ∈ endCall win cs.length (place win.relMaxWidth cs cs.length) ::
      lastCalls win (place win.relMaxWidth cs cs.length), call.site ≠ .character :=
    fun call h => (mem_endCalls h).1
  constructor
  · have hfilter : (endCall win cs.length (place win.relMaxWidth cs cs.length) ::
        lastCalls win (place win.relMaxWidth cs cs.length)).filter (·.site = .character) = [] := by
      rw [List.filter_eq_nil_iff]
      intro call h
      simpa using hend call h
    rw [List.filter_append, hfilter, List.append_nil, filter_callsTo le_rfl, List.take_length]
  · intro call hcall hsite
    rcases List.mem_append.mp hcall with h | h
    · obtain ⟨j, hj, hjlen, h⟩ := mem_callsTo h
      obtain ⟨hrow, hcol⟩ := cell_of_mem_charCalls h
      obtain ⟨hcol0, hcol1⟩ := col_bounds hfit.one_le_width hjlen.le
      rw [hrow, hcol]
      exact hfit.contains (one_le_row hjlen.le) (row_le_rowsOf hjlen.le) hcol0 hcol1.le
    · exact absurd hsite (hend call h)
  · rw [List.pairwise_append]
    refine ⟨pairwise_callsTo le_rfl, ?_, ?_⟩
    · refine List.pairwise_of_forall_mem_list ?_
      intro a ha b hb h
      exact absurd h (not_or.mpr ⟨hend a ha, hend b hb⟩)
    · intro a ha b hb _
      obtain ⟨j, hj, hjlen, ha⟩ := mem_callsTo ha
      obtain ⟨hrow, hcol⟩ := cell_of_mem_charCalls ha
      rw [hrow, hcol]
      exact (cell_lt_cell (place_lt_place hj le_rfl)).trans_le (mem_endCalls hb).2

end Order

end Vjft.Term
