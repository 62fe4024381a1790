import Vjft.Lib.Painting
import Vjft.Term.Layout

/-!
# Drawing in any window

A window may be anywhere, also partly outside of the back buffer, and may show the text from any row
on. The loop of `display_wrapped` draws the characters one after the other up to the first one in
front of which the pen is outside of the back buffer.
-/

namespace Vjft.Term

open Painting

/-! ### What is seen -/

/-- A symbol and its two colours. -/
abbrev Look := Sym × ℤ × ℤ

def Cell.look (cell : Cell) : Look := (cell.sym, cell.fgColor, cell.bgColor)

/-- What a call makes of the cell that it is for. -/
def Cell.put (call : Putchar) (cell : Cell) : Cell :=
  if cell.sym ≠ call.sym ∨ cell.fgColor ≠ call.fgColor ∨ cell.bgColor ≠ call.bgColor then
    ⟨call.sym, call.fgColor, call.bgColor, true⟩
  else cell

/-- The cell that a call is for, and what it puts there. -/
def Putchar.stroke (call : Putchar) : (ℤ × ℤ) × Look :=
  ((call.row, call.col), call.sym, call.fgColor, call.bgColor)

namespace ScreenBuffer

variable {buffer : ScreenBuffer} {call : Putchar} {calls calls' : List Putchar} {k : ℤ × ℤ}

/-- The looks of the cells. -/
def look (buffer : ScreenBuffer) (k : ℤ × ℤ) : Look := (buffer.cells k.1 k.2).look

def Has (buffer : ScreenBuffer) (k : ℤ × ℤ) : Prop := buffer.Contains k.1 k.2

instance (buffer : ScreenBuffer) : DecidablePred buffer.Has := fun _ =>
  inferInstanceAs (Decidable (buffer.Contains _ _))

lemma has_putAll (buffer : ScreenBuffer) (calls : List Putchar) (k : ℤ × ℤ) :
    (buffer.putAll calls).Has k ↔ buffer.Has k := contains_putAll buffer calls k.1 k.2

/-- The cell of a call, if there is one, has what the call puts there. -/
def Shows (buffer : ScreenBuffer) (call : Putchar) : Prop :=
  buffer.Has call.stroke.1 → buffer.look call.stroke.1 = call.stroke.2

instance (buffer : ScreenBuffer) : DecidablePred buffer.Shows := fun _ =>
  inferInstanceAs (Decidable (_ → _))

lemma put_of_shows (h : buffer.Shows call) : buffer.put call = buffer := by
  simp only [put, bufferedPutchar]
  split_ifs with hhas hne
  · obtain ⟨hsym, hfg, hbg⟩ : (buffer.cells call.row call.col).sym = call.sym ∧
        (buffer.cells call.row call.col).fgColor = call.fgColor ∧
        (buffer.cells call.row call.col).bgColor = call.bgColor := by
      simpa only [look, Cell.look, Putchar.stroke, Prod.mk.injEq] using h hhas
    rcases hne with hne | hne | hne
    · exact absurd hsym hne
    · exact absurd hfg hne
    · exact absurd hbg hne
  · rfl
  · rfl

lemma putAll_of_shows (h : ∀ call ∈ calls, buffer.Shows call) : buffer.putAll calls = buffer := by
  induction calls with
  | nil => rfl
  | cons call calls ih =>
    obtain ⟨hcall, hcalls⟩ := List.forall_mem_cons.mp h
    rw [putAll, List.foldl_cons, put_of_shows hcall]
    exact ih hcalls

lemma putAll_of_not_has (h : ∀ call ∈ calls, ¬ buffer.Has call.stroke.1) :
    buffer.putAll calls = buffer :=
  putAll_of_shows fun call hcall hhas => absurd hhas (h call hcall)

/-- A call changes no other cell. -/
lemma cells_put_of_ne (h : call.stroke.1 ≠ k) :
    (buffer.put call).cells k.1 k.2 = buffer.cells k.1 k.2 := by
  have hk : ¬ (k.1 = call.row ∧ k.2 = call.col) :=
    fun h' => h (Prod.ext h'.1.symm h'.2.symm)
  simp only [put, bufferedPutchar]
  split_ifs
  · exact if_neg hk
  · rfl
  · rfl

lemma cells_putAll_of_ne (h : ∀ call ∈ calls, call.stroke.1 ≠ k) :
    (buffer.putAll calls).cells k.1 k.2 = buffer.cells k.1 k.2 := by
  induction calls generalizing buffer with
  | nil => rfl
  | cons call calls ih =>
    obtain ⟨hcall, hcalls⟩ := List.forall_mem_cons.mp h
    rw [putAll, List.foldl_cons]
    exact (ih hcalls).trans (cells_put_of_ne hcall)

lemma cells_put_self (h : buffer.Contains call.row call.col) :
    (buffer.put call).cells call.row call.col = (buffer.cells call.row call.col).put call := by
  simp only [put, bufferedPutchar, if_pos h, Cell.put]
  split_ifs
  · exact if_pos ⟨rfl, rfl⟩
  · rfl

lemma look_put_self (h : buffer.Contains call.row call.col) :
    ((buffer.put call).cells call.row call.col).look = call.stroke.2 := by
  rw [cells_put_self h, Cell.put]
  split_ifs with hne
  · rfl
  · simp only [not_or, not_not] at hne
    rw [Cell.look, hne.1, hne.2.1, hne.2.2]
    rfl

lemma look_put (h : buffer.Has call.stroke.1) :
    (buffer.put call).look = Function.update buffer.look call.stroke.1 call.stroke.2 := by
  ext k : 1
  by_cases hk : call.stroke.1 = k
  · rw [← hk, Function.update_self]
    exact look_put_self h
  · rw [Function.update_of_ne (Ne.symm hk), look, cells_put_of_ne hk]
    rfl

/-- The calls outside of the buffer are ignored, and the others paint. -/
lemma look_putAll (buffer : ScreenBuffer) (calls : List Putchar) :
    (buffer.putAll calls).look =
      paint buffer.look ((calls.map Putchar.stroke).filter (buffer.Has ·.1)) := by
  induction calls generalizing buffer with
  | nil => rfl
  | cons call calls ih =>
    have hsize : (fun stroke : (ℤ × ℤ) × Look => decide ((buffer.put call).Has stroke.1)) =
        fun stroke => decide (buffer.Has stroke.1) := by
      funext stroke
      exact decide_eq_decide.mpr (has_putAll buffer [call] stroke.1)
    have hrest := ih (buffer.put call)
    rw [hsize] at hrest
    rw [putAll, List.foldl_cons, List.map_cons]
    refine hrest.trans ?_
    by_cases h : buffer.Has call.stroke.1
    · rw [List.filter_cons, if_pos (decide_eq_true h), paint_cons, look_put h]
    · rw [List.filter_cons, if_neg (by simpa using h), put_of_shows fun hhas => absurd hhas h]

/-- A call is seen in its cell if those for the same cell put the same there. -/
lemma look_putAll_of_mem (hcall : call ∈ calls) (h : buffer.Has call.stroke.1)
    (hall : ∀ call' ∈ calls, call'.stroke.1 = call.stroke.1 → call'.stroke.2 = call.stroke.2) :
    (buffer.putAll calls).look call.stroke.1 = call.stroke.2 := by
  rw [look_putAll]
  apply paint_eq_of_forall
  · exact List.mem_filter.mpr ⟨List.mem_map_of_mem hcall, decide_eq_true h⟩
  · intro stroke hstroke hk
    obtain ⟨call', hcall', rfl⟩ := List.mem_map.mp (List.mem_of_mem_filter hstroke)
    exact hall call' hcall' hk

end ScreenBuffer

/-! ### A window that takes the whole text -/

/-- What is drawn at a cell of its own is seen there. -/
lemma DrawsOnce.look_eq {buffer : ScreenBuffer} {cs : List CodePoint} {calls : List Putchar}
    (h : DrawsOnce buffer cs calls) {call : Putchar} (hcall : call ∈ calls)
    (hsite : call.site = .character) :
    (buffer.putAll calls).look (call.row, call.col) = (call.sym, call.fgColor, call.bgColor) := by
  refine ScreenBuffer.look_putAll_of_mem hcall (h.inside call hcall hsite) ?_
  intro call' hcall' hcell
  let Apart (a b : Putchar) : Prop := a.site = .character ∨ b.site = .character →
    (a.row, a.col) = (b.row, b.col) → a = b
  have hapart : calls.Pairwise Apart ∧ calls.Pairwise (flip Apart) := by
    constructor
    · refine h.order.imp fun hlt hchar heq => absurd (hlt hchar) ?_
      rw [heq]
      exact lt_irrefl _
    · refine h.order.imp fun hlt hchar heq => absurd (hlt hchar.symm) ?_
      rw [heq]
      exact lt_irrefl _
  have heq : call' = call := hapart.1.forall_of_forall_of_flip (fun _ _ _ _ => rfl) hapart.2 hcall'
    hcall (.inr hsite) hcell
  rw [heq]

/-- The two loops agree on the place of every character, and the second one draws every character
other than newline once: it is seen in the back buffer at a cell of its own, and the cells are in
the order of the text. -/
theorem displayWrapped_agrees (cs : List CodePoint) (p : ℕ) (hp : p ≤ cs.length) (win : Window)
    (buffer : ScreenBuffer) :
    ∃ size, calcDisplaySize (CStr.toMemory (utf8.encode cs)) win.relMaxWidth p = .ok size ∧
      (win.Fits buffer size.needRows →
        ∃ pen, displayWrapped buffer (CStr.toMemory (utf8.encode cs)) win = .ok pen ∧
          (∃ row col, size.cursor = some (row, col) ∧
            pen.handled.filter (·.curPos = p) = [⟨p, row, col⟩]) ∧
          DrawsOnce buffer cs pen.calls ∧ pen.backBuffer = buffer.putAll pen.calls ∧
          ∀ call ∈ pen.calls, call.site = .character →
            pen.backBuffer.look (call.row, call.col) =
              (call.sym, call.fgColor, call.bgColor)) := by
  obtain ⟨needCols, hsize⟩ := calcDisplaySize_encode win.relMaxWidth p cs
  refine ⟨_, hsize, ?_⟩
  intro hfit
  obtain ⟨pen, hpen, hcalls, hhandled, hbuffer⟩ := displayWrapped_encode hfit
  have hdraws : DrawsOnce buffer cs pen.calls := by
    rw [hcalls]
    exact drawsOnce_calls hfit
  refine ⟨pen, hpen, ⟨_, _, if_pos ⟨by omega, by omega⟩, ?_⟩, hdraws, hbuffer, ?_⟩
  · rw [hhandled]
    exact filter_handledTo win cs (Nat.lt_succ_of_le hp)
  · intro call hcall hsite
    rw [hbuffer]
    exact hdraws.look_eq hcall hsite

/-- The text `ab`, a newline and `c` in a window of two columns. -/
theorem displayWrapped_agrees_two_columns :
    let cs := [CodePoint.ofChar 'a', CodePoint.ofChar 'b', newline, CodePoint.ofChar 'c']
    let win : Window := ⟨0, -1, 2, 4, 0, 2, -1⟩
    let buffer : ScreenBuffer := ⟨4, 3, fun _ _ => ⟨0x20, 32, 40, true⟩⟩
    3 ≤ cs.length ∧ ∃ pen, displayWrapped buffer (CStr.toMemory (utf8.encode cs)) win = .ok pen ∧
      pen.handled.filter (·.curPos = 3) = [⟨3, 3, 0⟩] ∧ DrawsOnce buffer cs pen.calls ∧
      pen.backBuffer = buffer.putAll pen.calls ∧
      ∀ call ∈ pen.calls, call.site = .character →
        pen.backBuffer.look (call.row, call.col) = (call.sym, call.fgColor, call.bgColor) := by
  intro cs win buffer
  obtain ⟨size, hsize, h⟩ := displayWrapped_agrees cs 3 (by decide) win buffer
  have hcalc : calcDisplaySize (CStr.toMemory (utf8.encode cs)) win.relMaxWidth (3 : ℕ) =
      .ok ⟨2, 4, some (3, 0)⟩ := by rfl
  obtain rfl : size = ⟨2, 4, some (3, 0)⟩ := Except.ok.inj (hsize.symm.trans hcalc)
  obtain ⟨pen, hpen, ⟨row, col, hcursor, hhandled⟩, hdraws⟩ := h (by constructor <;> decide)
  cases hcursor
  exact ⟨by decide, pen, hpen, hhandled, hdraws⟩

/-! ### Places of the pen -/

/-- The wrap test. -/
def wrapPlace (w : ℤ) (pl : ℤ × ℤ) : ℤ × ℤ := if w ≤ pl.2 then (pl.1 + 1, 0) else pl

/-- The place behind a character, which may be behind the end of its row. -/
def behind (pl : ℤ × ℤ) (c : CodePoint) : ℤ × ℤ :=
  if c = newline then (pl.1 + 1, 0) else (pl.1, pl.2 + 1)

/-- The row and the column of the pen in front of character `i`. -/
def penPlace (w : ℤ) (cs : List CodePoint) (i : ℕ) : ℤ × ℤ :=
  (cs.take i).foldl (fun pl c => behind (wrapPlace w pl) c) (1, 0)

/-- The row and the column in which character `i` is drawn. -/
def drawPlace (w : ℤ) (cs : List CodePoint) (i : ℕ) : ℤ × ℤ := wrapPlace w (penPlace w cs i)

section Place

variable {w : ℤ} {cs : List CodePoint} {i j : ℕ}

lemma penPlace_succ (h : i < cs.length) :
    penPlace w cs (i + 1) = behind (drawPlace w cs i) cs[i] := by
  rw [penPlace, ← List.take_append_getElem h, List.foldl_append]
  rfl

lemma le_wrapPlace (w : ℤ) (pl : ℤ × ℤ) : toLex pl ≤ toLex (wrapPlace w pl) := by
  rw [wrapPlace]
  split_ifs
  · exact (Prod.Lex.toLex_lt_toLex.mpr (.inl (Int.lt_succ _))).le
  · exact le_rfl

lemma lt_behind (pl : ℤ × ℤ) (c : CodePoint) : toLex pl < toLex (behind pl c) := by
  rw [Prod.Lex.toLex_lt_toLex, behind]
  split_ifs
  · exact .inl (Int.lt_succ _)
  · exact .inr ⟨rfl, Int.lt_succ _⟩

lemma penPlace_le_drawPlace (w : ℤ) (cs : List CodePoint) (i : ℕ) :
    toLex (penPlace w cs i) ≤ toLex (drawPlace w cs i) := le_wrapPlace w _

/-- A character is drawn in front of the places where the pen goes on. -/
lemma drawPlace_lt_penPlace (hij : i < j) (hj : j ≤ cs.length) :
    toLex (drawPlace w cs i) < toLex (penPlace w cs j) := by
  induction j with
  | zero => omega
  | succ j ih =>
    have hlt : j < cs.length := hj
    rw [penPlace_succ hlt]
    have hstep := lt_behind (drawPlace w cs j) cs[j]
    rcases Nat.lt_succ_iff_lt_or_eq.mp hij with h | rfl
    · exact ((ih h hlt.le).trans_le (penPlace_le_drawPlace w cs j)).trans hstep
    · exact hstep

lemma penPlace_le_drawPlace_of_le (hij : i ≤ j) (hj : j ≤ cs.length) :
    toLex (penPlace w cs i) ≤ toLex (drawPlace w cs j) := by
  have hi := penPlace_le_drawPlace w cs i
  rcases hij.lt_or_eq with h | rfl
  · exact hi.trans ((drawPlace_lt_penPlace h hj).le.trans (penPlace_le_drawPlace w cs j))
  · exact hi

lemma drawPlace_lt_drawPlace (hij : i < j) (hj : j ≤ cs.length) :
    toLex (drawPlace w cs i) < toLex (drawPlace w cs j) :=
  (drawPlace_lt_penPlace hij hj).trans_le (penPlace_le_drawPlace w cs j)

lemma drawRow_le_drawRow (hij : i ≤ j) (hj : j ≤ cs.length) :
    (drawPlace w cs i).1 ≤ (drawPlace w cs j).1 := by
  rcases hij.lt_or_eq with h | rfl
  · rcases Prod.Lex.toLex_lt_toLex.mp (drawPlace_lt_drawPlace (w := w) h hj) with h | h
    · exact h.le
    · exact h.1.le
  · exact le_rfl

lemma penRow_le_drawRow (hij : i ≤ j) (hj : j ≤ cs.length) :
    (penPlace w cs i).1 ≤ (drawPlace w cs j).1 := by
  rcases Prod.Lex.toLex_le_toLex.mp (penPlace_le_drawPlace_of_le (w := w) hij hj) with h | h
  · exact h.le
  · exact h.1.le

/-- In any window the pen goes on by at most two rows or one column at a time. -/
lemma penPlace_le (w : ℤ) (hi : i ≤ cs.length) :
    (1 ≤ (penPlace w cs i).1 ∧ (penPlace w cs i).1 ≤ 2 * i + 1) ∧
      0 ≤ (penPlace w cs i).2 ∧ (penPlace w cs i).2 ≤ i := by
  induction i with
  | zero => exact ⟨⟨le_rfl, le_rfl⟩, le_rfl, le_rfl⟩
  | succ i ih =>
    have hlt : i < cs.length := hi
    obtain ⟨hrow, hcol⟩ := ih hlt.le
    rw [penPlace_succ hlt, drawPlace, wrapPlace, behind]
    split_ifs <;> dsimp only <;> omega

/-- With columns in the window, wrapping late comes to the same as wrapping at once. -/
lemma wrapPlace_behind (hw : 1 ≤ w) (pl : ℤ × ℤ) (c : CodePoint) :
    wrapPlace w (behind pl c) = advance w pl c := by
  have h0 : ¬ w ≤ 0 := not_le.mpr hw
  rw [behind, advance]
  by_cases hc : c = newline
  · rw [if_pos hc, if_pos (.inl hc), wrapPlace, if_neg h0]
  · rw [if_neg hc, wrapPlace]
    exact if_congr (or_iff_right hc).symm rfl rfl

lemma drawPlace_eq_place (hw : 1 ≤ w) (hi : i ≤ cs.length) : drawPlace w cs i = place w cs i := by
  induction i with
  | zero =>
    have h0 : ¬ w ≤ 0 := not_le.mpr hw
    exact if_neg h0
  | succ i ih =>
    have hlt : i < cs.length := hi
    rw [drawPlace, penPlace_succ hlt, ih hlt.le, place_succ hlt, wrapPlace_behind hw]

end Place

/-! ### The calls of a whole drawing -/

namespace Window

variable (win : Window)

/-- The cell of a place; the first row that is shown is the one behind `fromRow`. -/
def cell (pl : ℤ × ℤ) : ℤ × ℤ := (win.absY + (pl.1 - win.fromRow), win.absX + pl.2)

/-- The cell where the pen is; it comes to the window with the first row that is shown. -/
def penCell (pl : ℤ × ℤ) : ℤ × ℤ := if win.fromRow < pl.1 then win.cell pl else (0, 0)

/-- The calls for a character at a place. -/
def symCalls (i : ℕ) (c : CodePoint) (pl : ℤ × ℤ) : List Putchar :=
  if win.fromRow < pl.1 then charCalls win i c (pl.1 - win.fromRow, pl.2) else []

/-- The calls for the end of the text at a place. -/
def markCalls (i : ℕ) (pl : ℤ × ℤ) : List Putchar :=
  if win.fromRow < pl.1 then
    endCall win i (pl.1 - win.fromRow, pl.2) :: lastCalls win (pl.1 - win.fromRow, pl.2)
  else []

/-- The calls for character `i`, and those for the end of the text behind the last one. -/
def callsAt (cs : List CodePoint) (i : ℕ) : List Putchar :=
  let pl := drawPlace win.relMaxWidth cs i
  if pl.1 > win.relMaxRows + win.fromRow then []
  else
    match cs[i]? with
    | some c => win.symCalls i c pl
    | none => win.markCalls i pl

/-- The calls for the characters in front of character `i`. -/
def callsBefore (cs : List CodePoint) (i : ℕ) : List Putchar :=
  (List.range i).flatMap (win.callsAt cs)

/-- The calls that draw the text in the window, whether their cells are in the back buffer or
not. -/
def allCalls (cs : List CodePoint) : List Putchar := win.callsBefore cs (cs.length + 1)

variable {win : Window} {cs : List CodePoint} {i j : ℕ}

lemma callsBefore_add (win : Window) (cs : List CodePoint) (i n : ℕ) :
    win.callsBefore cs (i + n) =
      win.callsBefore cs i ++ (List.range n).flatMap fun k => win.callsAt cs (i + k) := by
  rw [callsBefore, List.range_add, List.flatMap_append, List.flatMap_map]
  rfl

lemma callsBefore_succ (win : Window) (cs : List CodePoint) (i : ℕ) :
    win.callsBefore cs (i + 1) = win.callsBefore cs i ++ win.callsAt cs i := by
  rw [callsBefore_add, List.range_one, List.flatMap_singleton]
  rfl

lemma mem_callsBefore {call : Putchar} :
    call ∈ win.callsBefore cs i ↔ ∃ j < i, call ∈ win.callsAt cs j := by
  simp only [callsBefore, List.mem_flatMap, List.mem_range]

/-- The calls of a drawing are those in front of a character, and those from there on. -/
lemma exists_allCalls_eq_append (win : Window) (hi : i ≤ cs.length) :
    ∃ rest, win.allCalls cs = win.callsBefore cs i ++ rest ∧
      ∀ call ∈ rest, ∃ j, i ≤ j ∧ j ≤ cs.length ∧ call ∈ win.callsAt cs j := by
  obtain ⟨n, hn⟩ := Nat.exists_eq_add_of_le (Nat.le_succ_of_le hi)
  refine ⟨(List.range n).flatMap fun k => win.callsAt cs (i + k), ?_, ?_⟩
  · rw [allCalls, ← Nat.succ_eq_add_one, hn, callsBefore_add]
  · intro call hcall
    obtain ⟨k, hk, hmem⟩ := List.mem_flatMap.mp hcall
    have hlt := List.mem_range.mp hk
    exact ⟨i + k, Nat.le_add_right i k, by omega, hmem⟩

lemma mem_symCalls {c : CodePoint} {pl : ℤ × ℤ} {call : Putchar} (h : call ∈ win.symCalls i c pl) :
    win.fromRow < pl.1 ∧ call.stroke.1 = win.cell pl := by
  rw [symCalls] at h
  split_ifs at h with hfrom
  · obtain ⟨hrow, hcol⟩ := cell_of_mem_charCalls h
    exact ⟨hfrom, Prod.ext hrow hcol⟩
  · exact absurd h List.not_mem_nil

lemma mem_markCalls {pl : ℤ × ℤ} {call : Putchar} (h : call ∈ win.markCalls i pl) :
    win.fromRow < pl.1 ∧ (call.stroke.1 = win.cell pl ∨
      pl.2 ≠ 0 ∧ call.site = .filler ∧ call.stroke.1 = win.cell (pl.1, pl.2 + 1)) := by
  rw [markCalls] at h
  split_ifs at h with hfrom
  · refine ⟨hfrom, ?_⟩
    rcases List.mem_cons.mp h with rfl | h
    · exact .inl rfl
    · rw [lastCalls] at h
      split_ifs at h with hcol
      · rw [List.eq_of_mem_replicate h]
        refine .inr ⟨hcol, rfl, Prod.ext rfl ?_⟩
        exact Int.add_assoc _ _ _
      · exact absurd h List.not_mem_nil
  · exact absurd h List.not_mem_nil

/-- The row of a character that is drawn is shown, and the calls are for its cell, or for the next
one when they fill the row behind the end mark. -/
lemma mem_callsAt {call : Putchar} (h : call ∈ win.callsAt cs i) :
    let pl := drawPlace win.relMaxWidth cs i
    win.fromRow < pl.1 ∧ pl.1 ≤ win.relMaxRows + win.fromRow ∧
      (call.stroke.1 = win.cell pl ∨ cs.length ≤ i ∧ pl.2 ≠ 0 ∧ call.site = .filler ∧
        call.stroke.1 = win.cell (pl.1, pl.2 + 1)) := by
  intro pl
  rw [callsAt] at h
  split_ifs at h with hlimit
  · exact absurd h List.not_mem_nil
  · cases hc : cs[i]? with
    | some c =>
      rw [hc] at h
      obtain ⟨hfrom, hcell⟩ := mem_symCalls h
      exact ⟨hfrom, not_lt.mp hlimit, .inl hcell⟩
    | none =>
      rw [hc] at h
      obtain ⟨hfrom, hcell⟩ := mem_markCalls h
      refine ⟨hfrom, not_lt.mp hlimit, hcell.imp_right ?_⟩
      exact fun hnext => ⟨List.getElem?_eq_none_iff.mp hc, hnext⟩

/-- The cells follow each other in reading order. -/
lemma cell_lt_cell {pl pl' : ℤ × ℤ} (h : toLex pl < toLex pl') :
    toLex (win.cell pl) < toLex (win.cell pl') := by
  rw [Prod.Lex.toLex_lt_toLex] at h ⊢
  rcases h with h | ⟨h1, h2⟩
  · exact .inl (Int.add_lt_add_left (Int.sub_lt_sub_right h _) _)
  · refine .inr ⟨?_, Int.add_lt_add_left h2 _⟩
    rw [cell, cell, h1]

/-- A cell of an earlier character comes before those of the later ones. -/
lemma stroke_lt_stroke {a b : Putchar} (hij : i < j) (hj : j ≤ cs.length)
    (ha : a ∈ win.callsAt cs i) (hb : b ∈ win.callsAt cs j) :
    toLex a.stroke.1 < toLex b.stroke.1 := by
  obtain ⟨-, -, ha | ⟨hlen, -⟩⟩ := mem_callsAt ha
  · have hlt := win.cell_lt_cell (drawPlace_lt_drawPlace (w := win.relMaxWidth) hij hj)
    obtain ⟨-, -, hb | ⟨-, -, -, hb⟩⟩ := mem_callsAt hb
    · rw [ha, hb]
      exact hlt
    · rw [ha, hb]
      refine hlt.trans (win.cell_lt_cell ?_)
      rw [Prod.Lex.toLex_lt_toLex]
      exact .inr ⟨rfl, Int.lt_succ _⟩
  · omega

lemma eq_of_mem_symCalls {c : CodePoint} {pl : ℤ × ℤ} {a b : Putchar}
    (ha : a ∈ win.symCalls i c pl) (hb : b ∈ win.symCalls i c pl) : a = b := by
  rw [symCalls] at ha hb
  split_ifs at ha hb
  · rw [charCalls] at ha hb
    split_ifs at ha hb
    · rw [List.eq_of_mem_replicate ha, List.eq_of_mem_replicate hb]
    · rw [List.mem_singleton.mp ha, List.mem_singleton.mp hb]
  · exact absurd ha List.not_mem_nil

lemma mem_lastCalls {pl : ℤ × ℤ} {call : Putchar} (h : call ∈ lastCalls win pl) :
    call = ⟨.filler, win.absY + pl.1, win.absX + pl.2 + 1, filler, defaultFgColor,
      defaultBgColor⟩ := by
  rw [lastCalls] at h
  split_ifs at h
  · exact List.eq_of_mem_replicate h
  · exact absurd h List.not_mem_nil

/-- The filling behind the end mark is for the next column. -/
lemma eq_of_mem_markCalls {pl : ℤ × ℤ} {a b : Putchar} (ha : a ∈ win.markCalls i pl)
    (hb : b ∈ win.markCalls i pl) (h : a.stroke.1 = b.stroke.1) : a = b := by
  have hcol : a.col = b.col := congrArg Prod.snd h
  rw [markCalls] at ha hb
  split_ifs at ha hb
  · rcases List.mem_cons.mp ha with rfl | ha <;> rcases List.mem_cons.mp hb with rfl | hb
    · rfl
    · rw [mem_lastCalls hb] at hcol
      exact absurd hcol.symm (Int.lt_succ _).ne'
    · rw [mem_lastCalls ha] at hcol
      exact absurd hcol (Int.lt_succ _).ne'
    · rw [mem_lastCalls ha, mem_lastCalls hb]
  · exact absurd ha List.not_mem_nil

/-- Calls for the same cell are the same. -/
lemma eq_of_mem_callsAt {a b : Putchar} (ha : a ∈ win.callsAt cs i) (hb : b ∈ win.callsAt cs i)
    (h : a.stroke.1 = b.stroke.1) : a = b := by
  rw [callsAt] at ha hb
  split_ifs at ha hb
  · exact absurd ha List.not_mem_nil
  · cases hc : cs[i]? with
    | some c =>
      rw [hc] at ha hb
      exact eq_of_mem_symCalls ha hb
    | none =>
      rw [hc] at ha hb
      exact eq_of_mem_markCalls ha hb h

lemma eq_of_mem_callsBefore {a b : Putchar} {n : ℕ} (hn : n ≤ cs.length + 1)
    (ha : a ∈ win.callsBefore cs n) (hb : b ∈ win.callsBefore cs n)
    (h : a.stroke.1 = b.stroke.1) : a = b := by
  obtain ⟨i, hi, ha⟩ := mem_callsBefore.mp ha
  obtain ⟨j, hj, hb⟩ := mem_callsBefore.mp hb
  rcases lt_trichotomy i j with hij | rfl | hji
  · have hlt := stroke_lt_stroke hij (by omega) ha hb
    rw [h] at hlt
    exact absurd hlt (lt_irrefl _)
  · exact eq_of_mem_callsAt ha hb h
  · have hlt := stroke_lt_stroke hji (by omega) hb ha
    rw [h] at hlt
    exact absurd hlt (lt_irrefl _)

/-- The calls for the characters in front of a character are for other cells. -/
lemma ne_of_mem_callsBefore {call : Putchar} (hij : i ≤ j) (hj : j ≤ cs.length)
    (h : call ∈ win.callsAt cs j) :
    ∀ call' ∈ win.callsBefore cs i, call'.stroke.1 ≠ call.stroke.1 := by
  intro call' hcall' heq
  obtain ⟨k, hk, hmem⟩ := mem_callsBefore.mp hcall'
  have hlt := stroke_lt_stroke (hk.trans_le hij) hj hmem h
  rw [heq] at hlt
  exact lt_irrefl _ hlt

/-- Whatever is drawn for a character can be seen in the end. -/
lemma look_putAll_callsBefore (buffer : ScreenBuffer) {call : Putchar} {n : ℕ}
    (hn : n ≤ cs.length + 1) (hcall : call ∈ win.callsBefore cs n)
    (hhas : buffer.Has call.stroke.1) :
    (buffer.putAll (win.callsBefore cs n)).look call.stroke.1 = call.stroke.2 := by
  refine ScreenBuffer.look_putAll_of_mem hcall hhas fun call' hcall' hcell => ?_
  rw [eq_of_mem_callsBefore hn hcall' hcall hcell]

end Window

/-! ### The pen -/

namespace Pen

variable {win : Window} {pl : ℤ × ℤ} {s : Pen}

/-- The pen at a place. -/
def stand (win : Window) (pl : ℤ × ℤ) (s : Pen) : Pen :=
  { s with
    relRow := pl.1
    relCol := pl.2
    scrRow := (win.penCell pl).1
    scrCol := (win.penCell pl).2 }

lemma incRelRow_stand : (s.stand win pl).incRelRow win = s.stand win (pl.1 + 1, 0) := by
  rw [incRelRow]
  by_cases h : win.fromRow < pl.1 + 1
  · have hrow : win.absY + (pl.1 + 1) - win.fromRow = win.absY + (pl.1 + 1 - win.fromRow) :=
      Int.add_sub_assoc _ _ _
    refine (if_pos h).trans ?_
    simp only [stand, Window.penCell, if_pos h, Window.cell, hrow, Int.add_zero]
  · refine (if_neg h).trans ?_
    have h' : ¬ win.fromRow < pl.1 := fun h' => h (h'.trans (Int.lt_succ _))
    simp only [stand, Window.penCell, if_neg h, if_neg h']

lemma wrap_stand : (s.stand win pl).wrap win = s.stand win (wrapPlace win.relMaxWidth pl) := by
  rw [wrap, wrapPlace]
  by_cases h : win.relMaxWidth ≤ pl.2
  · rw [if_pos h, ← incRelRow_stand]
    exact if_pos h
  · rw [if_neg h]
    exact if_neg h

/-- A call at the place of the pen, if its row is shown. -/
lemma drawSym_stand (site : Site) (sym : Sym) (colors : ℤ × ℤ) :
    (s.stand win pl).drawSym win site sym colors =
      if win.fromRow < pl.1 then
        { (s.calling [⟨site, (win.cell pl).1, (win.cell pl).2, sym, colors.1, colors.2⟩]).stand
            win pl with scrCol := (win.cell pl).2 + 1 }
      else s.stand win pl := by
  rw [drawSym]
  by_cases h : win.fromRow < pl.1
  · rw [if_pos h]
    refine (if_pos h).trans ?_
    simp only [stand, putchar, Window.penCell, if_pos h]
    rfl
  · rw [if_neg h]
    exact if_neg h

lemma calling_nil (s : Pen) : s.calling [] = s := by
  simp only [calling, List.append_nil]
  rfl

/-- The rest of the row is filled, if the row is shown. -/
lemma fullfiller_incRelRow_stand :
    ((s.stand win pl).fullfiller win).incRelRow win =
      (s.calling (if win.fromRow < pl.1 then
        List.replicate (win.relMaxWidth + 1 - pl.2).toNat
          ⟨.filler, (win.cell pl).1, (win.cell pl).2, filler, defaultFgColor, defaultBgColor⟩
        else [])).stand win (pl.1 + 1, 0) := by
  rw [fullfiller]
  by_cases h : win.fromRow < pl.1
  · have hcell : (s.stand win pl).fillerCall =
        ⟨.filler, (win.cell pl).1, (win.cell pl).2, filler, defaultFgColor, defaultBgColor⟩ := by
      simp only [fillerCall, stand, Window.penCell, if_pos h]
    rw [if_pos (show (s.stand win pl).IsNotSkippedRow win from h), if_pos h, loop_fullfiller,
      hcell, ← incRelRow_stand]
    rfl
  · rw [if_neg (show ¬ (s.stand win pl).IsNotSkippedRow win from h), if_neg h, calling_nil,
      incRelRow_stand]

/-- A round of the loop for a character of the text, behind the test for the last row. -/
lemma draw_val (c : CodePoint) (i : ℕ) :
    (s.stand win pl).draw win i c.val =
      ((s.calling (win.symCalls i c pl)).stand win (behind pl c), false) := by
  by_cases hc : c = newline
  · rw [draw, if_pos ((val_eq_newline_iff c).mpr hc), behind, if_pos hc, Window.symCalls,
      fullfiller_incRelRow_stand, charCalls, if_pos hc]
    rfl
  · rw [draw, if_neg (mt (val_eq_newline_iff c).mp hc), if_neg c.val_ne_zero, behind, if_neg hc,
      Window.symCalls, drawSym_stand]
    by_cases h : win.fromRow < pl.1
    · rw [if_pos h, if_pos h, charCalls, if_neg hc]
      simp only [stand, Window.penCell, if_pos h, Window.cell, Int.add_assoc]
    · rw [if_neg h, if_neg h, calling_nil]
      simp only [stand, Window.penCell, if_neg h]

/-- The row is filled behind the loop. -/
def finish (win : Window) (s : Pen) : Pen := if s.relCol ≠ 0 then s.fullfiller win else s

/-- The filling behind the loop, with the pen in a row that is shown. -/
lemma finish_of_shown (h : win.fromRow < s.relRow) :
    (s.finish win).calls = s.calls ++ (if s.relCol ≠ 0 then
        List.replicate (win.relMaxWidth + 1 - s.relCol).toNat s.fillerCall else []) ∧
      (s.finish win).backBuffer = s.backBuffer.putAll (if s.relCol ≠ 0 then
        List.replicate (win.relMaxWidth + 1 - s.relCol).toNat s.fillerCall else []) := by
  rw [finish]
  split_ifs
  · rw [fullfiller, if_pos (show s.IsNotSkippedRow win from h), loop_fullfiller]
    exact ⟨rfl, rfl⟩
  · exact ⟨(List.append_nil _).symm, rfl⟩

/-- The last round of the loop, behind the test for the last row, and what comes behind the loop. -/
lemma draw_zero_finish (i : ℕ) :
    ∃ s', (s.stand win pl).draw win i 0 = (s', true) ∧
      (s'.finish win).calls = s.calls ++ win.markCalls i pl ∧
      (s'.finish win).backBuffer = s.backBuffer.putAll (win.markCalls i pl) := by
  have hzero : ¬ (0 : Sym) = 0x0A := by decide
  rw [draw, if_neg hzero, if_pos rfl, drawSym_stand, Window.markCalls]
  refine ⟨_, rfl, ?_⟩
  by_cases h : win.fromRow < pl.1
  · rw [if_pos h, if_pos h]
    obtain ⟨hcalls, hbuffer⟩ := @finish_of_shown win
      { (s.calling [endCall win i (pl.1 - win.fromRow, pl.2)]).stand win pl with
        scrCol := (win.cell pl).2 + 1 } h
    have hlast : lastCalls win (pl.1 - win.fromRow, pl.2) = if pl.2 ≠ 0 then
        List.replicate (win.relMaxWidth + 1 - pl.2).toNat
          ⟨.filler, (win.penCell pl).1, (win.cell pl).2 + 1, filler, defaultFgColor,
            defaultBgColor⟩ else [] := by
      rw [lastCalls, Window.penCell, if_pos h]
      rfl
    rw [hlast]
    refine ⟨hcalls.trans ?_, hbuffer.trans ?_⟩
    · exact List.append_assoc _ _ _
    · exact (ScreenBuffer.putAll_append _ _ _).symm
  · rw [if_neg h, if_neg h, finish, List.append_nil]
    rw [fullfiller, if_neg (show ¬ (s.stand win pl).IsNotSkippedRow win from h), ite_self]
    exact ⟨rfl, rfl⟩

/-- A pen outside of the buffer changes nothing behind the loop. -/
lemma backBuffer_finish (h : ¬ s.backBuffer.Has (s.scrRow, s.scrCol)) :
    (s.finish win).backBuffer = s.backBuffer := by
  rw [finish]
  split_ifs
  · rw [fullfiller]
    split_ifs
    · rw [loop_fullfiller]
      refine ScreenBuffer.putAll_of_not_has ?_
      intro call hcall
      rw [List.eq_of_mem_replicate hcall]
      exact h
    · rfl
  · rfl

end Pen

/-! ### The loop -/

section Loop

variable {buffer : ScreenBuffer} {win : Window} {cs : List CodePoint} {i : ℕ} {s : Pen}

/-- The pen in front of character `i` is in the back buffer. -/
def Window.Sees (win : Window) (buffer : ScreenBuffer) (cs : List CodePoint) (i : ℕ) : Prop :=
  buffer.Has (win.penCell (penPlace win.relMaxWidth cs i))

instance (win : Window) (buffer : ScreenBuffer) (cs : List CodePoint) (i : ℕ) :
    Decidable (win.Sees buffer cs i) := inferInstanceAs (Decidable (buffer.Has _))

/-- The loop of `display_wrapped` in front of character `i`, with all characters up to there
drawn. -/
def Pen.inFront (buffer : ScreenBuffer) (win : Window) (cs : List CodePoint) (i : ℕ)
    (handled : List Handled) : Pen :=
  let pl := penPlace win.relMaxWidth cs i
  { bytePos := utf8.offset cs i
    relRow := pl.1
    relCol := pl.2
    scrRow := (win.penCell pl).1
    scrCol := (win.penCell pl).2
    backBuffer := buffer.putAll (win.callsBefore cs i)
    calls := win.callsBefore cs i
    handled }

/-- What is left of a call: the whole text is drawn, as far as the window shows it, or what is in
front of the first character that finds the pen outside of the buffer. -/
inductive Drawn (buffer : ScreenBuffer) (win : Window) (cs : List CodePoint) (s : Pen) : Prop
  | whole : s.calls = win.allCalls cs → s.backBuffer = buffer.putAll (win.allCalls cs) →
      (∀ i ≤ cs.length, ¬ win.Sees buffer cs i →
        ∀ j, i ≤ j → j ≤ cs.length → win.callsAt cs j = []) → Drawn buffer win cs s
  | stuck (i : ℕ) : i ≤ cs.length → ¬ win.Sees buffer cs i → (∀ j < i, win.Sees buffer cs j) →
      s.backBuffer = buffer.putAll (win.callsBefore cs i) → Drawn buffer win cs s

lemma inFront_wrap (handled : List Handled) :
    (Pen.inFront buffer win cs i handled).wrap win =
      (Pen.inFront buffer win cs i handled).stand win (drawPlace win.relMaxWidth cs i) :=
  @Pen.wrap_stand win (penPlace win.relMaxWidth cs i) (Pen.inFront buffer win cs i handled)

/-- What a round of the loop reads: character `i`, or the terminator. -/
lemma reads_at (hi : i ≤ cs.length) :
    readByte (CStr.toMemory (utf8.encode cs)) (utf8.offset cs i) =
        .ok (byteAt (utf8.encode cs) (utf8.offset cs i)) ∧
      codepointAt (CStr.toMemory (utf8.encode cs)) (utf8.offset cs i)
        (utf8CharLength (byteAt (utf8.encode cs) (utf8.offset cs i))) =
          .ok ((cs[i]?.map CodePoint.val).getD 0) := by
  rcases hi.lt_or_eq with hi | rfl
  · rw [List.getElem?_eq_getElem hi]
    exact reads_char rfl hi
  · rw [byteAt_offset_eq_zero (le_refl cs.length), List.getElem?_eq_none le_rfl]
    exact reads_end rfl

/-- Nothing changes as long as the pen is outside of the buffer. -/
lemma displayWrapped.loop_of_not_has {n curPos : ℕ} (hi : i ≤ cs.length)
    (hpos : s.bytePos = utf8.offset cs i) (h : ¬ s.backBuffer.Has (s.scrRow, s.scrCol)) :
    loop (CStr.toMemory (utf8.encode cs)) win n curPos s = .ok s := by
  obtain ⟨hbyte, hcode⟩ := reads_at hi
  rw [← hpos] at hbyte hcode
  induction n generalizing curPos with
  | zero => rfl
  | succ n ih =>
    simp only [loop, hbyte, ok_bind, hcode]
    exact (if_neg h).trans ih

lemma callsAt_eq_nil (hlimit : win.relMaxRows + win.fromRow < (drawPlace win.relMaxWidth cs i).1)
    {j : ℕ} (hij : i ≤ j) (hj : j ≤ cs.length) : win.callsAt cs j = [] :=
  if_pos (hlimit.trans_le (drawRow_le_drawRow hij hj))

lemma allCalls_eq_callsBefore (hi : i ≤ cs.length)
    (h : ∀ j, i ≤ j → j ≤ cs.length → win.callsAt cs j = []) :
    win.allCalls cs = win.callsBefore cs i := by
  obtain ⟨rest, hall, hrest⟩ := win.exists_allCalls_eq_append hi
  have hnil : rest = [] := by
    rw [List.eq_nil_iff_forall_not_mem]
    intro call hcall
    obtain ⟨j, hij, hj, hmem⟩ := hrest call hcall
    rw [h j hij hj] at hmem
    exact absurd hmem List.not_mem_nil
  rw [hall, hnil, List.append_nil]

/-- A round in a row that is within the limit. -/
lemma handle_inFront (buffer : ScreenBuffer) (handled : List Handled) (codepoint : Sym)
    (hlimit : (drawPlace win.relMaxWidth cs i).1 ≤ win.relMaxRows + win.fromRow) :
    ∃ handled', (Pen.inFront buffer win cs i handled).handle win i codepoint =
      ((Pen.inFront buffer win cs i handled').stand win (drawPlace win.relMaxWidth cs i)).draw
        win i codepoint := by
  refine ⟨handled ++ [⟨i, (drawPlace win.relMaxWidth cs i).1,
    (drawPlace win.relMaxWidth cs i).2⟩], ?_⟩
  rw [Pen.handle, inFront_wrap]
  exact if_neg (not_lt.mpr hlimit)

lemma handle_val (buffer : ScreenBuffer) (handled : List Handled) (hi : i < cs.length)
    (hlimit : (drawPlace win.relMaxWidth cs i).1 ≤ win.relMaxRows + win.fromRow) :
    ∃ s' handled', (Pen.inFront buffer win cs i handled).handle win i cs[i].val = (s', false) ∧
      s'.bytePos = utf8.offset cs i ∧
      { s' with bytePos := utf8.offset cs (i + 1) } =
        Pen.inFront buffer win cs (i + 1) handled' := by
  have hcalls : win.callsAt cs i = win.symCalls i cs[i] (drawPlace win.relMaxWidth cs i) := by
    rw [Window.callsAt, if_neg (not_lt.mpr hlimit), List.getElem?_eq_getElem hi]
  obtain ⟨handled', hround⟩ :=
    handle_inFront buffer handled cs[i].val hlimit
  refine ⟨_, handled', hround.trans (Pen.draw_val cs[i] i), rfl, ?_⟩
  rw [Pen.inFront, Pen.inFront, penPlace_succ hi, Window.callsBefore_succ, hcalls,
    ScreenBuffer.putAll_append]
  rfl

/-- The round for the terminator in a row that is within the limit. -/
lemma handle_zero (buffer : ScreenBuffer) (handled : List Handled)
    (hlimit : (drawPlace win.relMaxWidth cs cs.length).1 ≤ win.relMaxRows + win.fromRow) :
    ∃ s', (Pen.inFront buffer win cs cs.length handled).handle win cs.length 0 = (s', true) ∧
      (s'.finish win).calls = win.allCalls cs ∧
      (s'.finish win).backBuffer = buffer.putAll (win.allCalls cs) := by
  have hcalls : win.callsAt cs cs.length =
      win.markCalls cs.length (drawPlace win.relMaxWidth cs cs.length) := by
    rw [Window.callsAt, if_neg (not_lt.mpr hlimit), List.getElem?_eq_none le_rfl]
  obtain ⟨handled', hround⟩ := handle_inFront buffer handled 0 hlimit
  rw [hround, Window.allCalls, Window.callsBefore_succ, hcalls, ScreenBuffer.putAll_append]
  exact Pen.draw_zero_finish cs.length

/-- A row behind the limit starts behind a newline or a full row, and nothing is to be filled. -/
lemma handle_behind_limit (buffer : ScreenBuffer) (handled : List Handled) (codepoint : Sym)
    (hcol : (penPlace win.relMaxWidth cs i).2 ≠ 0 →
      (penPlace win.relMaxWidth cs i).1 ≤ win.relMaxRows + win.fromRow)
    (hlimit : win.relMaxRows + win.fromRow < (drawPlace win.relMaxWidth cs i).1) :
    ∃ s', (Pen.inFront buffer win cs i handled).handle win i codepoint = (s', true) ∧
      (s'.finish win).calls = win.callsBefore cs i ∧
      (s'.finish win).backBuffer = buffer.putAll (win.callsBefore cs i) := by
  have hzero : (drawPlace win.relMaxWidth cs i).2 = 0 := by
    rw [drawPlace, wrapPlace] at hlimit ⊢
    split_ifs at hlimit ⊢
    · rfl
    · by_contra h
      exact absurd (hcol h) (not_le.mpr hlimit)
  rw [Pen.handle, inFront_wrap]
  refine ⟨_, if_pos hlimit, ?_⟩
  have hfinish : ((Pen.inFront buffer win cs i handled).stand win
      (drawPlace win.relMaxWidth cs i)).finish win =
        (Pen.inFront buffer win cs i handled).stand win (drawPlace win.relMaxWidth cs i) :=
    if_neg (not_not.mpr hzero)
  rw [hfinish]
  exact ⟨rfl, rfl⟩

/-- The loop from character `i` on. -/
lemma displayWrapped.loop_inFront {n : ℕ} (handled : List Handled) (hn : i + n = cs.length + 1)
    (hi : i ≤ cs.length) (hsees : ∀ j < i, win.Sees buffer cs j)
    (hcol : (penPlace win.relMaxWidth cs i).2 ≠ 0 →
      (penPlace win.relMaxWidth cs i).1 ≤ win.relMaxRows + win.fromRow) :
    ∃ s, loop (CStr.toMemory (utf8.encode cs)) win n i (Pen.inFront buffer win cs i handled) =
      .ok s ∧ Drawn buffer win cs (s.finish win) := by
  induction n generalizing i handled with
  | zero => omega
  | succ n ih =>
    have hhas : (Pen.inFront buffer win cs i handled).backBuffer.Has
        ((Pen.inFront buffer win cs i handled).scrRow,
          (Pen.inFront buffer win cs i handled).scrCol) ↔ win.Sees buffer cs i :=
      ScreenBuffer.has_putAll buffer _ _
    by_cases hsee : win.Sees buffer cs i
    · obtain ⟨hbyte, hcode⟩ := reads_at hi
      have hsees' : ∀ j ≤ i, win.Sees buffer cs j := by
        intro j hj
        rcases hj.lt_or_eq with h | rfl
        · exact hsees j h
        · exact hsee
      rw [displayWrapped.loop_succ hbyte hcode (hhas.mpr hsee)]
      by_cases hlimit : win.relMaxRows + win.fromRow < (drawPlace win.relMaxWidth cs i).1
      · -- the window is full
        obtain ⟨s', hs', hcalls, hbuffer⟩ := handle_behind_limit buffer handled
          ((cs[i]?.map CodePoint.val).getD 0) hcol hlimit
        have hnil : ∀ j, i ≤ j → j ≤ cs.length → win.callsAt cs j = [] :=
          fun j => callsAt_eq_nil hlimit
        rw [hs']
        refine ⟨s', rfl, .whole ?_ ?_ ?_⟩
        · rw [hcalls, allCalls_eq_callsBefore hi hnil]
        · rw [hbuffer, allCalls_eq_callsBefore hi hnil]
        · intro i' _ hi' j hij hj
          have hlt : i < i' := not_le.mp fun h => hi' (hsees' i' h)
          exact hnil j (hlt.le.trans hij) hj
      · rcases hi.lt_or_eq with hlt | rfl
        · obtain ⟨s', handled', hs', hpos, hdrawn⟩ :=
            handle_val buffer handled hlt (not_lt.mp hlimit)
          rw [List.getElem?_eq_getElem hlt, Option.map_some, Option.getD_some, hs']
          dsimp only
          rw [hpos, offset_add_utf8CharLength hlt, hdrawn]
          refine ih handled' (by omega) hlt (fun j hj => hsees' j (Nat.le_of_lt_succ hj)) ?_
          rw [penPlace_succ hlt, behind]
          split_ifs
          · exact fun h => absurd rfl h
          · exact fun _ => not_lt.mp hlimit
        · obtain ⟨s', hs', hcalls, hbuffer⟩ :=
            handle_zero buffer handled (not_lt.mp hlimit)
          rw [List.getElem?_eq_none le_rfl, Option.map_none, Option.getD_none, hs']
          exact ⟨s', rfl, .whole hcalls hbuffer fun i' hi' h => absurd (hsees' i' hi') h⟩
    · -- the pen is stuck
      have hstuck := mt hhas.mp hsee
      refine ⟨_, displayWrapped.loop_of_not_has hi rfl hstuck, .stuck i hi hsee hsees ?_⟩
      exact Pen.backBuffer_finish hstuck

lemma start_incRelRow (buffer : ScreenBuffer) (win : Window) (cs : List CodePoint) :
    (Pen.start buffer).incRelRow win = Pen.inFront buffer win cs 0 [] := by
  rw [Pen.incRelRow]
  by_cases h : win.fromRow < 1
  · have hpen : win.penCell (penPlace win.relMaxWidth cs 0) =
        (win.absY + (1 - win.fromRow), win.absX + 0) := if_pos h
    refine (if_pos h).trans ?_
    simp only [Pen.inFront, hpen, Int.add_zero, ← Int.add_sub_assoc]
    rfl
  · have hpen : win.penCell (penPlace win.relMaxWidth cs 0) = (0, 0) := if_neg h
    refine (if_neg h).trans ?_
    simp only [Pen.inFront, hpen]
    rfl

/-- What `display_wrapped` does with a well-formed text, in any window. -/
lemma displayWrapped_drawn (buffer : ScreenBuffer) (win : Window) (cs : List CodePoint) :
    ∃ s, displayWrapped buffer (CStr.toMemory (utf8.encode cs)) win = .ok s ∧
      Drawn buffer win cs s := by
  obtain ⟨s, hs, hdrawn⟩ := @displayWrapped.loop_inFront buffer win cs 0 _ [] (Nat.zero_add _)
    (Nat.zero_le _) (fun j hj => absurd hj (Nat.not_lt_zero j)) (fun h => absurd rfl h)
  rw [displayWrapped, InMemory.utf8Strlen_of_completes (completes_encode cs), utf8Strlen_encode,
    ok_bind, start_incRelRow, hs]
  exact ⟨_, rfl, hdrawn⟩

end Loop

end Vjft.Term
