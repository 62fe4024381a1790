import Vjft.Term.Key
import Vjft.Term.ReDraw

/-!
# The minibuffer (`reDraw` of `term/main.c`)

The minibuffer is measured at the width of the terminal, but its window is only as wide as the
widest of its rows. A text takes the same places in both.
-/

namespace Vjft.Term

/-! ### The code -/

/-- `mb_text2`, which is shorter than its buffer. -/
def mbText2 (mbNeedRows mbNeedCols : ℤ) : CStr :=
  literal "\nmb_need_rows=" ++ literal (toString mbNeedRows) ++ literal "\nmb_need_cols=" ++
    literal (toString mbNeedCols) ++ literal "\n"

/-- The arguments of the call of `display_wrapped`. -/
def mbWindow (winRows : ℤ) (size : DisplaySize) : Window :=
  ⟨1, winRows - size.needRows, size.needCols, size.needRows, 0, -1, -1⟩

/-- The part of `reDraw` that is about the minibuffer, from the text in it on that is measured
first. -/
def reDrawMinibuffer (buffer : ScreenBuffer) (text : CStr) (winRows winCols : ℤ) :
    Except Stop (DisplaySize × Pen) := do
  let mbRelMaxWidth := winCols - 2
  let size ← calcDisplaySize text.toMemory mbRelMaxWidth (-1)
  let text := text ++ mbText2 size.needRows size.needCols
  let size ← calcDisplaySize text.toMemory mbRelMaxWidth (-1)
  let pen ← displayWrapped buffer text.toMemory (mbWindow winRows size)
  pure (size, pen)

/-! ### The columns that are needed -/

section Columns

variable {w : ℤ} {cs : List CodePoint} {i j : ℕ}

lemma le_maxColTo (hj : j < i) : (place w cs j).2 + 1 ≤ maxColTo w cs i := by
  induction i with
  | zero => exact absurd hj (Nat.not_lt_zero j)
  | succ i ih =>
    rw [maxColTo]
    rcases Nat.lt_succ_iff_lt_or_eq.mp hj with h | rfl
    · exact (ih h).trans (le_max_left _ _)
    · exact le_max_right _ _

lemma maxColTo_le (hw : 1 ≤ w) (hi : i ≤ cs.length + 1) : maxColTo w cs i ≤ w := by
  induction i with
  | zero => exact (Int.le_of_lt Int.one_pos).trans hw
  | succ i ih =>
    have hlt : i ≤ cs.length := Nat.le_of_succ_le_succ hi
    obtain ⟨-, hcol⟩ := col_bounds hw hlt
    exact max_le (ih (Nat.le_succ_of_le hlt)) hcol

lemma col_lt_colsOf (hi : i ≤ cs.length) : (place w cs i).2 + 1 ≤ colsOf w cs :=
  (le_maxColTo (Nat.lt_succ_of_le hi)).trans (le_max_right _ _)

lemma one_le_colsOf : 1 ≤ colsOf w cs := col_lt_colsOf (Nat.zero_le cs.length)

lemma colsOf_le (hw : 1 ≤ w) : colsOf w cs ≤ w := by
  refine max_le ?_ (maxColTo_le hw le_rfl)
  split_ifs with hfull
  · exact hw
  · omega

/-- Behind the last column of the narrower window there is a newline or the border of the wider
one. -/
lemma colsOf_le_col_iff (hw : 1 ≤ w) (hi : i < cs.length) :
    cs[i] = newline ∨ colsOf w cs ≤ (place w cs i).2 + 1 ↔
      cs[i] = newline ∨ w ≤ (place w cs i).2 + 1 := by
  constructor
  · rintro (hnl | hfull)
    · exact .inl hnl
    · by_contra hnext
      -- the next character is in a further column of the same row
      have hplace : place w cs (i + 1) = ((place w cs i).1, (place w cs i).2 + 1) := by
        rw [place_succ hi, advance, if_neg hnext]
      have hcol := @col_lt_colsOf w cs (i + 1) hi
      rw [hplace] at hcol
      dsimp only at hcol
      omega
  · rintro (hnl | hfull)
    · exact .inl hnl
    · exact .inr ((colsOf_le hw).trans hfull)

/-- At the needed width every character stays where it is. -/
lemma place_colsOf (hw : 1 ≤ w) (hi : i ≤ cs.length) : place (colsOf w cs) cs i = place w cs i := by
  induction i with
  | zero => rfl
  | succ i ih =>
    have hlt : i < cs.length := hi
    rw [place_succ hlt, place_succ hlt, ih hlt.le, advance, advance]
    exact if_congr (colsOf_le_col_iff hw hlt) rfl rfl

/-- The terminator goes to a new row at the needed width if it does so at the given one. -/
lemma colsOf_le_lastCol_iff (hw : 1 ≤ w) :
    colsOf w cs ≤ (place w cs cs.length).2 + 1 ↔ w ≤ (place w cs cs.length).2 + 1 := by
  refine ⟨fun h => ?_, (colsOf_le hw).trans⟩
  by_contra hfull
  have hterm : (if w ≤ (place w cs cs.length).2 + 1 then 1 else (place w cs cs.length).2 + 2) ≤
      colsOf w cs := le_max_left _ _
  rw [if_neg hfull] at hterm
  omega

lemma maxColTo_colsOf (hw : 1 ≤ w) (hi : i ≤ cs.length + 1) :
    maxColTo (colsOf w cs) cs i = maxColTo w cs i := by
  induction i with
  | zero => rfl
  | succ i ih =>
    have hlt : i ≤ cs.length := Nat.le_of_succ_le_succ hi
    rw [maxColTo, maxColTo, ih (Nat.le_succ_of_le hlt), place_colsOf hw hlt]

lemma rowsOf_colsOf (hw : 1 ≤ w) : rowsOf (colsOf w cs) cs = rowsOf w cs := by
  rw [rowsOf, rowsOf, place_colsOf hw le_rfl]
  exact if_congr (colsOf_le_lastCol_iff hw) rfl rfl

lemma colsOf_colsOf (hw : 1 ≤ w) : colsOf (colsOf w cs) cs = colsOf w cs := by
  have hterm := if_congr (@colsOf_le_lastCol_iff w cs hw) (Eq.refl (1 : ℤ))
    (Eq.refl ((place w cs cs.length).2 + 2))
  rw [colsOf, place_colsOf hw le_rfl, maxColTo_colsOf hw le_rfl, hterm, colsOf]

end Columns

/-- Measuring again at the needed width makes no difference. -/
lemma calcDisplaySize_colsOf {w : ℤ} (hw : 1 ≤ w) (cs : List CodePoint) (p : ℤ) :
    calcDisplaySize (CStr.toMemory (utf8.encode cs)) (colsOf w cs) p =
      calcDisplaySize (CStr.toMemory (utf8.encode cs)) w p := by
  rw [calcDisplaySize_eq, calcDisplaySize_eq, colsOf_colsOf hw, rowsOf_colsOf hw]
  congr 2
  split_ifs with hp
  · rw [place_colsOf hw (by omega)]
  · rfl

/-! ### What is seen of it -/

lemma mbText2_eq_encode (mbNeedRows mbNeedCols : ℤ) :
    ∃ ds, mbText2 mbNeedRows mbNeedCols =
      utf8.encode (newline :: CodePoint.ofChar 'm' :: ds ++ [newline]) := by
  obtain ⟨ds₁, h₁⟩ := @exists_encode_literal "b_need_rows=" (by decide)
  obtain ⟨ds₂, h₂⟩ := literal_toString_eq_encode mbNeedRows
  obtain ⟨ds₃, h₃⟩ := @exists_encode_literal "\nmb_need_cols=" (by decide)
  obtain ⟨ds₄, h₄⟩ := literal_toString_eq_encode mbNeedCols
  have hnl : literal "\n" = utf8.encode [newline] := rfl
  have hm : literal "\nmb_need_rows=" =
      utf8.encode [newline, CodePoint.ofChar 'm'] ++ literal "b_need_rows=" := rfl
  refine ⟨ds₁ ++ ds₂ ++ ds₃ ++ ds₄, ?_⟩
  simp only [mbText2, hm, h₁, h₂, h₃, h₄, hnl, ← VarCode.encode_append]
  congr 1

/-- A newline at the end of a text leaves the last row to the end mark. -/
lemma row_lt_rowsOf {w : ℤ} {cs : List CodePoint} {i : ℕ} (hi : i < (cs ++ [newline]).length) :
    (place w (cs ++ [newline]) i).1 < rowsOf w (cs ++ [newline]) := by
  have hlength : (cs ++ [newline]).length = cs.length + 1 := List.length_append
  have hlen : cs.length < (cs ++ [newline]).length := by omega
  have hlast : (place w (cs ++ [newline]) (cs.length + 1)).1 =
      (place w (cs ++ [newline]) cs.length).1 + 1 := by
    rw [place_succ hlen, advance, if_pos (.inl (List.getElem_concat_length rfl hlen))]
  have hrow := row_le_row (w := w) (show i ≤ cs.length by omega) hlen.le
  have hend := @row_le_rowsOf w (cs ++ [newline]) (cs.length + 1) hlen
  omega

/-- The rows above the end mark are seen as a whole if they are on the screen. -/
lemma look_mbWindow {buffer : ScreenBuffer} {cs : List CodePoint} {i : ℕ} {c : CodePoint}
    {size : DisplaySize} {pen : Pen} (hw : 1 ≤ buffer.cols - 2)
    (hsize : calcDisplaySize (CStr.toMemory (utf8.encode (cs ++ [newline]))) (buffer.cols - 2)
      (-1) = .ok size)
    (hpen : displayWrapped buffer (CStr.toMemory (utf8.encode (cs ++ [newline])))
      (mbWindow buffer.rows size) = .ok pen)
    (hrows : size.needRows ≤ buffer.rows + 1) (hi : (cs ++ [newline])[i]? = some c)
    (hc : c ≠ newline) :
    let win := mbWindow buffer.rows size
    buffer.Has (win.cell (place win.relMaxWidth (cs ++ [newline]) i)) ∧
      pen.backBuffer.look (win.cell (place win.relMaxWidth (cs ++ [newline]) i)) =
        (c.val, win.colors i) := by
  intro win
  rw [calcDisplaySize_eq] at hsize
  obtain rfl := Except.ok.inj hsize
  obtain ⟨hlen, -⟩ := List.getElem?_eq_some_iff.mp hi
  have hlt := @row_lt_rowsOf win.relMaxWidth cs i hlen
  have heq : rowsOf win.relMaxWidth (cs ++ [newline]) = win.relMaxRows := rowsOf_colsOf hw
  have hcols : win.relMaxWidth ≤ buffer.cols - 2 := colsOf_le hw
  have habsY : win.absY = buffer.rows - win.relMaxRows := rfl
  have hfrom : win.fromRow = 0 := rfl
  have habsX : win.absX = 1 := rfl
  have hneed : win.relMaxRows ≤ buffer.rows + 1 := hrows
  have hone := one_le_row (w := win.relMaxWidth) hlen.le
  have hne : (cs ++ [newline])[i]? ≠ some newline := by
    rw [hi]
    exact fun h => hc (Option.some.inj h)
  obtain ⟨hhas, pen', hpen', hlook⟩ := @displayWrapped_look buffer win (cs ++ [newline]) i _ rfl
    one_le_colsOf (by omega) (by omega) (by omega) hlen.le hne (by omega) (by omega) (by omega)
  obtain rfl : pen' = pen := Except.ok.inj (hpen'.symm.trans hpen)
  refine ⟨hhas, ?_⟩
  rw [hlook, symAt, hi]
  rfl

/-- Nothing at all is drawn if the first row is outside of the buffer. -/
lemma displayWrapped_of_not_sees {buffer : ScreenBuffer} {win : Window} {cs : List CodePoint}
    (h : ¬ win.Sees buffer cs 0) :
    ∃ pen, displayWrapped buffer (CStr.toMemory (utf8.encode cs)) win = .ok pen ∧
      pen.backBuffer = buffer := by
  obtain ⟨pen, hpen, hdrawn⟩ := displayWrapped_drawn buffer win cs
  refine ⟨pen, hpen, ?_⟩
  cases hdrawn with
  | whole _ hbuffer hnil =>
    rw [hbuffer, allCalls_eq_callsBefore (Nat.zero_le _) (hnil 0 (Nat.zero_le _) h)]
    rfl
  | stuck i _ _ hsees hbuffer =>
    obtain rfl : i = 0 := Nat.eq_zero_of_not_pos fun hi => h (hsees 0 hi)
    exact hbuffer

/-- The minibuffer with the text `cs`, which has become `ds` when it is drawn, is drawn completely:
whatever is in the back buffer before, each character other than a newline is seen in its cell. -/
def MinibufferDrawn (winRows winCols : ℤ) (cs ds : List CodePoint) : Prop :=
  ∀ cells, let buffer : ScreenBuffer := ⟨winRows, winCols, cells⟩
    ∃ size pen, reDrawMinibuffer buffer (utf8.encode cs) winRows winCols = .ok (size, pen) ∧
      let win := mbWindow winRows size
      ∀ i c, ds[i]? = some c → c ≠ newline →
        buffer.Has (win.cell (place win.relMaxWidth ds i)) ∧
          pen.backBuffer.look (win.cell (place win.relMaxWidth ds i)) = (c.val, win.colors i)

section Drawn

variable {cs ds : List CodePoint} {winRows winCols : ℤ}

/-- The minibuffer ends with a newline, and not all of it is newlines. -/
lemma exists_encode_minibuffer (cs : List CodePoint) (needRows needCols : ℤ) :
    ∃ ds, utf8.encode (ds ++ [newline]) = utf8.encode cs ++ mbText2 needRows needCols ∧
      ∃ (i : ℕ) (c : CodePoint), (ds ++ [newline])[i]? = some c ∧ c ≠ newline := by
  obtain ⟨ds, hds⟩ := mbText2_eq_encode needRows needCols
  refine ⟨cs ++ newline :: CodePoint.ofChar 'm' :: ds, ?_, cs.length + 1, .ofChar 'm', ?_,
    by decide⟩
  · rw [List.append_assoc, VarCode.encode_append, hds]
  · rw [List.append_assoc, List.getElem?_append_right (Nat.le_succ _), Nat.succ_sub le_rfl,
      Nat.sub_self]
    rfl

/-- The drawing of the text that the minibuffer has become. -/
lemma reDrawMinibuffer_eq (winRows : ℤ) (buffer : ScreenBuffer)
    (htext : utf8.encode ds = utf8.encode cs ++
      mbText2 (rowsOf (winCols - 2) cs) (colsOf (winCols - 2) cs)) :
    ∃ size pen, calcDisplaySize (CStr.toMemory (utf8.encode ds)) (winCols - 2) (-1) = .ok size ∧
      displayWrapped buffer (CStr.toMemory (utf8.encode ds)) (mbWindow winRows size) = .ok pen ∧
      reDrawMinibuffer buffer (utf8.encode cs) winRows winCols = .ok (size, pen) := by
  have hsize := calcDisplaySize_eq (winCols - 2) (-1) ds
  obtain ⟨pen, hpen, -⟩ := displayWrapped_drawn buffer (mbWindow winRows _) ds
  refine ⟨_, pen, hsize, hpen, ?_⟩
  rw [reDrawMinibuffer, calcDisplaySize_eq, ok_bind]
  dsimp only
  rw [← htext, hsize, ok_bind, hpen]
  rfl

/-- The minibuffer is drawn completely if and only if its rows above the end mark are on the
screen. -/
lemma minibufferDrawn_iff (hw : 1 ≤ winCols - 2)
    (htext : utf8.encode (ds ++ [newline]) = utf8.encode cs ++
      mbText2 (rowsOf (winCols - 2) cs) (colsOf (winCols - 2) cs))
    (hletter : ∃ (i : ℕ) (c : CodePoint), (ds ++ [newline])[i]? = some c ∧ c ≠ newline) :
    MinibufferDrawn winRows winCols cs (ds ++ [newline]) ↔
      rowsOf (winCols - 2) (ds ++ [newline]) ≤ winRows + 1 := by
  constructor
  · intro hdrawn
    by_contra hrows
    obtain ⟨i, c, hi, hc⟩ := hletter
    -- nothing is drawn on a back buffer that has no letters
    let buffer : ScreenBuffer := ⟨winRows, winCols, fun _ _ => ⟨0, 0, 0, false⟩⟩
    obtain ⟨size, pen, hredraw, hlook⟩ := hdrawn buffer.cells
    obtain ⟨size', pen', hsize, hpen, hredraw'⟩ := reDrawMinibuffer_eq winRows buffer htext
    obtain ⟨rfl, rfl⟩ := Prod.mk.inj (Except.ok.inj (hredraw.symm.trans hredraw'))
    have habove : ¬ (mbWindow winRows size).Sees buffer (ds ++ [newline]) 0 := by
      intro hsees
      have hpen : (mbWindow winRows size).penCell (1, 0) = (mbWindow winRows size).cell (1, 0) :=
        if_pos Int.one_pos
      have hcell : buffer.Has ((mbWindow winRows size).penCell (1, 0)) := hsees
      rw [hpen] at hcell
      have hrow : 0 ≤ winRows - size.needRows + (1 - 0) := hcell.1
      rw [calcDisplaySize_eq] at hsize
      obtain rfl := Except.ok.inj hsize
      dsimp only at hrow
      omega
    obtain ⟨pen', hpen', hbuffer⟩ := displayWrapped_of_not_sees habove
    obtain rfl := Except.ok.inj (hpen'.symm.trans hpen)
    obtain ⟨-, hlook⟩ := hlook i c hi hc
    rw [hbuffer] at hlook
    have hval : 0 = c.val := congrArg Prod.fst hlook
    exact c.toNat_ne_zero (congrArg UInt32.toNat hval.symm)
  · intro hrows cells
    obtain ⟨size, pen, hsize, hpen, hredraw⟩ :=
      reDrawMinibuffer_eq winRows ⟨winRows, winCols, cells⟩ htext
    have hneed : size.needRows = rowsOf (winCols - 2) (ds ++ [newline]) := by
      rw [calcDisplaySize_eq] at hsize
      exact (congrArg DisplaySize.needRows (Except.ok.inj hsize)).symm
    exact ⟨size, pen, hredraw, fun i c hi hc =>
      look_mbWindow hw hsize hpen (hneed.trans_le hrows) hi hc⟩

/-- Measuring a text again at the width that it needs makes no difference, and the minibuffer,
drawn in a window of that width, is drawn completely if and only if its rows above the end mark are
not more than those of the screen. -/
theorem calcDisplaySize_shrink (cs : List CodePoint) {w : ℤ} (hw : 1 ≤ w) :
    ∃ needCols needRows : ℤ, (1 ≤ needCols ∧ needCols ≤ w) ∧
      (∀ p, ∃ cursor,
        calcDisplaySize (CStr.toMemory (utf8.encode cs)) w p =
          .ok ⟨needCols, needRows, cursor⟩ ∧
        calcDisplaySize (CStr.toMemory (utf8.encode cs)) needCols p =
          .ok ⟨needCols, needRows, cursor⟩) ∧
      ∃ ds, utf8.encode ds = utf8.encode cs ++ mbText2 needRows needCols ∧
        ∀ winRows, MinibufferDrawn winRows (w + 2) cs ds ↔ rowsOf w ds ≤ winRows + 1 := by
  refine ⟨colsOf w cs, rowsOf w cs, ⟨one_le_colsOf, colsOf_le hw⟩, fun p => ?_, ?_⟩
  · refine ⟨_, calcDisplaySize_eq w p cs, ?_⟩
    rw [calcDisplaySize_colsOf hw, calcDisplaySize_eq]
  · obtain ⟨ds, htext, hletter⟩ := exists_encode_minibuffer cs (rowsOf w cs) (colsOf w cs)
    refine ⟨ds ++ [newline], htext, fun winRows => ?_⟩
    obtain ⟨w, rfl⟩ : ∃ winCols, w = winCols - 2 := ⟨w + 2, (Int.add_sub_cancel w 2).symm⟩
    rw [Int.sub_add_cancel]
    exact minibufferDrawn_iff hw htext hletter

/-- The text `ab`, a newline and `c` at five columns needs three of them. -/
theorem calcDisplaySize_shrink_two_rows :
    let cs := [CodePoint.ofChar 'a', CodePoint.ofChar 'b', newline, CodePoint.ofChar 'c']
    (1 : ℤ) ≤ 5 ∧
      calcDisplaySize (CStr.toMemory (utf8.encode cs)) 5 3 = .ok ⟨3, 2, some (2, 0)⟩ ∧
      calcDisplaySize (CStr.toMemory (utf8.encode cs)) 3 3 = .ok ⟨3, 2, some (2, 0)⟩ := by
  intro cs
  obtain ⟨needCols, needRows, -, hsame, -⟩ := calcDisplaySize_shrink cs (show (1 : ℤ) ≤ 5 by decide)
  obtain ⟨cursor, hwide, hnarrow⟩ := hsame 3
  have hcalc : calcDisplaySize (CStr.toMemory (utf8.encode cs)) 5 3 =
      .ok ⟨3, 2, some (2, 0)⟩ := by rfl
  obtain ⟨rfl, rfl, rfl⟩ := DisplaySize.mk.injEq .. ▸ Except.ok.inj (hwide.symm.trans hcalc)
  exact ⟨by decide, hcalc, hnarrow⟩

/-- On a screen of two rows nothing of the text `a` is drawn: the minibuffer has three rows above
the end mark, and the pen stays above the screen with the first one. -/
theorem minibuffer_above_screen :
    let cs := [CodePoint.ofChar 'a']
    let ds := "a\nmb_need_rows=1\nmb_need_cols=2\n".toList.map CodePoint.ofChar
    let buffer : ScreenBuffer := ⟨2, 20, fun _ _ => ⟨0x20, 37, 40, false⟩⟩
    utf8.encode ds = utf8.encode cs ++ mbText2 1 2 ∧
      (∃ size pen, reDrawMinibuffer buffer (utf8.encode cs) 2 20 = .ok (size, pen) ∧
        size.needRows = 4 ∧ pen.calls = []) ∧
      ¬ MinibufferDrawn 2 20 cs ds := by
  intro cs ds buffer
  have hredraw : ∃ size pen, reDrawMinibuffer buffer (utf8.encode cs) 2 20 = .ok (size, pen) ∧
      size.needRows = 4 ∧ pen.calls = [] := ⟨_, _, rfl, rfl, rfl⟩
  refine ⟨rfl, hredraw, fun hdrawn => ?_⟩
  obtain ⟨size, pen, hpen, hrows, -⟩ := hredraw
  obtain ⟨size', pen', hpen', hlook⟩ := hdrawn buffer.cells
  obtain ⟨rfl, rfl⟩ := Prod.mk.inj (Except.ok.inj (hpen.symm.trans hpen'))
  -- the first row of the text would be the one above the screen
  obtain ⟨hhas, -⟩ := hlook 0 (.ofChar 'a') rfl (by decide)
  have hrow : 0 ≤ 2 - size.needRows + (1 - 0) := hhas.1
  omega

end Drawn

end Vjft.Term
