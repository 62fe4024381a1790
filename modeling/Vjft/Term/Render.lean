import Vjft.Lib.Terminal
import Vjft.Term.Drawing
import Vjft.Term.Encode
import Vjft.Term.KeyMap
import Mathlib.Data.List.ProdSigma

/-!
# Showing the back buffer (`render_screen` of `term/iface.c`)

`render_screen` writes every cell of the back buffer to the terminal: it moves the cursor to the
cell, chooses the two colours, and writes the character in UTF-8. Only an error of `write` is
noticed; what a call does not write is lost. The buffers are cleared behind each picture, and
replaced when the size of the window changes.
-/

namespace Vjft.Term

open Terminal Painting

/-! ### The code -/

/-- The cell of an empty screen: `DEFAULT_SYMBOL` in the default colours. -/
def defaultCell : Cell := ⟨filler, defaultFgColor, defaultBgColor, true⟩

def createScreenBuffer (rows cols : ℤ) : ScreenBuffer := ⟨rows, cols, fun _ _ => defaultCell⟩

def clearScreenBuffer (buffer : ScreenBuffer) : ScreenBuffer :=
  { buffer with cells := fun _ _ => defaultCell }

def ScreenBuffer.setCell (buffer : ScreenBuffer) (row col : ℤ) (cell : Cell) : ScreenBuffer :=
  { buffer with cells := fun i j =>
      if i = row ∧ j = col then cell else buffer.cells i j }

/-- The two buffers, which are of one size, and what has been written to `stdout`. -/
structure Screen where
  frontBuffer : ScreenBuffer
  backBuffer : ScreenBuffer
  stdout : Bytes
  rows_eq : frontBuffer.rows = backBuffer.rows
  cols_eq : frontBuffer.cols = backBuffer.cols

/-- The calls of `printf` and `write` in `render_screen`. -/
inductive Output
  | hideCursor
  | home
  | cursor (k : ℕ × ℕ)
  | fgColor (k : ℕ × ℕ)
  | bgColor (k : ℕ × ℕ)
  | symbol (k : ℕ × ℕ)
  | showCursor

/-- How many bytes each call writes; `none` stands for an error of `write`, or of `printf`, before
any byte is written. -/
abbrev Outcome := Output → Option ℕ

namespace Screen

/-- `"\033[%d;%dH"` -/
def cursorTo (row col : ℤ) : Bytes :=
  literal "\x1b[" ++ literal (toString row) ++ literal ";" ++ literal (toString col) ++ literal "H"

/-- `"\033[%dm"` -/
def color (n : ℤ) : Bytes := literal "\x1b[" ++ literal (toString n) ++ literal "m"

/-- What a call is to write. -/
def text (buffer : ScreenBuffer) : Output → Bytes
  | .hideCursor => literal "\x1b[?25l"
  | .home => literal "\x1b[H"
  | .cursor k => cursorTo (k.1 + 1) (k.2 + 1)
  | .fgColor k => color (buffer.cells k.1 k.2).fgColor
  | .bgColor k => color (buffer.cells k.1 k.2).bgColor
  | .symbol k => char32ToUtf8 (buffer.cells k.1 k.2).sym
  | .showCursor => literal "\x1b[?25h"

section Code

variable (outcome : Outcome)

/-- What a call has written. -/
def written (buffer : ScreenBuffer) (call : Output) : Bytes :=
  (text buffer call).take ((outcome call).getD 0)

/-- `stdout` has no buffer of its own: `printf` and `write` write in the order of the calls. -/
def print (s : Screen) (call : Output) : Screen :=
  { s with stdout := s.stdout ++ written outcome s.backBuffer call }

/-- `*front_cell = *back_cell; back_cell->needs_update = false;` -/
def updateFront (s : Screen) (i j : ℤ) : Screen :=
  let backCell := s.backBuffer.cells i j
  { s with
    frontBuffer := s.frontBuffer.setCell i j backCell
    backBuffer := s.backBuffer.setCell i j { backCell with needsUpdate := false } }

/-- A round of the inner loop. The test in front of it begins with `true ||`, so that every cell is
written. A `write` that writes too little is no error; `.error` stands for `exit`. -/
def renderCell (s : Screen) (k : ℕ × ℕ) : Except Screen Screen :=
  let s := s.print outcome (.cursor k)
  let s := s.print outcome (.fgColor k)
  let s := s.print outcome (.bgColor k)
  if (text s.backBuffer (.symbol k)).length > 0 then
    if outcome (.symbol k) = none then .error s
    else .ok ((s.print outcome (.symbol k)).updateFront k.1 k.2)
  else .ok (s.updateFront k.1 k.2)

/-- The cells in the order of the two loops. -/
def cellsOf (buffer : ScreenBuffer) : List (ℕ × ℕ) :=
  List.range buffer.rows.toNat ×ˢ List.range buffer.cols.toNat

def renderScreen (s : Screen) : Except Screen Screen := do
  let s := s.print outcome .hideCursor
  let s := s.print outcome .home
  let s ← (cellsOf s.backBuffer).foldlM (renderCell outcome) s
  pure (s.print outcome .showCursor)

end Code

end Screen

/-! ### The calls -/

/-- The cell that a call is for. -/
def Output.cell : Output → Option (ℕ × ℕ)
  | .hideCursor | .home | .showCursor => none
  | .cursor k | .fgColor k | .bgColor k | .symbol k => some k

/-- The call comes in front of the one for the symbol of a cell. -/
def Output.IsBefore (k : ℕ × ℕ) : Output → Prop
  | .hideCursor | .home => True
  | .cursor k' | .fgColor k' | .bgColor k' => toLex k' ≤ toLex k
  | .symbol k' => toLex k' < toLex k
  | .showCursor => False

/-- The call writes all that it is to write. -/
def Outcome.IsWhole (outcome : Outcome) (buffer : ScreenBuffer) (call : Output) : Prop :=
  ∃ n, outcome call = some n ∧ (Screen.text buffer call).length ≤ n

lemma Outcome.IsWhole.written_eq {outcome : Outcome} {buffer : ScreenBuffer} {call : Output}
    (h : outcome.IsWhole buffer call) :
    Screen.written outcome buffer call = Screen.text buffer call := by
  obtain ⟨n, hn, hlen⟩ := h
  rw [Screen.written, hn]
  exact List.take_of_length_le hlen

/-! ### The bytes of a cell -/

/-- What the terminal shows for a look. -/
def glyphOf (look : Look) : Glyph := ⟨look.1.toNat, look.2.1.toNat, look.2.2.toNat⟩

/-- The terminal shows the look as it is: the symbol is a character of one cell, and the numbers are
those of colours. -/
def Drawable [Kind] (look : Look) : Prop :=
  look.1 ≤ 0x10FFFF ∧ Kind.isNarrow look.1.toNat ∧ IsFg look.2.1.toNat ∧ IsBg look.2.2.toNat

instance [Kind] (look : Look) : Decidable (Drawable look) := inferInstanceAs (Decidable (_ ∧ _))

lemma utf8EncodeChar_of_isDigit {c : Char} (h : c.isDigit = true) :
    String.utf8EncodeChar c = [UInt8.ofNat c.toNat] := by
  rw [Char.isDigit, Bool.and_eq_true, decide_eq_true_iff, decide_eq_true_iff] at h
  have hlo : 48 ≤ c.toNat := UInt32.le_iff_toNat_le.mp h.1
  have hhi : c.toNat ≤ 57 := UInt32.le_iff_toNat_le.mp h.2
  have hne : c.toNat ≠ 0 := by omega
  exact Utf8.word_of_lt ⟨c, hne⟩ (lt_of_le_of_lt hhi (by decide))

lemma literal_toString (n : ℕ) : literal (toString (n : ℤ)) = decimal n := by
  have hdigits : ∀ c ∈ Nat.toDigits 10 n,
      String.utf8EncodeChar c = (pure ∘ fun c : Char => UInt8.ofNat c.toNat) c := fun c hc =>
    utf8EncodeChar_of_isDigit (Nat.isDigit_of_mem_toDigits (by decide) (by decide) hc)
  change literal n.repr = _
  rw [literal, Nat.repr, String.toList_ofList, List.flatMap_congr hdigits,
    List.flatMap_pure_eq_map, decimal]

lemma cursorTo_eq (i j : ℕ) :
    Screen.cursorTo ((i : ℤ) + 1) ((j : ℤ) + 1) = cursorPosition (i + 1) (j + 1) := by
  rw [Screen.cursorTo, show (i : ℤ) + 1 = ((i + 1 : ℕ) : ℤ) from rfl,
    show (j : ℤ) + 1 = ((j + 1 : ℕ) : ℤ) from rfl, literal_toString, literal_toString]
  rfl

lemma color_eq {n : ℤ} (hn : 0 ≤ n) : Screen.color n = selectRendition n.toNat := by
  obtain ⟨m, rfl⟩ := Int.eq_ofNat_of_zero_le hn
  rw [Screen.color, literal_toString]
  rfl

/-- The look of a cell of the loops. -/
def ScreenBuffer.lookAt (buffer : ScreenBuffer) (k : ℕ × ℕ) : Look := buffer.look (k.1, k.2)

section Cell

variable [Kind] {t : Terminal} {buffer : ScreenBuffer} {k : ℕ × ℕ}

/-- A character of one cell is put at the cursor. -/
lemma run_char32ToUtf8 {sym : Sym} (hle : sym ≤ 0x10FFFF) (hsym : Kind.isNarrow sym.toNat)
    (hmode : t.mode = .ground) : t.run (char32ToUtf8 sym) = t.put sym.toNat := by
  have hput : t.character sym.toNat = t.put sym.toNat := if_pos hsym
  rw [← hput]
  rcases char32ToUtf8_cases hle with ⟨x, hx, hbytes, hnat⟩ | ⟨x, hx, y, hy, hbytes, hnat⟩ |
    ⟨x, hx, y, hy, z, hz, hbytes, hnat⟩ | ⟨x, hx, y, hy, z, hz, w, hw, hbytes, hnat⟩
  · have hlo : 0x20 ≤ sym.toNat := (Kind.isPrintable hsym).1
    rw [hbytes, hnat]
    rw [hnat] at hlo
    exact run_one hmode hlo hx
  · rw [hbytes, hnat]
    exact run_two hmode hx hy
  · rw [hbytes, hnat]
    exact run_three hmode hx hy hz
  · rw [hbytes, hnat]
    exact run_four hmode hx hy hz hw

/-- The texts of the calls in front of the symbol. -/
lemma placeText_eq (h : Drawable (buffer.lookAt k)) :
    Screen.text buffer (.cursor k) ++ Screen.text buffer (.fgColor k) ++
        Screen.text buffer (.bgColor k) =
      placePen k.1 k.2 (buffer.lookAt k).2.1.toNat (buffer.lookAt k).2.2.toNat := by
  obtain ⟨-, -, hfg, hbg⟩ := h
  have hfg0 : 0 ≤ (buffer.lookAt k).2.1 := by
    rw [IsFg] at hfg
    omega
  have hbg0 : 0 ≤ (buffer.lookAt k).2.2 := by
    rw [IsBg] at hbg
    omega
  rw [placePen, ← cursorTo_eq, ← color_eq hfg0, ← color_eq hbg0]
  rfl

/-- The texts of the calls for a cell. -/
def cellText (buffer : ScreenBuffer) (k : ℕ × ℕ) : Bytes :=
  Screen.text buffer (.cursor k) ++ Screen.text buffer (.fgColor k) ++
    Screen.text buffer (.bgColor k) ++ Screen.text buffer (.symbol k)

lemma cellText_eq (h : Drawable (buffer.lookAt k)) :
    cellText buffer k = writeCell k.1 k.2 (buffer.lookAt k).2.1.toNat
      (buffer.lookAt k).2.2.toNat (char32ToUtf8 (buffer.lookAt k).1) := by
  rw [cellText, placeText_eq h, writeCell]
  rfl

/-- A terminal that has a cell shows it. -/
lemma painted_cellText (h : Drawable (buffer.lookAt k)) (hk : t.Has k) (hmode : t.mode = .ground) :
    Painted t (t.run (cellText buffer k)) [(k, glyphOf (buffer.lookAt k))] := by
  rw [cellText_eq h]
  exact painted_writeCell hmode h.2.2.1 h.2.2.2 (fun _ => run_char32ToUtf8 h.1 h.2.1) hk

lemma painted_placeText (h : Drawable (buffer.lookAt k)) (hmode : t.mode = .ground) :
    Painted t (t.run (Screen.text buffer (.cursor k) ++ Screen.text buffer (.fgColor k) ++
      Screen.text buffer (.bgColor k))) [] := by
  rw [placeText_eq h, run_placePen hmode h.2.2.1 h.2.2.2]
  exact ⟨rfl, rfl, rfl, hmode, rfl⟩

lemma painted_flatMap {ks : List (ℕ × ℕ)} (hmode : t.mode = .ground)
    (h : ∀ k ∈ ks, t.Has k ∧ Drawable (buffer.lookAt k)) :
    Painted t (t.run (ks.flatMap (cellText buffer)))
      (ks.map fun k => (k, glyphOf (buffer.lookAt k))) := by
  induction ks generalizing t with
  | nil => exact Painted.refl hmode
  | cons k ks ih =>
    obtain ⟨⟨hk, hdraw⟩, hks⟩ := List.forall_mem_cons.mp h
    have hcell := painted_cellText hdraw hk hmode
    rw [List.flatMap_cons, run_append]
    exact hcell.trans (ih hcell.mode fun k' hk' =>
      ⟨(hcell.has_iff k').mpr (hks k' hk').1, (hks k' hk').2⟩)

end Cell

/-! ### The loops -/

namespace Screen

section Loops

variable {outcome : Outcome} {s s' s'' : Screen} {k : ℕ × ℕ} {ks ks' : List (ℕ × ℕ)}

/-- The text of a call depends on the look of its cell only. -/
lemma text_congr {buffer buffer' : ScreenBuffer}
    (h : ∀ k : ℕ × ℕ, buffer'.lookAt k = buffer.lookAt k) (call : Output) :
    text buffer' call = text buffer call := by
  cases call with
  | hideCursor | home | cursor | showCursor => rfl
  | fgColor k =>
    have hlook : (buffer'.cells k.1 k.2).fgColor = (buffer.cells k.1 k.2).fgColor :=
      congrArg (fun look : Look => look.2.1) (h k)
    rw [text, text, hlook]
  | bgColor k =>
    have hlook : (buffer'.cells k.1 k.2).bgColor = (buffer.cells k.1 k.2).bgColor :=
      congrArg (fun look : Look => look.2.2) (h k)
    rw [text, text, hlook]
  | symbol k =>
    have hlook : (buffer'.cells k.1 k.2).sym = (buffer.cells k.1 k.2).sym :=
      congrArg (fun look : Look => look.1) (h k)
    rw [text, text, hlook]

/-- What the calls in front of the symbol of a cell have written. -/
def placeWritten (outcome : Outcome) (buffer : ScreenBuffer) (k : ℕ × ℕ) : Bytes :=
  written outcome buffer (.cursor k) ++ written outcome buffer (.fgColor k) ++
    written outcome buffer (.bgColor k)

/-- What the calls for a cell have written. -/
def cellWritten (outcome : Outcome) (buffer : ScreenBuffer) (k : ℕ × ℕ) : Bytes :=
  placeWritten outcome buffer k ++ written outcome buffer (.symbol k)

/-- The state with some more bytes written. -/
def wrote (s : Screen) (bytes : Bytes) : Screen := { s with stdout := s.stdout ++ bytes }

/-- What the loops have done when they are through with some cells. -/
structure Rendered (outcome : Outcome) (s s' : Screen) (ks : List (ℕ × ℕ)) : Prop where
  stdout : s'.stdout = s.stdout ++ ks.flatMap (cellWritten outcome s.backBuffer)
  rows : s'.backBuffer.rows = s.backBuffer.rows
  cols : s'.backBuffer.cols = s.backBuffer.cols
  back : ∀ k, s'.backBuffer.lookAt k = s.backBuffer.lookAt k
  front : ∀ k, s'.frontBuffer.lookAt k =
    if k ∈ ks then s.backBuffer.lookAt k else s.frontBuffer.lookAt k
  needsUpdate : ∀ k : ℕ × ℕ, (s'.backBuffer.cells k.1 k.2).needsUpdate =
    if k ∈ ks then false else (s.backBuffer.cells k.1 k.2).needsUpdate

lemma Rendered.placeWritten_eq (h : Rendered outcome s s' ks) (k : ℕ × ℕ) :
    placeWritten outcome s'.backBuffer k = placeWritten outcome s.backBuffer k := by
  simp only [placeWritten, written, text_congr h.back]

lemma Rendered.cellWritten_eq (h : Rendered outcome s s' ks) :
    cellWritten outcome s'.backBuffer = cellWritten outcome s.backBuffer := by
  funext k
  simp only [cellWritten, placeWritten, written, text_congr h.back]

lemma Rendered.trans (h : Rendered outcome s s' ks) (h' : Rendered outcome s' s'' ks') :
    Rendered outcome s s'' (ks ++ ks') where
  stdout := by
    rw [h'.stdout, h.stdout, h.cellWritten_eq, List.flatMap_append, List.append_assoc]
  rows := h'.rows.trans h.rows
  cols := h'.cols.trans h.cols
  back k := (h'.back k).trans (h.back k)
  front k := by
    rw [h'.front, h.front, h.back]
    simp only [List.mem_append]
    split_ifs <;> tauto
  needsUpdate k := by
    rw [h'.needsUpdate, h.needsUpdate]
    simp only [List.mem_append]
    split_ifs <;> tauto

lemma cells_setCell (buffer : ScreenBuffer) (cell : Cell) (k k' : ℕ × ℕ) :
    (buffer.setCell k.1 k.2 cell).cells k'.1 k'.2 =
      if k' = k then cell else buffer.cells k'.1 k'.2 := by
  have hiff : (k'.1 : ℤ) = k.1 ∧ (k'.2 : ℤ) = k.2 ↔ k' = k := by
    rw [Int.natCast_inj, Int.natCast_inj, Prod.ext_iff]
  simp only [ScreenBuffer.setCell, hiff]

/-- `write` is called for the cells whose symbols have a code word, and fails for none of them. -/
def CanWrite (outcome : Outcome) (s : Screen) (k : ℕ × ℕ) : Prop :=
  text s.backBuffer (.symbol k) = [] ∨ outcome (.symbol k) ≠ none

lemma renderCell_eq (outcome : Outcome) (s : Screen) (k : ℕ × ℕ) :
    renderCell outcome s k =
      if 0 < (text s.backBuffer (.symbol k)).length then
        if outcome (.symbol k) = none then .error (s.wrote (placeWritten outcome s.backBuffer k))
        else .ok ((s.wrote (cellWritten outcome s.backBuffer k)).updateFront k.1 k.2)
      else .ok ((s.wrote (placeWritten outcome s.backBuffer k)).updateFront k.1 k.2) := by
  simp only [renderCell, print, wrote, cellWritten, placeWritten, List.append_assoc]

lemma renderCell_of_canWrite (h : CanWrite outcome s k) :
    renderCell outcome s k =
      .ok ((s.wrote (cellWritten outcome s.backBuffer k)).updateFront k.1 k.2) := by
  rw [renderCell_eq]
  by_cases hsym : text s.backBuffer (.symbol k) = []
  · have hnil : written outcome s.backBuffer (.symbol k) = [] := by
      rw [written, hsym, List.take_nil]
    rw [if_neg (by simp [hsym]), cellWritten, hnil, List.append_nil]
  · rw [if_pos (List.length_pos_of_ne_nil hsym), if_neg (h.resolve_left hsym)]

lemma renderCell_of_not_canWrite (h : ¬ CanWrite outcome s k) :
    renderCell outcome s k = .error (s.wrote (placeWritten outcome s.backBuffer k)) := by
  obtain ⟨hsym, houtcome⟩ := not_or.mp h
  rw [renderCell_eq, if_pos (List.length_pos_of_ne_nil hsym), if_pos (not_not.mp houtcome)]

/-- A round changes no look of the back buffer. -/
lemma rendered_renderCell (outcome : Outcome) (s : Screen) (k : ℕ × ℕ) :
    Rendered outcome s
      ((s.wrote (cellWritten outcome s.backBuffer k)).updateFront k.1 k.2) [k] where
  stdout := by
    rw [List.flatMap_singleton]
    rfl
  rows := rfl
  cols := rfl
  back k' := by
    change ((s.backBuffer.setCell k.1 k.2 _).cells k'.1 k'.2).look = _
    rw [cells_setCell]
    split_ifs with h
    · rw [h]
      rfl
    · rfl
  front k' := by
    change ((s.frontBuffer.setCell k.1 k.2 _).cells k'.1 k'.2).look = _
    rw [cells_setCell]
    simp only [List.mem_singleton]
    split_ifs with h
    · rw [h]
      rfl
    · rfl
  needsUpdate k' := by
    change ((s.backBuffer.setCell k.1 k.2 _).cells k'.1 k'.2).needsUpdate = _
    rw [cells_setCell]
    simp only [List.mem_singleton]
    split_ifs <;> rfl

lemma canWrite_iff (h : Rendered outcome s s' ks) :
    CanWrite outcome s' k ↔ CanWrite outcome s k := by
  rw [CanWrite, CanWrite, text_congr h.back]

lemma Rendered.refl (outcome : Outcome) (s : Screen) : Rendered outcome s s [] :=
  ⟨(List.append_nil _).symm, rfl, rfl, fun _ => rfl, fun _ => rfl, fun _ => rfl⟩

/-- The loops get through with the cells for which `write` does not fail. -/
lemma foldlM_of_canWrite (h : ∀ k ∈ ks, CanWrite outcome s k) :
    ∃ s', ks.foldlM (renderCell outcome) s = .ok s' ∧ Rendered outcome s s' ks := by
  induction ks generalizing s with
  | nil => exact ⟨s, rfl, Rendered.refl outcome s⟩
  | cons k ks ih =>
    have hk := rendered_renderCell outcome s k
    obtain ⟨s', hs', hks⟩ := ih fun k' hk' =>
      (canWrite_iff hk).mpr (h k' (List.mem_cons_of_mem k hk'))
    refine ⟨s', ?_, hk.trans hks⟩
    rw [List.foldlM_cons, renderCell_of_canWrite (h k List.mem_cons_self)]
    exact hs'

/-- They stop at the first cell for which it fails. -/
lemma foldlM_of_not_canWrite (h : ∀ k ∈ ks, CanWrite outcome s k)
    (hk : ¬ CanWrite outcome s k) :
    ∃ s', Rendered outcome s s' ks ∧ (ks ++ k :: ks').foldlM (renderCell outcome) s =
      .error (s'.wrote (placeWritten outcome s.backBuffer k)) := by
  obtain ⟨s', hs', hks⟩ := foldlM_of_canWrite h
  refine ⟨s', hks, ?_⟩
  rw [List.foldlM_append, hs']
  change ((k :: ks').foldlM (renderCell outcome) s') = _
  rw [List.foldlM_cons, renderCell_of_not_canWrite (mt (canWrite_iff hks).mp hk),
    hks.placeWritten_eq]
  rfl

/-- Either every cell can be written, or there is a first one that cannot. -/
lemma canWrite_or_exists (outcome : Outcome) (s : Screen) (ks : List (ℕ × ℕ)) :
    (∀ k ∈ ks, CanWrite outcome s k) ∨
      ∃ ks₁ k ks₂, ks = ks₁ ++ k :: ks₂ ∧ (∀ k ∈ ks₁, CanWrite outcome s k) ∧
        ¬ CanWrite outcome s k := by
  induction ks with
  | nil => exact .inl fun k hk => absurd hk List.not_mem_nil
  | cons k ks ih =>
    by_cases hk : CanWrite outcome s k
    · rcases ih with hall | ⟨ks₁, k', ks₂, rfl, hall, hk'⟩
      · exact .inl (List.forall_mem_cons.mpr ⟨hk, hall⟩)
      · exact .inr ⟨k :: ks₁, k', ks₂, rfl, List.forall_mem_cons.mpr ⟨hk, hall⟩, hk'⟩
    · exact .inr ⟨[], k, ks, rfl, fun k hk => absurd hk List.not_mem_nil, hk⟩

lemma mem_cellsOf {t : Terminal} {buffer : ScreenBuffer} (hrows : buffer.rows = t.rows)
    (hcols : buffer.cols = t.cols) : k ∈ cellsOf buffer ↔ t.Has k := by
  rw [cellsOf, hrows, hcols, Int.toNat_natCast, Int.toNat_natCast, ← Prod.eta k,
    List.mem_product, List.mem_range, List.mem_range]
  rfl

lemma pairwise_product {l l' : List ℕ} (h : l.Pairwise (· < ·)) (h' : l'.Pairwise (· < ·)) :
    (l ×ˢ l').Pairwise fun k k' => toLex k < toLex k' := by
  induction l with
  | nil => exact List.Pairwise.nil
  | cons i l ih =>
    obtain ⟨hi, hl⟩ := List.pairwise_cons.mp h
    rw [List.product_cons, List.pairwise_append, List.pairwise_map]
    have hrow (j j' : ℕ) (hlt : j < j') : toLex (i, j) < toLex (i, j') :=
      Prod.Lex.toLex_lt_toLex.mpr (.inr ⟨rfl, hlt⟩)
    refine ⟨h'.imp (hrow _ _), ih hl, ?_⟩
    intro k hk k' hk'
    obtain ⟨j, -, rfl⟩ := List.mem_map.mp hk
    exact Prod.Lex.toLex_lt_toLex.mpr (.inl (hi _ (List.mem_product.mp hk').1))

lemma pairwise_cellsOf (buffer : ScreenBuffer) :
    (cellsOf buffer).Pairwise fun k k' => toLex k < toLex k' :=
  pairwise_product List.pairwise_lt_range List.pairwise_lt_range

/-- The loops go through the cells row by row. -/
lemma mem_left_iff {buffer : ScreenBuffer} {k' : ℕ × ℕ} (h : cellsOf buffer = ks ++ k :: ks')
    (hk' : k' ∈ cellsOf buffer) : k' ∈ ks ↔ toLex k' < toLex k := by
  have hsorted := pairwise_cellsOf buffer
  rw [h, List.pairwise_append, List.pairwise_cons] at hsorted
  obtain ⟨-, ⟨hright, -⟩, hleft⟩ := hsorted
  refine ⟨fun hmem => hleft k' hmem k List.mem_cons_self, fun hlt => ?_⟩
  rw [h, List.mem_append, List.mem_cons] at hk'
  rcases hk' with hmem | rfl | hmem
  · exact hmem
  · exact absurd hlt (lt_irrefl _)
  · exact absurd (hright k' hmem) (lt_asymm hlt)

/-- What is written before the loops. -/
def begin (outcome : Outcome) (s : Screen) : Screen :=
  (s.print outcome .hideCursor).print outcome .home

/-- `render_screen` gets through with all cells if no `write` fails. -/
lemma renderScreen_of_canWrite (h : ∀ k ∈ cellsOf s.backBuffer, CanWrite outcome s k) :
    ∃ s₁, Rendered outcome (s.begin outcome) s₁ (cellsOf s.backBuffer) ∧
      renderScreen outcome s = .ok (s₁.print outcome .showCursor) := by
  obtain ⟨s₁, hs₁, hrendered⟩ :=
    @foldlM_of_canWrite outcome (s.begin outcome) (cellsOf s.backBuffer) h
  refine ⟨s₁, hrendered, ?_⟩
  change ((cellsOf s.backBuffer).foldlM (renderCell outcome) (s.begin outcome) >>= _) = _
  rw [hs₁]
  rfl

/-- It ends the program at the first cell for which `write` fails. -/
lemma renderScreen_of_not_canWrite (hcells : cellsOf s.backBuffer = ks ++ k :: ks')
    (h : ∀ k ∈ ks, CanWrite outcome s k) (hk : ¬ CanWrite outcome s k) :
    ∃ s₁, Rendered outcome (s.begin outcome) s₁ ks ∧
      renderScreen outcome s = .error (s₁.wrote (placeWritten outcome s.backBuffer k)) := by
  obtain ⟨s₁, hrendered, hs₁⟩ :=
    @foldlM_of_not_canWrite outcome (s.begin outcome) k ks ks' h hk
  refine ⟨s₁, hrendered, ?_⟩
  change ((cellsOf s.backBuffer).foldlM (renderCell outcome) (s.begin outcome) >>= _) = _
  rw [hcells, hs₁]
  rfl

end Loops

end Screen

/-! ### What the terminal shows -/

section Shows

variable [Kind] {t : Terminal} {outcome : Outcome} {s s' : Screen} {k : ℕ × ℕ}
  {ks ks' : List (ℕ × ℕ)}

namespace Screen

/-- What `render_screen` is to write before the loops ends whatever the terminal was reading. -/
lemma run_start (t : Terminal) (buffer : ScreenBuffer) :
    Painted (t.interrupt.setVisible false)
      (t.run (text buffer .hideCursor ++ text buffer .home)) [] := by
  have hhide : literal "\x1b[?25l" = hideCursor := by decide
  have hhome : literal "\x1b[H" = home := by decide
  have hmode : t.interrupt.mode = .ground := rfl
  have hrun : t.interrupt.run (hideCursor ++ home) = t.run (hideCursor ++ home) :=
    run_interrupt t _
  rw [text, text, hhide, hhome, ← hrun, run_append, run_hideCursor hmode,
    @run_home _ (t.interrupt.setVisible false) rfl]
  exact ⟨rfl, rfl, rfl, rfl, rfl⟩

/-- What the loops have written for cells that the terminal has is shown, if no call has written too
little. -/
lemma Rendered.painted (h : Rendered outcome (s.begin outcome) s' ks)
    (hks : ∀ k ∈ ks, t.Has k ∧ Drawable (s.backBuffer.lookAt k))
    (hstart : outcome.IsWhole s.backBuffer .hideCursor ∧ outcome.IsWhole s.backBuffer .home)
    (hwhole : ∀ k ∈ ks, ∀ call : Output, call.cell = some k →
      outcome.IsWhole s.backBuffer call) :
    ∃ bytes, s'.stdout = s.stdout ++ bytes ∧ Painted (t.interrupt.setVisible false) (t.run bytes)
      (ks.map fun k => (k, glyphOf (s.backBuffer.lookAt k))) := by
  have hbegin := run_start t s.backBuffer
  have hshown : ∀ k ∈ ks, (t.run (text s.backBuffer .hideCursor ++
      text s.backBuffer .home)).Has k ∧ Drawable (s.backBuffer.lookAt k) := fun k hk =>
    ⟨(hbegin.has_iff k).mpr ((interrupt_has_iff t k).mpr (hks k hk).1), (hks k hk).2⟩
  have hloops := painted_flatMap hbegin.mode hshown
  rw [← run_append] at hloops
  refine ⟨_, ?_, hbegin.trans hloops⟩
  have hcells : ks.flatMap (cellWritten outcome s.backBuffer) =
      ks.flatMap (cellText s.backBuffer) := by
    refine List.flatMap_congr fun k hk => ?_
    rw [cellWritten, placeWritten, (hwhole k hk _ rfl).written_eq, (hwhole k hk _ rfl).written_eq,
      (hwhole k hk _ rfl).written_eq, (hwhole k hk _ rfl).written_eq, cellText]
  have hstdout : (s.begin outcome).stdout =
      s.stdout ++ (text s.backBuffer .hideCursor ++ text s.backBuffer .home) := by
    rw [← hstart.1.written_eq, ← hstart.2.written_eq, ← List.append_assoc]
    rfl
  have hback : (s.begin outcome).backBuffer = s.backBuffer := rfl
  rw [h.stdout, hback, hcells, hstdout, List.append_assoc]

/-- A drawable symbol has a code word, so that `write` is called for it. -/
lemma canWrite_iff_of_drawable (h : Drawable (s.backBuffer.lookAt k)) :
    CanWrite outcome s k ↔ outcome (.symbol k) ≠ none := by
  have hne : text s.backBuffer (.symbol k) ≠ [] := by
    rw [text]
    rcases char32ToUtf8_cases h.1 with ⟨x, -, hx, -⟩ | ⟨x, -, y, -, hx, -⟩ |
      ⟨x, -, y, -, z, -, hx, -⟩ | ⟨x, -, y, -, z, -, w, -, hx, -⟩ <;>
    · change char32ToUtf8 (s.backBuffer.cells k.1 k.2).sym = _ at hx
      rw [hx]
      exact List.cons_ne_nil _ _
  exact or_iff_right hne

lemma run_showCursor_text (hmode : t.mode = .ground) (buffer : ScreenBuffer) :
    t.run (text buffer .showCursor) = t.setVisible true := by
  have hshow : literal "\x1b[?25h" = showCursor := by decide
  rw [text, hshow, run_showCursor hmode]

/-- When all has been written, the terminal shows all cells. -/
lemma shows_of_rendered (h : Rendered outcome (s.begin outcome) s' ks)
    (hmem : ∀ k, k ∈ ks ↔ t.Has k) (hdraw : ∀ k, t.Has k → Drawable (s.backBuffer.lookAt k))
    (hwhole : ∀ call : Output, (∀ k ∈ call.cell, t.Has k) → outcome.IsWhole s.backBuffer call) :
    ∃ bytes, (s'.print outcome .showCursor).stdout = s.stdout ++ bytes ∧
      (t.run bytes).mode = .ground ∧ (t.run bytes).isVisible = true ∧
      ∀ k, t.Has k → (t.run bytes).grid k = glyphOf (s.backBuffer.lookAt k) := by
  have hnone (call : Output) (hcall : call.cell = none) : outcome.IsWhole s.backBuffer call :=
    hwhole call fun k hk => nomatch hcall.symm.trans hk
  obtain ⟨bytes, hbytes, hpainted⟩ := h.painted
    (fun k hk => ⟨(hmem k).mp hk, hdraw k ((hmem k).mp hk)⟩) ⟨hnone _ rfl, hnone _ rfl⟩
    fun k hk call hcall => hwhole call fun k' hk' => by
      obtain rfl := Option.some.inj (hcall.symm.trans hk')
      exact (hmem k).mp hk
  have hshow : written outcome s'.backBuffer .showCursor = text s.backBuffer .showCursor :=
    (hnone .showCursor rfl).written_eq
  have hrun : t.run (bytes ++ text s.backBuffer .showCursor) = (t.run bytes).setVisible true := by
    rw [run_append, run_showCursor_text hpainted.mode]
  refine ⟨bytes ++ text s.backBuffer .showCursor, ?_, ?_, ?_, fun k hk => ?_⟩
  · rw [← List.append_assoc, ← hbytes, ← hshow]
    rfl
  · rw [hrun]
    exact hpainted.mode
  · rw [hrun]
    rfl
  · rw [hrun]
    change (t.run bytes).grid k = _
    rw [hpainted.grid, paint_map, if_pos ((hmem k).mpr hk)]

/-- When all has been written that comes in front of the symbol of a cell, the terminal shows the
cells in front of this one. -/
lemma shows_of_rendered_left (h : Rendered outcome (s.begin outcome) s' ks)
    (hmem : ∀ k', k' ∈ ks ↔ t.Has k' ∧ toLex k' < toLex k) (hk : t.Has k)
    (hdraw : ∀ k, t.Has k → Drawable (s.backBuffer.lookAt k))
    (hwhole : ∀ call : Output, (∀ k ∈ call.cell, t.Has k) → call.IsBefore k →
      outcome.IsWhole s.backBuffer call) :
    ∃ bytes, (s'.wrote (placeWritten outcome s.backBuffer k)).stdout = s.stdout ++ bytes ∧
      (t.run bytes).isVisible = false ∧ ∀ k', (t.run bytes).grid k' =
        if t.Has k' ∧ toLex k' < toLex k then glyphOf (s.backBuffer.lookAt k')
        else t.interrupt.grid k' := by
  have hat (call : Output) (hcall : call.cell = some k) (hbefore : call.IsBefore k) :
      outcome.IsWhole s.backBuffer call :=
    hwhole call (fun k' hk' => Option.some.inj (hcall.symm.trans hk') ▸ hk) hbefore
  have hleft (k' : ℕ × ℕ) (hk' : k' ∈ ks) (call : Output) (hcall : call.cell = some k') :
      outcome.IsWhole s.backBuffer call := by
    obtain ⟨hhas, hlt⟩ := (hmem k').mp hk'
    refine hwhole call (fun k'' hk'' => Option.some.inj (hcall.symm.trans hk'') ▸ hhas) ?_
    cases call with
    | hideCursor | home | showCursor => cases hcall
    | cursor | fgColor | bgColor =>
      obtain rfl := Option.some.inj hcall
      exact hlt.le
    | symbol =>
      obtain rfl := Option.some.inj hcall
      exact hlt
  obtain ⟨bytes, hbytes, hpainted⟩ := h.painted
    (fun k' hk' => ⟨((hmem k').mp hk').1, hdraw k' ((hmem k').mp hk').1⟩)
    ⟨hwhole _ (fun k hk => nomatch hk) trivial, hwhole _ (fun k hk => nomatch hk) trivial⟩ hleft
  have htotal := hpainted.trans (painted_placeText (hdraw k hk) hpainted.mode)
  rw [← run_append, List.append_nil] at htotal
  have hwritten : placeWritten outcome s.backBuffer k = text s.backBuffer (.cursor k) ++
      text s.backBuffer (.fgColor k) ++ text s.backBuffer (.bgColor k) := by
    rw [placeWritten, (hat (.cursor k) rfl le_rfl).written_eq,
      (hat (.fgColor k) rfl le_rfl).written_eq, (hat (.bgColor k) rfl le_rfl).written_eq]
  refine ⟨_, ?_, htotal.isVisible, fun k' => ?_⟩
  · rw [← List.append_assoc, ← hbytes, ← hwritten]
    rfl
  · rw [htotal.grid, paint_map]
    by_cases hleft' : k' ∈ ks
    · rw [if_pos hleft', if_pos ((hmem k').mp hleft')]
    · rw [if_neg hleft', if_neg (mt (hmem k').mpr hleft')]
      rfl

end Screen

/-- `render_screen` ends the program at the first cell for which `write` fails, and goes on after
any other outcome of the calls; then the front buffer is taken to be shown. If every call that is
made has written all of its bytes, the terminal shows the back buffer, whatever it was reading
before; up to a failing `write` it shows the cells in front of the one for which it fails, with the
cursor hidden. -/
theorem renderScreen_shows (outcome : Outcome) (hrows : s.backBuffer.rows = t.rows)
    (hcols : s.backBuffer.cols = t.cols)
    (hdraw : ∀ k, t.Has k → Drawable (s.backBuffer.lookAt k)) :
    match s.renderScreen outcome with
    | .ok s' => (∀ k, t.Has k → outcome (.symbol k) ≠ none ∧
          s'.frontBuffer.lookAt k = s.backBuffer.lookAt k ∧
          s'.backBuffer.lookAt k = s.backBuffer.lookAt k ∧
          (s'.backBuffer.cells k.1 k.2).needsUpdate = false) ∧
        ((∀ call : Output, (∀ k ∈ call.cell, t.Has k) →
            outcome.IsWhole s.backBuffer call) →
          ∃ bytes, s'.stdout = s.stdout ++ bytes ∧
            (t.run bytes).mode = .ground ∧ (t.run bytes).isVisible = true ∧
            ∀ k, t.Has k → (t.run bytes).grid k = glyphOf (s.backBuffer.lookAt k))
    | .error s' => ∃ k, t.Has k ∧ outcome (.symbol k) = none ∧
        (∀ k', t.Has k' → toLex k' < toLex k → outcome (.symbol k') ≠ none) ∧
        ((∀ call : Output, (∀ k ∈ call.cell, t.Has k) → call.IsBefore k →
            outcome.IsWhole s.backBuffer call) →
          ∃ bytes, s'.stdout = s.stdout ++ bytes ∧ (t.run bytes).isVisible = false ∧
            ∀ k', (t.run bytes).grid k' =
              if t.Has k' ∧ toLex k' < toLex k then glyphOf (s.backBuffer.lookAt k')
              else t.interrupt.grid k') := by
  have hmem (k : ℕ × ℕ) : k ∈ Screen.cellsOf s.backBuffer ↔ t.Has k :=
    Screen.mem_cellsOf hrows hcols
  have hwrites (k : ℕ × ℕ) (hk : t.Has k) :
      Screen.CanWrite outcome s k ↔ outcome (.symbol k) ≠ none :=
    Screen.canWrite_iff_of_drawable (hdraw k hk)
  rcases Screen.canWrite_or_exists outcome s (Screen.cellsOf s.backBuffer) with
    hall | ⟨ks₁, k, ks₂, hcells, hall, hk⟩
  · obtain ⟨s₁, hrendered, hok⟩ := Screen.renderScreen_of_canWrite hall
    rw [hok]
    refine ⟨fun k hk => ?_, Screen.shows_of_rendered hrendered hmem hdraw⟩
    have hcell := (hmem k).mpr hk
    exact ⟨(hwrites k hk).mp (hall k hcell), (hrendered.front k).trans (if_pos hcell),
      hrendered.back k, (hrendered.needsUpdate k).trans (if_pos hcell)⟩
  · have hin (k' : ℕ × ℕ) (hk' : k' ∈ ks₁ ++ k :: ks₂) : t.Has k' := by
      rwa [← hcells, hmem] at hk'
    have hlast := hin k (List.mem_append_right _ List.mem_cons_self)
    have hiff (k' : ℕ × ℕ) : k' ∈ ks₁ ↔ t.Has k' ∧ toLex k' < toLex k := by
      refine ⟨fun h => ?_, fun h => (Screen.mem_left_iff hcells ((hmem k').mpr h.1)).mpr h.2⟩
      have hhas := hin k' (List.mem_append_left _ h)
      exact ⟨hhas, (Screen.mem_left_iff hcells ((hmem k').mpr hhas)).mp h⟩
    obtain ⟨s₁, hrendered, herror⟩ := Screen.renderScreen_of_not_canWrite hcells hall hk
    rw [herror]
    refine ⟨k, hlast, not_not.mp (mt (hwrites k hlast).mpr hk), fun k' hk' hlt => ?_,
      Screen.shows_of_rendered_left hrendered hiff hlast hdraw⟩
    exact (hwrites k' hk').mp (hall k' ((hiff k').mpr ⟨hk', hlt⟩))

end Shows

/-- A kind of terminals on which the Latin, Greek and Cyrillic letters and the symbols of frames
take one cell, and which leaves other characters out. -/
@[reducible] def latinKind : Kind where
  isNarrow c := decide (IsPrintable c ∧ (c < 0x300 ∨ 0x370 ≤ c ∧ c < 0x483 ∨
    0x2010 ≤ c ∧ c < 0x2028 ∨ 0x2300 ≤ c ∧ c < 0x231A ∨ 0x232A < c ∧ c < 0x23E9 ∨
    0x2500 ≤ c ∧ c < 0x25FD))
  isPrintable h := (of_decide_eq_true h).1
  isNarrow_ascii hlo hhi := by
    rw [decide_eq_true_iff, IsPrintable]
    omega
  other t _ := t
  rows_other _ _ := rfl
  cols_other _ _ := rfl

/-- Two cells, of which the second one has a letter of two bytes. -/
theorem renderScreen_shows_two_cells :
    let _ : Kind := latinKind
    let buffer : ScreenBuffer :=
      ⟨1, 2, fun _ j => if j = 0 then ⟨0x41, 32, 40, true⟩ else ⟨0x416, 97, 42, true⟩⟩
    let t : Terminal := ⟨1, 2, fun _ => ⟨0x58, 39, 49⟩, 0, 1, true, 39, 49, true, .ground⟩
    ∃ s', Screen.renderScreen (fun _ => some 16) ⟨buffer, buffer, [], rfl, rfl⟩ = .ok s' ∧
      (t.run s'.stdout).isVisible = true ∧ (t.run s'.stdout).grid (0, 0) = ⟨0x41, 32, 40⟩ ∧
      (t.run s'.stdout).grid (0, 1) = ⟨0x416, 97, 42⟩ := by
  intro _ buffer t
  have hdraw (k : ℕ × ℕ) (_ : t.Has k) : Drawable (buffer.lookAt k) := by
    simp only [ScreenBuffer.lookAt, ScreenBuffer.look, buffer]
    split_ifs <;> decide
  have hshows := @renderScreen_shows latinKind t ⟨buffer, buffer, [], rfl, rfl⟩
    (fun _ => some 16) rfl rfl hdraw
  cases hrender : Screen.renderScreen (fun _ => some 16) ⟨buffer, buffer, [], rfl, rfl⟩ with
  | error s' =>
    rw [hrender] at hshows
    obtain ⟨_, _, houtcome, _⟩ := hshows
    cases houtcome
  | ok s' =>
    rw [hrender] at hshows
    have hcells (k : ℕ × ℕ) (hk : t.Has k) : k = (0, 0) ∨ k = (0, 1) := by
      obtain ⟨hrow, hcol⟩ : k.1 < 1 ∧ k.2 < 2 := hk
      rw [Prod.ext_iff, Prod.ext_iff]
      omega
    have hwhole (call : Output) (hcall : ∀ k ∈ call.cell, t.Has k) :
        Outcome.IsWhole (fun _ => some 16) buffer call := by
      refine ⟨16, rfl, ?_⟩
      cases call with
      | hideCursor | home | showCursor => decide
      | cursor k | fgColor k | bgColor k | symbol k =>
        obtain hk | hk := hcells k (hcall k rfl) <;> rw [hk] <;> decide
    obtain ⟨bytes, hbytes, -, hvisible, hgrid⟩ := hshows.2 hwhole
    obtain rfl : s'.stdout = bytes := hbytes
    exact ⟨s', rfl, hvisible, hgrid (0, 0) (by decide), hgrid (0, 1) (by decide)⟩

end Vjft.Term
