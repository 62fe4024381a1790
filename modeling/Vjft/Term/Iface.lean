import Vjft.Term.Decode

/-!
# Text in a window (`term/iface.c`)

`calc_display_size` measures a text and `display_wrapped` draws it, each with a loop of its own over
the characters. Every round looks at one character; a round in which the pen is outside of the back
buffer does nothing.
-/

namespace Vjft.Term

open InMemory (utf8Decode)

/-- `char32_t` -/
abbrev Sym := UInt32

/-! ### Measuring -/

/-- The variables of the loop of `calc_display_size`. -/
structure Measure where
  bytePos : ℕ
  curRow : ℤ
  curCol : ℤ
  maxCol : ℤ
  /-- `*cursor_row` and `*cursor_col`, when they are set. -/
  cursor : Option (ℤ × ℤ)

structure DisplaySize where
  needCols : ℤ
  needRows : ℤ
  /-- `*cursor_row` and `*cursor_col`, when they are set. -/
  cursor : Option (ℤ × ℤ)

/-- The code point that the loops work with; it stays 0 when `utf8_decode` fails. -/
def codepointAt (text : Bytes) (pos len : ℕ) : Except Stop Sym := do
  let decoded ← utf8Decode text pos len
  pure ((decoded.map Prod.snd).getD 0)

/-- A round of the loop up to the test for the terminator. -/
def Measure.measure (maxWidth cursorPos : ℤ) (curPos : ℕ) (codepoint : Sym) (m : Measure) :
    Measure :=
  let cursor := if (curPos : ℤ) = cursorPos then some (m.curRow, m.curCol) else m.cursor
  let curCol := m.curCol + 1
  let maxCol := if curCol > m.maxCol then curCol else m.maxCol
  if codepoint = 0x0A ∨ curCol ≥ maxWidth then
    { m with cursor, maxCol, curCol := 0, curRow := m.curRow + 1 }
  else { m with cursor, maxCol, curCol }

def calcDisplaySize (text : Bytes) (maxWidth cursorPos : ℤ) : Except Stop DisplaySize := do
  let length ← InMemory.utf8Strlen text
  let m ← loop (length + 1) 0 ⟨0, 1, 0, 0, none⟩
  let maxCol := if m.curCol > m.maxCol then m.curCol else m.maxCol
  pure ⟨maxCol, m.curRow, m.cursor⟩
where
  loop : ℕ → ℕ → Measure → Except Stop Measure
  | 0, _, m => pure m
  | n + 1, curPos, m => do
    let byte ← readByte text m.bytePos
    let charLen := utf8CharLength byte
    let codepoint ← codepointAt text m.bytePos charLen
    let m := m.measure maxWidth cursorPos curPos codepoint
    if codepoint = 0 then pure { m with curCol := m.curCol + 1 }
    else loop n (curPos + 1) { m with bytePos := m.bytePos + charLen }

/-! ### The back buffer -/

structure Cell where
  sym : Sym
  fgColor : ℤ
  bgColor : ℤ
  needsUpdate : Bool
  deriving DecidableEq

structure ScreenBuffer where
  rows : ℤ
  cols : ℤ
  cells : ℤ → ℤ → Cell

/-- `row` and `col` are those of a cell. -/
def ScreenBuffer.Contains (buffer : ScreenBuffer) (row col : ℤ) : Prop :=
  0 ≤ row ∧ row < buffer.rows ∧ 0 ≤ col ∧ col < buffer.cols

instance (buffer : ScreenBuffer) (row col : ℤ) : Decidable (buffer.Contains row col) :=
  inferInstanceAs (Decidable (_ ∧ _))

def bufferedPutchar (buffer : ScreenBuffer) (row col : ℤ) (sym : Sym) (fgColor bgColor : ℤ) :
    ScreenBuffer :=
  if buffer.Contains row col then
    let cell := buffer.cells row col
    if cell.sym ≠ sym ∨ cell.fgColor ≠ fgColor ∨ cell.bgColor ≠ bgColor then
      { buffer with cells := fun i j =>
          if i = row ∧ j = col then ⟨sym, fgColor, bgColor, true⟩ else buffer.cells i j }
    else buffer
  else buffer

def filler : Sym := 0x20

/-- `U'⍿'` -/
def endOfText : Sym := 0x237F

def defaultFgColor : ℤ := 32
def defaultBgColor : ℤ := 40
def highlightFgColor : ℤ := 92
def highlightBgColor : ℤ := 100
def brightWhiteFgColor : ℤ := 97
def greenBgColor : ℤ := 42

/-! ### Drawing -/

/-- The arguments of `display_wrapped` other than the text. -/
structure Window where
  absX : ℤ
  absY : ℤ
  relMaxWidth : ℤ
  relMaxRows : ℤ
  fromRow : ℤ
  cursorPos : ℤ
  markerPos : ℤ

/-- The three places in `display_wrapped` that call `buffered_putchar`. -/
inductive Site
  | character
  | endOfText
  | filler
  deriving DecidableEq

/-- A call of `buffered_putchar`. -/
structure Putchar where
  site : Site
  row : ℤ
  col : ℤ
  sym : Sym
  fgColor : ℤ
  bgColor : ℤ
  deriving DecidableEq

/-- Where a character is handled. -/
structure Handled where
  curPos : ℕ
  relRow : ℤ
  relCol : ℤ
  deriving DecidableEq

/-- The variables of `display_wrapped`, and beside them a record of what it did. -/
structure Pen where
  bytePos : ℕ
  relRow : ℤ
  relCol : ℤ
  scrRow : ℤ
  scrCol : ℤ
  backBuffer : ScreenBuffer
  /-- The calls of `buffered_putchar`, in their order. -/
  calls : List Putchar
  /-- The characters that were handled, in their order. -/
  handled : List Handled

namespace Pen

/-- The variables before the loop. -/
def start (backBuffer : ScreenBuffer) : Pen := ⟨0, 0, 0, 0, 0, backBuffer, [], []⟩

def putchar (s : Pen) (site : Site) (sym : Sym) (fgColor bgColor : ℤ) : Pen :=
  { s with
    backBuffer := bufferedPutchar s.backBuffer s.scrRow s.scrCol sym fgColor bgColor
    calls := s.calls ++ [⟨site, s.scrRow, s.scrCol, sym, fgColor, bgColor⟩] }

variable (win : Window)

/-- `is_not_skipped_row` -/
def IsNotSkippedRow (s : Pen) : Prop := s.relRow > win.fromRow

instance (s : Pen) : Decidable (s.IsNotSkippedRow win) := inferInstanceAs (Decidable (_ < _))

/-- `while (rel_col <= rel_max_width)` makes a round for each column that is left. -/
def fullfiller (s : Pen) : Pen :=
  if s.IsNotSkippedRow win then loop (win.relMaxWidth + 1 - s.relCol).toNat s else s
where
  loop : ℕ → Pen → Pen
  | 0, s => s
  | n + 1, s =>
    let s := s.putchar .filler Term.filler defaultFgColor defaultBgColor
    loop n { s with relCol := s.relCol + 1 }

def incRelRow (s : Pen) : Pen :=
  let s := { s with relCol := 0, relRow := s.relRow + 1 }
  if s.IsNotSkippedRow win then
    { s with scrCol := win.absX, scrRow := win.absY + s.relRow - win.fromRow }
  else s

end Pen

/-- The colours of the character at `curPos`. -/
def Window.colors (win : Window) (curPos : ℕ) : ℤ × ℤ :=
  let selStart := min win.cursorPos win.markerPos
  let selEnd := max win.cursorPos win.markerPos
  if (curPos : ℤ) = win.cursorPos then (brightWhiteFgColor, greenBgColor)
  else if win.markerPos ≠ -1 ∧ selStart ≤ curPos ∧ (curPos : ℤ) < selEnd then
    (highlightFgColor, highlightBgColor)
  else (defaultFgColor, defaultBgColor)

namespace Pen

variable (win : Window)

/-- Both calls that draw a symbol of the text draw it on a row that is not skipped, and move on. -/
def drawSym (site : Site) (sym : Sym) (colors : ℤ × ℤ) (s : Pen) : Pen :=
  if s.IsNotSkippedRow win then
    { s.putchar site sym colors.1 colors.2 with scrCol := s.scrCol + 1 }
  else s

/-- The character, after the wrap test; `true` stands for `break`. -/
def draw (curPos : ℕ) (codepoint : Sym) (s : Pen) : Pen × Bool :=
  if codepoint = 0x0A then ((s.fullfiller win).incRelRow win, false)
  else if codepoint = 0 then (s.drawSym win .endOfText endOfText (win.colors curPos), true)
  else
    ({ s.drawSym win .character codepoint (win.colors curPos) with relCol := s.relCol + 1 }, false)

/-- The wrap test. -/
def wrap (s : Pen) : Pen := if s.relCol ≥ win.relMaxWidth then s.incRelRow win else s

/-- A round of the loop, with the pen in the back buffer. -/
def handle (curPos : ℕ) (codepoint : Sym) (s : Pen) : Pen × Bool :=
  let s := s.wrap win
  if s.relRow > win.relMaxRows + win.fromRow then (s, true)
  else
    let s : Pen := { s with handled := s.handled ++ [⟨curPos, s.relRow, s.relCol⟩] }
    s.draw win curPos codepoint

end Pen

def displayWrapped (buffer : ScreenBuffer) (text : Bytes) (win : Window) : Except Stop Pen := do
  let length ← InMemory.utf8Strlen text
  let s ← loop (length + 1) 0 ((Pen.start buffer).incRelRow win)
  pure (if s.relCol ≠ 0 then s.fullfiller win else s)
where
  loop : ℕ → ℕ → Pen → Except Stop Pen
  | 0, _, s => pure s
  | n + 1, curPos, s => do
    let byte ← readByte text s.bytePos
    let charLen := utf8CharLength byte
    let codepoint ← codepointAt text s.bytePos charLen
    if s.backBuffer.Contains s.scrRow s.scrCol then
      match s.handle win curPos codepoint with
      | (s, true) => pure s
      | (s, false) => loop n (curPos + 1) { s with bytePos := s.bytePos + charLen }
    else loop n (curPos + 1) s

/-! ### A round of the loops -/

lemma exists_codepointAt_eq {str : CStr} {pos len : ℕ} (hlen : pos + len ≤ str.length + 1) :
    ∃ codepoint, codepointAt str.toMemory pos len = .ok codepoint := by
  obtain ⟨decoded, hdecoded⟩ := InMemory.exists_utf8Decode_eq hlen
  refine ⟨(decoded.map Prod.snd).getD 0, ?_⟩
  rw [codepointAt, hdecoded]
  rfl

lemma codepointAt_of_byteAt_eq_zero {str : CStr} {pos : ℕ} (hpos : pos ≤ str.length)
    (hb : byteAt str pos = 0) : codepointAt str.toMemory pos (utf8CharLength 0) = .ok 0 := by
  rw [codepointAt, show utf8CharLength 0 = 1 from rfl,
    InMemory.utf8Decode_of_byteAt_eq_zero hpos hb]
  rfl

lemma codepointAt_encode {cs : List CodePoint} {i : ℕ} (h : i < cs.length) :
    codepointAt (CStr.toMemory (utf8.encode cs)) (utf8.offset cs i)
        (utf8CharLength (byteAt (utf8.encode cs) (utf8.offset cs i))) = .ok cs[i].val := by
  rw [codepointAt, InMemory.utf8Decode_encode h]
  rfl

/-- What a round of a loop reads at a character. -/
lemma reads_char {cs : List CodePoint} {i pos : ℕ} (hpos : pos = utf8.offset cs i)
    (h : i < cs.length) :
    readByte (CStr.toMemory (utf8.encode cs)) pos = .ok (byteAt (utf8.encode cs) pos) ∧
      codepointAt (CStr.toMemory (utf8.encode cs)) pos
        (utf8CharLength (byteAt (utf8.encode cs) pos)) = .ok cs[i].val := by
  rw [hpos]
  exact ⟨InMemory.readByte_toMemory (utf8.offset_le cs i), codepointAt_encode h⟩

/-- What a round of a loop reads at the terminator. -/
lemma reads_end {cs : List CodePoint} {pos : ℕ} (hpos : pos = utf8.offset cs cs.length) :
    readByte (CStr.toMemory (utf8.encode cs)) pos = .ok 0 ∧
      codepointAt (CStr.toMemory (utf8.encode cs)) pos (utf8CharLength 0) = .ok 0 := by
  have hb := byteAt_offset_eq_zero (le_refl cs.length)
  have hle := utf8.offset_le cs cs.length
  rw [hpos]
  refine ⟨?_, codepointAt_of_byteAt_eq_zero hle hb⟩
  rw [InMemory.readByte_toMemory hle, hb]

@[simp] lemma bytePos_measure (maxWidth cursorPos : ℤ) (curPos : ℕ) (codepoint : Sym)
    (m : Measure) : (m.measure maxWidth cursorPos curPos codepoint).bytePos = m.bytePos := by
  rw [Measure.measure]
  split_ifs <;> rfl

lemma calcDisplaySize.loop_succ {text : Bytes} {maxWidth cursorPos : ℤ} {n curPos : ℕ} {m : Measure}
    {byte : UInt8} {codepoint : Sym} (hbyte : readByte text m.bytePos = .ok byte)
    (hcode : codepointAt text m.bytePos (utf8CharLength byte) = .ok codepoint) :
    loop text maxWidth cursorPos (n + 1) curPos m =
      if codepoint = 0 then
        .ok { m.measure maxWidth cursorPos curPos codepoint with
          curCol := (m.measure maxWidth cursorPos curPos codepoint).curCol + 1 }
      else
        loop text maxWidth cursorPos n (curPos + 1)
          { m.measure maxWidth cursorPos curPos codepoint with
            bytePos := m.bytePos + utf8CharLength byte } := by
  simp only [loop, hbyte, ok_bind, hcode, bytePos_measure]
  rfl

end Vjft.Term
