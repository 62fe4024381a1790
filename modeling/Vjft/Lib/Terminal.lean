import Vjft.Lib.Painting
import Mathlib.Data.Nat.Basic
import Mathlib.Order.Basic

/-!
# A terminal

A terminal reads bytes. Characters in UTF-8 are shown at the cursor, which moves on; control
sequences move the cursor, choose colours, and hide or show the cursor. Which characters take one
cell, and what becomes of the others, is left to the kind of the terminal.
-/

/-- A character in a cell, and its colours under their numbers in `SGR`. -/
structure Glyph where
  sym : ℕ
  fg : ℕ
  bg : ℕ
  deriving DecidableEq

/-- What a terminal is in the middle of reading. -/
inductive Terminal.Mode
  | ground
  /-- A character: the number of bytes that are still to come, and the bits so far. -/
  | utf8 (rest acc : ℕ)
  | escape
  /-- A control sequence: whether it is a private one, the parameters that are complete, and the
  one that is being read. -/
  | csi (isPrivate : Bool) (params : List ℕ) (num : ℕ)
  deriving DecidableEq

structure Terminal where
  rows : ℕ
  cols : ℕ
  grid : ℕ × ℕ → Glyph
  row : ℕ
  col : ℕ
  /-- A character was put into the last column; the next one goes to the next row. -/
  wrapNext : Bool
  fg : ℕ
  bg : ℕ
  isVisible : Bool
  mode : Terminal.Mode

namespace Terminal

open Painting

/-- Neither a control character nor a surrogate. -/
def IsPrintable (c : ℕ) : Prop :=
  0x20 ≤ c ∧ ¬ (0x7F ≤ c ∧ c < 0xA0) ∧ ¬ (0xD800 ≤ c ∧ c < 0xE000)

instance (c : ℕ) : Decidable (IsPrintable c) := inferInstanceAs (Decidable (_ ∧ _))

/-- Where terminals differ: some characters, the ones of ASCII among them, take one cell and are
shown there as they are. What a terminal does with any other one (a control character, one that
takes two cells, one that is put on the cell in front of it) is its own affair, except that its
size stays. -/
class Kind where
  isNarrow : ℕ → Bool
  isPrintable : ∀ {c}, isNarrow c = true → IsPrintable c
  isNarrow_ascii : ∀ {c}, 0x20 ≤ c → c < 0x7F → isNarrow c = true
  other : Terminal → ℕ → Terminal
  rows_other : ∀ t c, (other t c).rows = t.rows
  cols_other : ∀ t c, (other t c).cols = t.cols

/-- A place of the grid. -/
def Has (t : Terminal) (k : ℕ × ℕ) : Prop := k.1 < t.rows ∧ k.2 < t.cols

instance (t : Terminal) : DecidablePred t.Has := fun _ => inferInstanceAs (Decidable (_ ∧ _))

/-! ### What it can do -/

def blank (t : Terminal) : Glyph := ⟨0x20, t.fg, t.bg⟩

/-- Rows and columns are counted from 1 on, and 0 stands for 1. -/
def moveTo (t : Terminal) (r c : ℕ) : Terminal :=
  { t with
    row := min (r - 1) (t.rows - 1)
    col := min (c - 1) (t.cols - 1)
    wrapNext := false }

/-- Below the last row the grid scrolls. -/
def lineFeed (t : Terminal) : Terminal :=
  if t.row + 1 < t.rows then { t with row := t.row + 1 }
  else { t with grid := fun k => if k.1 + 1 < t.rows then t.grid (k.1 + 1, k.2) else t.blank }

def put (t : Terminal) (sym : ℕ) : Terminal :=
  let t := if t.wrapNext then { t.lineFeed with col := 0, wrapNext := false } else t
  let t := { t with grid := Function.update t.grid (t.row, t.col) ⟨sym, t.fg, t.bg⟩ }
  if t.col + 1 < t.cols then { t with col := t.col + 1 } else { t with wrapNext := true }

def character [Kind] (t : Terminal) (c : ℕ) : Terminal :=
  if Kind.isNarrow c then t.put c else Kind.other t c

/-- The numbers that stand for a colour of the characters. -/
def IsFg (n : ℕ) : Prop := 30 ≤ n ∧ n < 38 ∨ n = 39 ∨ 90 ≤ n ∧ n < 98

/-- The numbers that stand for a colour behind the characters. -/
def IsBg (n : ℕ) : Prop := 40 ≤ n ∧ n < 48 ∨ n = 49 ∨ 100 ≤ n ∧ n < 108

instance (n : ℕ) : Decidable (IsFg n) := inferInstanceAs (Decidable (_ ∨ _))
instance (n : ℕ) : Decidable (IsBg n) := inferInstanceAs (Decidable (_ ∨ _))

def sgr (t : Terminal) (n : ℕ) : Terminal :=
  if n = 0 then { t with fg := 39, bg := 49 }
  else if IsFg n then { t with fg := n }
  else if IsBg n then { t with bg := n }
  else t

def setVisible (t : Terminal) (isVisible : Bool) : Terminal := { t with isVisible }

/-- A control sequence, by its last byte. -/
def dispatch (t : Terminal) (isPrivate : Bool) (params : List ℕ) (final : UInt8) : Terminal :=
  if isPrivate then
    if params = [25] ∧ final = 0x68 then t.setVisible true
    else if params = [25] ∧ final = 0x6C then t.setVisible false
    else t
  else if final = 0x48 then t.moveTo (params.getD 0 1) (params.getD 1 1)
  else if final = 0x6D then params.foldl sgr t
  else t

lemma sgr_of_isFg (t : Terminal) {fg : ℕ} (h : IsFg fg) : t.sgr fg = { t with fg } := by
  rw [sgr, if_neg, if_pos h]
  rintro rfl
  exact absurd h (by decide)

lemma sgr_of_isBg (t : Terminal) {bg : ℕ} (h : IsBg bg) : t.sgr bg = { t with bg } := by
  have hfg : ¬ IsFg bg := by
    rw [IsBg] at h
    rw [IsFg]
    omega
  rw [sgr, if_neg, if_neg hfg, if_pos h]
  rintro rfl
  exact absurd h (by decide)

/-- A terminal between two characters, after some strokes. -/
structure Painted (t t' : Terminal) (strokes : List ((ℕ × ℕ) × Glyph)) : Prop where
  rows : t'.rows = t.rows
  cols : t'.cols = t.cols
  isVisible : t'.isVisible = t.isVisible
  mode : t'.mode = .ground
  grid : t'.grid = paint t.grid strokes

namespace Painted

variable {t t' t'' : Terminal} {strokes strokes' : List ((ℕ × ℕ) × Glyph)}

lemma refl (hmode : t.mode = .ground) : Painted t t [] := ⟨rfl, rfl, rfl, hmode, rfl⟩

lemma trans (h : Painted t t' strokes) (h' : Painted t' t'' strokes') :
    Painted t t'' (strokes ++ strokes') where
  rows := h'.rows.trans h.rows
  cols := h'.cols.trans h.cols
  isVisible := h'.isVisible.trans h.isVisible
  mode := h'.mode
  grid := by rw [h'.grid, h.grid, paint_append]

lemma has_iff (h : Painted t t' strokes) (k : ℕ × ℕ) : t'.Has k ↔ t.Has k := by
  rw [Has, Has, h.rows, h.cols]

end Painted

/-! ### Numbers and bytes -/

/-- The digits of a number, as bytes. -/
def decimal (n : ℕ) : List UInt8 := (Nat.toDigits 10 n).map fun c => UInt8.ofNat c.toNat

lemma decimal_of_lt {n : ℕ} (h : n < 10) : decimal n = [UInt8.ofNat (n + 0x30)] := by
  have hdigit : ∀ n < 10, UInt8.ofNat n.digitChar.toNat = UInt8.ofNat (n + 0x30) := by decide
  rw [decimal, Nat.toDigits_of_lt_base h, List.map_singleton, hdigit n h]

lemma decimal_append {n : ℕ} (hn : 0 < n) {d : ℕ} (hd : d < 10) :
    decimal (10 * n + d) = decimal n ++ [UInt8.ofNat (d + 0x30)] := by
  rw [← decimal_of_lt hd, decimal, ← Nat.toDigits_append_toDigits (by decide) hn hd,
    List.map_append]
  rfl

lemma toNat_ofNat_add {y : ℕ} (hy : y < 0x40) : (UInt8.ofNat (y + 0x80)).toNat = y + 0x80 :=
  UInt8.toNat_ofNat_of_lt' (lt_of_lt_of_le (Nat.add_lt_add_right hy 0x80) (by decide))

lemma isContinuation_ofNat {y : ℕ} (hy : y < 0x40) :
    0x80 ≤ UInt8.ofNat (y + 0x80) ∧ UInt8.ofNat (y + 0x80) < 0xC0 := by
  rw [UInt8.le_iff_toNat_le, UInt8.lt_iff_toNat_lt, toNat_ofNat_add hy]
  exact ⟨Nat.le_add_left 0x80 y, Nat.add_lt_add_right hy 0x80⟩

/-! ### Reading bytes -/

section Read

variable [Kind]

/-- A byte that is no character is shown as U+FFFD. -/
def readGround (t : Terminal) (b : UInt8) : Terminal :=
  if b = 0x1B then { t with mode := .escape }
  else if b < 0x80 then t.character b.toNat
  else if b < 0xC0 then t.character 0xFFFD
  else if b < 0xE0 then { t with mode := .utf8 0 (b.toNat - 0xC0) }
  else if b < 0xF0 then { t with mode := .utf8 1 (b.toNat - 0xE0) }
  else if b < 0xF8 then { t with mode := .utf8 2 (b.toNat - 0xF0) }
  else t.character 0xFFFD

/-- `ESC` starts a control sequence anew, also in the middle of something. -/
def step (t : Terminal) (b : UInt8) : Terminal :=
  match t.mode with
  | .ground => t.readGround b
  | .utf8 rest acc =>
    if 0x80 ≤ b ∧ b < 0xC0 then
      let acc := acc * 64 + (b.toNat - 0x80)
      match rest with
      | 0 => { t with mode := .ground }.character acc
      | rest + 1 => { t with mode := .utf8 rest acc }
    else ({ t with mode := .ground }.character 0xFFFD).readGround b
  | .escape =>
    if b = 0x5B then { t with mode := .csi false [] 0 }
    else if b = 0x1B then { t with mode := .escape }
    else { t with mode := .ground }
  | .csi isPrivate params num =>
    if 0x30 ≤ b ∧ b < 0x3A then
      { t with mode := .csi isPrivate params (num * 10 + (b.toNat - 0x30)) }
    else if b = 0x3B then { t with mode := .csi isPrivate (params ++ [num]) 0 }
    else if b = 0x3F then { t with mode := .csi true params num }
    else if 0x40 ≤ b ∧ b < 0x7F then
      { t with mode := .ground }.dispatch isPrivate (params ++ [num]) b
    else if b = 0x1B then { t with mode := .escape }
    else { t with mode := .ground }

def run (t : Terminal) (bytes : List UInt8) : Terminal := bytes.foldl step t

/-- What is left of a terminal that is interrupted by `ESC`. -/
def interrupt (t : Terminal) : Terminal := { t.step 0x1B with mode := .ground }

end Read

variable [Kind] {t : Terminal}

@[simp] lemma run_nil (t : Terminal) : t.run [] = t := rfl

@[simp] lemma run_cons (t : Terminal) (b : UInt8) (bytes : List UInt8) :
    t.run (b :: bytes) = (t.step b).run bytes := rfl

lemma run_append (t : Terminal) (bytes bytes' : List UInt8) :
    t.run (bytes ++ bytes') = (t.run bytes).run bytes' := List.foldl_append

/-! ### Control sequences -/

/-- `ESC [ r ; c H` -/
def cursorPosition (r c : ℕ) : List UInt8 :=
  [0x1B, 0x5B] ++ decimal r ++ [0x3B] ++ decimal c ++ [0x48]

/-- `ESC [ n m` -/
def selectRendition (n : ℕ) : List UInt8 := [0x1B, 0x5B] ++ decimal n ++ [0x6D]

lemma step_digit {isPrivate : Bool} {params : List ℕ} {num d : ℕ}
    (hmode : t.mode = .csi isPrivate params num) (hd : d < 10) :
    t.step (UInt8.ofNat (d + 0x30)) = { t with mode := .csi isPrivate params (num * 10 + d) } := by
  have hnat : (UInt8.ofNat (d + 0x30)).toNat = d + 0x30 :=
    UInt8.toNat_ofNat_of_lt' (lt_of_lt_of_le (Nat.add_lt_add_right hd 0x30) (by decide))
  have hlo : (0x30 : UInt8) ≤ UInt8.ofNat (d + 0x30) := by
    rw [UInt8.le_iff_toNat_le, hnat]
    exact Nat.le_add_left 0x30 d
  have hhi : UInt8.ofNat (d + 0x30) < 0x3A := by
    rw [UInt8.lt_iff_toNat_lt, hnat]
    exact Nat.add_lt_add_right hd 0x30
  rw [step, hmode]
  dsimp only
  rw [if_pos ⟨hlo, hhi⟩, hnat, Nat.add_sub_cancel]

/-- The digits of a number are read as the number. -/
lemma run_decimal {isPrivate : Bool} {params : List ℕ}
    (hmode : t.mode = .csi isPrivate params 0) (n : ℕ) :
    t.run (decimal n) = { t with mode := .csi isPrivate params n } := by
  induction n using Nat.strongRecOn with
  | _ n ih =>
    rcases lt_or_ge n 10 with hlt | hge
    · rw [decimal_of_lt hlt, run_cons, run_nil, step_digit hmode hlt, Nat.zero_mul, Nat.zero_add]
    · have hdiv : 0 < n / 10 := Nat.div_pos hge (by decide)
      have hmod : n % 10 < 10 := Nat.mod_lt _ (by decide)
      have hn : n / 10 * 10 + n % 10 = n := Nat.div_add_mod' n 10
      have hdigits : decimal n = decimal (n / 10) ++ [UInt8.ofNat (n % 10 + 0x30)] := by
        rw [← decimal_append hdiv hmod, Nat.div_add_mod]
      rw [hdigits, run_append, ih _ (by omega), run_cons, run_nil, step_digit rfl hmod, hn]

lemma run_escape (hmode : t.mode = .ground) :
    t.run [0x1B, 0x5B] = { t with mode := .csi false [] 0 } := by
  simp [step, hmode, readGround]

/-- A number in a control sequence, and the byte behind it. -/
lemma run_decimal_cons {isPrivate : Bool} {params : List ℕ}
    (hmode : t.mode = .csi isPrivate params 0) (n : ℕ) (b : UInt8) (bytes : List UInt8) :
    t.run (decimal n ++ b :: bytes) =
      ({ t with mode := .csi isPrivate params n }.step b).run bytes := by
  rw [run_append, run_decimal hmode, run_cons]

lemma step_separator {isPrivate : Bool} {params : List ℕ} {num : ℕ}
    (hmode : t.mode = .csi isPrivate params num) :
    t.step 0x3B = { t with mode := .csi isPrivate (params ++ [num]) 0 } := by
  rw [step, hmode]
  dsimp only
  rw [if_neg (by decide), if_pos rfl]

lemma step_final {isPrivate : Bool} {params : List ℕ} {num : ℕ} {b : UInt8}
    (hmode : t.mode = .csi isPrivate params num) (hlo : 0x40 ≤ b) (hhi : b < 0x7F) :
    t.step b = { t with mode := .ground }.dispatch isPrivate (params ++ [num]) b := by
  have hge (a : UInt8) (ha : a < 0x40) : ¬ b ≤ a := fun h =>
    UInt8.not_le.mpr ha (UInt8.le_trans hlo h)
  have hdigit : ¬ (0x30 ≤ b ∧ b < 0x3A) := fun h => hge _ (by decide) (UInt8.le_of_lt h.2)
  have hsep : ¬ b = 0x3B := fun h => hge 0x3B (by decide) (UInt8.le_of_eq h)
  have hprivate : ¬ b = 0x3F := fun h => hge 0x3F (by decide) (UInt8.le_of_eq h)
  rw [step, hmode]
  dsimp only
  rw [if_neg hdigit, if_neg hsep, if_neg hprivate, if_pos ⟨hlo, hhi⟩]

lemma run_cursorPosition (hmode : t.mode = .ground) (r c : ℕ) :
    t.run (cursorPosition r c) = t.moveTo r c := by
  have hbytes : cursorPosition r c =
      [0x1B, 0x5B] ++ (decimal r ++ 0x3B :: (decimal c ++ 0x48 :: [])) := by
    simp only [cursorPosition, List.append_assoc, List.cons_append, List.nil_append]
  rw [hbytes, run_append, run_escape hmode, run_decimal_cons rfl, step_separator rfl,
    run_decimal_cons rfl, step_final rfl (by decide) (by decide), run_nil, moveTo, ← hmode]
  rfl

lemma run_selectRendition (hmode : t.mode = .ground) (n : ℕ) :
    t.run (selectRendition n) = t.sgr n := by
  rw [selectRendition, List.append_assoc, run_append, run_escape hmode, run_decimal_cons rfl,
    step_final rfl (by decide) (by decide), run_nil, ← hmode]
  rfl

/-- `ESC [ ? 2 5 l` -/
def hideCursor : List UInt8 := [0x1B, 0x5B, 0x3F, 0x32, 0x35, 0x6C]

/-- `ESC [ ? 2 5 h` -/
def showCursor : List UInt8 := [0x1B, 0x5B, 0x3F, 0x32, 0x35, 0x68]

/-- `ESC [ H` -/
def home : List UInt8 := [0x1B, 0x5B, 0x48]

lemma run_hideCursor (hmode : t.mode = .ground) : t.run hideCursor = t.setVisible false := by
  simp [hideCursor, step, hmode, readGround, dispatch, setVisible]

lemma run_showCursor (hmode : t.mode = .ground) : t.run showCursor = t.setVisible true := by
  simp [showCursor, step, hmode, readGround, dispatch, setVisible]

lemma run_home (hmode : t.mode = .ground) : t.run home = t.moveTo 0 1 := by
  simp [home, step, hmode, readGround, dispatch, moveTo]

/-! ### Characters -/

section Character

variable {x y z w : ℕ}

lemma step_continuation {rest acc : ℕ} (hmode : t.mode = .utf8 (rest + 1) acc) (hy : y < 0x40) :
    t.step (UInt8.ofNat (y + 0x80)) = { t with mode := .utf8 rest (acc * 64 + y) } := by
  rw [step, hmode]
  dsimp only
  rw [if_pos (isContinuation_ofNat hy), toNat_ofNat_add hy, Nat.add_sub_cancel]

lemma step_last {acc : ℕ} (hmode : t.mode = .utf8 0 acc) (hy : y < 0x40) :
    t.step (UInt8.ofNat (y + 0x80)) =
      { t with mode := .ground }.character (acc * 64 + y) := by
  rw [step, hmode]
  dsimp only
  rw [if_pos (isContinuation_ofNat hy), toNat_ofNat_add hy, Nat.add_sub_cancel]

/-- A lead byte, by the number of the bytes behind it. -/
lemma step_lead {b : UInt8} {rest acc : ℕ} (hmode : t.mode = .ground)
    (hb : rest = 0 ∧ acc < 0x20 ∧ b.toNat = acc + 0xC0 ∨
      rest = 1 ∧ acc < 0x10 ∧ b.toNat = acc + 0xE0 ∨
      rest = 2 ∧ acc < 0x08 ∧ b.toNat = acc + 0xF0) :
    t.step b = { t with mode := .utf8 rest acc } := by
  have hlt (a : UInt8) : b < a ↔ b.toNat < a.toNat := UInt8.lt_iff_toNat_lt
  have hne (a : UInt8) (ha : a.toNat < 0x80) : b ≠ a := by
    rintro rfl
    omega
  rw [step, hmode]
  dsimp only
  simp only [readGround, if_neg (hne 0x1B (by decide)), hlt]
  rcases hb with ⟨rfl, hacc, hb⟩ | ⟨rfl, hacc, hb⟩ | ⟨rfl, hacc, hb⟩
  · rw [hb, if_neg (by simp), if_neg (by simp), if_pos, Nat.add_sub_cancel]
    exact Nat.add_lt_add_right hacc 0xC0
  · rw [hb, if_neg (by simp), if_neg (by simp), if_neg (by simp), if_pos, Nat.add_sub_cancel]
    exact Nat.add_lt_add_right hacc 0xE0
  · rw [hb, if_neg (by simp), if_neg (by simp), if_neg (by simp), if_neg (by simp), if_pos,
      Nat.add_sub_cancel]
    exact Nat.add_lt_add_right hacc 0xF0

lemma run_one (hmode : t.mode = .ground) (hlo : 0x20 ≤ x) (hhi : x < 0x80) :
    t.run [UInt8.ofNat x] = t.character x := by
  have hnat : (UInt8.ofNat x).toNat = x := UInt8.toNat_ofNat_of_lt' (hhi.trans (by decide))
  have hesc : UInt8.ofNat x ≠ 0x1B := by
    intro h
    have hx : x = 0x1B := hnat.symm.trans (congrArg UInt8.toNat h)
    omega
  have hlt : UInt8.ofNat x < 0x80 := by
    rw [UInt8.lt_iff_toNat_lt, hnat]
    exact hhi
  rw [run_cons, run_nil, step, hmode]
  dsimp only
  rw [readGround, if_neg hesc, if_pos hlt, hnat]

lemma run_two (hmode : t.mode = .ground) (hx : x < 0x20) (hy : y < 0x40) :
    t.run [UInt8.ofNat (x + 0xC0), UInt8.ofNat (y + 0x80)] = t.character (x * 64 + y) := by
  have hlead := UInt8.toNat_ofNat_of_lt' (n := x + 0xC0)
    (lt_of_lt_of_le (Nat.add_lt_add_right hx 0xC0) (by decide))
  rw [run_cons, run_cons, run_nil, step_lead hmode (.inl ⟨rfl, hx, hlead⟩), step_last rfl hy,
    ← hmode]

lemma run_three (hmode : t.mode = .ground) (hx : x < 0x10) (hy : y < 0x40) (hz : z < 0x40) :
    t.run [UInt8.ofNat (x + 0xE0), UInt8.ofNat (y + 0x80), UInt8.ofNat (z + 0x80)] =
      t.character ((x * 64 + y) * 64 + z) := by
  have hlead := UInt8.toNat_ofNat_of_lt' (n := x + 0xE0)
    (lt_of_lt_of_le (Nat.add_lt_add_right hx 0xE0) (by decide))
  rw [run_cons, run_cons, run_cons, run_nil, step_lead hmode (.inr (.inl ⟨rfl, hx, hlead⟩)),
    step_continuation rfl hy, step_last rfl hz, ← hmode]

lemma run_four (hmode : t.mode = .ground) (hx : x < 0x08) (hy : y < 0x40) (hz : z < 0x40)
    (hw : w < 0x40) :
    t.run [UInt8.ofNat (x + 0xF0), UInt8.ofNat (y + 0x80), UInt8.ofNat (z + 0x80),
        UInt8.ofNat (w + 0x80)] =
      t.character (((x * 64 + y) * 64 + z) * 64 + w) := by
  have hlead := UInt8.toNat_ofNat_of_lt' (n := x + 0xF0)
    (lt_of_lt_of_le (Nat.add_lt_add_right hx 0xF0) (by decide))
  rw [run_cons, run_cons, run_cons, run_cons, run_nil,
    step_lead hmode (.inr (.inr ⟨rfl, hx, hlead⟩)), step_continuation rfl hy,
    step_continuation rfl hz, step_last rfl hw, ← hmode]

end Character

/-! ### In the middle of something -/

lemma size_character (t : Terminal) (c : ℕ) :
    (t.character c).rows = t.rows ∧ (t.character c).cols = t.cols := by
  rw [character]
  split_ifs
  · simp only [put, lineFeed]
    split_ifs <;> exact ⟨rfl, rfl⟩
  · exact ⟨Kind.rows_other t c, Kind.cols_other t c⟩

lemma step_escape (t : Terminal) :
    (t.step 0x1B).mode = .escape ∧ (t.step 0x1B).rows = t.rows ∧ (t.step 0x1B).cols = t.cols := by
  rw [step]
  cases t.mode with
  | ground => exact ⟨rfl, rfl, rfl⟩
  | utf8 rest acc =>
    have hsize := size_character { t with mode := .ground } 0xFFFD
    exact ⟨rfl, hsize.1, hsize.2⟩
  | escape => exact ⟨rfl, rfl, rfl⟩
  | csi isPrivate params num => exact ⟨rfl, rfl, rfl⟩

/-- `ESC` is read as at the end of what was there before. -/
lemma run_interrupt (t : Terminal) (bytes : List UInt8) :
    t.interrupt.run (0x1B :: bytes) = t.run (0x1B :: bytes) := by
  have hstep : t.interrupt.step 0x1B = t.step 0x1B := by
    have hmode := (step_escape t).1
    generalize ht : t.step 0x1B = t' at hmode
    rw [interrupt, ht]
    change { t' with mode := .escape } = t'
    rw [← hmode]
  rw [run_cons, run_cons, hstep]

lemma interrupt_has_iff (t : Terminal) (k : ℕ × ℕ) : t.interrupt.Has k ↔ t.Has k := by
  have hrows : t.interrupt.rows = t.rows := (step_escape t).2.1
  have hcols : t.interrupt.cols = t.cols := (step_escape t).2.2
  rw [Has, Has, hrows, hcols]

/-! ### A cell -/

/-- The cursor is moved to a cell, and the colours are chosen. -/
def placePen (r c fg bg : ℕ) : List UInt8 :=
  cursorPosition (r + 1) (c + 1) ++ selectRendition fg ++ selectRendition bg

/-- Then a character is written. -/
def writeCell (r c fg bg : ℕ) (bytes : List UInt8) : List UInt8 := placePen r c fg bg ++ bytes

section WriteCell

variable {r c fg bg sym : ℕ} {bytes : List UInt8}

variable (hmode : t.mode = .ground) (hfg : IsFg fg) (hbg : IsBg bg)

include hmode hfg hbg

lemma run_placePen (r c : ℕ) :
    t.run (placePen r c fg bg) = { t.moveTo (r + 1) (c + 1) with fg, bg } := by
  rw [placePen, run_append, run_append, run_cursorPosition hmode,
    run_selectRendition (t := t.moveTo (r + 1) (c + 1)) hmode, sgr_of_isFg _ hfg,
    run_selectRendition (t := { t.moveTo (r + 1) (c + 1) with fg }) hmode, sgr_of_isBg _ hbg]

variable (hbytes : ∀ t : Terminal, t.mode = .ground → t.run bytes = t.put sym)

include hbytes

lemma run_writeCell (r c : ℕ) :
    t.run (writeCell r c fg bg bytes) =
      { t.moveTo (r + 1) (c + 1) with fg, bg }.put sym := by
  rw [writeCell, run_append, run_placePen hmode hfg hbg,
    hbytes { t.moveTo (r + 1) (c + 1) with fg, bg } hmode]

lemma painted_writeCell (hk : t.Has (r, c)) :
    Painted t (t.run (writeCell r c fg bg bytes)) [((r, c), ⟨sym, fg, bg⟩)] := by
  have hrow : min (r + 1 - 1) (t.rows - 1) = r := by
    have hr : r < t.rows := hk.1
    omega
  have hcol : min (c + 1 - 1) (t.cols - 1) = c := by
    have hc : c < t.cols := hk.2
    omega
  rw [run_writeCell hmode hfg hbg hbytes, moveTo, hrow, hcol, put]
  simp only [Bool.false_eq_true, if_false]
  split_ifs
  · exact ⟨rfl, rfl, rfl, hmode, rfl⟩
  · exact ⟨rfl, rfl, rfl, hmode, rfl⟩

end WriteCell

end Terminal
