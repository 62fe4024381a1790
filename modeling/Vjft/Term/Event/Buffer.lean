import Vjft.Term.Event.Undo
import Vjft.Lib.TextBuffer
import Mathlib.Tactic.Ring

/-!
# The text of a node as a list of code points

On well-formed text every command that does not look at the marker is an operation on a text
buffer of code points: byte offsets are boundaries of the encoding, and the bytes the commands
look at tell what code point they belong to. The marker plays no part in it.
-/

namespace Vjft.Term

/-- The node with the given code points and positions. -/
def nodeOf (cs : List CodePoint) (p m : ℤ) : MsgNode := ⟨utf8.encode cs, p, m⟩

/-- The node shows the text and the cursor of the buffer. -/
def Shows (node : MsgNode) (b : TextBuffer CodePoint) : Prop :=
  node.text = utf8.encode b.chars ∧ node.cursorPos = b.cursor

/-! ### Runs of characters -/

section Runs

variable {cs : List CodePoint} {p : CodePoint → Prop} [DecidablePred p] {test : UInt8 → Bool}

lemma skipForward_encode
    (htest : ∀ i (h : i < cs.length),
      test (byteAt (utf8.encode cs) (utf8.offset cs i)) = true ↔ p cs[i])
    (n : ℕ) {i : ℕ} (hi : i ≤ cs.length) (hn : cs.length - i ≤ n) :
    skipForward (utf8.encode cs) cs.length test n i (utf8.offset cs i) =
      (((i + ((cs.drop i).takeWhile p).length : ℕ) : ℤ),
        utf8.offset cs (i + ((cs.drop i).takeWhile p).length)) := by
  induction n generalizing i with
  | zero =>
    obtain rfl : i = cs.length := by omega
    simp [skipForward]
  | succ n ih =>
    rw [skipForward]
    rcases hi.lt_or_eq with h | rfl
    · rw [TextBuffer.takeWhile_drop p cs h]
      by_cases hp : p cs[i]
      · have hnext := ih (i := i + 1) h (by omega)
        push_cast at hnext
        rw [if_pos ⟨by omega, (htest i h).mpr hp⟩, if_pos hp, utf8NextChar_offset h, hnext]
        congr 1
        · push_cast
          ring
        · congr 1
          omega
      · rw [if_neg (fun h' => hp ((htest i h).mp h'.2)), if_neg hp, Nat.add_zero]
    · simp

lemma skipBackward_encode
    (htest : ∀ i (h : i < cs.length),
      test (byteAt (utf8.encode cs) (utf8.offset cs (i + 1) - 1)) = true ↔ p cs[i])
    (n : ℕ) {i : ℕ} (hi : i ≤ cs.length) (hn : i ≤ n) :
    skipBackward (utf8.encode cs) test n i (utf8.offset cs i) =
      (((i - ((cs.take i).rtakeWhile p).length : ℕ) : ℤ),
        utf8.offset cs (i - ((cs.take i).rtakeWhile p).length)) := by
  induction n generalizing i with
  | zero =>
    obtain rfl : i = 0 := by omega
    simp [skipBackward]
  | succ n ih =>
    rw [skipBackward]
    rcases i with - | i
    · simp
    · have h : i < cs.length := hi
      rw [TextBuffer.rtakeWhile_take p cs h]
      by_cases hp : p cs[i]
      · have hnext := ih (i := i) h.le (by omega)
        rw [if_pos ⟨by omega, (htest i h).mpr hp⟩, if_pos hp, utf8PrevChar_offset_succ h,
          Nat.cast_add, Nat.cast_one, add_sub_cancel_right, hnext, Nat.add_sub_add_right]
      · rw [if_neg (fun h' => hp ((htest i h).mp h'.2)), if_neg hp, Nat.sub_zero]

end Runs

/-! ### Commands on well-formed text -/

section Commands

variable (cs : List CodePoint) (p m : ℤ)

lemma updInsert_nodeOf (ds : List CodePoint) (f : CmdFunc) :
    updInsert (nodeOf cs p m) ⟨f, some (utf8.encode ds)⟩ =
      nodeOf (cs.take p.toNat ++ ds ++ cs.drop p.toNat) (p + ds.length)
        (if m ≥ p + ds.length then m + ds.length else m) := by
  simp only [updInsert, nodeOf, deref, Option.getD_some, utf8ByteOffset_encode,
    utf8Strlen_encode, utf8.take_offset, utf8.drop_offset, utf8.encode_append]

lemma updBackspace_nodeOf (event : InputEvent) :
    updBackspace (nodeOf cs p m) event =
      nodeOf (cs.take (max (p - cntDel event) 0).toNat ++ cs.drop p.toNat)
        (max (p - cntDel event) 0) m := by
  simp only [updBackspace, nodeOf, backPos_eq_max, utf8ByteOffset_encode, utf8.take_offset,
    utf8.drop_offset, utf8.encode_append]

lemma deleted_nodeOf {event : InputEvent} (h : 0 ≤ cntDel event) :
    deleted (nodeOf cs p m) event =
      utf8.encode ((cs.drop (max (p - cntDel event) 0).toNat).take
        (p.toNat - (max (p - cntDel event) 0).toNat)) := by
  simp only [deleted, nodeOf, backPos_eq_max, utf8ByteOffset_encode]
  exact utf8.take_drop_offset cs (by omega)

/-- `cmd_backspace` takes out the characters in front of the cursor. -/
lemma updBackspace_append {pre ds post : List CodePoint} {event : InputEvent}
    (hcnt : cntDel event = ds.length) :
    updBackspace (nodeOf (pre ++ ds ++ post) (pre.length + ds.length) m) event =
        nodeOf (pre ++ post) pre.length m ∧
      deleted (nodeOf (pre ++ ds ++ post) (pre.length + ds.length) m) event = utf8.encode ds := by
  have hpos : max ((pre.length : ℤ) + ds.length - ds.length) 0 = pre.length := by omega
  have hcur : ((pre.length : ℤ) + ds.length).toNat = (pre ++ ds).length := by
    rw [List.length_append]
    omega
  have hlen : (pre ++ ds).length - pre.length = ds.length := by
    rw [List.length_append, Nat.add_sub_cancel_left]
  constructor
  · rw [updBackspace_nodeOf, hcnt, hpos, hcur, Int.toNat_natCast, List.drop_left' rfl,
      List.append_assoc, List.take_left' rfl]
  · rw [deleted_nodeOf _ _ _ (hcnt ▸ Int.natCast_nonneg _), hcnt, hpos, hcur, Int.toNat_natCast,
      hlen, List.append_assoc, List.drop_left' rfl, List.take_left' rfl]

variable {cs}

lemma forwardToNewline_encode {i : ℕ} (hi : i ≤ cs.length) (n : ℕ)
    (hn : (utf8.encode cs).length ≤ utf8.offset cs i + n) :
    forwardToNewline (nodeOf cs p m) n (utf8.offset cs i) =
      nodeOf cs (i + ((cs.drop i).takeWhile (· ≠ newline)).length) m := by
  have hend : utf8CharIndex (utf8.encode cs) (utf8.encode cs).length = cs.length := by
    rw [← utf8.offset_length cs, utf8CharIndex_offset le_rfl]
  induction n generalizing p i with
  | zero =>
    have hlen : i = cs.length := by
      by_contra hne
      have hlt : utf8.offset cs i < (utf8.encode cs).length :=
        utf8.offset_lt_length (show i < cs.length by omega)
      omega
    subst hlen
    rw [forwardToNewline]
    simp [nodeOf, hend]
  | succ n ih =>
    rw [forwardToNewline]
    rcases hi.lt_or_eq with h | rfl
    · have hlt : utf8.offset cs i < (nodeOf cs p m).text.length := utf8.offset_lt_length h
      rw [if_pos hlt, TextBuffer.takeWhile_drop _ cs h]
      by_cases hnl : cs[i] = newline
      · have hb : byteAt (nodeOf cs p m).text (utf8.offset cs i) = 0x0A :=
          (byteAt_offset_eq_ten h).mpr hnl
        rw [if_pos hb, if_neg (by simp [hnl])]
        simp only [nodeOf, utf8CharIndex_offset hi, Nat.cast_zero, add_zero]
      · have hb : byteAt (nodeOf cs p m).text (utf8.offset cs i) ≠ 0x0A :=
          fun h0 => hnl ((byteAt_offset_eq_ten h).mp h0)
        have hnext : utf8NextChar (nodeOf cs p m).text (utf8.offset cs i) =
            utf8.offset cs (i + 1) := utf8NextChar_offset h
        have hstep : utf8.offset cs i < utf8.offset cs (i + 1) := utf8.offset_lt_succ h
        have hrest := ih (p + 1) (i := i + 1) h (by omega)
        rw [if_neg hb, if_pos hnl, hnext]
        change forwardToNewline (nodeOf cs (p + 1) m) n _ = _
        rw [hrest]
        simp only [nodeOf, MsgNode.mk.injEq, true_and, and_true]
        push_cast
        ring
    · have hge : ¬ utf8.offset cs cs.length < (nodeOf cs p m).text.length := by
        simp [nodeOf]
      rw [if_neg hge]
      simp [nodeOf, hend]

end Commands

end Vjft.Term
