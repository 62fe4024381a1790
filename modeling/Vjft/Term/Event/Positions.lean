import Vjft.Term.Event.Buffer

/-!
# Where commands leave the cursor and the marker

Going to the beginning of a line puts the cursor at the end of the whole text as soon as there is a
newline on the way. The marker is moved by long insertions only if it is behind all that they put
in, and it is not moved by deletions at all.
-/

namespace Vjft.Term

/-! ### The beginning of a line -/

section Line

variable {cs : List CodePoint}

lemma backToNewline_encode (p m : ℤ) {i : ℕ} (hi : i ≤ cs.length) (n : ℕ)
    (hn : utf8.offset cs i ≤ n) :
    backToNewline (nodeOf cs p m) n (utf8.offset cs i) =
      nodeOf cs (if newline ∈ cs.take i then cs.length else 0) m := by
  induction i generalizing n with
  | zero =>
    rw [utf8.offset_zero]
    cases n <;> simp [backToNewline, nodeOf]
  | succ i ih =>
    have h : i < cs.length := hi
    have hpos : 0 < utf8.offset cs (i + 1) := (Nat.zero_le _).trans_lt (utf8.offset_lt_succ h)
    obtain ⟨n, rfl⟩ : ∃ k, n = k + 1 := Nat.exists_eq_add_one.mpr (hpos.trans_le hn)
    have hprev : utf8PrevChar (nodeOf cs p m).text (utf8.offset cs (i + 1)) = utf8.offset cs i :=
      utf8PrevChar_offset_succ h
    have hmem : newline ∈ cs.take (i + 1) ↔ newline ∈ cs.take i ∨ newline = cs[i] := by
      rw [← List.take_append_getElem h, List.mem_append, List.mem_singleton]
    rw [backToNewline, if_pos hpos, hprev]
    simp only [hmem]
    by_cases hnl : cs[i] = newline
    · have hb : byteAt (nodeOf cs p m).text (utf8.offset cs i) = 0x0A :=
        (byteAt_offset_eq_ten h).mpr hnl
      rw [if_pos hb, if_pos (.inr hnl.symm)]
      simp only [nodeOf, utf8Strlen_encode]
    · have hb : byteAt (nodeOf cs p m).text (utf8.offset cs i) ≠ 0x0A :=
        fun h0 => hnl ((byteAt_offset_eq_ten h).mp h0)
      have hstep := utf8.offset_lt_succ h
      rw [if_neg hb, ih h.le n (by omega)]
      simp only [or_iff_left (Ne.symm hnl)]

/-- The line start is found unless there is a newline in front of the cursor. Then the cursor goes
to the end of the text, which is right only behind a newline that ends the text. -/
theorem updToBeginningOfLine_iff (b : TextBuffer CodePoint) (m : ℤ) (event : InputEvent) :
    Shows (updToBeginningOfLine (nodeOf b.chars b.cursor m) event) (b.toPrevious newline) ↔
      (newline ∈ b.before → b.behind = [] ∧ b.chars.getLast? = some newline) := by
  have hoff : utf8ByteOffset (nodeOf b.chars b.cursor m).text
      (nodeOf b.chars b.cursor m).cursorPos = utf8.offset b.chars b.cursor := by
    simp only [nodeOf, utf8ByteOffset_encode, Int.toNat_natCast]
  rw [updToBeginningOfLine, hoff, backToNewline_encode _ _ b.cursor_le _ le_rfl]
  by_cases hnl : newline ∈ b.before
  · have hmem : newline ∈ b.chars.take b.cursor := hnl
    have hlast := TextBuffer.getLast?_before_toPrevious hnl
    rw [if_pos hmem]
    constructor
    · rintro ⟨-, hcursor⟩ -
      have hend : b.chars.length = (b.toPrevious newline).cursor := Int.ofNat_inj.mp hcursor
      have hle : (b.toPrevious newline).cursor ≤ b.cursor := TextBuffer.cursor_toPrevious_le
      refine ⟨List.drop_of_length_le (hend.trans_le hle), ?_⟩
      rw [← hlast, TextBuffer.before, ← hend]
      exact congrArg List.getLast? List.take_length.symm
    · intro h
      obtain ⟨hbehind, hlast⟩ := h hnl
      refine ⟨rfl, ?_⟩
      have hlen : b.cursor = b.chars.length :=
        b.cursor_le.antisymm (List.drop_eq_nil_iff.mp hbehind)
      have hnone : b.before.rtakeWhile (· ≠ newline) = [] := by
        rw [List.rtakeWhile_eq_nil_iff, TextBuffer.before, hlen, List.take_length]
        intro hne
        rw [List.getLast?_eq_some_getLast hne, Option.some.injEq] at hlast
        simp [hlast]
      change ((b.chars.length : ℕ) : ℤ) =
        ((b.cursor - (b.before.rtakeWhile (· ≠ newline)).length : ℕ) : ℤ)
      rw [hnone, List.length_nil, Nat.sub_zero, hlen]
  · have hmem : newline ∉ b.chars.take b.cursor := hnl
    rw [if_neg hmem]
    refine iff_of_true ⟨rfl, ?_⟩ (fun h => absurd h hnl)
    rw [TextBuffer.cursor_toPrevious_of_notMem hnl]
    rfl

/-- In the second line of `a`, newline, `b` the cursor stays behind the `b`. -/
theorem updToBeginningOfLine_second_line :
    let cs := [CodePoint.ofChar 'a', newline, .ofChar 'b']
    (updToBeginningOfLine (nodeOf cs 3 (-1)) (pressed .cmdToBeginningOfLine)).cursorPos = 3 ∧
      ((⟨cs, 3, le_rfl⟩ : TextBuffer CodePoint).toPrevious newline).cursor = 2 := by
  decide

end Line

/-! ### The marker and insertions -/

/-- The insertion of `k` characters at `p` leaves a marker at another place on its character. -/
structure MarkerKept (cs : List CodePoint) (p m k : ℕ) (node : MsgNode) : Prop where
  behind : p < m → node.markerPos = m + k
  inFront : m < p → node.markerPos = m
  character : m ≠ p → ∃ (cs' : List CodePoint) (m' : ℕ), node.text = utf8.encode cs' ∧
    node.markerPos = m' ∧ cs'[m']? = cs[m]?

section Insertion

variable {cs ds : List CodePoint} {p m : ℕ}

/-- The marker moves if it is behind the cursor after the insertion. -/
lemma markerPos_updInsert (cs ds : List CodePoint) (p m : ℕ) (f : CmdFunc) :
    (updInsert (nodeOf cs p m) ⟨f, some (utf8.encode ds)⟩).markerPos =
      if p + ds.length ≤ m then (m : ℤ) + ds.length else m := by
  rw [updInsert_nodeOf]
  refine if_congr ?_ rfl rfl
  omega

/-- Characters in front of an insertion stay, those behind it move on. -/
lemma getElem?_insert (hp : p ≤ cs.length) :
    (m < p → (cs.take p ++ ds ++ cs.drop p)[m]? = cs[m]?) ∧
      (p ≤ m → (cs.take p ++ ds ++ cs.drop p)[m + ds.length]? = cs[m]?) := by
  have hlen : (cs.take p).length = p := List.length_take_of_le hp
  constructor
  · intro h
    rw [List.append_assoc, List.getElem?_append_left (hlen.symm ▸ h), List.getElem?_take_of_lt h]
  · intro h
    have hle : (cs.take p ++ ds).length ≤ m + ds.length := by
      rw [List.length_append, hlen]
      omega
    rw [List.getElem?_append_right hle, List.getElem?_drop, List.length_append, hlen]
    congr 1
    omega

/-- The marker is kept exactly when it is not among the places that the insertion takes. -/
theorem updInsert_markerKept_iff (hp : p ≤ cs.length) (hds : ds ≠ []) (f : CmdFunc) :
    MarkerKept cs p m ds.length (updInsert (nodeOf cs p m) ⟨f, some (utf8.encode ds)⟩) ↔
      m ≤ p ∨ p + ds.length ≤ m := by
  have hlen := List.length_pos_iff.mpr hds
  have htext : (updInsert (nodeOf cs p m) ⟨f, some (utf8.encode ds)⟩).text =
      utf8.encode (cs.take p ++ ds ++ cs.drop p) := by
    rw [updInsert_nodeOf]
    rfl
  have hmarker := markerPos_updInsert cs ds p m f
  constructor
  · intro h
    by_contra hin
    rw [not_or, not_le, not_le] at hin
    have hbehind := h.behind hin.1
    rw [hmarker, if_neg (not_le.mpr hin.2)] at hbehind
    omega
  · rintro (hle | hle)
    · rw [if_neg (by omega)] at hmarker
      refine ⟨fun h => absurd h (not_lt.mpr hle), fun _ => hmarker, ?_⟩
      intro hne
      exact ⟨_, m, htext, hmarker, (getElem?_insert hp).1 (lt_of_le_of_ne hle hne)⟩
    · rw [if_pos hle] at hmarker
      refine ⟨fun _ => hmarker, fun h => absurd h (by omega), ?_⟩
      intro _
      refine ⟨_, m + ds.length, htext, ?_, (getElem?_insert hp).2 (by omega)⟩
      rw [hmarker, Nat.cast_add]

/-- One character in front of the marked one. -/
theorem updInsert_markerKept_one :
    MarkerKept [.ofChar 'a', .ofChar 'b'] 0 1 1
      (updInsert (nodeOf [.ofChar 'a', .ofChar 'b'] (0 : ℕ) (1 : ℕ)) (typed [.ofChar 'x'])) :=
  (updInsert_markerKept_iff (Nat.zero_le _) (List.cons_ne_nil _ []) .cmdInsert).mpr
    (.inr le_rfl)

/-- Two characters at once: the marker is left on the second one of them. -/
theorem updInsert_marker_left_behind :
    ¬ MarkerKept [.ofChar 'a', .ofChar 'b'] 0 1 2
      (updInsert (nodeOf [.ofChar 'a', .ofChar 'b'] (0 : ℕ) (1 : ℕ))
        (typed [.ofChar 'x', .ofChar 'y'])) := by
  intro h
  exact absurd (h.behind Nat.one_pos) (by decide)

end Insertion

/-! ### The marker and deletions -/

/-- What is to become of a marker at `m` when `k` characters in front of `p` are deleted: one behind
them moves with its character, and one among them goes where they were. -/
structure MarkerFollows (p m k m' : ℤ) : Prop where
  behind : p ≤ m → m' = m - k
  among : p - k ≤ m → m < p → m' = p - k
  inFront : m < p - k → m' = m

/-- A marker that stays where it is does right in front of the deleted characters only. -/
lemma markerFollows_self_iff {p m k : ℤ} (hk : 0 ≤ k) :
    MarkerFollows p m k m ↔ m ≤ p - k ∨ k = 0 := by
  constructor
  · intro h
    rcases le_or_gt p m with hpm | hmp
    · have hbehind := h.behind hpm
      omega
    · rcases le_or_gt (p - k) m with hle | hlt
      · have hamong := h.among hle hmp
        omega
      · exact .inl hlt.le
  · intro h
    constructor
    · intro hpm
      omega
    · intro hle hmp
      omega
    · intro _
      rfl

/-- Neither `cmd_backspace` nor `cmd_uninsert` moves the marker, which is right exactly when it is
not behind the place where the first deleted character was. -/
theorem deletion_markerFollows_iff [CLib] {s : Editor} {cs : List CodePoint} {p m : ℕ}
    (hcurr : s.curr = nodeOf cs p m) (hp : 0 < p) :
    (∀ (event : InputEvent) (k : ℕ), cntDel event = k → 1 ≤ k →
      (MarkerFollows p m (min k p : ℕ) (cmdBackspace s event).1.curr.markerPos ↔ m ≤ p - k)) ∧
    ∀ (event : InputEvent) (ds : List CodePoint) s' act, event.seq = some (utf8.encode ds) →
      cmdUninsert s event = some (s', act) →
      (MarkerFollows p m ds.length s'.curr.markerPos ↔ m + ds.length ≤ p ∨ ds = []) := by
  constructor
  · intro event k hk h1
    have hne : s.curr.cursorPos ≠ 0 := by
      rw [hcurr]
      exact Int.natCast_ne_zero.mpr hp.ne'
    have hmarker : (cmdBackspace s event).1.curr.markerPos = m := by
      rw [cmdBackspace, if_neg hne]
      simp only [gt_iff_lt, lt_self_iff_false, if_false, hcurr, nodeOf]
    rw [hmarker, markerFollows_self_iff (Int.natCast_nonneg _)]
    omega
  · intro event ds s' act hseq hs'
    have hmarker : s'.curr.markerPos = m := by
      rw [cmdUninsert] at hs'
      dsimp only at hs'
      split_ifs at hs'
      cases hs'
      rw [hcurr]
      rfl
    rw [hmarker, markerFollows_self_iff (Int.natCast_nonneg _), Int.natCast_eq_zero,
      List.length_eq_zero_iff]
    refine or_congr ?_ Iff.rfl
    omega

/-- Two characters, and the marker in front of both of them. -/
theorem deletion_markerFollows_two :
    let s : Editor := { start with curr := nodeOf [.ofChar 'a', .ofChar 'b'] (2 : ℕ) (0 : ℕ) }
    MarkerFollows 2 0 1 (cmdBackspace s (pressed .cmdBackspace)).1.curr.markerPos := by
  intro s
  have h := @deletion_markerFollows_iff _ s [.ofChar 'a', .ofChar 'b'] 2 0 rfl two_pos
  exact (h.1 (pressed .cmdBackspace) 1 (by decide) le_rfl).mpr (by decide)

/-- The marker is at the end of two characters, and stays there when the second one is deleted. -/
theorem cmdBackspace_marker_left_outside :
    let s : Editor := { start with curr := nodeOf [.ofChar 'a', .ofChar 'b'] (2 : ℕ) (2 : ℕ) }
    ¬ MarkerFollows 2 2 1 (cmdBackspace s (pressed .cmdBackspace)).1.curr.markerPos := by
  intro s h
  exact absurd (h.behind le_rfl) (by decide)

end Vjft.Term
