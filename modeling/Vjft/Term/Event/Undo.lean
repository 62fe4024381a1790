import Vjft.Term.Event.Stacks
import Mathlib.Data.List.GetD

/-!
# Undoing a command that has just been done

A fresh `Action` is undone by one call of the complementary command. Whether this gives back the
node depends on the node before the command: on the cursor for the motions, whose old position is
kept in `seq` or not at all, and on the marker for insertion and deletion, which move it in one
direction only. An insertion is undone by `strcpy`, which may be relied on only if the part of the
text behind the cursor is shorter than what was inserted.
-/

namespace Vjft.Term

/-! ### Motions -/

namespace EditingCmd

lemma act_forwardChar (node : MsgNode) (event : InputEvent) :
    forwardChar.act node event = { node with
      cursorPos := if 0 ≤ node.cursorPos ∧ node.cursorPos < utf8Strlen node.text
        then node.cursorPos + 1 else node.cursorPos } := by
  by_cases h : 0 ≤ node.cursorPos ∧ node.cursorPos < utf8Strlen node.text
  · rw [act, if_neg (by simp only [Stuck, geSize]; omega), if_pos h, update, updForwardChar]
    split_ifs with hend
    · rw [show (utf8Strlen node.text : ℤ) = node.cursorPos + 1 by omega]
    · rfl
  · rw [act, if_pos (by simp only [Stuck, geSize]; omega), if_neg h]

lemma act_backwardChar (node : MsgNode) (event : InputEvent) :
    backwardChar.act node event = { node with
      cursorPos := if 0 < node.cursorPos then node.cursorPos - 1 else node.cursorPos } := by
  by_cases h : 0 < node.cursorPos
  · rw [act, if_neg (by simp only [Stuck]; omega), if_pos h, update, updBackwardChar, if_pos h]
  · rw [act, update, updBackwardChar, if_neg h, if_neg h, ite_self]

lemma update_eq_act {c : EditingCmd} {node : MsgNode} (hc : ¬ c.Stuck node)
    (event : InputEvent) : c.update node event = c.act node event := by
  rw [act, if_neg hc]

end EditingCmd

lemma backToNewline_eq (node : MsgNode) (n byteOffset : ℕ) :
    ∃ q : ℤ, (q = 0 ∨ q = utf8Strlen node.text) ∧
      backToNewline node n byteOffset = { node with cursorPos := q } := by
  induction n generalizing byteOffset with
  | zero => exact ⟨0, .inl rfl, rfl⟩
  | succ n ih =>
    rw [backToNewline]
    dsimp only
    split_ifs
    · exact ⟨_, .inr rfl, rfl⟩
    · exact ih _
    · exact ⟨0, .inl rfl, rfl⟩

lemma forwardToNewline_eq (node : MsgNode) (n byteOffset : ℕ) :
    ∃ q : ℤ, forwardToNewline node n byteOffset = { node with cursorPos := q } := by
  induction n generalizing node byteOffset with
  | zero => exact ⟨_, rfl⟩
  | succ n ih =>
    rw [forwardToNewline]
    split_ifs
    · exact ⟨_, rfl⟩
    · obtain ⟨q, hq⟩ := ih { node with cursorPos := node.cursorPos + 1 }
        (utf8NextChar node.text byteOffset)
      exact ⟨q, hq⟩
    · exact ⟨_, rfl⟩

lemma skipBackward_fst_le (text : CStr) (test : UInt8 → Bool) (n : ℕ) (p : ℤ) (byteOffset : ℕ) :
    (skipBackward text test n p byteOffset).1 ≤ p := by
  induction n generalizing p byteOffset with
  | zero => exact le_rfl
  | succ n ih =>
    rw [skipBackward]
    split_ifs
    · exact (ih _ _).trans (by omega)
    · exact le_rfl

lemma skipBackward_of_nonpos (text : CStr) (test : UInt8 → Bool) (n : ℕ) {p : ℤ} (hp : p ≤ 0)
    (byteOffset : ℕ) : skipBackward text test n p byteOffset = (p, byteOffset) := by
  cases n with
  | zero => rfl
  | succ n => rw [skipBackward, if_neg (by omega)]

/-- A backward word motion moves a positive cursor. -/
lemma updBackwardWord_eq (node : MsgNode) (event : InputEvent) :
    ∃ q : ℤ, updBackwardWord node event = { node with cursorPos := q } ∧
      (node.cursorPos ≤ 0 → q = node.cursorPos) ∧ (0 < node.cursorPos → q < node.cursorPos) := by
  refine ⟨_, rfl, ?_, ?_⟩
  · intro hp
    rw [skipBackward_of_nonpos _ _ _ hp, skipBackward_of_nonpos _ _ _ hp]
  · intro hp
    obtain ⟨n, hn⟩ : ∃ n, node.cursorPos.toNat = n + 1 := ⟨node.cursorPos.toNat - 1, by omega⟩
    set off := utf8ByteOffset node.text node.cursorPos
    by_cases hb : isspace (byteAt node.text (off - 1)) = true
    · -- the first loop makes a step
      have hlt : (skipBackward node.text isspace node.cursorPos.toNat node.cursorPos off).1 <
          node.cursorPos := by
        rw [hn, skipBackward, if_pos ⟨hp, hb⟩]
        exact (skipBackward_fst_le _ _ _ _ _).trans_lt (by omega)
      exact (skipBackward_fst_le _ _ _ _ _).trans_lt hlt
    · -- the first loop makes no step, and then the second one does
      have hfirst : skipBackward node.text isspace node.cursorPos.toNat node.cursorPos off =
          (node.cursorPos, off) := by
        rw [hn, skipBackward, if_neg (fun h => hb h.2)]
      rw [hfirst]
      simp only
      rw [hn, skipBackward, if_pos ⟨hp, by simpa using hb⟩]
      exact (skipBackward_fst_le _ _ _ _ _).trans_lt (by omega)

lemma updForwardWord_eq (node : MsgNode) (event : InputEvent) :
    ∃ q : ℤ, updForwardWord node event = { node with cursorPos := q } := ⟨_, rfl⟩

/-- Going back to a stored position from anywhere in the same text. -/
lemma getBackNode_eq_iff {node : MsgNode} (hp : IsInt node.cursorPos) (q : ℤ) (f : CmdFunc) :
    getBackNode { node with cursorPos := q } ⟨f, some (intToHex node.cursorPos)⟩ = node ↔
      (0 ≤ node.cursorPos ∧ node.cursorPos ≤ utf8Strlen node.text) ∨ q = node.cursorPos := by
  obtain ⟨text, p, m⟩ := node
  have hhex : hexToInt (some (intToHex p)) = p := hexToInt_intToHex hp
  simp only [getBackNode, hhex]
  split_ifs with h
  · simp only [MsgNode.mk.injEq, true_and, and_true]
    omega
  · simp only [true_iff]
    omega

/-- A word motion forwards stores no position, which reads as position `0`. -/
lemma getBackNode_none_eq_iff (node : MsgNode) (q : ℤ) (f : CmdFunc) :
    getBackNode { node with cursorPos := q } ⟨f, none⟩ = node ↔ node.cursorPos = 0 := by
  obtain ⟨text, p, m⟩ := node
  have hback : getBackNode ⟨text, q, m⟩ ⟨f, none⟩ = ⟨text, 0, m⟩ := by
    rw [getBackNode]
    exact if_neg (by simp [hexToInt])
  rw [hback]
  simp only [MsgNode.mk.injEq, true_and, and_true]
  exact eq_comm

/-! ### Insertion and deletion -/

/-- What the C code relies on when it works on a node: the text is a C string, the positions are
`int`s, and the way to the cursor does not lead over the terminator. -/
structure MsgNode.Defined (node : MsgNode) : Prop where
  ne_zero : ∀ b ∈ node.text, b ≠ 0
  cursorPos : IsInt node.cursorPos
  markerPos : IsInt node.markerPos
  offset_le : utf8ByteOffset node.text node.cursorPos ≤ node.text.length

instance (node : MsgNode) : Decidable node.Defined :=
  have : Decidable (∀ b ∈ node.text, b ≠ 0) := List.decidableBAll _ _
  decidable_of_iff ((∀ b ∈ node.text, b ≠ 0) ∧ IsInt node.cursorPos ∧ IsInt node.markerPos ∧
      utf8ByteOffset node.text node.cursorPos ≤ node.text.length)
    ⟨fun ⟨h1, h2, h3, h4⟩ => ⟨h1, h2, h3, h4⟩, fun h => ⟨h.1, h.2, h.3, h.4⟩⟩

lemma byteAt_eq_zero_iff {str : CStr} (h : ∀ b ∈ str, b ≠ 0) (i : ℕ) :
    byteAt str i = 0 ↔ str.length ≤ i := by
  constructor
  · intro hz
    by_contra hlt
    rw [byteAt, List.getD_eq_getElem _ _ (by omega)] at hz
    exact h _ (List.getElem_mem _) hz
  · exact byteAt_of_length_le

lemma byteAt_append_left {str : CStr} (post : CStr) {i : ℕ} (h : i < str.length) :
    byteAt (str ++ post) i = byteAt str i := by
  rw [byteAt, byteAt, List.getD_append _ _ _ _ h]

lemma byteAt_take {str : CStr} {i n : ℕ} (h : i < n) : byteAt (str.take n) i = byteAt str i := by
  rw [byteAt, byteAt, List.getD_eq_getElem?_getD, List.getD_eq_getElem?_getD,
    List.getElem?_take_of_lt h]

/-- Over a text that starts like `text` up to the place where `n` steps lead, a walk gets to that
place too. -/
lemma exists_loop_take_append {text : CStr} {n off : ℕ} (hoff : utf8ByteOffset.loop text n 0 = off)
    (hle : off ≤ text.length) (post : CStr) :
    ∃ j ≤ n, utf8ByteOffset.loop (text.take off ++ post) j 0 = off ∧
      (j = n ∨ byteAt text off = 0) := by
  subst hoff
  apply utf8ByteOffset.exists_loop_eq n 0
  intro x hx
  rw [byteAt_append_left _ (by simp; omega), byteAt_take hx]

/-- Walking over inserted characters gets behind them. -/
lemma utf8ByteOffset_insert {text : CStr} (hnz : ∀ b ∈ text, b ≠ 0) {p : ℤ} (hp : 0 ≤ p)
    (hle : utf8ByteOffset text p ≤ text.length) (ds : List CodePoint) :
    utf8ByteOffset (text.take (utf8ByteOffset text p) ++ utf8.encode ds ++
        text.drop (utf8ByteOffset text p)) (p + ds.length) =
      utf8ByteOffset text p + (utf8.encode ds).length := by
  set off := utf8ByteOffset text p with hoff
  obtain ⟨j, hj, hloop, hend⟩ := exists_loop_take_append (n := p.toNat) hoff.symm hle
    (utf8.encode ds ++ text.drop off)
  have hlen : (text.take off).length = off := by simp [hle]
  have hmid := utf8ByteOffset.loop_encode (text.take off) (text.drop off) ds le_rfl
  rw [hlen, utf8.offset_length] at hmid
  have hsteps : (p + ds.length).toNat = j + (ds.length + (p.toNat - j)) := by omega
  rw [utf8ByteOffset, hsteps, utf8ByteOffset.loop_add, List.append_assoc, hloop,
    ← List.append_assoc, utf8ByteOffset.loop_add, hmid]
  rcases hend with rfl | hz
  · rw [Nat.sub_self, utf8ByteOffset.loop]
  · -- the cursor was beyond the end of the text: the walk stops at the new end
    have hend : text.length ≤ off := (byteAt_eq_zero_iff hnz off).mp hz
    refine utf8ByteOffset.loop_of_byteAt_eq_zero (byteAt_of_length_le ?_) _
    simp only [List.length_append, List.length_take, List.length_drop]
    omega

/-- From a negative cursor the walk ends inside the inserted characters. -/
lemma utf8ByteOffset_insert_lt {text : CStr} {p : ℤ} (hp : p < 0) {ds : List CodePoint}
    (hds : ds ≠ []) :
    utf8ByteOffset (text.take (utf8ByteOffset text p) ++ utf8.encode ds ++
        text.drop (utf8ByteOffset text p)) (p + ds.length) < (utf8.encode ds).length := by
  have hoff : utf8ByteOffset text p = 0 := by
    rw [utf8ByteOffset, Int.toNat_of_nonpos hp.le, utf8ByteOffset.loop]
  have hpos := List.length_pos_iff.mpr hds
  have hlt : (p + ds.length).toNat < ds.length := by omega
  have hwalk := utf8ByteOffset.loop_encode [] (text.drop 0) ds hlt.le
  rw [hoff, List.take_zero, utf8ByteOffset]
  rw [List.length_nil, Nat.zero_add] at hwalk
  rw [hwalk]
  exact utf8.offset_lt_length hlt

/-- The text and the cursor. -/
def MsgNode.place (node : MsgNode) : CStr × ℤ := (node.text, node.cursorPos)

/-- The bytes behind the cursor. -/
def MsgNode.behind (node : MsgNode) : CStr :=
  node.text.drop (utf8ByteOffset node.text node.cursorPos)

section Uninsert

variable [CLib]

/-- `cmd_uninsert`, where there are enough bytes in front of the cursor. -/
lemma uninsertNode_of_le {node : MsgNode} {seq : CStr} (f : CmdFunc)
    (hlen : seq.length ≤ utf8ByteOffset node.text node.cursorPos) :
    let off := utf8ByteOffset node.text node.cursorPos
    uninsertNode node ⟨f, some seq⟩ = some
      { text := if node.behind.length < seq.length
          then node.text.take (off - seq.length) ++ node.behind
          else CLib.strcpyOverlap node.text (off - seq.length) off
        cursorPos := node.cursorPos - utf8Strlen seq
        markerPos := node.markerPos } := by
  simp only [uninsertNode, deref, Option.getD_some, reduceCtorEq, false_or]
  rw [if_neg (not_lt.mpr hlen), strcpyWithin, Nat.sub_sub_self hlen, ← List.length_drop]
  rfl

lemma uninsertNode_of_lt {node : MsgNode} {seq : CStr} (f : CmdFunc)
    (hlen : utf8ByteOffset node.text node.cursorPos < seq.length) :
    uninsertNode node ⟨f, some seq⟩ = none := if_pos (.inr hlen)

/-- `cmd_uninsert`, where the bytes in front of the cursor are those to be taken out. -/
lemma uninsertNode_append {pre seq post : CStr} {p m : ℤ}
    (hoff : utf8ByteOffset (pre ++ seq ++ post) p = pre.length + seq.length) (f : CmdFunc) :
    uninsertNode ⟨pre ++ seq ++ post, p, m⟩ ⟨f, some seq⟩ = some
      { text := if post.length < seq.length then pre ++ post
          else CLib.strcpyOverlap (pre ++ seq ++ post) pre.length (pre.length + seq.length)
        cursorPos := p - utf8Strlen seq
        markerPos := m } := by
  have hbehind : MsgNode.behind ⟨pre ++ seq ++ post, p, m⟩ = post := by
    rw [MsgNode.behind, hoff]
    exact List.drop_left' (List.length_append ..)
  have htake : (pre ++ seq ++ post).take pre.length = pre := by
    rw [List.append_assoc, List.take_left' rfl]
  rw [uninsertNode_of_le f (by simp only [hoff]; omega), hbehind]
  simp only [hoff, Nat.add_sub_cancel, htake]

/-- Right after an insertion at a position of the text, `cmd_uninsert` gives back the cursor, and
the text if `strcpy` does. -/
lemma uninsertNode_updInsert {node : MsgNode} (hd : node.Defined) (hp : 0 ≤ node.cursorPos)
    (ds : List CodePoint) (f g : CmdFunc) :
    let node' := updInsert node ⟨f, some (utf8.encode ds)⟩
    let off := utf8ByteOffset node.text node.cursorPos
    uninsertNode node' ⟨g, some (utf8.encode ds)⟩ = some
      { text := if node.behind.length < (utf8.encode ds).length then node.text
          else CLib.strcpyOverlap node'.text off (off + (utf8.encode ds).length)
        cursorPos := node.cursorPos
        markerPos := node'.markerPos } := by
  obtain ⟨text, p, m⟩ := node
  obtain ⟨hnz, -, -, hle⟩ := hd
  intro node' off
  have hoff : utf8ByteOffset (text.take off ++ utf8.encode ds ++ text.drop off) (p + ds.length) =
      (text.take off).length + (utf8.encode ds).length := by
    rw [List.length_take_of_le hle]
    exact utf8ByteOffset_insert hnz hp hle ds
  have hnode : node' = ⟨text.take off ++ utf8.encode ds ++ text.drop off, p + ds.length,
      node'.markerPos⟩ := by
    simp only [node', updInsert, deref, Option.getD_some, utf8Strlen_encode]
    rfl
  rw [hnode, uninsertNode_append hoff, List.take_append_drop, List.length_take_of_le hle,
    utf8Strlen_encode, add_sub_cancel_right]
  rfl

lemma uninsertNode_updInsert_of_neg {node : MsgNode} (hp : node.cursorPos < 0)
    {ds : List CodePoint} (hds : ds ≠ []) (f g : CmdFunc) :
    uninsertNode (updInsert node ⟨f, some (utf8.encode ds)⟩) ⟨g, some (utf8.encode ds)⟩ =
      none := by
  apply uninsertNode_of_lt
  simp only [updInsert, deref, Option.getD_some, utf8Strlen_encode]
  exact utf8ByteOffset_insert_lt hp hds

end Uninsert

/-- `cmd_uninsert` right after an insertion gives back the node, whatever the C library does, unless
the cursor was negative, the insertion has moved the marker or `strcpy` meets an overlap. -/
lemma forall_uninsertNode_updInsert_iff {node : MsgNode} (hd : node.Defined)
    {ds : List CodePoint} (hds : ds ≠ []) (f g : CmdFunc) :
    (∀ _ : CLib, uninsertNode (updInsert node ⟨f, some (utf8.encode ds)⟩)
        ⟨g, some (utf8.encode ds)⟩ = some node) ↔
      0 ≤ node.cursorPos ∧ node.markerPos < node.cursorPos + ds.length ∧
        node.behind.length < (utf8.encode ds).length := by
  have hpos := List.length_pos_iff.mpr hds
  have hmarker : (updInsert node ⟨f, some (utf8.encode ds)⟩).markerPos = node.markerPos ↔
      node.markerPos < node.cursorPos + ds.length := by
    simp only [updInsert, deref, Option.getD_some, utf8Strlen_encode]
    split_ifs <;> omega
  rw [← hmarker]
  constructor
  · intro h
    have hp : 0 ≤ node.cursorPos := by
      by_contra hp
      have hnone := uninsertNode_updInsert_of_neg (not_le.mp hp) hds f g
      rw [h] at hnone
      cases hnone
    -- a library that leaves another text than the one from before
    let lib : CLib := ⟨fun _ _ _ => node.text ++ [1], fun _ _ => none⟩
    have hlib := (@uninsertNode_updInsert lib node hd hp ds f g).symm.trans (h lib)
    simp only [Option.some.injEq] at hlib
    refine ⟨hp, (MsgNode.mk.inj hlib).2.2, ?_⟩
    by_contra hover
    have htext : node.text ++ [1] = node.text := by
      have hleft := (MsgNode.mk.inj hlib).1
      rwa [if_neg hover] at hleft
    simp at htext
  · rintro ⟨hp, hm, hbehind⟩ _
    rw [uninsertNode_updInsert hd hp, if_pos hbehind, hm]

/-- One step of a walk over a byte that is not NUL. -/
lemma utf8ByteOffset_succ {text : CStr} {n : ℕ}
    (h : byteAt text (utf8ByteOffset.loop text n 0) ≠ 0) :
    utf8ByteOffset.loop text (n + 1) 0 = utf8ByteOffset.loop text n 0 +
      utf8CharLength (byteAt text (utf8ByteOffset.loop text n 0)) := by
  rw [utf8ByteOffset.loop_add, utf8ByteOffset.loop, if_neg h, utf8ByteOffset.loop]

/-- What lies between two neighbouring places of a walk is one character. -/
lemma utf8Strlen_eq_one {text : CStr} {off : ℕ} (hb : byteAt text off ≠ 0)
    (hle : off + utf8CharLength (byteAt text off) ≤ text.length) :
    utf8Strlen ((text.drop off).take (utf8CharLength (byteAt text off))) = 1 := by
  set len := utf8CharLength (byteAt text off) with hlen
  have hpos : 1 ≤ len := one_le_utf8CharLength _
  have hdel : ((text.drop off).take len).length = len := by
    rw [List.length_take, List.length_drop]
    omega
  have hfirst : byteAt ((text.drop off).take len) 0 = byteAt text off := by
    rw [byteAt_take hpos, byteAt, byteAt, List.getD_eq_getElem?_getD, List.getD_eq_getElem?_getD,
      List.getElem?_drop, Nat.add_zero]
  obtain ⟨n, hn⟩ : ∃ n, len = n + 1 := ⟨len - 1, by omega⟩
  rw [utf8Strlen, hdel, hn, utf8Strlen.loop, ← hn, hfirst, if_neg hb, ← hlen, Nat.zero_add]
  cases n with
  | zero => rfl
  | succ n =>
    rw [utf8Strlen.loop, if_pos (byteAt_of_length_le (by omega))]

lemma backPos_eq_max (node : MsgNode) (event : InputEvent) :
    backPos node event = max (node.cursorPos - cntDel event) 0 := by
  rw [backPos]
  split_ifs <;> omega

/-- Putting back what `cmd_backspace` has deleted gives back the node, if there was a character to
delete and the insertion does not move the marker. -/
lemma updInsert_updBackspace_iff {node : MsgNode} (hd : node.Defined) (hp : node.cursorPos ≠ 0)
    (f g : CmdFunc) :
    updInsert (updBackspace node ⟨f, none⟩) ⟨g, some (deleted node ⟨f, none⟩)⟩ = node ↔
      0 < node.cursorPos ∧ node.cursorPos ≤ utf8Strlen node.text ∧
        node.markerPos < node.cursorPos := by
  obtain ⟨text, p, m⟩ := node
  obtain ⟨hnz, -, -, hle⟩ := hd
  simp only at hnz hle hp ⊢
  simp only [updInsert, updBackspace, deleted, backPos_eq_max, cntDel, deref, Option.getD_some]
  by_cases hneg : p < 0
  · -- nothing is deleted and the cursor goes to the start
    have h0 : utf8ByteOffset text p = 0 := by
      rw [utf8ByteOffset, Int.toNat_of_nonpos hneg.le, utf8ByteOffset.loop]
    rw [max_eq_right (by omega), h0]
    simp only [Nat.zero_sub, List.take_zero, utf8Strlen_nil, MsgNode.mk.injEq]
    omega
  rw [max_eq_left (by omega)]
  obtain ⟨n, rfl⟩ : ∃ n : ℕ, p = n + 1 := ⟨(p - 1).toNat, by omega⟩
  have hprev : utf8ByteOffset text ((n : ℤ) + 1 - 1) = utf8ByteOffset.loop text n 0 := by
    rw [utf8ByteOffset]
    congr
    omega
  have hcur : utf8ByteOffset text ((n : ℤ) + 1) = utf8ByteOffset.loop text (n + 1) 0 := rfl
  rw [hcur] at hle
  rw [hprev, hcur]
  set off := utf8ByteOffset.loop text n 0 with hoff
  by_cases hn : n < utf8Strlen text
  · have hb : byteAt text off ≠ 0 := (byteAt_loop_ne_zero_iff n).mpr hn
    rw [utf8ByteOffset_succ hb, ← hoff] at hle ⊢
    rw [Nat.add_sub_cancel_left, utf8Strlen_eq_one hb hle]
    obtain ⟨j, hj, hloop, hend⟩ := exists_loop_take_append (n := n) hoff.symm (by omega)
      (text.drop (off + utf8CharLength (byteAt text off)))
    obtain rfl : j = n := hend.resolve_right hb
    have hback : utf8ByteOffset (text.take off ++
        text.drop (off + utf8CharLength (byteAt text off))) ((j : ℤ) + 1 - 1) = off := by
      rw [utf8ByteOffset, ← hloop]
      congr
      omega
    have hlen : (text.take off).length = off := by
      rw [List.length_take]
      omega
    rw [hback, List.take_left' hlen, List.drop_left' hlen, List.append_assoc,
      ← List.drop_drop, List.take_append_drop, List.take_append_drop]
    simp only [MsgNode.mk.injEq, true_and]
    split_ifs <;> omega
  · -- the cursor is beyond the end: nothing is deleted, yet the cursor moves back
    have hb : byteAt text off = 0 := by
      by_contra hb
      exact hn ((byteAt_loop_ne_zero_iff n).mp hb)
    have hstay : utf8ByteOffset.loop text (n + 1) 0 = off := by
      rw [utf8ByteOffset.loop_add, utf8ByteOffset.loop_of_byteAt_eq_zero hb]
    rw [hstay, Nat.sub_self, List.take_zero]
    simp only [utf8Strlen_nil, MsgNode.mk.injEq]
    omega

/-! ### Undoing a fresh `Action` -/

namespace EditingCmd

/-- What the command stores in the `seq` of a fresh `Action`. -/
def freshSeq (c : EditingCmd) (node : MsgNode) (event : InputEvent) : Option CStr :=
  match c with
  | insert | backwardChar | forwardChar | forwardWord | toggleCursor => event.seq
  | backspace => some (deleted node event)
  | backwardWord | toBeginningOfLine | toEndOfLine | setMarker => some (intToHex node.cursorPos)
  | unsetMarker => some (intToHex node.markerPos)

/-- The states in which undoing the command gives back the node. The range tests are those of the
complementary commands; insertion and deletion also ask that the marker is not behind the text they
put in, an insertion that the text behind the cursor is shorter than what it puts in, and a word
motion forwards has to start at position `0`, the position it does not store. -/
def Revertible (c : EditingCmd) (node : MsgNode) (event : InputEvent) : Prop :=
  match c with
  | insert =>
    0 ≤ node.cursorPos ∧ node.markerPos < node.cursorPos + utf8Strlen (deref event.seq) ∧
      node.behind.length < (deref event.seq).length
  | backspace =>
    0 < node.cursorPos ∧ node.cursorPos ≤ utf8Strlen node.text ∧ node.markerPos < node.cursorPos
  | backwardChar | backwardWord => node.cursorPos ≤ utf8Strlen node.text
  | toBeginningOfLine => 0 ≤ node.cursorPos ∧ node.cursorPos ≤ utf8Strlen node.text
  | forwardWord => node.cursorPos = 0
  | forwardChar | toEndOfLine | setMarker | unsetMarker | toggleCursor => True

instance (c : EditingCmd) (node : MsgNode) (event : InputEvent) :
    Decidable (c.Revertible node event) := by
  cases c <;> unfold Revertible <;> infer_instance

lemma recorded_of_fresh [CLib] (c : EditingCmd) {s : Editor} {event : InputEvent}
    (he : event.cmdFn = c.fn) (hnew : mergeTarget c.fn s.undoStack = none) :
    c.recorded s event =
      { id := s.created, cmdFn := c.fn, seq := c.freshSeq s.curr event, cnt := 1 } := by
  rw [recorded, takenAction, hnew]
  cases c <;> simp [adjust, he, freshSeq, fn]

/-- One call of the complementary command right after a command other than an insertion. -/
lemma effect_comp_update_iff [CLib] {c : EditingCmd} (hins : c ≠ insert) {node : MsgNode}
    {event : InputEvent} (hk : KeyEvent event) (he : event.cmdFn = c.fn) (hd : node.Defined)
    (hc : ¬ c.Stuck node) :
    effect ⟨c.comp, c.freshSeq node event⟩ (c.update node event) = some node ↔
      c.Revertible node event := by
  obtain ⟨cmdFn, seq⟩ := event
  obtain rfl : seq = none := by
    apply hk.2.2.2
    intro h
    exact hins (fn_injective (he.symm.trans h))
  cases c
  case insert => exact absurd rfl hins
  case backspace =>
    have hstuck : ¬ insert.Stuck (backspace.update node ⟨cmdFn, none⟩) := id
    rw [effect_of_calls insert (calls_of_seq rfl rfl), Option.some.injEq, ← update_eq_act hstuck]
    exact updInsert_updBackspace_iff hd hc _ _
  case backwardChar =>
    rw [effect_of_calls forwardChar (calls_of_ne_insert rfl (by decide)), update_eq_act hc,
      act_forwardChar, act_backwardChar]
    obtain ⟨text, p, m⟩ := node
    simp only [Stuck] at hc
    simp only [Revertible, Option.some.injEq, MsgNode.mk.injEq, true_and, and_true]
    split_ifs <;> omega
  case forwardChar =>
    rw [effect_of_calls backwardChar (calls_of_ne_insert rfl (by decide)), update_eq_act hc,
      act_forwardChar, act_backwardChar]
    obtain ⟨text, p, m⟩ := node
    simp only [Stuck, geSize] at hc
    simp only [Revertible, Option.some.injEq, MsgNode.mk.injEq, true_and, and_true, iff_true]
    split_ifs <;> omega
  case forwardWord =>
    obtain ⟨q, hq⟩ := updForwardWord_eq node ⟨cmdFn, none⟩
    simp only [effect, comp, freshSeq, update, hq, Revertible, Option.some.injEq]
    exact getBackNode_none_eq_iff node q _
  case backwardWord =>
    obtain ⟨q, hq, hle, hlt⟩ := updBackwardWord_eq node ⟨cmdFn, none⟩
    simp only [effect, comp, freshSeq, update, hq, Revertible, Option.some.injEq]
    rw [getBackNode_eq_iff hd.cursorPos]
    simp only [Stuck] at hc
    omega
  case toBeginningOfLine =>
    obtain ⟨q, hq0, hq⟩ := backToNewline_eq node (utf8ByteOffset node.text node.cursorPos)
      (utf8ByteOffset node.text node.cursorPos)
    simp only [effect, comp, freshSeq, update, updToBeginningOfLine, hq, Revertible,
      Option.some.injEq]
    rw [getBackNode_eq_iff hd.cursorPos]
    simp only [Stuck] at hc
    omega
  case toEndOfLine =>
    obtain ⟨q, hq⟩ := forwardToNewline_eq node node.text.length
      (utf8ByteOffset node.text node.cursorPos)
    simp only [effect, comp, freshSeq, update, updToEndOfLine, hq, Revertible,
      Option.some.injEq]
    rw [getBackNode_eq_iff hd.cursorPos]
    simp only [Stuck, geSize] at hc
    simp only [iff_true]
    omega
  case setMarker =>
    rw [effect_of_calls unsetMarker (calls_of_ne_insert rfl (by decide))]
    obtain ⟨text, p, m⟩ := node
    simp only [Stuck, not_not] at hc
    subst hc
    simp only [act, Stuck, update, updSetMarker, updUnsetMarker, Revertible, Option.some.injEq]
    split_ifs <;> simp_all
  case unsetMarker =>
    rw [effect_of_calls EditingCmd.setMarker (calls_of_ne_insert rfl (by decide))]
    obtain ⟨text, p, m⟩ := node
    have hhex : hexToInt (some (intToHex m)) = m := hexToInt_intToHex hd.markerPos
    simp [act, Stuck, freshSeq, update, updSetMarker, updUnsetMarker, Revertible, hhex]
  case toggleCursor =>
    rw [effect_of_calls toggleCursor (calls_of_ne_insert rfl (by decide))]
    simp [act, Stuck, update, updToggleCursor, Revertible]

/-- One call of the complementary command right after the command, whatever the C library does. -/
lemma forall_effect_comp_update_iff (c : EditingCmd) {node : MsgNode} {event : InputEvent}
    (hk : KeyEvent event) (he : event.cmdFn = c.fn) (hd : node.Defined) (hc : ¬ c.Stuck node) :
    (∀ _ : CLib, effect ⟨c.comp, c.freshSeq node event⟩ (c.update node event) = some node) ↔
      c.Revertible node event := by
  by_cases hins : c = insert
  · subst hins
    obtain ⟨cmdFn, seq⟩ := event
    obtain ⟨ds, hds, rfl⟩ := hk.2.2.1 he
    simp only [effect, comp, freshSeq, update, Revertible, deref, Option.getD_some,
      utf8Strlen_encode]
    exact forall_uninsertNode_updInsert_iff hd hds _ _
  · constructor
    · intro h
      exact (effect_comp_update_iff hins hk he hd hc).mp (h CLib.inPlace)
    · intro h _
      exact (effect_comp_update_iff hins hk he hd hc).mpr h

end EditingCmd

/-- A round of `cmd_undo` gives back the node, whatever the C library does. -/
def UndoGivesBack (s : Editor) (node : MsgNode) : Prop :=
  ∀ _ : CLib, ∃ s' updated, processEvent s (pressed .cmdUndo) = some (s', updated) ∧ s'.curr = node

lemma undoGivesBack_iff {s : Editor} {a : Action} {u : ActionStack} (ha : a.Ok)
    (hu : s.undoStack = some a :: u) (node : MsgNode) :
    UndoGivesBack s node ↔ ∀ _ : CLib, a.undoNode s.curr = some node := by
  refine forall_congr' fun _ => ?_
  have hspec := processEvent_undo (pressed_cmdFn .cmdUndo) ha hu
  rcases hn : a.undoNode s.curr with - | node'
  · simp only [hn] at hspec
    simp [hspec]
  · simp only [hn] at hspec
    obtain ⟨s', hs', hcurr, -⟩ := hspec
    simp [hs', hcurr]

/-- For every reachable state and every command that starts a new `Action` and has it pushed: an
undo right afterwards gives back the text, the cursor and the marker, whatever the C library does,
if and only if the command was revertible. -/
theorem undo_gives_back_iff [CLib] {s s₁ : Editor} (hs : Reachable s) (hd : s.curr.Defined)
    {c : EditingCmd} {event : InputEvent} (hk : KeyEvent event) (he : event.cmdFn = c.fn)
    (hnew : mergeTarget c.fn s.undoStack = none) (h : processEvent s event = some (s₁, true)) :
    UndoGivesBack s₁ s.curr ↔ c.Revertible s.curr event := by
  have hcalls := EditingCmd.calls_of_keyEvent hk he
  have hc : ¬ c.Stuck s.curr := by
    intro hc
    rw [processEvent_stuck hcalls hc] at h
    simp at h
  have hok := c.recorded_ok hs.historyOk hk he
  rw [processEvent_acted hcalls hc] at h
  simp only [Option.some.injEq, Prod.mk.injEq, and_true] at h
  subst h
  rw [undoGivesBack_iff hok rfl, ← c.forall_effect_comp_update_iff hk he hd hc,
    c.recorded_of_fresh he hnew]
  refine forall_congr' fun _ => ?_
  simp only [Action.undoNode, Action.undoEvent, c.getCompCmd_fn, Option.getD_some, effects,
    EditingCmd.performed]
  cases effect ⟨c.comp, c.freshSeq s.curr event⟩ (c.update s.curr event) <;> rfl

/-- The first character typed can be undone. -/
theorem undo_gives_back_typed :
    UndoGivesBack (after [typed [.ofChar 'a']]) start.curr := by
  have hk : KeyEvent (typed [.ofChar 'a']) := keyEvent_typed (by simp)
  have he : (typed [.ofChar 'a']).cmdFn = EditingCmd.insert.fn := rfl
  have hrun : processEvent start (typed [.ofChar 'a']) =
      some (after [typed [.ofChar 'a']], true) := by decide
  exact (undo_gives_back_iff ⟨start, initial_start, .refl⟩ (by decide) hk he rfl hrun).mpr
    (by decide)

/-- `a b` with the cursor before the `b`. -/
def beforeWord : List InputEvent :=
  [typed [.ofChar 'a', .ofChar ' ', .ofChar 'b'], pressed .cmdBackwardChar]

/-- A word motion forwards from the middle of the text: the undo leads to the start of the text. -/
theorem undo_forward_word_goes_to_start :
    Reachable (after beforeWord) ∧
    mergeTarget .cmdForwardWord (after beforeWord).undoStack = none ∧
    processEvent (after beforeWord) (pressed .cmdForwardWord) =
      some (after (beforeWord ++ [pressed .cmdForwardWord]), true) ∧
    ¬ UndoGivesBack (after (beforeWord ++ [pressed .cmdForwardWord])) (after beforeWord).curr := by
  refine ⟨reachable_after ?_ (by decide), by decide, by decide, ?_⟩
  · simp [beforeWord, keyEvent_typed, keyEvent_pressed]
  · intro h
    obtain ⟨s', updated, h, hcurr⟩ := h CLib.inPlace
    have hs : s' = after (beforeWord ++ [pressed .cmdForwardWord, pressed .cmdUndo]) := by
      have hrun : processEvent (after (beforeWord ++ [pressed .cmdForwardWord]))
          (pressed .cmdUndo) =
            some (after (beforeWord ++ [pressed .cmdForwardWord, pressed .cmdUndo]), true) := by
        decide
      rw [hrun] at h
      simp only [Option.some.injEq, Prod.mk.injEq] at h
      exact h.1.symm
    rw [hs] at hcurr
    exact absurd hcurr (by decide)

end Vjft.Term
