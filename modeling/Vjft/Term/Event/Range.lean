import Vjft.Term.Event.Refinement

/-!
# The cursor and the marker stay inside the text

The cursor is a position of the text, and the marker is one too or `-1`, the position that stands
for no marker. Most calls keep this, whatever the state. Those that do not are the ones that
shorten the text without pulling the marker back, the exchange of the cursor with a marker that is
not set, undos and redos that put back a position or bytes which do not fit the text any more, and
a `strcpy` that meets an overlap.
-/

namespace Vjft.Term

/-- A value of `marker_pos` that fits a text of `n` characters. -/
def IsMarker (m : ℤ) (n : ℕ) : Prop := m = -1 ∨ 0 ≤ m ∧ m ≤ n

instance (m : ℤ) (n : ℕ) : Decidable (IsMarker m n) := inferInstanceAs (Decidable (_ ∨ _))

/-- The cursor and the marker are positions of the text. -/
structure InRange (node : MsgNode) : Prop where
  cursor_nonneg : 0 ≤ node.cursorPos
  cursor_le : node.cursorPos ≤ utf8Strlen node.text
  marker : IsMarker node.markerPos (utf8Strlen node.text)

instance (node : MsgNode) : Decidable (InRange node) :=
  decidable_of_iff (0 ≤ node.cursorPos ∧ node.cursorPos ≤ utf8Strlen node.text ∧
      IsMarker node.markerPos (utf8Strlen node.text))
    ⟨fun ⟨h1, h2, h3⟩ => ⟨h1, h2, h3⟩, fun h => ⟨h.1, h.2, h.3⟩⟩

/-- Well-formed text with positions that fit it. -/
def Valid (node : MsgNode) : Prop := (∃ cs, node.text = utf8.encode cs) ∧ InRange node

lemma valid_nodeOf_iff {cs : List CodePoint} {p m : ℤ} :
    Valid (nodeOf cs p m) ↔ 0 ≤ p ∧ p ≤ cs.length ∧ IsMarker m cs.length := by
  constructor
  · rintro ⟨-, h1, h2, h3⟩
    simp only [nodeOf, utf8Strlen_encode] at h1 h2 h3
    exact ⟨h1, h2, h3⟩
  · rintro ⟨h1, h2, h3⟩
    refine ⟨⟨cs, rfl⟩, h1, ?_, ?_⟩
    · simpa only [nodeOf, utf8Strlen_encode] using h2
    · simpa only [nodeOf, utf8Strlen_encode] using h3

lemma valid_nodeOf_nil : Valid (nodeOf [] 0 (-1)) :=
  valid_nodeOf_iff.mpr ⟨le_rfl, le_rfl, .inl rfl⟩

lemma Valid.exists_nodeOf {node : MsgNode} (h : Valid node) :
    ∃ cs p m, node = nodeOf cs p m ∧ 0 ≤ p ∧ p ≤ cs.length ∧ IsMarker m cs.length := by
  obtain ⟨text, p, m⟩ := node
  obtain ⟨⟨cs, rfl⟩, hr⟩ := h
  exact ⟨cs, p, m, rfl, valid_nodeOf_iff.mp ⟨⟨cs, rfl⟩, hr⟩⟩

/-! ### Calls that keep the range -/

/-- `cmd_uninsert` with the bytes `seq` keeps the positions inside the text, unless it ends the
program: `strcpy` meets no overlap, the bytes in front of the cursor that it takes out are `j`
characters, and the cursor and the marker fit what is left. -/
def UninsertKeepsRange (seq : CStr) (node : MsgNode) : Prop :=
  seq.length ≤ utf8ByteOffset node.text node.cursorPos →
    node.behind.length < seq.length ∧
    ∃ j : ℕ, j ≤ node.cursorPos ∧
      utf8ByteOffset node.text (node.cursorPos - j) + seq.length =
        utf8ByteOffset node.text node.cursorPos ∧
      utf8Strlen seq ≤ node.cursorPos ∧
      node.cursorPos + j ≤ utf8Strlen node.text + utf8Strlen seq ∧
      IsMarker node.markerPos (utf8Strlen node.text - j)

/-- The calls, made `cnt` times, that keep the positions inside the text. -/
def KeepsRange (event : InputEvent) (cnt : ℕ) (node : MsgNode) : Prop :=
  match event.cmdFn with
  | .cmdUninsert => ∀ seq, event.seq = some seq → UninsertKeepsRange seq node
  | .cmdInsert => ∀ seq, event.seq = some seq → ∃ ds, seq = utf8.encode ds
  | .cmdBackspace =>
    node.cursorPos = 0 ∨
      node.markerPos + min (cntDel event) node.cursorPos ≤ utf8Strlen node.text
  | .cmdToggleCursor => Odd cnt → node.markerPos ≠ -1
  | .cmdSetMarker =>
    ∀ seq, event.seq = some seq → node.markerPos ≠ -1 ∨
      IsMarker (hexToInt (some seq)) (utf8Strlen node.text)
  | _ => True

/-- The commands that only move the cursor. -/
def IsMotion (c : EditingCmd) : Prop :=
  c ∈ [EditingCmd.backwardChar, .forwardChar, .forwardWord, .backwardWord, .toBeginningOfLine,
    .toEndOfLine]

/-- A motion leads to a position of the text and changes nothing else. -/
lemma exists_act_motion {c : EditingCmd} (hc : IsMotion c) {cs : List CodePoint} {p : ℤ}
    (hp : 0 ≤ p) (hle : p ≤ cs.length) (m : ℤ) (event : InputEvent) :
    ∃ q : ℤ, 0 ≤ q ∧ q ≤ cs.length ∧ c.act (nodeOf cs p m) event = nodeOf cs q m := by
  obtain ⟨i, rfl⟩ := Int.eq_ofNat_of_zero_le hp
  have hi : i ≤ cs.length := by omega
  -- the motions that are operations on a text buffer end at the cursor of a buffer
  have key : ∀ b : TextBuffer CodePoint, b.chars = cs →
      Shows (c.act (nodeOf cs i m) event) b → (c.act (nodeOf cs i m) event).markerPos = m →
      ∃ q : ℤ, 0 ≤ q ∧ q ≤ cs.length ∧ c.act (nodeOf cs i m) event = nodeOf cs q m := by
    intro b hb hshow hm
    refine ⟨b.cursor, by omega, ?_, ?_⟩
    · have := b.cursor_le
      rw [hb] at this
      omega
    · have h := hshow.eq_nodeOf
      rwa [hb, hm] at h
  have hmarker : ∀ {node : MsgNode}, node.markerPos = m → ∀ {c : EditingCmd},
      (c.update node event).markerPos = m → (c.act node event).markerPos = m := by
    intro node hnode c hup
    rw [EditingCmd.act]
    split_ifs
    · exact hnode
    · exact hup
  simp only [IsMotion, List.mem_cons, List.not_mem_nil, or_false] at hc
  rcases hc with rfl | rfl | rfl | rfl | rfl | rfl
  · refine key _ rfl (shows_backwardChar ⟨cs, i, hi⟩ m event) ?_
    rw [EditingCmd.act_backwardChar]
    rfl
  · refine key _ rfl (shows_forwardChar ⟨cs, i, hi⟩ m event) ?_
    rw [EditingCmd.act_forwardChar]
    rfl
  · exact key _ rfl (shows_forwardWord ⟨cs, i, hi⟩ m event) (hmarker rfl rfl)
  · exact key _ rfl (shows_backwardWord ⟨cs, i, hi⟩ m event) (hmarker rfl rfl)
  · by_cases h0 : EditingCmd.toBeginningOfLine.Stuck (nodeOf cs i m)
    · rw [EditingCmd.act, if_pos h0]
      exact ⟨i, hp, hle, rfl⟩
    · obtain ⟨q, hq0, hq⟩ := backToNewline_eq (nodeOf cs i m)
        (utf8ByteOffset (nodeOf cs i m).text (nodeOf cs i m).cursorPos)
        (utf8ByteOffset (nodeOf cs i m).text (nodeOf cs i m).cursorPos)
      rw [EditingCmd.act, if_neg h0, EditingCmd.update, updToBeginningOfLine, hq]
      simp only [nodeOf, utf8Strlen_encode] at hq0
      exact ⟨q, by omega, by omega, rfl⟩
  · refine key _ rfl (shows_toEndOfLine ⟨cs, i, hi⟩ m event) (hmarker rfl ?_)
    obtain ⟨q, hq⟩ := forwardToNewline_eq (nodeOf cs i m) (nodeOf cs i m).text.length
      (utf8ByteOffset (nodeOf cs i m).text (nodeOf cs i m).cursorPos)
    rw [EditingCmd.update, updToEndOfLine, hq]
    rfl

/-- The return to a stored position checks the position. -/
lemma valid_getBackNode {node : MsgNode} (h : Valid node) (event : InputEvent) :
    Valid (getBackNode node event) := by
  rw [getBackNode]
  split_ifs with hpos
  · exact h
  · obtain ⟨hcs, -, -, hm⟩ := h
    exact ⟨hcs, by simp only; omega, by simp only; omega, hm⟩

/-! ### One call -/

/-- A library may leave a text that starts in the middle of a character. -/
lemma not_exists_encode_eq : ¬ ∃ cs, ([0x80] : CStr) = utf8.encode cs := by
  rintro ⟨cs, hcs⟩
  have hhead := Utf8.not_isContinuation_headD cs
  rw [← hcs] at hhead
  exact hhead ⟨by decide, by decide⟩

lemma behind_nodeOf (cs : List CodePoint) (p m : ℤ) :
    (nodeOf cs p m).behind = utf8.encode (cs.drop p.toNat) := by
  simp only [MsgNode.behind, nodeOf, utf8ByteOffset_encode, utf8.drop_offset]

/-- `cmd_uninsert` without an overlap takes out `n` bytes: what is left is valid if and only if they
are whole characters and the positions fit. -/
lemma valid_taken_iff {cs : List CodePoint} {i n : ℕ} (hi : i ≤ cs.length)
    (hn : n ≤ utf8.offset cs i) {k m : ℤ} :
    Valid ⟨(utf8.encode cs).take (utf8.offset cs i - n) ++ utf8.encode (cs.drop i), i - k, m⟩ ↔
      ∃ j : ℕ, j ≤ i ∧ utf8.offset cs (i - j) + n = utf8.offset cs i ∧ k ≤ i ∧
        i + j ≤ cs.length + k ∧ IsMarker m (cs.length - j) := by
  have key : ∀ j ≤ i, utf8.offset cs (i - j) + n = utf8.offset cs i →
      (Valid ⟨(utf8.encode cs).take (utf8.offset cs i - n) ++ utf8.encode (cs.drop i),
        i - k, m⟩ ↔ k ≤ i ∧ i + j ≤ cs.length + k ∧ IsMarker m (cs.length - j)) := by
    intro j hj hoff
    rw [← hoff, Nat.add_sub_cancel, utf8.take_offset, ← utf8.encode_append]
    change Valid (nodeOf _ (i - k) m) ↔ _
    rw [valid_nodeOf_iff, List.length_append, List.length_take, List.length_drop,
      show min (i - j) cs.length + (cs.length - i) = cs.length - j by omega]
    refine and_congr (by omega) (and_congr ?_ Iff.rfl)
    omega
  constructor
  · intro h
    -- what is left in front is a text, so the bytes that go are whole characters
    obtain ⟨⟨cs', htext⟩, -⟩ := id h
    have hfront := (Utf8.exists_append_encode_iff _).mp ⟨cs', htext⟩
    have hle := utf8.offset_le cs i
    obtain ⟨l, -, hoff⟩ := (Utf8.isPrefixFree.exists_take_eq_iff (by omega)).mp hfront
    have hli : min l i ≤ i := min_le_right l i
    have hoff' : utf8.offset cs (i - (i - min l i)) + n = utf8.offset cs i := by
      rw [Nat.sub_sub_self hli]
      rcases le_total l i with hl | hl
      · rw [min_eq_left hl]
        omega
      · have hmono := utf8.offset_mono cs hl
        rw [min_eq_right hl]
        omega
    exact ⟨i - min l i, Nat.sub_le _ _, hoff', (key _ (Nat.sub_le _ _) hoff').mp h⟩
  · rintro ⟨j, hj, hoff, hfit⟩
    exact (key j hj hoff).mpr hfit

lemma forall_valid_uninsertNode_iff {node : MsgNode} (h : Valid node) {seq : CStr}
    (f : CmdFunc) :
    (∀ _ : CLib, ∀ node', uninsertNode node ⟨f, some seq⟩ = some node' → Valid node') ↔
      UninsertKeepsRange seq node := by
  rw [UninsertKeepsRange]
  rcases lt_or_ge (utf8ByteOffset node.text node.cursorPos) seq.length with hlt | hlen
  · refine iff_of_true (fun _ node' hn => ?_) (fun hle => absurd hle (not_le.mpr hlt))
    rw [uninsertNode_of_lt f hlt] at hn
    cases hn
  have hnode := fun lib : CLib => @uninsertNode_of_le lib node seq f hlen
  simp only [hnode, Option.some.injEq, forall_eq', hlen, true_implies]
  by_cases hbehind : node.behind.length < seq.length
  · have : Nonempty CLib := ⟨CLib.inPlace⟩
    simp only [hbehind, if_true, true_and, forall_const]
    obtain ⟨cs, p, m, rfl, hp, hle, -⟩ := h.exists_nodeOf
    obtain ⟨i, rfl⟩ := Int.eq_ofNat_of_zero_le hp
    simp only [behind_nodeOf]
    simp only [nodeOf, utf8ByteOffset_encode, utf8Strlen_encode, Int.toNat_natCast] at hlen ⊢
    rw [valid_taken_iff (by omega) hlen]
    refine exists_congr fun j => ?_
    have hsub : ((i : ℤ) - j).toNat = i - j := by omega
    have hj : (j : ℤ) ≤ i ↔ j ≤ i := Nat.cast_le
    rw [hsub, hj]
  · simp only [hbehind, if_false, false_and, iff_false, not_forall]
    refine ⟨⟨fun _ _ _ => [0x80], fun _ _ => none⟩, ?_⟩
    rintro ⟨htext, -⟩
    exact not_exists_encode_eq htext

/-- The calls that an `Action` makes once only. -/
def IsTextCall (f : CmdFunc) : Prop := f ∈ [CmdFunc.cmdInsert, .cmdUninsert, .cmdBackspace]

/-- The calls that always keep the positions inside the text. -/
lemma valid_effect [CLib] {event : InputEvent} {node node' : MsgNode} (h : Valid node)
    (hf : ¬ IsTextCall event.cmdFn) (hset : event.cmdFn ≠ .cmdSetMarker)
    (htoggle : event.cmdFn ≠ .cmdToggleCursor) (hn : effect event node = some node') :
    Valid node' := by
  rcases hc : EditingCmd.ofFn event.cmdFn with - | c
  · cases hcmd : event.cmdFn <;> simp only [hcmd, EditingCmd.ofFn, reduceCtorEq] at hc
    case cmdUninsert => exact absurd (by simp [IsTextCall, hcmd]) hf
    case cmdGetBackToLinePos =>
      simp only [effect, hcmd, Option.some.injEq] at hn
      exact hn ▸ valid_getBackNode h event
    all_goals
      simp only [effect, hcmd, EditingCmd.ofFn, Option.some.injEq] at hn
      exact hn ▸ h
  · have hfn := EditingCmd.fn_of_ofFn hc
    have hins : c ≠ .insert := by
      rintro rfl
      exact hf (by simp [IsTextCall, hfn, EditingCmd.fn])
    rw [effect_of_calls c (EditingCmd.calls_of_ne_insert hfn hins), Option.some.injEq] at hn
    subst hn
    obtain ⟨cs, p, m, rfl, hp, hle, hm⟩ := h.exists_nodeOf
    by_cases hmotion : IsMotion c
    · obtain ⟨q, hq, hqle, hact⟩ := exists_act_motion hmotion hp hle m event
      rw [hact, valid_nodeOf_iff]
      exact ⟨hq, hqle, hm⟩
    cases c <;> simp only [hfn, EditingCmd.fn] at hf hset htoggle
    case insert | backspace => exact absurd (by simp [IsTextCall]) hf
    case setMarker => exact absurd rfl hset
    case toggleCursor => exact absurd rfl htoggle
    case unsetMarker =>
      by_cases hstuck : EditingCmd.unsetMarker.Stuck (nodeOf cs p m)
      · rwa [EditingCmd.act, if_pos hstuck]
      · rw [EditingCmd.act, if_neg hstuck]
        exact valid_nodeOf_iff.mpr ⟨hp, hle, .inl rfl⟩
    all_goals exact absurd (by simp [IsMotion]) hmotion

lemma valid_act_insert_iff {node : MsgNode} (h : Valid node) {seq : CStr} (f : CmdFunc) :
    Valid (EditingCmd.insert.act node ⟨f, some seq⟩) ↔ ∃ ds, seq = utf8.encode ds := by
  obtain ⟨cs, p, m, rfl, hp, hle, hm⟩ := h.exists_nodeOf
  have hstuck : ¬ EditingCmd.insert.Stuck (nodeOf cs p m) := id
  rw [← EditingCmd.update_eq_act hstuck, EditingCmd.update]
  constructor
  · rintro ⟨htext, -⟩
    simp only [updInsert, nodeOf, deref, Option.getD_some, utf8ByteOffset_encode,
      utf8.take_offset, utf8.drop_offset] at htext
    exact (Utf8.exists_encode_append_iff _ _).mp htext
  · rintro ⟨ds, rfl⟩
    rw [updInsert_nodeOf, valid_nodeOf_iff]
    simp only [List.length_append, List.length_take, List.length_drop, IsMarker] at hm ⊢
    split_ifs <;> omega

lemma cntDel_nonneg (event : InputEvent) : 0 ≤ cntDel event := by
  rw [cntDel]
  split <;> omega

lemma valid_act_backspace_iff {node : MsgNode} (h : Valid node) (event : InputEvent) :
    Valid (EditingCmd.backspace.act node event) ↔ node.cursorPos = 0 ∨
      node.markerPos + min (cntDel event) node.cursorPos ≤ utf8Strlen node.text := by
  by_cases hstuck : EditingCmd.backspace.Stuck node
  · rw [EditingCmd.act, if_pos hstuck]
    exact iff_of_true h (.inl hstuck)
  · obtain ⟨cs, p, m, rfl, hp, hle, hm⟩ := h.exists_nodeOf
    have hcnt := cntDel_nonneg event
    rw [EditingCmd.act, if_neg hstuck, EditingCmd.update, updBackspace_nodeOf, valid_nodeOf_iff]
    simp only [EditingCmd.Stuck, nodeOf] at hstuck
    simp only [nodeOf, utf8Strlen_encode, List.length_append, List.length_take, List.length_drop,
      IsMarker] at hm ⊢
    omega

/-- Exchanging the cursor with the marker twice changes nothing. -/
lemma effects_toggleCursor [CLib] {event : InputEvent} (hf : event.cmdFn = .cmdToggleCursor) (n : ℕ)
    (node : MsgNode) :
    effects event n node = some (if Odd n then updToggleCursor node event else node) := by
  induction n with
  | zero => simp [effects]
  | succ n ih =>
    have hcalls : EditingCmd.toggleCursor.Calls event :=
      EditingCmd.calls_of_ne_insert hf (by decide)
    have hact : ∀ node, EditingCmd.toggleCursor.act node event = updToggleCursor node event :=
      fun node => if_neg (fun h => h)
    rw [effects_succ, ih, Option.bind_some, effect_of_calls _ hcalls, hact]
    by_cases hn : Odd n
    · rw [if_pos hn, if_neg (by simpa [Nat.odd_add_one] using hn)]
      rfl
    · rw [if_neg hn, if_pos (by simpa [Nat.odd_add_one] using hn)]

/-- Setting the marker once more changes nothing. -/
lemma effects_setMarker [CLib] {event : InputEvent} (hf : event.cmdFn = .cmdSetMarker) {n : ℕ}
    (hn : 1 ≤ n) (node : MsgNode) :
    effects event n node = some (EditingCmd.setMarker.act node event) := by
  have hcalls : EditingCmd.setMarker.Calls event :=
    EditingCmd.calls_of_ne_insert hf (by decide)
  obtain ⟨k, rfl⟩ := Nat.exists_eq_add_of_le' hn
  rw [effects, effect_of_calls _ hcalls, Option.bind_some]
  refine effects_of_fixed ?_ k
  rw [effect_of_calls _ hcalls, Option.some.injEq]
  by_cases hstuck : EditingCmd.setMarker.Stuck (EditingCmd.setMarker.act node event)
  · rw [EditingCmd.act, if_pos hstuck]
  · -- then the marker that was set is `-1`, and was so before
    by_cases hstuck' : EditingCmd.setMarker.Stuck node
    · have hact : EditingCmd.setMarker.act node event = node := if_pos hstuck'
      rw [hact, hact]
    · obtain ⟨text, p, m⟩ := node
      simp only [EditingCmd.Stuck, not_not] at hstuck hstuck'
      subst hstuck'
      rw [EditingCmd.act, if_neg (by simpa [EditingCmd.Stuck] using hstuck)]
      cases hseq : event.seq <;>
        simp [EditingCmd.act, EditingCmd.Stuck, EditingCmd.update, hseq, updSetMarker]

lemma valid_act_setMarker_iff {node : MsgNode} (h : Valid node) (event : InputEvent) :
    Valid (EditingCmd.setMarker.act node event) ↔ ∀ seq, event.seq = some seq →
      node.markerPos ≠ -1 ∨ IsMarker (hexToInt (some seq)) (utf8Strlen node.text) := by
  by_cases hstuck : EditingCmd.setMarker.Stuck node
  · rw [EditingCmd.act, if_pos hstuck]
    exact iff_of_true h fun _ _ => .inl hstuck
  · obtain ⟨cs, p, m, rfl, hp, hle, hm⟩ := h.exists_nodeOf
    rw [EditingCmd.act, if_neg hstuck]
    simp only [EditingCmd.Stuck, nodeOf, not_not] at hstuck
    rcases hseq : event.seq with - | seq
    · simp only [EditingCmd.update, hseq, updSetMarker, reduceCtorEq, false_implies,
        implies_true, iff_true]
      exact valid_nodeOf_iff.mpr ⟨hp, hle, .inr ⟨hp, hle⟩⟩
    · have hnode : EditingCmd.setMarker.update (nodeOf cs p m) event =
          nodeOf cs p (hexToInt (some seq)) := by
        simp only [EditingCmd.update, hseq, updSetMarker]
        rfl
      rw [hnode, valid_nodeOf_iff]
      simp [nodeOf, utf8Strlen_encode, hstuck, hp, hle]

section Effects

variable {event : InputEvent} {n : ℕ} {node node' : MsgNode}

/-- Calls whose outcome does not depend on the C library. -/
lemma forall_valid_effects_iff_of_eq {P : Prop} (hiff : Valid node' ↔ P)
    (heff : ∀ _ : CLib, effects event n node = some node') :
    (∀ _ : CLib, ∀ r, effects event n node = some r → Valid r) ↔ P := by
  constructor
  · intro hall
    exact hiff.mp (hall CLib.inPlace node' (heff _))
  · intro hP lib r hr
    rw [heff lib, Option.some.injEq] at hr
    exact hr ▸ hiff.mpr hP

lemma forall_valid_textCall_iff (hf : IsTextCall event.cmdFn) (h : Valid node) :
    (∀ _ : CLib, ∀ r, effects event 1 node = some r → Valid r) ↔ KeepsRange event 1 node := by
  obtain ⟨cmdFn, seq⟩ := event
  simp only [IsTextCall, List.mem_cons, List.not_mem_nil, or_false] at hf
  rcases hf with rfl | rfl | rfl
  · cases seq with
    | none => simp [KeepsRange, effects_one, effect_of_seq_eq_none]
    | some seq =>
      refine forall_valid_effects_iff_of_eq
        ((@valid_act_insert_iff node h seq .cmdInsert).trans ?_) fun _ => ?_
      · simp [KeepsRange]
      · rw [effects_one, effect_of_calls .insert (EditingCmd.calls_of_seq rfl rfl)]
  · cases seq with
    | none => simp [KeepsRange, effects_one, effect, uninsertNode]
    | some seq =>
      simp only [KeepsRange, effects_one, effect, Option.some.injEq, forall_eq']
      exact forall_valid_uninsertNode_iff h _
  · refine forall_valid_effects_iff_of_eq (valid_act_backspace_iff h _) fun _ => ?_
    rw [effects_one, effect_of_calls .backspace (EditingCmd.calls_of_ne_insert rfl (by decide))]

/-- The calls that no condition is on. -/
lemma valid_effects [CLib] (hf : ¬ IsTextCall event.cmdFn) (hset : event.cmdFn ≠ .cmdSetMarker)
    (htoggle : event.cmdFn ≠ .cmdToggleCursor) (h : Valid node)
    (heff : effects event n node = some node') : Valid node' := by
  induction n generalizing node with
  | zero => exact Option.some.inj heff ▸ h
  | succ n ih =>
    obtain ⟨node₁, h₁, heff⟩ := Option.bind_eq_some_iff.mp heff
    exact ih (valid_effect h hf hset htoggle h₁) heff

/-- A call, or one that is repeated, keeps the node valid whatever the C library does, if and only
if it keeps the range. -/
lemma forall_valid_effects_iff (hn : 1 ≤ n) (htext : IsTextCall event.cmdFn → n = 1)
    (h : Valid node) :
    (∀ _ : CLib, ∀ r, effects event n node = some r → Valid r) ↔ KeepsRange event n node := by
  by_cases hf : IsTextCall event.cmdFn
  · obtain rfl := htext hf
    exact forall_valid_textCall_iff hf h
  obtain ⟨cmdFn, seq⟩ := event
  by_cases hset : cmdFn = .cmdSetMarker
  · subst hset
    exact forall_valid_effects_iff_of_eq (valid_act_setMarker_iff h _) fun _ =>
      effects_setMarker rfl hn node
  by_cases htoggle : cmdFn = .cmdToggleCursor
  · subst htoggle
    refine forall_valid_effects_iff_of_eq ?_ fun _ => effects_toggleCursor rfl n node
    obtain ⟨cs, p, m, rfl, hp, hle, hm⟩ := h.exists_nodeOf
    split_ifs with hodd
    · change Valid (nodeOf cs m p) ↔ (Odd n → m ≠ -1)
      rw [valid_nodeOf_iff]
      simp only [IsMarker, hodd, true_implies] at hm ⊢
      omega
    · simp only [KeepsRange, hodd, false_implies, iff_true]
      exact h
  · have hkeep : KeepsRange ⟨cmdFn, seq⟩ n node := by
      cases cmdFn <;> simp only [KeepsRange]
      case cmdSetMarker => exact absurd rfl hset
      case cmdToggleCursor => exact absurd rfl htoggle
      all_goals simp [IsTextCall] at hf
    exact iff_of_true (fun _ r => valid_effects hf hset htoggle h) hkeep

end Effects

/-! ### Rounds that keep the range -/

lemma Action.Ok.cnt_undoEvent {a : Action} (ha : a.Ok) (hf : IsTextCall a.undoEvent.cmdFn) :
    a.cnt = 1 := by
  obtain ⟨c, hc⟩ := ha.cmdFn
  rw [Action.undoEvent_cmdFn hc] at hf
  cases c <;> simp [IsTextCall, EditingCmd.comp] at hf
  case insert => exact (ha.insert hc).1
  case backspace => exact (ha.backspace hc).1

lemma Action.Ok.cnt_redoEvent {a : Action} (ha : a.Ok) (hf : IsTextCall a.redoEvent.cmdFn) :
    a.cnt = 1 := by
  obtain ⟨c, hc⟩ := ha.cmdFn
  rw [Action.redoEvent, hc] at hf
  cases c <;> simp [IsTextCall, EditingCmd.fn] at hf
  case insert => exact (ha.insert hc).1
  case backspace => exact (ha.backspace hc).1

/-- The events that keep the positions inside the text: an event of a command does so if the call
does, an undo or a redo if the calls it makes do. -/
def StaysInRange (s : Editor) (event : InputEvent) : Prop :=
  match event.cmdFn with
  | .cmdUndo => ∀ a u, s.undoStack = some a :: u → KeepsRange a.undoEvent a.cnt s.curr
  | .cmdRedo => ∀ a r, s.redoStack = some a :: r → KeepsRange a.redoEvent a.cnt s.curr
  | _ => KeepsRange event 1 s.curr

/-- The node after the round, if the program is not ended. -/
def currAfter [CLib] (s : Editor) (event : InputEvent) : Option MsgNode :=
  (processEvent s event).map fun r => r.1.curr

section CurrAfter

variable [CLib] {s : Editor} {event : InputEvent}

lemma currAfter_of_calls {c : EditingCmd} (he : c.Calls event) :
    currAfter s event = some (c.act s.curr event) := by
  obtain ⟨s', updated, hs', hcurr⟩ := exists_processEvent_act c he
  rw [currAfter, hs', Option.map_some, hcurr]

lemma currAfter_undo {a : Action} {u : ActionStack} (he : event.cmdFn = .cmdUndo) (ha : a.Ok)
    (hu : s.undoStack = some a :: u) : currAfter s event = a.undoNode s.curr := by
  have hspec := processEvent_undo he ha hu
  rcases hn : a.undoNode s.curr with - | node
  · simp only [hn] at hspec
    rw [currAfter, hspec, Option.map_none]
  · simp only [hn] at hspec
    obtain ⟨s', hs', hcurr, -⟩ := hspec
    rw [currAfter, hs', Option.map_some, hcurr]

lemma currAfter_redo {a : Action} {r : ActionStack} (he : event.cmdFn = .cmdRedo) (ha : a.Ok)
    (hr : s.redoStack = some a :: r) : currAfter s event = a.redoNode s.curr := by
  have hspec := processEvent_redo he ha hr
  rcases hn : a.redoNode s.curr with - | node
  · simp only [hn] at hspec
    rw [currAfter, hspec, Option.map_none]
  · simp only [hn] at hspec
    obtain ⟨s', hs', hcurr, -⟩ := hspec
    rw [currAfter, hs', Option.map_some, hcurr]

/-- The events of no editing command leave the node as it is or empty it. -/
lemma valid_of_currAfter (hk : KeyEvent event) (hc : EditingCmd.ofFn event.cmdFn = none)
    (hundo : event.cmdFn ≠ .cmdUndo) (hredo : event.cmdFn ≠ .cmdRedo) (hv : Valid s.curr)
    {node : MsgNode} (h : currAfter s event = some node) : Valid node := by
  obtain ⟨⟨s', updated⟩, hs', rfl⟩ := Option.map_eq_some_iff.mp h
  cases moved_of_callCmd hk hc hundo hredo hs' with
  | idle _ curr _ _ => exact curr ▸ hv
  | sent _ _ curr _ _ =>
    simp only [curr]
    exact valid_nodeOf_nil
  | acted c he _ _ _ _ => 
    rw [he, c.ofFn_fn] at hc
    cases hc
  | dropped he _ _ _ => exact absurd he hundo
  | undone _ _ he _ _ _ _ => exact absurd he hundo
  | redone _ he _ _ _ => exact absurd he hredo

end CurrAfter

/-- An event keeps the node valid, whatever the C library does, if and only if it keeps the
positions inside the text. -/
lemma forall_valid_currAfter_iff {s : Editor} (hs : HistoryOk s) (hv : Valid s.curr)
    {event : InputEvent} (hk : KeyEvent event) :
    (∀ _ : CLib, ∀ node, currAfter s event = some node → Valid node) ↔ StaysInRange s event := by
  by_cases hundo : event.cmdFn = .cmdUndo
  · simp only [StaysInRange, hundo]
    rcases hu : s.undoStack with - | ⟨- | a, u⟩
    · refine iff_of_true (fun _ node hn => ?_) (by simp)
      simp only [currAfter, processEvent, if_pos hundo, cmdUndo, hu] at hn
      cases hn
      exact hv
    · refine iff_of_true (fun _ node hn => ?_) (by simp)
      simp only [currAfter, processEvent, if_pos hundo, cmdUndo, hu, popAction] at hn
      cases hn
      exact hv
    · have ha := hs.undo a (by simp [hu])
      have hnode := fun lib : CLib => @currAfter_undo lib s event a u hundo ha hu
      simp only [hnode]
      refine (forall_valid_effects_iff ha.one_le_cnt ha.cnt_undoEvent hv).trans ?_
      constructor
      · rintro hkeep b v hb
        cases hb
        exact hkeep
      · intro hkeep
        exact hkeep a u rfl
  by_cases hredo : event.cmdFn = .cmdRedo
  · simp only [StaysInRange, hredo]
    rcases hr : s.redoStack with - | ⟨act, r⟩
    · refine iff_of_true (fun _ node hn => ?_) (by simp)
      simp only [currAfter, processEvent, if_neg hundo, if_pos hredo, cmdRedo, hr] at hn
      cases hn
      exact hv
    · obtain ⟨a, rfl, ha⟩ := hs.redo act (by simp [hr])
      have hnode := fun lib : CLib => @currAfter_redo lib s event a r hredo ha hr
      simp only [hnode]
      refine (forall_valid_effects_iff ha.one_le_cnt ha.cnt_redoEvent hv).trans ?_
      constructor
      · rintro hkeep b v hb
        cases hb
        exact hkeep
      · intro hkeep
        exact hkeep a r rfl
  have hstays : StaysInRange s event ↔ KeepsRange event 1 s.curr := by
    rw [StaysInRange]
    split
    · next h => exact absurd h hundo
    · next h => exact absurd h hredo
    · rfl
  rw [hstays]
  rcases hc : EditingCmd.ofFn event.cmdFn with - | c
  · have hkeep : KeepsRange event 1 s.curr := by
      cases hf : event.cmdFn <;> simp only [hf, EditingCmd.ofFn, reduceCtorEq] at hc
      case cmdUninsert => exact absurd hf hk.1
      all_goals simp only [KeepsRange, hf]
    exact iff_of_true (fun _ node => valid_of_currAfter hk hc hundo hredo hv) hkeep
  · have hcalls := EditingCmd.calls_of_keyEvent hk (EditingCmd.fn_of_ofFn hc)
    rw [← forall_valid_effects_iff le_rfl (fun _ => rfl) hv]
    refine forall_congr' fun lib => ?_
    rw [currAfter_of_calls hcalls, effects_one, effect_of_calls c hcalls]

/-- A round whose event keeps the positions inside the text. -/
def RangeStep [CLib] (s s' : Editor) : Prop :=
  ∃ event updated, KeyEvent event ∧ StaysInRange s event ∧
    processEvent s event = some (s', updated)

section Runs

variable [CLib]

lemma RangeStep.step {s s' : Editor} (h : RangeStep s s') : Step s s' := by
  obtain ⟨event, updated, hk, -, hp⟩ := h
  exact ⟨event, updated, hk, hp⟩

lemma RangeStep.valid {s s' : Editor} (hs : HistoryOk s) (hv : Valid s.curr)
    (h : RangeStep s s') : Valid s'.curr := by
  obtain ⟨event, updated, hk, hstay, hp⟩ := h
  refine (forall_valid_currAfter_iff hs hv hk).mpr hstay inferInstance s'.curr ?_
  rw [currAfter, hp, Option.map_some]

end Runs

end Vjft.Term
