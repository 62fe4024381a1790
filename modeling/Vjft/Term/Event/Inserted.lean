import Vjft.Term.Event.Redo

/-!
# Where an insertion led to

`cmd_uninsert` takes for granted that the bytes of its `Action` are in front of the cursor. They are
if the text and the cursor are again those that the insertion led to. `Places` follows a run and
keeps what every insertion led to when it was made, continued or redone for the last time. It is no
part of the program, and it does not look at the marker.
-/

namespace Vjft.Term

/-- Where insertions led to, as far as it can be relied on. -/
abbrev Places := Action → Option (CStr × ℤ)

namespace Places

/-- Where an insertion leads to, which starts at a position of the text or goes on where the one
that it is merged into led to. -/
def inserted (s : Editor) (event : InputEvent) (l : Places) : Option (CStr × ℤ) :=
  match mergeTarget .cmdInsert s.undoStack with
  | none => if 0 ≤ s.curr.cursorPos then some (updInsert s.curr event).place else none
  | some prev => if l prev = some s.curr.place then some (updInsert s.curr event).place else none

/-- The places after a round: an insertion that is typed or redone leads to a new one. -/
def next [CLib] (s : Editor) (event : InputEvent) (l : Places) : Places :=
  match event.cmdFn with
  | .cmdInsert => Function.update l (EditingCmd.insert.recorded s event) (l.inserted s event)
  | .cmdRedo =>
    match s.redoStack with
    | some a :: _ =>
      if a.cmdFn = .cmdInsert then
        Function.update l a
          (if 0 ≤ s.curr.cursorPos then some (updInsert s.curr a.redoEvent).place else none)
      else l
    | _ => l
  | _ => l

end Places

/-- The bytes of the `Action` are in front of the cursor at the place. -/
def LedTo (a : Action) (place : CStr × ℤ) : Prop :=
  ∃ (cs ds : List CodePoint) (i : ℕ), a.seq = some (utf8.encode ds) ∧
    place = (utf8.encode (cs.take i ++ ds ++ cs.drop i), ((i + ds.length : ℕ) : ℤ))

/-- An insertion that goes on where the one before led to. -/
lemma LedTo.insert {node : MsgNode} {a b : Action} {ds : List CodePoint} {event : InputEvent}
    (h : LedTo a node.place) (hevent : event.seq = some (utf8.encode ds))
    (hb : b.seq = some (deref a.seq ++ utf8.encode ds)) : LedTo b (updInsert node event).place := by
  obtain ⟨cs, es, i, ha, hplace⟩ := h
  obtain ⟨text, p, m⟩ := node
  obtain ⟨f, seq⟩ := event
  obtain rfl : seq = some (utf8.encode ds) := hevent
  obtain ⟨rfl, rfl⟩ := Prod.mk.inj hplace
  refine ⟨cs, es ++ ds, i, ?_, ?_⟩
  · rw [hb, ha, utf8.encode_append]
    rfl
  · change (updInsert (nodeOf _ _ m) _).place = _
    rw [updInsert_nodeOf, Int.toNat_natCast, TextBuffer.take_insert, TextBuffer.drop_insert]
    simp only [MsgNode.place, nodeOf, List.append_assoc, List.length_append, Nat.cast_add,
      add_assoc]

section Step

variable [CLib] {s s' : Editor} {l : Places} {event : InputEvent}

/-- An insertion that is undone where it led to gives back a text without it. -/
lemma LedTo.undoNode {a : Action} {node : MsgNode} (ha : a.Ok) (hfn : a.cmdFn = .cmdInsert)
    (h : LedTo a node.place) (hbehind : node.behind.length < (deref a.seq).length) :
    ∃ cs ds es, a.seq = some (utf8.encode ds) ∧ node.text = utf8.encode (cs ++ ds ++ es) ∧
      utf8ByteOffset node.text node.cursorPos = (utf8.encode (cs ++ ds)).length ∧
      ∃ node', a.undoNode node = some node' ∧ node'.text = utf8.encode (cs ++ es) := by
  obtain ⟨cs, ds, i, hseq, hplace⟩ := h
  obtain ⟨text, p, m⟩ := node
  obtain ⟨rfl, rfl⟩ := Prod.mk.inj hplace
  have hoff : utf8ByteOffset (utf8.encode (cs.take i ++ ds ++ cs.drop i))
      ((i + ds.length : ℕ) : ℤ) = (utf8.encode (cs.take i ++ ds)).length := by
    rw [utf8ByteOffset_encode, Int.toNat_natCast, VarCode.offset, TextBuffer.take_insert]
  have hpost : MsgNode.behind ⟨utf8.encode (cs.take i ++ ds ++ cs.drop i),
      ((i + ds.length : ℕ) : ℤ), m⟩ = utf8.encode (cs.drop i) := by
    rw [MsgNode.behind, hoff, utf8.encode_append (cs.take i ++ ds), List.drop_left' rfl]
  have hev : a.undoEvent = ⟨.cmdUninsert, some (utf8.encode ds)⟩ := by
    rw [Action.undoEvent, hfn, hseq]
    rfl
  refine ⟨cs.take i, ds, cs.drop i, hseq, rfl, hoff, ?_⟩
  rw [hpost, hseq, deref, Option.getD_some] at hbehind
  rw [utf8.encode_append, utf8.encode_append, List.length_append] at hoff
  have hnode : a.undoNode ⟨utf8.encode (cs.take i ++ ds ++ cs.drop i), (i + ds.length : ℕ), m⟩ =
      uninsertNode ⟨utf8.encode (cs.take i ++ ds ++ cs.drop i), (i + ds.length : ℕ), m⟩
        ⟨.cmdUninsert, some (utf8.encode ds)⟩ := by
    rw [Action.undoNode, (ha.insert hfn).1, effects_one, hev]
    rfl
  rw [hnode, utf8.encode_append, utf8.encode_append, uninsertNode_append hoff, if_pos hbehind]
  exact ⟨_, rfl, (utf8.encode_append _ _).symm⟩

/-! ### One round -/

end Step

/-! ### Runs -/

section Runs

variable [CLib] {s : Editor} {l : Places}

end Runs

end Vjft.Term
