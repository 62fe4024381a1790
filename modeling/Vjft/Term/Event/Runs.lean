import Vjft.Term.Event.Redo

/-!
# Runs of one command

Events of one command that follow each other are merged into one `Action`. For insertions and for
motions by one character this `Action` stands for the whole run, so that it is undone and redone at
once, a run of insertions only if it puts in more bytes than there are behind the cursor.
-/

namespace Vjft.Term

open EditingCmd

/-! ### One more event of the same command -/

section OneEvent

variable [CLib] {c : EditingCmd} {s : Editor} {event : InputEvent}

/-- A fresh `Action` for the first event. -/
lemma exists_processEvent_fresh (he : c.Calls event) (hc : ¬ c.Stuck s.curr)
    (htop : mergeTarget c.fn s.undoStack = none) :
    ∃ s' id, processEvent s event = some (s', true) ∧ s'.curr = c.update s.curr event ∧
      s'.undoStack =
        some (c.adjust s.curr event ⟨id, c.fn, event.seq, 1⟩) :: restOf c.fn s.undoStack ∧
      s'.redoStack = [] := by
  refine ⟨_, s.created, processEvent_acted he hc, rfl, ?_, rfl⟩
  simp only [recorded, takenAction, htop, he.cmdFn]

/-- The `Action` of the run so far takes up the next event. -/
lemma exists_processEvent_merge {a : Action} {u : ActionStack} (he : c.Calls event)
    (hc : ¬ c.Stuck s.curr) (ha : a.cmdFn = c.fn) (hu : s.undoStack = some a :: u) :
    ∃ s', processEvent s event = some (s', true) ∧ s'.curr = c.update s.curr event ∧
      s'.undoStack = some (c.adjust s.curr event { a with cnt := a.cnt + 1 }) :: u ∧
      s'.redoStack = [] := by
  have htop : mergeTarget c.fn s.undoStack = some a := by rw [hu, mergeTarget, if_pos ha]
  have hrest : restOf c.fn s.undoStack = u := by rw [hu, restOf, if_pos ha]
  refine ⟨_, processEvent_acted he hc, rfl, ?_, rfl⟩
  simp only [recorded, takenAction, htop, hrest]

end OneEvent

lemma processEvents_cons [CLib] {s s' s'' : Editor} {event : InputEvent}
    {events : List InputEvent} {updated updated' : Bool}
    (h : processEvent s event = some (s', updated))
    (h' : processEvents s' events = some (s'', updated')) :
    processEvents s (event :: events) = some (s'', updated || updated') := by
  rw [processEvents, h]
  simp only [Option.bind_eq_bind, Option.bind_some, h']

/-! ### Undo and redo of a run -/

/-- `cmd_undo` gives back the text and the cursor of `before`, and `cmd_redo` then those of `s`,
whatever the C library does. -/
def UndoneAndRedone (s : Editor) (before : MsgNode) : Prop :=
  ∀ _ : CLib, ∃ t t', processEvent s (pressed .cmdUndo) = some (t, true) ∧
    t.curr.place = before.place ∧ processEvent t (pressed .cmdRedo) = some (t', true) ∧
    t'.curr.place = s.curr.place

section Round

variable {s : Editor} {a : Action} {u : ActionStack} {before : MsgNode}

lemma undoneAndRedone_of_nodes (ha : a.Ok) (hu : s.undoStack = some a :: u)
    (h : ∀ _ : CLib, a.undoNode s.curr = some before ∧ a.redoNode before = some s.curr) :
    UndoneAndRedone s before := by
  intro _
  obtain ⟨hback, hforth⟩ := h inferInstance
  have hundo := processEvent_undo (pressed_cmdFn .cmdUndo) ha hu
  rw [hback] at hundo
  obtain ⟨t, ht, hcurr, -, hstack⟩ := hundo
  have hredo := processEvent_redo (pressed_cmdFn .cmdRedo) ha hstack
  rw [hcurr, hforth] at hredo
  obtain ⟨t', ht', hcurr', -⟩ := hredo
  exact ⟨t, t', ht, hcurr ▸ rfl, ht', hcurr' ▸ rfl⟩

lemma UndoneAndRedone.undoNode (h : UndoneAndRedone s before) (ha : a.Ok)
    (hu : s.undoStack = some a :: u) (lib : CLib) :
    ∃ node, @Action.undoNode lib a s.curr = some node ∧ node.place = before.place := by
  obtain ⟨t, -, ht, hplace, -⟩ := h lib
  have hundo := processEvent_undo (pressed_cmdFn .cmdUndo) ha hu
  rcases hn : a.undoNode s.curr with - | node
  · simp only [hn] at hundo
    rw [hundo] at ht
    cases ht
  · simp only [hn] at hundo
    obtain ⟨t', ht', hcurr, -⟩ := hundo
    rw [ht'] at ht
    cases ht
    exact ⟨node, rfl, hcurr ▸ hplace⟩

end Round

/-! ### Runs of insertions -/

/-- The bytes that a run of insertions inserts. -/
def insertedSeq (events : List InputEvent) : CStr := events.flatMap fun event => deref event.seq

section Insertions

variable {cs : List CodePoint} {p mk : ℤ}

/-- The node after `ds` was inserted. -/
def insertedNode (cs : List CodePoint) (p mk : ℤ) (ds : List CodePoint) : MsgNode :=
  nodeOf (cs.take p.toNat ++ ds ++ cs.drop p.toNat) (p + ds.length) mk

/-- Inserting right behind inserted text. -/
lemma updInsert_insertedNode {ds : List CodePoint} (hp : 0 ≤ p) (hmk : mk < p + ds.length)
    (es : List CodePoint) (f : CmdFunc) :
    updInsert (insertedNode cs p mk ds) ⟨f, some (utf8.encode es)⟩ =
      insertedNode cs p mk (ds ++ es) := by
  have hpos : (p + ds.length).toNat = p.toNat + ds.length := by omega
  rw [insertedNode, insertedNode, updInsert_nodeOf, hpos, TextBuffer.take_insert,
    TextBuffer.drop_insert, if_neg (by omega), List.length_append,
    List.append_assoc (cs.take p.toNat)]
  push_cast
  rw [add_assoc]

section Rounds

variable [CLib]

/-- The events of a run of insertions put their bytes behind those inserted before. -/
lemma exists_processEvents_insert {events : List InputEvent}
    (he : ∀ e ∈ events, ∃ es : List CodePoint, es ≠ [] ∧ e = typed es) (hp : 0 ≤ p) {s : Editor}
    {a : Action} {u : ActionStack} {ds : List CodePoint} (hmk : mk < p + ds.length)
    (ha : a.cmdFn = .cmdInsert) (hcnt : a.cnt = 1) (hseq : a.seq = some (utf8.encode ds))
    (hu : s.undoStack = some a :: u) (hcurr : s.curr = insertedNode cs p mk ds) :
    ∃ s' updated a' es, processEvents s events = some (s', updated) ∧
      s'.undoStack = some a' :: u ∧ s'.curr = insertedNode cs p mk (ds ++ es) ∧
      utf8.encode es = insertedSeq events ∧ a'.cmdFn = .cmdInsert ∧ a'.cnt = 1 ∧
      a'.seq = some (utf8.encode (ds ++ es)) := by
  induction events generalizing s a ds with
  | nil =>
    refine ⟨s, false, a, [], rfl, hu, ?_, rfl, ha, hcnt, ?_⟩
    · rw [hcurr, List.append_nil]
    · rw [hseq, List.append_nil]
  | cons event events ih =>
    obtain ⟨⟨es, hes, rfl⟩, hrest⟩ := List.forall_mem_cons.1 he
    have hcalls : insert.Calls (typed es) := calls_of_seq rfl rfl
    obtain ⟨s₁, hs₁, hcurr₁, hu₁, -⟩ := exists_processEvent_merge hcalls id ha hu
    have hnode : s₁.curr = insertedNode cs p mk (ds ++ es) := by
      rw [hcurr₁, hcurr]
      exact updInsert_insertedNode hp hmk es _
    have hseq₁ : some (deref a.seq ++ deref (typed es).seq) =
        some (utf8.encode (ds ++ es)) := by
      rw [hseq, utf8.encode_append]
      rfl
    rw [adjust, if_pos (by simp [hcnt]), hseq₁] at hu₁
    have hmk₁ : mk < p + (ds ++ es).length := by
      rw [List.length_append]
      omega
    obtain ⟨s', updated, a', es', hs', hu', hcurr', hes', hfn, hcnt', hseq'⟩ :=
      ih hrest (a := { a with cnt := 1, seq := some (utf8.encode (ds ++ es)) }) hmk₁ ha rfl rfl
        hu₁ hnode
    refine ⟨s', true || updated, a', es ++ es', processEvents_cons hs₁ hs', hu', ?_, ?_, hfn,
      hcnt', ?_⟩
    · rw [hcurr', List.append_assoc]
    · rw [utf8.encode_append, hes']
      rfl
    · rw [hseq', List.append_assoc]

/-- The first insertion makes the `Action`. -/
lemma exists_processEvents_insert_fresh {s : Editor} {event : InputEvent} {events : List InputEvent}
    (he : ∀ e ∈ event :: events, ∃ es : List CodePoint, es ≠ [] ∧ e = typed es)
    (htop : mergeTarget .cmdInsert s.undoStack = none) (hcurr : s.curr = nodeOf cs p (-1))
    (hp : 0 ≤ p) :
    ∃ s' a ds, processEvents s (event :: events) = some (s', true) ∧
      s'.undoStack = some a :: restOf .cmdInsert s.undoStack ∧ ds ≠ [] ∧
      s'.curr = insertedNode cs p (-1) ds ∧ utf8.encode ds = insertedSeq (event :: events) ∧
      a.cmdFn = .cmdInsert ∧ a.cnt = 1 ∧ a.seq = some (utf8.encode ds) := by
  obtain ⟨⟨ds, hds, rfl⟩, hrest⟩ := List.forall_mem_cons.1 he
  have hlen := List.length_pos_iff.2 hds
  have hcalls : insert.Calls (typed ds) := calls_of_seq rfl rfl
  obtain ⟨s₁, id, hs₁, hcurr₁, hu₁, -⟩ := exists_processEvent_fresh hcalls (fun h => h) htop
  have hnode : s₁.curr = insertedNode cs p (-1) ds := by
    rw [hcurr₁, hcurr]
    refine (updInsert_nodeOf cs p (-1) ds _).trans ?_
    rw [if_neg (by omega)]
    rfl
  obtain ⟨s', updated, a, es, hs', hu', hcurr', hes, hfn, hcnt, hseq⟩ :=
    exists_processEvents_insert hrest hp (a := ⟨id, .cmdInsert, (typed ds).seq, 1⟩)
      (show (-1 : ℤ) < p + ds.length by omega) rfl rfl rfl hu₁ hnode
  refine ⟨s', a, ds ++ es, processEvents_cons hs₁ hs', hu', by simp [hds], hcurr', ?_, hfn, hcnt,
    hseq⟩
  rw [utf8.encode_append, hes]
  rfl

end Rounds

/-- The `Action` of a run of insertions is undone and redone if `strcpy` meets no overlap. -/
lemma undoneAndRedone_insertedNode_iff {s : Editor} {a : Action} {u : ActionStack}
    {ds : List CodePoint} (hp : 0 ≤ p) (hds : ds ≠ []) (hfn : a.cmdFn = .cmdInsert)
    (hcnt : a.cnt = 1) (hseq : a.seq = some (utf8.encode ds)) (hu : s.undoStack = some a :: u)
    (hcurr : s.curr = insertedNode cs p (-1) ds) :
    UndoneAndRedone s (nodeOf cs p (-1)) ↔
      (nodeOf cs p (-1)).behind.length < (utf8.encode ds).length := by
  have ha : a.Ok := by
    refine ⟨⟨.insert, hfn⟩, hcnt.ge, fun _ => ⟨hcnt, ds, hds, hseq⟩, ?_, ?_⟩ <;>
      · intro h
        rw [hfn] at h
        cases h
  have hlen := List.length_pos_iff.2 hds
  have hoff : utf8ByteOffset (utf8.encode (cs.take p.toNat) ++ utf8.encode ds ++
      utf8.encode (cs.drop p.toNat)) (p + ds.length) =
        (utf8.encode (cs.take p.toNat)).length + (utf8.encode ds).length := by
    rw [← utf8.encode_append, ← utf8.encode_append, utf8ByteOffset_encode,
      show (p + ds.length).toNat = p.toNat + ds.length by omega, VarCode.offset,
      TextBuffer.take_insert, utf8.encode_append, List.length_append]
  have hev : a.undoEvent = ⟨.cmdUninsert, some (utf8.encode ds)⟩ := by
    rw [Action.undoEvent, hfn, hseq]
    rfl
  have hundo : ∀ lib : CLib, @Action.undoNode lib a s.curr = some
      { text := if (utf8.encode (cs.drop p.toNat)).length < (utf8.encode ds).length
          then utf8.encode (cs.take p.toNat) ++ utf8.encode (cs.drop p.toNat)
          else lib.strcpyOverlap s.curr.text (utf8.encode (cs.take p.toNat)).length
            ((utf8.encode (cs.take p.toNat)).length + (utf8.encode ds).length)
        cursorPos := p
        markerPos := -1 } := by
    intro lib
    have hnode := uninsertNode_append (m := -1) hoff .cmdUninsert
    rw [utf8Strlen_encode, add_sub_cancel_right] at hnode
    rw [Action.undoNode, hcnt, effects_one, hev, hcurr, insertedNode, nodeOf, utf8.encode_append,
      utf8.encode_append]
    exact hnode
  rw [behind_nodeOf]
  constructor
  · intro h
    by_contra hover
    -- a library that leaves another text than the one from before
    obtain ⟨node, hnode, hplace⟩ := h.undoNode ha hu ⟨fun _ _ _ => utf8.encode cs ++ [1],
      fun _ _ => none⟩
    rw [hundo, if_neg hover, Option.some.injEq] at hnode
    have htext : utf8.encode cs ++ [1] = utf8.encode cs := by
      rw [← hnode] at hplace
      exact (Prod.mk.inj hplace).1
    simp at htext
  · intro hbehind
    refine undoneAndRedone_of_nodes ha hu fun lib => ⟨?_, ?_⟩
    · rw [hundo, if_pos hbehind, ← utf8.encode_append, List.take_append_drop]
      rfl
    · have hins : ¬ insert.Stuck (nodeOf cs p (-1)) := id
      have hredo : a.redoEvent = ⟨.cmdInsert, some (utf8.encode ds)⟩ := by
        rw [Action.redoEvent, hfn, hseq]
      rw [Action.redoNode, hcnt, effects_one, hredo, effect_of_calls insert (calls_of_seq rfl rfl),
        ← update_eq_act hins, update, updInsert_nodeOf, if_neg (by omega), hcurr]
      rfl

end Insertions

/-! ### Runs of motions by one character -/

/-- The distance that a motion by one character moves the cursor. -/
def EditingCmd.shift : EditingCmd → ℤ
  | .forwardChar => 1
  | .backwardChar => -1
  | _ => 0

/-- One motion and then `k` further ones. -/
lemma shift_add_one (c : EditingCmd) (q : ℤ) (k : ℕ) :
    q + c.shift * ((1 + k : ℕ) : ℤ) = q + c.shift + c.shift * k := by
  push_cast
  ring

section Motions

variable {c : EditingCmd} {cs : List CodePoint} {q mk : ℤ}

lemma calls_motion (hc : c = forwardChar ∨ c = backwardChar) {event : InputEvent}
    (he : event.cmdFn = c.fn) : c.Calls event := by
  refine calls_of_ne_insert he ?_
  rcases hc with rfl | rfl <;> decide

/-- The counter is all that a motion changes of an `Action`. -/
lemma adjust_motion [CLib] (hc : c = forwardChar ∨ c = backwardChar) (node : MsgNode)
    (event : InputEvent) (a : Action) : c.adjust node event a = a := by
  rcases hc with rfl | rfl <;> rfl

/-- A motion is stuck at the boundary of the text. -/
lemma stuck_motion_iff (hc : c = forwardChar ∨ c = backwardChar) (hq : 0 ≤ q)
    (hq' : q ≤ cs.length) :
    c.Stuck (nodeOf cs q mk) ↔ ¬ (0 ≤ q + c.shift ∧ q + c.shift ≤ cs.length) := by
  rcases hc with rfl | rfl
  · simp only [Stuck, geSize, nodeOf, utf8Strlen_encode, shift]
    omega
  · simp only [Stuck, nodeOf, shift]
    omega

lemma act_motion (hc : c = forwardChar ∨ c = backwardChar) (hq : 0 ≤ q + c.shift)
    (hq' : q + c.shift ≤ cs.length) (hq₀ : 0 ≤ q) (event : InputEvent) :
    c.act (nodeOf cs q mk) event = nodeOf cs (q + c.shift) mk := by
  rcases hc with rfl | rfl
  · simp only [shift] at hq hq'
    rw [act_forwardChar, if_pos]
    · rfl
    · simp only [nodeOf, utf8Strlen_encode]
      omega
  · simp only [shift] at hq hq'
    rw [act_backwardChar, if_pos]
    · rfl
    · simp only [nodeOf]
      omega

/-- A repeated motion that does not reach the boundary before its end. -/
lemma effects_motion [CLib] (hc : c = forwardChar ∨ c = backwardChar) {event : InputEvent}
    (he : event.cmdFn = c.fn) {k : ℕ} (hq : 0 ≤ q) (hq' : q ≤ cs.length)
    (hk : 0 ≤ q + c.shift * k) (hk' : q + c.shift * k ≤ cs.length) :
    effects event k (nodeOf cs q mk) = some (nodeOf cs (q + c.shift * k) mk) := by
  induction k generalizing q with
  | zero => simp [effects]
  | succ k ih =>
    have hone : 0 ≤ q + c.shift ∧ q + c.shift ≤ cs.length := by
      rcases hc with rfl | rfl <;> simp only [shift, Nat.cast_succ] at hk hk' ⊢ <;> omega
    have hsum := shift_add_one c q k
    rw [Nat.add_comm] at hsum
    rw [hsum] at hk hk' ⊢
    rw [effects, effect_of_calls c (calls_motion hc he), act_motion hc hone.1 hone.2 hq,
      Option.bind_some, ih hone.1 hone.2 hk hk']

/-- The `Action` of some motions is undone and redone. -/
lemma undoneAndRedone_motion (hc : c = forwardChar ∨ c = backwardChar) {s : Editor} {a : Action}
    {u : ActionStack} (hu : s.undoStack = some a :: u) (ha : a.cmdFn = c.fn) (hcnt : 1 ≤ a.cnt)
    (hq : 0 ≤ q) (hq' : q ≤ cs.length) (hk : 0 ≤ q + c.shift * a.cnt)
    (hk' : q + c.shift * a.cnt ≤ cs.length)
    (hcurr : s.curr = nodeOf cs (q + c.shift * a.cnt) mk) :
    UndoneAndRedone s (nodeOf cs q mk) := by
  have hok : a.Ok := by
    refine ⟨⟨c, ha⟩, hcnt, ?_, ?_, ?_⟩ <;>
      · intro h
        rw [ha] at h
        rcases hc with rfl | rfl <;> cases h
  refine undoneAndRedone_of_nodes hok hu fun _ => ⟨?_, ?_⟩
  · -- the complementary motion, from the other end
    obtain ⟨d, hd, hfn, hshift⟩ : ∃ d : EditingCmd, (d = forwardChar ∨ d = backwardChar) ∧
        a.undoEvent.cmdFn = d.fn ∧ d.shift = - c.shift := by
      rcases hc with rfl | rfl
      · exact ⟨backwardChar, .inr rfl, Action.undoEvent_cmdFn ha, rfl⟩
      · exact ⟨forwardChar, .inl rfl, Action.undoEvent_cmdFn ha, rfl⟩
    have hback : q + c.shift * a.cnt + d.shift * a.cnt = q := by
      rw [hshift]
      ring
    have heffects : effects a.undoEvent a.cnt (nodeOf cs (q + c.shift * a.cnt) mk) = _ :=
      effects_motion hd hfn hk hk' (hback.symm ▸ hq) (hback.symm ▸ hq')
    rw [hback] at heffects
    rw [hcurr]
    exact heffects
  · rw [hcurr]
    exact effects_motion hc ha hq hq' hk hk'

end Motions

/-- The number of events that change the current node. -/
def changes [CLib] (s : Editor) : List InputEvent → ℕ
  | [] => 0
  | event :: events =>
    match processEvent s event with
    | some (t, _) => (if t.curr = s.curr then 0 else 1) + changes t events
    | none => 0

lemma changes_cons [CLib] {s t : Editor} {event : InputEvent} {updated : Bool}
    (h : processEvent s event = some (t, updated)) (events : List InputEvent) :
    changes s (event :: events) = (if t.curr = s.curr then 0 else 1) + changes t events := by
  rw [changes, h]

section MotionRuns

variable {c : EditingCmd} {cs : List CodePoint} {q mk : ℤ} {s : Editor} {events : List InputEvent}

/-- The node moves by one character. -/
lemma update_motion (hc : c = forwardChar ∨ c = backwardChar) (hq : 0 ≤ q) (hq' : q ≤ cs.length)
    (hstuck : ¬ c.Stuck (nodeOf cs q mk)) (event : InputEvent) :
    c.update (nodeOf cs q mk) event = nodeOf cs (q + c.shift) mk ∧
      nodeOf cs (q + c.shift) mk ≠ nodeOf cs q mk ∧ 0 ≤ q + c.shift ∧
      q + c.shift ≤ cs.length := by
  have hin := hstuck
  rw [stuck_motion_iff hc hq hq', not_not] at hin
  refine ⟨?_, ?_, hin.1, hin.2⟩
  · rw [update_eq_act hstuck, act_motion hc hin.1 hin.2 hq]
  · intro h
    have hcursor := congrArg MsgNode.cursorPos h
    simp only [nodeOf] at hcursor
    rcases hc with rfl | rfl <;> simp [shift] at hcursor

/-- An event that moves the node counts. -/
lemma changes_motion [CLib] (hc : c = forwardChar ∨ c = backwardChar)
    (hcurr : s.curr = nodeOf cs q mk) (hq : 0 ≤ q) (hq' : q ≤ cs.length) {event : InputEvent}
    (hstuck : ¬ c.Stuck s.curr)
    {s₁ : Editor} (hs₁ : processEvent s event = some (s₁, true))
    (hcurr₁ : s₁.curr = c.update s.curr event) (events : List InputEvent) :
    s₁.curr = nodeOf cs (q + c.shift) mk ∧ 0 ≤ q + c.shift ∧ q + c.shift ≤ cs.length ∧
      changes s (event :: events) = 1 + changes s₁ events := by
  rw [hcurr] at hstuck hcurr₁
  obtain ⟨hupdate, hne, h0, h1⟩ := update_motion hc hq hq' hstuck event
  rw [hupdate] at hcurr₁
  refine ⟨hcurr₁, h0, h1, ?_⟩
  rw [changes_cons hs₁, hcurr₁, hcurr, if_neg hne]

/-- The events of a run of motions add to the counter what they move. -/
lemma exists_processEvents_motion [CLib] (hc : c = forwardChar ∨ c = backwardChar)
    (he : ∀ e ∈ events, e.cmdFn = c.fn) {a : Action} {u : ActionStack} (ha : a.cmdFn = c.fn)
    (hu : s.undoStack = some a :: u) (hcurr : s.curr = nodeOf cs q mk) (hq : 0 ≤ q)
    (hq' : q ≤ cs.length) :
    ∃ s' updated, processEvents s events = some (s', updated) ∧
      s'.undoStack = some { a with cnt := a.cnt + changes s events } :: u ∧
      s'.curr = nodeOf cs (q + c.shift * changes s events) mk ∧
      0 ≤ q + c.shift * changes s events ∧ q + c.shift * changes s events ≤ cs.length := by
  induction events generalizing s a q with
  | nil =>
    refine ⟨s, false, rfl, hu, ?_, ?_, ?_⟩ <;> simpa [changes]
  | cons event events ih =>
    obtain ⟨hevent, hrest⟩ := List.forall_mem_cons.1 he
    by_cases hstuck : c.Stuck s.curr
    · have hstep := processEvent_stuck (calls_motion hc hevent) hstuck
      obtain ⟨s', updated, hs', hrun⟩ := ih hrest ha hu hcurr hq hq'
      refine ⟨s', false || updated, processEvents_cons hstep hs', ?_⟩
      rw [changes_cons hstep, if_pos rfl, Nat.zero_add]
      exact hrun
    · obtain ⟨s₁, hs₁, hcurr₁, hu₁, -⟩ :=
        exists_processEvent_merge (calls_motion hc hevent) hstuck ha hu
      obtain ⟨hcurr₁, h0, h1, hcount⟩ :=
        changes_motion hc hcurr hq hq' hstuck hs₁ hcurr₁ events
      rw [adjust_motion hc] at hu₁
      obtain ⟨s', updated, hs', hu', hcurr', h0', h1'⟩ :=
        ih hrest (a := { a with cnt := a.cnt + 1 }) ha hu₁ hcurr₁ h0 h1
      refine ⟨s', true || updated, processEvents_cons hs₁ hs', ?_⟩
      have hsum := shift_add_one c q (changes s₁ events)
      rw [hcount, hsum, ← Nat.add_assoc]
      exact ⟨hu', hcurr', h0', h1'⟩

/-- The first event that moves makes the `Action`. -/
lemma exists_processEvents_motion_fresh [CLib] (hc : c = forwardChar ∨ c = backwardChar)
    (he : ∀ e ∈ events, e.cmdFn = c.fn) (htop : mergeTarget c.fn s.undoStack = none)
    (hcurr : s.curr = nodeOf cs q mk) (hq : 0 ≤ q) (hq' : q ≤ cs.length)
    (hchanges : 0 < changes s events) :
    ∃ s' a, processEvents s events = some (s', true) ∧
      s'.undoStack = some a :: restOf c.fn s.undoStack ∧ a.cmdFn = c.fn ∧
      a.cnt = changes s events ∧ s'.curr = nodeOf cs (q + c.shift * a.cnt) mk ∧
      0 ≤ q + c.shift * a.cnt ∧ q + c.shift * a.cnt ≤ cs.length := by
  induction events with
  | nil => cases hchanges
  | cons event events ih =>
    obtain ⟨hevent, hrest⟩ := List.forall_mem_cons.1 he
    by_cases hstuck : c.Stuck s.curr
    · have hstep := processEvent_stuck (calls_motion hc hevent) hstuck
      rw [changes_cons hstep, if_pos rfl, Nat.zero_add] at hchanges ⊢
      obtain ⟨s', a, hs', hrun⟩ := ih hrest hchanges
      exact ⟨s', a, processEvents_cons hstep hs', hrun⟩
    · obtain ⟨s₁, id, hs₁, hcurr₁, hu₁, -⟩ :=
        exists_processEvent_fresh (calls_motion hc hevent) hstuck htop
      obtain ⟨hcurr₁, h0, h1, hcount⟩ :=
        changes_motion hc hcurr hq hq' hstuck hs₁ hcurr₁ events
      rw [adjust_motion hc] at hu₁
      obtain ⟨s', updated, hs', hu', hcurr', h0', h1'⟩ :=
        exists_processEvents_motion hc hrest rfl hu₁ hcurr₁ h0 h1
      have hsum := shift_add_one c q (changes s₁ events)
      rw [← hsum] at hcurr' h0' h1'
      exact ⟨s', _, processEvents_cons hs₁ hs', hu', rfl, hcount.symm, hcurr', h0', h1'⟩

end MotionRuns

/-! ### A run is undone and redone as one step -/

/-- An event of the command; an insertion comes with the bytes of characters. -/
def RunEvent (c : EditingCmd) (event : InputEvent) : Prop :=
  event.cmdFn = c.fn ∧ (c = .insert → ∃ es : List CodePoint, es ≠ [] ∧
    event.seq = some (utf8.encode es))

/-- Events of one insertion or motion, at least one of which has an effect, leave one `Action`. An
undo and a redo then restore the text and the cursor from before the run and those from after it,
whatever the C library does, if and only if insertions have put in more bytes than there are behind
the cursor. -/
theorem run_undo_redo_iff [CLib] {c : EditingCmd}
    (hc : c = .insert ∨ c = .forwardChar ∨ c = .backwardChar) {s : Editor} {cs : List CodePoint}
    {p : ℤ} (hcurr : s.curr = nodeOf cs p (-1)) (hp : 0 ≤ p) (hp' : p ≤ cs.length)
    (htop : mergeTarget c.fn s.undoStack = none) {events : List InputEvent}
    (he : ∀ e ∈ events, RunEvent c e) (hchanges : 0 < changes s events) :
    ∃ s' a, processEvents s events = some (s', true) ∧
      s'.undoStack = some a :: restOf c.fn s.undoStack ∧
      (c = .insert → a.cnt = 1 ∧ a.seq = some (insertedSeq events)) ∧
      (c ≠ .insert → a.cnt = changes s events) ∧
      (UndoneAndRedone s' s.curr ↔
        (c = .insert → s.curr.behind.length < (insertedSeq events).length)) := by
  by_cases hins : c = .insert
  · subst hins
    have htyped : ∀ e ∈ events, ∃ es : List CodePoint, es ≠ [] ∧ e = typed es := by
      intro e hmem
      obtain ⟨hfn, hseq⟩ := he e hmem
      obtain ⟨es, hes, hseq⟩ := hseq rfl
      obtain ⟨cmdFn, seq⟩ := e
      exact ⟨es, hes, by rw [typed, InputEvent.mk.injEq]; exact ⟨hfn, hseq⟩⟩
    cases events with
    | nil => cases hchanges
    | cons event events =>
      obtain ⟨s', a, ds, hs', hu', hds, hnode, hseq, hfn, hcnt, haseq⟩ :=
        exists_processEvents_insert_fresh htyped htop hcurr hp
      refine ⟨s', a, hs', hu', fun _ => ⟨hcnt, hseq ▸ haseq⟩, fun h => absurd rfl h, ?_⟩
      rw [hcurr, undoneAndRedone_insertedNode_iff hp hds hfn hcnt haseq hu' hnode, hseq]
      exact ⟨fun h _ => h, fun h => h rfl⟩
  · have hmotion := hc.resolve_left hins
    obtain ⟨s', a, hs', hu', hfn, hcnt, hnode, h0, h1⟩ :=
      exists_processEvents_motion_fresh hmotion (fun e hmem => (he e hmem).1) htop hcurr hp hp'
        hchanges
    refine ⟨s', a, hs', hu', fun h => absurd h hins, fun _ => hcnt, ?_⟩
    have hone : 1 ≤ a.cnt := by omega
    rw [hcurr]
    exact iff_of_true (undoneAndRedone_motion hmotion hu' hfn hone hp hp' h0 h1 hnode)
      (fun h => absurd h hins)

/-- Three motions on a text of two characters, the last of which is blocked. -/
theorem run_undo_redo_ab :
    let s : Editor := { start with curr := nodeOf [.ofChar 'a', .ofChar 'b'] 0 (-1) }
    ∃ s' a, processEvents s (List.replicate 3 (pressed .cmdForwardChar)) = some (s', true) ∧
      s'.undoStack = [some a, none] ∧ a.cnt = 2 ∧ UndoneAndRedone s' s.curr := by
  intro s
  have hcount : changes s (List.replicate 3 (pressed .cmdForwardChar)) = 2 := by decide
  have hevents : ∀ e ∈ List.replicate 3 (pressed .cmdForwardChar), RunEvent .forwardChar e := by
    intro e he
    rw [List.eq_of_mem_replicate he]
    exact ⟨rfl, fun h => by cases h⟩
  obtain ⟨s', a, hs', hu, -, hcnt, hiff⟩ :=
    run_undo_redo_iff (.inr (.inl rfl)) (s := s) rfl le_rfl (by decide) rfl hevents
      (hcount ▸ Nat.two_pos)
  exact ⟨s', a, hs', hu, (hcnt (by decide)).trans hcount, hiff.mpr fun h => by cases h⟩

/-- A C library whose `strcpy` copies four bytes, the terminator among them or not, and then the
last four ones, which it reads only now. -/
abbrev CLib.twoWords : CLib where
  strcpyOverlap text dest src :=
    let buf := text ++ [0]
    let last := buf.length - src - 4
    let buf := buf.take dest ++ (buf.drop src).take 4 ++ buf.drop (dest + 4)
    let buf := buf.take (dest + last) ++ (buf.drop (src + last)).take 4 ++
      buf.drop (dest + last + 4)
    buf.takeWhile (· ≠ 0)
  movedSeq _ _ := none

/-- `abcd` with the cursor in front of it. -/
def beforeAbcd : List InputEvent :=
  [typed [.ofChar 'a', .ofChar 'b', .ofChar 'c', .ofChar 'd'], pressed .cmdToBeginningOfLine]

/-- A blank in front of `abcd`: undoing its insertion leaves `acdd`. -/
theorem run_undo_spoils_text :
    Reachable (after beforeAbcd) ∧
    (after beforeAbcd).curr =
      nodeOf [.ofChar 'a', .ofChar 'b', .ofChar 'c', .ofChar 'd'] 0 (-1) ∧
    mergeTarget .cmdInsert (after beforeAbcd).undoStack = none ∧
    processEvents (after beforeAbcd) [typed [.ofChar ' ']] =
      some (after (beforeAbcd ++ [typed [.ofChar ' ']]), true) ∧
    ∃ t, @processEvent CLib.twoWords (after (beforeAbcd ++ [typed [.ofChar ' ']]))
        (pressed .cmdUndo) = some (t, true) ∧
      t.curr.text = utf8.encode [.ofChar 'a', .ofChar 'c', .ofChar 'd', .ofChar 'd'] := by
  refine ⟨reachable_after ?_ (by decide), by decide, by decide, by decide, ?_⟩
  · simp [beforeAbcd, keyEvent_typed, keyEvent_pressed]
  · have hrun : ((@processEvent CLib.twoWords (after (beforeAbcd ++ [typed [.ofChar ' ']]))
        (pressed .cmdUndo)).map fun r => (r.1.curr.text, r.2)) =
          some (utf8.encode [.ofChar 'a', .ofChar 'c', .ofChar 'd', .ofChar 'd'], true) := by
      decide
    obtain ⟨⟨t, updated⟩, ht, heq⟩ := Option.map_eq_some_iff.mp hrun
    obtain ⟨htext, rfl⟩ := Prod.mk.inj heq
    exact ⟨t, ht, htext⟩

end Vjft.Term
