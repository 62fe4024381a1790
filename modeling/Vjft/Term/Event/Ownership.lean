import Vjft.Lib.Ledger
import Vjft.Term.Event.Effect

/-!
# Who owns an `Action` (`term/event.c`)

An `Action` is on one of the two stacks, or a function holds it: the one that popped it or made it.
`Action`s that a function drops are lost, and `clearStack` frees those of the redo stack.
-/

namespace Vjft.Term

/-- The objects on a stack. -/
def ids (stack : ActionStack) : List ℕ := stack.filterMap (Option.map Action.id)

/-- The object that a pointer tells, if it is not `NULL`. -/
def idOf (act : Option Action) : List ℕ := (act.map Action.id).toList

/-- The objects on the stacks, together with those that functions hold. -/
def Editor.ledger (s : Editor) (held : List ℕ) : Ledger :=
  ⟨held ++ (ids s.undoStack ++ ids s.redoStack), s.freed, s.created⟩

/-! ### The `Action`s that a round looks at -/

section Touched

variable [CLib]

/-- The `Action`s that a command reads or writes: the one on top of the undo stack, which `mngAct`
pops, and the one that the command returns. -/
def touchedByCall (s : Editor) (event : InputEvent) : List Action :=
  (popAction s.undoStack).1.toList ++
    match callCmd s event with
    | some (_, some act) => [act]
    | _ => []

/-- Those of the calls in `cmd_undo` and `cmd_redo`. -/
def touchedByCalls (event : InputEvent) : ℕ → Editor → List Action
  | 0, _ => []
  | n + 1, s => touchedByCall s event ++
    match callCmd s event with
    | some (s, _) => touchedByCalls event n s
    | none => []

/-- The `Action`s that a round of `processEvents` reads or writes in front of `clearStack`. -/
def touched (s : Editor) (event : InputEvent) : List Action :=
  if event.cmdFn = .cmdUndo then
    let (prevAction, undoStack) := popAction s.undoStack
    match prevAction with
    | none => []
    | some prevAction => prevAction ::
      match getCompCmd prevAction.cmdFn with
      | none => []
      | some undoCmd => touchedByCalls ⟨undoCmd, prevAction.seq⟩ prevAction.cnt { s with undoStack }
  else if event.cmdFn = .cmdRedo then
    let (nextAction, redoStack) := popAction s.redoStack
    match nextAction with
    | none => []
    | some nextAction => nextAction ::
      touchedByCalls ⟨nextAction.cmdFn, nextAction.seq⟩ nextAction.cnt { s with redoStack }
  else touchedByCall s event

end Touched

/-! ### One call -/

@[simp] lemma ids_cons (act : Option Action) (stack : ActionStack) :
    ids (act :: stack) = idOf act ++ ids stack := by
  cases act <;> rfl

lemma EditingCmd.id_adjust [CLib] (c : EditingCmd) (node : MsgNode) (event : InputEvent)
    (act : Action) : (c.adjust node event act).id = act.id := by
  cases c <;> simp only [adjust] <;> split_ifs <;> rfl

/-- The `Action` of `mngAct` is popped from the undo stack or made. -/
lemma ids_restOf (s : Editor) (event : InputEvent) (action : CmdFunc) :
    (∃ prev, mergeTarget action s.undoStack = some prev ∧
      ids s.undoStack = (takenAction s event action).id :: ids (restOf action s.undoStack)) ∨
    (mergeTarget action s.undoStack = none ∧ (takenAction s event action).id = s.created ∧
      ids (restOf action s.undoStack) = ids s.undoStack) := by
  rcases hs : s.undoStack with - | ⟨- | prev, next⟩
  · exact .inr ⟨rfl, by simp [takenAction, hs, mergeTarget], rfl⟩
  · exact .inr ⟨rfl, by simp [takenAction, hs, mergeTarget], rfl⟩
  · by_cases h : prev.cmdFn = action
    · exact .inl ⟨prev, by simp [mergeTarget, h], by simp [takenAction, hs, mergeTarget, restOf, h,
        idOf]⟩
    · exact .inr ⟨by simp [mergeTarget, h], by simp [takenAction, hs, mergeTarget, h],
        by simp [restOf, h]⟩

section Calls

variable [CLib]

/-- A command that records no `Action` leaves the objects where they are. -/
lemma callCmd_records_nothing {s t : Editor} {event : InputEvent} {r : Option Action}
    (hc : EditingCmd.ofFn event.cmdFn = none) (h : callCmd s event = some (t, r)) :
    r = none ∧ t.undoStack = s.undoStack ∧ t.redoStack = s.redoStack ∧ t.freed = s.freed ∧
      t.created = s.created := by
  cases hf : event.cmdFn <;> simp only [hf, EditingCmd.ofFn, reduceCtorEq] at hc
  case cmdUninsert =>
    simp only [callCmd, hf, cmdUninsert] at h
    split_ifs at h
    cases h
    exact ⟨rfl, rfl, rfl, rfl, rfl⟩
  case cmdGetBackToLinePos =>
    simp only [callCmd, hf, cmdGetBackToLinePos] at h
    split_ifs at h <;> cases h <;> exact ⟨rfl, rfl, rfl, rfl, rfl⟩
  case cmdEnter =>
    simp only [callCmd, hf, cmdEnter] at h
    split_ifs at h <;> cases h <;> exact ⟨rfl, rfl, rfl, rfl, rfl⟩
  case cmdConnect =>
    simp only [callCmd, hf, connectToServer] at h
    split_ifs at h <;> cases h <;> exact ⟨rfl, rfl, rfl, rfl, rfl⟩
  all_goals
    simp only [callCmd, hf] at h
    cases h
    exact ⟨rfl, rfl, rfl, rfl, rfl⟩

lemma EditingCmd.id_recorded (c : EditingCmd) (s : Editor) (event : InputEvent) :
    idOf (some (c.recorded s event)) = [(takenAction s event c.fn).id] := by
  rw [idOf, Option.map_some, EditingCmd.recorded, c.id_adjust]
  rfl

/-- What a call does to the objects: it pops at most the one that it returns, or makes that one. -/
lemma callCmd_ids {s t : Editor} {event : InputEvent} {r : Option Action}
    (h : callCmd s event = some (t, r)) :
    t.redoStack = s.redoStack ∧ t.freed = s.freed ∧
      ((idOf r ++ ids t.undoStack = ids s.undoStack ∧ t.created = s.created) ∨
        (idOf r = [s.created] ∧ ids t.undoStack = ids s.undoStack ∧
          t.created = s.created + 1)) := by
  cases hc : EditingCmd.ofFn event.cmdFn with
  | none =>
    obtain ⟨rfl, hundo, hredo, hfreed, hcreated⟩ := callCmd_records_nothing hc h
    refine ⟨hredo, hfreed, .inl ⟨?_, hcreated⟩⟩
    rw [hundo]
    rfl
  | some c =>
    rcases EditingCmd.calls_or_seq_eq_none (EditingCmd.fn_of_ofFn hc) with hcalls | ⟨hins, hnull⟩
    · rw [c.callCmd_eq s hcalls, Option.some_inj] at h
      split_ifs at h
      · cases h
        exact ⟨rfl, rfl, .inl ⟨rfl, rfl⟩⟩
      · cases h
        refine ⟨rfl, rfl, ?_⟩
        rcases ids_restOf s event c.fn with ⟨prev, hprev, hids⟩ | ⟨hnone, hnew, hids⟩
        · left
          rw [c.id_recorded, hids]
          exact ⟨rfl, by simp only [EditingCmd.performed, hprev]⟩
        · right
          rw [c.id_recorded, hnew]
          exact ⟨rfl, hids, by simp only [EditingCmd.performed, hnone]⟩
    · simp [callCmd, hins, cmdInsert, hnull] at h

end Calls

/-- What a function holds goes on the undo stack, or comes from there. -/
lemma undo_perm (x held undo redo : List ℕ) :
    (x ++ held ++ (undo ++ redo)).Perm (held ++ ((x ++ undo) ++ redo)) := by
  rw [List.append_assoc x undo, ← List.append_assoc held]
  exact List.perm_append_comm.append_right _

/-- What a function holds goes on the redo stack, or comes from there. -/
lemma redo_perm (x held undo redo : List ℕ) :
    (x ++ held ++ (undo ++ redo)).Perm (held ++ (undo ++ (x ++ redo))) := by
  refine (undo_perm x held undo redo).trans (List.Perm.append_left held ?_)
  rw [← List.append_assoc undo]
  exact List.perm_append_comm.append_right _

/-- What the function that calls a command holds is held still, and what is returned as well. -/
lemma callCmd_ledger [CLib] {s t : Editor} {event : InputEvent} {r : Option Action} {held : List ℕ}
    (hs : (s.ledger held).Ok) (h : callCmd s event = some (t, r)) :
    (t.ledger (idOf r ++ held)).Ok := by
  obtain ⟨hredo, hfreed, ⟨hids, hcreated⟩ | ⟨hr, hids, hcreated⟩⟩ := callCmd_ids h
  · rw [Editor.ledger, hredo, hfreed, hcreated]
    rw [Editor.ledger, ← hids] at hs
    exact hs.perm (undo_perm _ _ _ _)
  · rw [Editor.ledger, hredo, hfreed, hcreated, hr, hids]
    exact hs.create

/-- What a function drops is lost. -/
lemma Editor.ledger_drop {s : Editor} {dropped held : List ℕ}
    (h : (s.ledger (dropped ++ held)).Ok) : (s.ledger held).Ok := by
  refine h.subperm (List.Sublist.subperm ?_)
  exact (List.sublist_append_right dropped held).append_right _

lemma applyCmd_ledger [CLib] {event : InputEvent} {n : ℕ} {s t : Editor} {held : List ℕ}
    (hs : (s.ledger held).Ok) (h : applyCmd event n s = some t) :
    (t.ledger held).Ok := by
  induction n generalizing s with
  | zero =>
    cases h
    exact hs
  | succ n ih =>
    rw [applyCmd] at h
    obtain ⟨⟨s', r⟩, hcall, hrest⟩ := Option.bind_eq_some_iff.mp h
    exact ih (Editor.ledger_drop (callCmd_ledger hs hcall)) hrest

/-! ### One round -/

lemma ids_clearStack (freed : List ℕ) (stack : ActionStack) :
    clearStack freed stack = (ids stack).reverse ++ freed := by
  induction stack generalizing freed with
  | nil => rfl
  | cons act next ih =>
    rw [clearStack, ih, ids_cons]
    cases act with
    | none => rfl
    | some act => simp [freeAction, idOf]

/-- The `Action` on top of the undo stack is popped and held. -/
lemma ledger_pop_undo {s : Editor} {act : Option Action} {next : ActionStack} {held : List ℕ}
    (hstack : s.undoStack = act :: next) (hs : (s.ledger held).Ok) :
    (({ s with undoStack := next } : Editor).ledger (idOf act ++ held)).Ok := by
  rw [Editor.ledger, hstack, ids_cons] at hs
  exact hs.perm (undo_perm _ _ _ _)

lemma ledger_pop_redo {s : Editor} {act : Option Action} {next : ActionStack} {held : List ℕ}
    (hstack : s.redoStack = act :: next) (hs : (s.ledger held).Ok) :
    (({ s with redoStack := next } : Editor).ledger (idOf act ++ held)).Ok := by
  rw [Editor.ledger, hstack, ids_cons] at hs
  exact hs.perm (redo_perm _ _ _ _)

/-- What is held is pushed on the undo stack. -/
lemma ledger_push_undo {s : Editor} {act : Option Action} {held : List ℕ}
    (hs : (s.ledger (idOf act ++ held)).Ok) :
    (({ s with undoStack := pushAction s.undoStack act } : Editor).ledger held).Ok := by
  simp only [Editor.ledger, pushAction, ids_cons]
  exact hs.perm (undo_perm _ _ _ _).symm

lemma ledger_push_redo {s : Editor} {act : Option Action} {held : List ℕ}
    (hs : (s.ledger (idOf act ++ held)).Ok) :
    (({ s with redoStack := pushAction s.redoStack act } : Editor).ledger held).Ok := by
  simp only [Editor.ledger, pushAction, ids_cons]
  exact hs.perm (redo_perm _ _ _ _).symm

/-- The `Action` that is undone moves from one stack to the other. -/
lemma cmdUndo_ledger [CLib] {s t : Editor} {r : Option Action} (hs : (s.ledger []).Ok)
    (h : cmdUndo s = some (t, r)) : (t.ledger []).Ok := by
  rcases hstack : s.undoStack with - | ⟨- | prev, next⟩
  · simp only [cmdUndo, hstack, if_true] at h
    cases h
    exact hs
  · simp only [cmdUndo, hstack, reduceCtorEq, if_false, popAction] at h
    cases h
    exact ledger_pop_undo hstack hs
  · have hpop := ledger_pop_undo hstack hs
    simp only [cmdUndo, hstack, reduceCtorEq, if_false, popAction] at h
    cases hcomp : getCompCmd prev.cmdFn with
    | none =>
      simp only [hcomp] at h
      cases h
      exact ledger_push_undo hpop
    | some undoCmd =>
      simp only [hcomp] at h
      obtain ⟨u, hu, h⟩ := Option.bind_eq_some_iff.mp h
      cases h
      exact ledger_push_redo (applyCmd_ledger hpop hu)

lemma cmdRedo_ledger [CLib] {s t : Editor} {r : Option Action} (hs : (s.ledger []).Ok)
    (h : cmdRedo s = some (t, r)) : (t.ledger []).Ok := by
  rcases hstack : s.redoStack with - | ⟨- | act, next⟩
  · simp only [cmdRedo, hstack, if_true] at h
    cases h
    exact hs
  · simp only [cmdRedo, hstack, reduceCtorEq, if_false, popAction] at h
    cases h
    exact ledger_pop_redo hstack hs
  · have hpop := ledger_pop_redo hstack hs
    simp only [cmdRedo, hstack, reduceCtorEq, if_false, popAction] at h
    obtain ⟨u, hu, h⟩ := Option.bind_eq_some_iff.mp h
    cases h
    exact ledger_push_undo (applyCmd_ledger hpop hu)

/-- `clearStack` frees what is on the redo stack. -/
lemma ledger_clearStack {s : Editor} {held : List ℕ} (hs : (s.ledger held).Ok) :
    (({ s with redoStack := [], freed := clearStack s.freed s.redoStack } : Editor).ledger
      held).Ok := by
  simp only [Editor.ledger, ids_clearStack]
  apply Ledger.Ok.free
  apply hs.perm
  have hempty : ids [] = [] := rfl
  rw [hempty, List.append_nil, ← List.append_assoc held]
  exact List.perm_append_comm

/-- A round keeps the ledger in order. -/
lemma processEvent_ledger [CLib] {s s' : Editor} {event : InputEvent} {updated : Bool}
    (hs : (s.ledger []).Ok) (h : processEvent s event = some (s', updated)) :
    (s'.ledger []).Ok := by
  rw [processEvent] at h
  split_ifs at h
  · obtain ⟨⟨t, r⟩, ht, h⟩ := Option.bind_eq_some_iff.mp h
    cases h
    exact cmdUndo_ledger hs ht
  · obtain ⟨⟨t, r⟩, ht, h⟩ := Option.bind_eq_some_iff.mp h
    cases h
    exact cmdRedo_ledger hs ht
  · obtain ⟨⟨t, r⟩, ht, h⟩ := Option.bind_eq_some_iff.mp h
    have hcall := callCmd_ledger hs ht
    cases r with
    | none =>
      cases h
      exact hcall
    | some act =>
      cases h
      exact ledger_clearStack (ledger_push_undo hcall)

lemma processEvents_ledger [CLib] {s s' : Editor} {events : List InputEvent} {updated : Bool}
    (hs : (s.ledger []).Ok) (h : processEvents s events = some (s', updated)) :
    (s'.ledger []).Ok :=
  processEvents_preserves (fun _ _ _ _ _ ht hround => processEvent_ledger ht hround) hs h

/-! ### What a round looks at was not freed -/

lemma touchedByCall_notMem_freed [CLib] {s : Editor} {event : InputEvent} {held : List ℕ}
    {act : Action} (hs : (s.ledger held).Ok) (hact : act ∈ touchedByCall s event) :
    act.id ∉ s.freed := by
  rcases List.mem_append.mp hact with htop | hret
  · rcases hstack : s.undoStack with - | ⟨top, next⟩
    · simp [hstack, popAction] at htop
    · apply hs.notMem_freed
      have htop : top = some act := by simpa [hstack, popAction] using htop
      simp [hstack, htop, idOf]
  · split at hret
    · next t r hcall =>
      obtain rfl := List.mem_singleton.mp hret
      rw [← (callCmd_ids hcall).2.1]
      apply (callCmd_ledger hs hcall).notMem_freed
      simp [idOf]
    · simp at hret

lemma touchedByCalls_notMem_freed [CLib] {event : InputEvent} {n : ℕ} {s : Editor} {held : List ℕ}
    {act : Action} (hs : (s.ledger held).Ok) (hact : act ∈ touchedByCalls event n s) :
    act.id ∉ s.freed := by
  induction n generalizing s with
  | zero => simp [touchedByCalls] at hact
  | succ n ih =>
    rcases List.mem_append.mp hact with hcall | hrest
    · exact touchedByCall_notMem_freed hs hcall
    · split at hrest
      · next t r hcall =>
        rw [← (callCmd_ids hcall).2.1]
        exact ih (Editor.ledger_drop (callCmd_ledger hs hcall)) hrest
      · simp at hrest

lemma touched_notMem_freed [CLib] {s : Editor} {event : InputEvent} {act : Action}
    (hs : (s.ledger []).Ok) (hact : act ∈ touched s event) : act.id ∉ s.freed := by
  rw [touched] at hact
  split_ifs at hact
  · rcases hstack : s.undoStack with - | ⟨- | prev, next⟩
    · simp [hstack, popAction] at hact
    · simp [hstack, popAction] at hact
    · have hpop := ledger_pop_undo hstack hs
      simp only [hstack, popAction, List.mem_cons] at hact
      rcases hact with rfl | hact
      · exact hpop.notMem_freed (by simp [idOf])
      · split at hact
        · simp at hact
        · have hfreed := touchedByCalls_notMem_freed hpop hact
          exact hfreed
  · rcases hstack : s.redoStack with - | ⟨- | next, rest⟩
    · simp [hstack, popAction] at hact
    · simp [hstack, popAction] at hact
    · have hpop := ledger_pop_redo hstack hs
      simp only [hstack, popAction, List.mem_cons] at hact
      rcases hact with rfl | hact
      · exact hpop.notMem_freed (by simp [idOf])
      · have hfreed := touchedByCalls_notMem_freed hpop hact
        exact hfreed
  · exact touchedByCall_notMem_freed hs hact

/-! ### Runs -/

lemma Initial.ledger {s : Editor} (h : Initial s) : (s.ledger []).Ok := by
  rw [Editor.ledger, h.undoStack, h.redoStack, h.freed]
  exact Ledger.ok_empty

/-- After any events no `Action` is on the stacks twice, none of those on the stacks was freed,
none was freed twice, and the next round looks at no `Action` that was freed. -/
theorem processEvents_owned_once [CLib] {s₀ s : Editor} {events : List InputEvent} {updated : Bool}
    (h₀ : Initial s₀) (h : processEvents s₀ events = some (s, updated)) :
    (ids s.undoStack ++ ids s.redoStack).Nodup ∧
      (∀ id ∈ ids s.undoStack ++ ids s.redoStack, id ∉ s.freed) ∧ s.freed.Nodup ∧
      ∀ event, ∀ act ∈ touched s event, act.id ∉ s.freed := by
  have hs : (s.ledger []).Ok := processEvents_ledger h₀.ledger h
  refine ⟨hs.nodup_owned, ?_, hs.nodup_freed, ?_⟩
  · intro id hid
    exact hs.notMem_freed hid
  · intro event act hact
    exact touched_notMem_freed hs hact

/-- A character is typed, undone, redone and undone again, and the next one frees its `Action`. -/
def retyped : List InputEvent :=
  [typed [.ofChar 'a'], pressed .cmdUndo, pressed .cmdRedo, pressed .cmdUndo,
    typed [.ofChar 'b']]

theorem processEvents_owned_once_retyped :
    (after retyped).freed = [0] ∧
      (ids (after retyped).undoStack ++ ids (after retyped).redoStack).Nodup ∧
      (∀ id ∈ ids (after retyped).undoStack ++ ids (after retyped).redoStack,
        id ∉ (after retyped).freed) ∧
      (after retyped).freed.Nodup ∧
      ∀ event, ∀ act ∈ touched (after retyped) event, act.id ∉ (after retyped).freed :=
  ⟨by decide, processEvents_owned_once initial_start
    (show processEvents start retyped = some (after retyped, true) by decide)⟩

end Vjft.Term
