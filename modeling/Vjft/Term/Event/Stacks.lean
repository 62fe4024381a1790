import Vjft.Term.Event.Round

/-!
# Undo, redo and the two stacks

`cmd_undo` runs the complementary command after it has popped the `Action`, so `mngAct` works on
the rest of the undo stack: it swallows the top of the rest when this is an `Action` of the same
command, and leaves a `NULL` behind when the rest is empty. The same holds of `cmd_redo` and the
command that is done again. The stacks move by exactly one `Action` when neither happens.
-/

namespace Vjft.Term

/-! ### What `mngAct` leaves behind -/

lemma restOf_eq_self_iff {action : CmdFunc} {u : ActionStack} :
    restOf action u = u ↔ u ≠ [] ∧ mergeTarget action u = none := by
  rcases u with - | ⟨- | top, next⟩
  · simp [restOf]
  · simp [restOf, mergeTarget]
  · by_cases h : top.cmdFn = action
    · simp [restOf, mergeTarget, h]
    · simp [restOf, mergeTarget, h]

/-- The number of `Action`s on a stack; a `NULL` is none. -/
def countActions (u : ActionStack) : ℕ := u.countP Option.isSome

lemma countActions_restOf_le (action : CmdFunc) (u : ActionStack) :
    countActions (restOf action u) ≤ countActions u := by
  rcases u with - | ⟨- | top, next⟩
  · simp [restOf, countActions]
  · simp [restOf]
  · rw [restOf]
    split_ifs
    · simp [countActions]
    · exact le_rfl

/-- Swallowing the top loses an `Action`. -/
lemma countActions_restOf_lt {action : CmdFunc} {u : ActionStack} {top : Action}
    (h : mergeTarget action u = some top) : countActions (restOf action u) < countActions u := by
  rcases u with - | ⟨- | top', next⟩
  · simp [mergeTarget] at h
  · simp [mergeTarget] at h
  · rw [mergeTarget] at h
    split_ifs at h with ht
    simp [restOf, ht, countActions]

section Calls

variable [CLib]

lemma countActions_stackEffects_le (event : InputEvent) (n : ℕ) (node : MsgNode)
    (u : ActionStack) : countActions (stackEffects event n node u) ≤ countActions u := by
  induction n generalizing node u with
  | zero => exact le_rfl
  | succ n ih =>
    rw [stackEffects]
    split
    · refine (ih _ _).trans ?_
      rw [stackEffect]
      split
      · split_ifs
        · exact le_rfl
        · exact countActions_restOf_le _ _
      · exact le_rfl
    · exact le_rfl

/-- A stack that `mngAct` does not change stays as it is. -/
lemma stackEffects_of_restOf_eq {event : InputEvent} {u : ActionStack}
    (h : restOf event.cmdFn u = u) (n : ℕ) (node : MsgNode) :
    stackEffects event n node u = u := by
  induction n generalizing node with
  | zero => rfl
  | succ n ih =>
    have hstack : stackEffect event node u = u := by
      rw [stackEffect]
      split
      · rw [h, ite_self]
      · rfl
    rw [stackEffects]
    split
    · rw [hstack, ih]
    · rfl

end Calls

/-- Calling `cmdFn` at `node` leaves the undo stack `u` alone: the command does not use `mngAct`,
or returns before it does, or `mngAct` has something to push back that it does not merge into. -/
def LeavesAlone (cmdFn : CmdFunc) (node : MsgNode) (u : ActionStack) : Prop :=
  match EditingCmd.ofFn cmdFn with
  | none => True
  | some c => c.Stuck node ∨ (u ≠ [] ∧ mergeTarget cmdFn u = none)

instance (cmdFn : CmdFunc) (node : MsgNode) (u : ActionStack) :
    Decidable (LeavesAlone cmdFn node u) := by
  unfold LeavesAlone
  split <;> infer_instance

lemma stackEffects_eq_self_iff [CLib] {event : InputEvent} {n : ℕ} (hn : 1 ≤ n)
    (hins : event.cmdFn = .cmdInsert → event.seq ≠ none) (node : MsgNode) (u : ActionStack) :
    stackEffects event n node u = u ↔ LeavesAlone event.cmdFn node u := by
  rcases hc : EditingCmd.ofFn event.cmdFn with - | c
  · have hstack : ∀ n node, stackEffects event n node u = u := by
      intro n
      induction n with
      | zero =>
        intro _
        rfl
      | succ n ih =>
        intro node
        rw [stackEffects]
        split
        · rw [stackEffect, hc]
          exact ih _
        · rfl
    simp only [hstack, LeavesAlone, hc]
  · have hf := EditingCmd.fn_of_ofFn hc
    have hcalls : c.Calls event :=
      ⟨hf, fun h => hins (hf.trans (congrArg EditingCmd.fn h))⟩
    by_cases hstuck : c.Stuck node
    · -- a stuck command stays stuck, since the node stays the same
      have hstack : ∀ n, stackEffects event n node u = u := by
        intro n
        induction n with
        | zero => rfl
        | succ n ih =>
          rw [stackEffects, effect_of_calls c hcalls, EditingCmd.act, if_pos hstuck,
            stackEffect_of_fn c hf, if_pos hstuck]
          exact ih
      simp only [hstack, LeavesAlone, hc, hstuck, true_or]
    · simp only [LeavesAlone, hc, hstuck, false_or, ← restOf_eq_self_iff]
      refine ⟨?_, fun h => stackEffects_of_restOf_eq h n node⟩
      intro h
      obtain ⟨m, rfl⟩ := Nat.exists_eq_add_of_le' hn
      rw [stackEffects, effect_of_calls c hcalls, stackEffect_of_fn c hf, if_neg hstuck, ← hf] at h
      simp only at h
      by_contra hne
      rw [restOf_eq_self_iff, not_and] at hne
      by_cases hu : u = []
      · -- the `NULL` pushed on the empty stack stays there
        subst hu
        have hnull : restOf event.cmdFn [none] = [none] := rfl
        change stackEffects event m _ [none] = [] at h
        rw [stackEffects_of_restOf_eq hnull] at h
        cases h
      · obtain ⟨top, htop⟩ := Option.ne_none_iff_exists'.mp (hne hu)
        have hlt := countActions_restOf_lt htop
        have hle := countActions_stackEffects_le event m (c.act node event)
          (restOf event.cmdFn u)
        rw [h] at hle
        omega

/-! ### One undo, one redo -/

section Ends

variable [CLib]

/-- Only `cmd_uninsert` can end the program, and the commands that take bytes if there are none. -/
lemma effect_eq_none_iff {event : InputEvent} {node : MsgNode} :
    effect event node = none ↔
      (event.cmdFn = .cmdUninsert ∧ (event.seq = none ∨
        utf8ByteOffset node.text node.cursorPos < (deref event.seq).length)) ∨
      (event.cmdFn = .cmdInsert ∧ event.seq = none) := by
  rcases hc : EditingCmd.ofFn event.cmdFn with - | c
  · cases hf : event.cmdFn <;> simp only [hf, EditingCmd.ofFn, reduceCtorEq] at hc
    case cmdUninsert =>
      simp only [effect, hf, uninsertNode, true_and]
      split_ifs with h <;> simp [h]
    all_goals simp [effect, hf, EditingCmd.ofFn]
  · have hf := EditingCmd.fn_of_ofFn hc
    have hne : event.cmdFn ≠ .cmdUninsert := by
      rw [hf]
      cases c <;> simp [EditingCmd.fn]
    simp only [hne, false_and, false_or]
    rcases EditingCmd.calls_or_seq_eq_none hf with hcalls | ⟨hins, hnull⟩
    · rw [effect_of_calls c hcalls]
      simp only [reduceCtorEq, false_iff, not_and]
      intro hins
      exact hcalls.seq (EditingCmd.fn_injective (hf.symm.trans hins))
    · simp only [effect_of_seq_eq_none hins hnull, hins, hnull, and_self]

lemma effect_ne_none {event : InputEvent} (h : event.cmdFn ≠ .cmdUninsert)
    (hins : event.cmdFn = .cmdInsert → event.seq ≠ none) (node : MsgNode) :
    effect event node ≠ none := by
  intro h0
  rcases effect_eq_none_iff.mp h0 with ⟨hf, -⟩ | ⟨hf, hnull⟩
  · exact h hf
  · exact hins hf hnull

lemma effects_ne_none {event : InputEvent} (h : event.cmdFn ≠ .cmdUninsert)
    (hins : event.cmdFn = .cmdInsert → event.seq ≠ none) (n : ℕ) (node : MsgNode) :
    effects event n node ≠ none := by
  induction n generalizing node with
  | zero => simp [effects]
  | succ n ih =>
    obtain ⟨node', hn⟩ := Option.ne_none_iff_exists'.mp (effect_ne_none h hins node)
    rw [effects, hn]
    exact ih node'

lemma Action.redoNode_ne_none {a : Action} (ha : a.Ok) (node : MsgNode) :
    a.redoNode node ≠ none := by
  obtain ⟨c, hc⟩ := ha.cmdFn
  refine effects_ne_none ?_ ha.redoEvent_seq _ _
  rw [redoEvent, hc]
  cases c <;> simp [EditingCmd.fn]

lemma Action.undoNode_eq_none_iff {a : Action} (ha : a.Ok) (node : MsgNode) :
    a.undoNode node = none ↔ a.cmdFn = .cmdInsert ∧
      utf8ByteOffset node.text node.cursorPos < (deref a.seq).length := by
  obtain ⟨c, hc⟩ := ha.cmdFn
  by_cases hins : a.cmdFn = .cmdInsert
  · have hev : a.undoEvent.cmdFn = .cmdUninsert := by
      rw [undoEvent, hins]
      rfl
    obtain ⟨hcnt, ds, -, hseq⟩ := ha.insert hins
    have hone : a.undoNode node = effect a.undoEvent node := by
      rw [undoNode, hcnt, effects]
      cases effect a.undoEvent node <;> rfl
    rw [hone, effect_eq_none_iff, hev, hins, undoEvent, hseq]
    simp
  · simp only [hins, false_and, iff_false]
    refine effects_ne_none ?_ ha.undoEvent_seq _ _
    rw [undoEvent_cmdFn hc]
    rintro h
    cases c <;> simp [EditingCmd.comp, hc, EditingCmd.fn] at h hins

end Ends

/-- A round of `cmd_undo` moves the `Action` on top of the undo stack to the redo stack, and
leaves everything else on the two stacks in place. -/
def UndoMovesOne [CLib] (s : Editor) (a : Action) (u : ActionStack) : Prop :=
  ∃ s' updated, processEvent s (pressed .cmdUndo) = some (s', updated) ∧
    s'.undoStack = u ∧ s'.redoStack = some a :: s.redoStack

/-- A round of `cmd_redo` moves the `Action` on top of the redo stack to the undo stack, and
leaves everything else on the two stacks in place. -/
def RedoMovesOne [CLib] (s : Editor) (a : Action) (r : ActionStack) : Prop :=
  ∃ s' updated, processEvent s (pressed .cmdRedo) = some (s', updated) ∧
    s'.redoStack = r ∧ s'.undoStack = some a :: s.undoStack

/-- Undoing `a` at `node`, with `u` below it, neither ends the program nor touches `u`. -/
def UndoClean (node : MsgNode) (a : Action) (u : ActionStack) : Prop :=
  (a.cmdFn = .cmdInsert →
    (deref a.seq).length ≤ utf8ByteOffset node.text node.cursorPos) ∧
  LeavesAlone a.undoEvent.cmdFn node u

/-- Doing `a` again at `node` does not touch the undo stack `u`. -/
def RedoClean (node : MsgNode) (a : Action) (u : ActionStack) : Prop :=
  LeavesAlone a.cmdFn node u

instance (node : MsgNode) (a : Action) (u : ActionStack) : Decidable (UndoClean node a u) :=
  inferInstanceAs (Decidable (_ ∧ _))

instance (node : MsgNode) (a : Action) (u : ActionStack) : Decidable (RedoClean node a u) :=
  inferInstanceAs (Decidable (LeavesAlone _ _ _))

section

variable [CLib] {s : Editor} {a : Action}

lemma undoMovesOne_iff {u : ActionStack} (ha : a.Ok) (hu : s.undoStack = some a :: u) :
    UndoMovesOne s a u ↔ UndoClean s.curr a u := by
  have hspec := processEvent_undo (pressed_cmdFn .cmdUndo) ha hu
  rw [UndoMovesOne, UndoClean]
  rcases hn : a.undoNode s.curr with - | node
  · simp only [hn] at hspec
    obtain ⟨hf, hlt⟩ := (Action.undoNode_eq_none_iff ha _).mp hn
    simp only [hspec, reduceCtorEq, false_and, exists_false, false_iff, not_and]
    intro h
    exact absurd (h hf) (not_le.mpr hlt)
  · simp only [hn] at hspec
    obtain ⟨s', hs', -, hundo, hredo⟩ := hspec
    have hlen : a.cmdFn = .cmdInsert →
        (deref a.seq).length ≤ utf8ByteOffset s.curr.text s.curr.cursorPos := by
      intro hf
      by_contra hlt
      have := (Action.undoNode_eq_none_iff ha _).mpr ⟨hf, not_le.mp hlt⟩
      rw [hn] at this
      cases this
    rw [← stackEffects_eq_self_iff ha.one_le_cnt ha.undoEvent_seq, ← hundo]
    constructor
    · rintro ⟨t, updated, ht, hstack, -⟩
      rw [hs'] at ht
      cases ht
      exact ⟨hlen, hstack⟩
    · rintro ⟨-, hstack⟩
      exact ⟨s', true, hs', hstack, hredo⟩

lemma redoMovesOne_iff {r : ActionStack} (ha : a.Ok) (hr : s.redoStack = some a :: r) :
    RedoMovesOne s a r ↔ RedoClean s.curr a s.undoStack := by
  have hspec := processEvent_redo (pressed_cmdFn .cmdRedo) ha hr
  obtain ⟨node, hn⟩ := Option.ne_none_iff_exists'.mp (Action.redoNode_ne_none ha s.curr)
  simp only [hn] at hspec
  obtain ⟨s', hs', -, hundo, hredo⟩ := hspec
  have hleaves : RedoClean s.curr a s.undoStack ↔ s'.undoStack = some a :: s.undoStack := by
    rw [hundo, List.cons.injEq, stackEffects_eq_self_iff ha.one_le_cnt ha.redoEvent_seq]
    simp [RedoClean, Action.redoEvent]
  rw [RedoMovesOne, hleaves]
  constructor
  · rintro ⟨t, updated, ht, -, hstack⟩
    rw [hs'] at ht
    cases ht
    exact hstack
  · intro hstack
    exact ⟨s', true, hs', hredo, hstack⟩

end

/-! ### Sequences of undos and redos -/

/-- A round of `cmd_undo` or `cmd_redo` that is clean. -/
def UndoRedoStep [CLib] (s s' : Editor) : Prop :=
  ((∀ a u, s.undoStack = some a :: u → UndoClean s.curr a u) ∧
    ∃ updated, processEvent s (pressed .cmdUndo) = some (s', updated)) ∨
  ((∀ a r, s.redoStack = some a :: r → RedoClean s.curr a s.undoStack) ∧
    ∃ updated, processEvent s (pressed .cmdRedo) = some (s', updated))

/-- The number of `Action`s on the two stacks. -/
def Editor.historySize (s : Editor) : ℕ := countActions s.undoStack + countActions s.redoStack

lemma UndoRedoStep.step [CLib] {s s' : Editor} (h : UndoRedoStep s s') : Step s s' := by
  rcases h with ⟨-, updated, h⟩ | ⟨-, updated, h⟩
  · exact ⟨_, updated, keyEvent_pressed (by decide), h⟩
  · exact ⟨_, updated, keyEvent_pressed (by decide), h⟩

lemma UndoRedoStep.historySize [CLib] {s s' : Editor} (hs : HistoryOk s) (h : UndoRedoStep s s') :
    s'.historySize = s.historySize := by
  rcases h with ⟨hclean, updated, h⟩ | ⟨hclean, updated, h⟩
  · rcases hu : s.undoStack with - | ⟨- | a, u⟩
    · simp only [processEvent, pressed, cmdUndo, hu] at h
      cases h
      simp only [Editor.historySize, pushMessage, hu]
    · simp only [processEvent, pressed, cmdUndo, hu, popAction] at h
      cases h
      simp [Editor.historySize, pushMessage, hu, countActions]
    · obtain ⟨t, _, ht, hundo, hredo⟩ :=
        (undoMovesOne_iff (hs.undo a (by simp [hu])) hu).mpr (hclean a u hu)
      rw [ht] at h
      cases h
      simp only [Editor.historySize, hundo, hredo, hu, countActions, List.countP_cons,
        Option.isSome_some, if_true]
      omega
  · rcases hr : s.redoStack with - | ⟨act, r⟩
    · simp only [processEvent, pressed, cmdRedo, hr] at h
      cases h
      simp only [Editor.historySize, pushMessage, hr]
    · obtain ⟨a, rfl, ha⟩ := hs.redo act (by simp [hr])
      obtain ⟨t, _, ht, hredo, hundo⟩ := (redoMovesOne_iff ha hr).mpr (hclean a r hr)
      rw [ht] at h
      cases h
      simp only [Editor.historySize, hundo, hredo, hr, countActions, List.countP_cons,
        Option.isSome_some, if_true]
      omega

lemma historySize_of_reflTransGen [CLib] {s s' : Editor} (hs : Reachable s)
    (h : Relation.ReflTransGen UndoRedoStep s s') : s'.historySize = s.historySize := by
  induction h with
  | refl => rfl
  | tail hrun hstep ih =>
    have hmid := hs.trans (Relation.ReflTransGen.mono (fun _ _ => UndoRedoStep.step) _ _ hrun)
    rw [hstep.historySize hmid.historyOk, ih]

/-- In a reachable state, an undo moves one `Action` to the redo stack and leaves the rest of the
history alone if and only if it is clean, and likewise for a redo; a sequence of clean undos and
redos keeps the number of `Action`s. -/
theorem undo_redo_move_one_iff [CLib] {s : Editor} (hs : Reachable s) :
    (∀ a u, s.undoStack = some a :: u → (UndoMovesOne s a u ↔ UndoClean s.curr a u)) ∧
    (∀ a r, s.redoStack = some a :: r →
      (RedoMovesOne s a r ↔ RedoClean s.curr a s.undoStack)) ∧
    (∀ s', Relation.ReflTransGen UndoRedoStep s s' → s'.historySize = s.historySize) := by
  refine ⟨?_, ?_, fun s' h => historySize_of_reflTransGen hs h⟩
  · intro a u hu
    exact undoMovesOne_iff (hs.historyOk.undo a (by simp [hu])) hu
  · intro a r hr
    obtain ⟨b, hb, hok⟩ := hs.historyOk.redo (some a) (by simp [hr])
    obtain rfl := Option.some.inj hb
    exact redoMovesOne_iff hok hr

/-- One typed character has a clean undo. -/
theorem undo_move_one_typed :
    UndoMovesOne (after [typed [.ofChar 'a']]) ⟨0, .cmdInsert, some [0x61], 1⟩ [none] :=
  ((undo_redo_move_one_iff (reachable_after (by simp [keyEvent_typed]) (by decide))).1 _ _
    (by decide)).mpr (by decide)

/-- Two characters, one step back and one step forward. -/
def backAndForth : List InputEvent :=
  [typed [.ofChar 'a', .ofChar 'b'], pressed .cmdBackwardChar, pressed .cmdForwardChar]

/-- The undo of the step forward is a step back, which swallows the `Action` of the first step. -/
theorem undo_swallows_backward_char :
    Reachable (after backAndForth) ∧
    ¬ ∀ a u, (after backAndForth).undoStack = some a :: u →
      UndoMovesOne (after backAndForth) a u := by
  have hr : Reachable (after backAndForth) := by
    refine reachable_after ?_ (by decide)
    simp [backAndForth, keyEvent_typed, keyEvent_pressed]
  refine ⟨hr, ?_⟩
  intro h
  have hu : (after backAndForth).undoStack =
      some ⟨2, .cmdForwardChar, none, 1⟩ :: [some ⟨1, .cmdBackwardChar, none, 1⟩,
        some ⟨0, .cmdInsert, some [0x61, 0x62], 1⟩, none] := by decide
  have hmoves := h _ _ hu
  rw [undoMovesOne_iff (hr.historyOk.undo _ (by rw [hu]; exact List.mem_cons_self)) hu] at hmoves
  exact absurd hmoves (by decide)

end Vjft.Term
