import Vjft.Term.Event.Effect

/-!
# The rounds of the event loop

`Moved` lists what a round of `processEvents` can do to the current node and to the two stacks,
provided every `Action` on them is one that some command has recorded (`HistoryOk`). The proviso
holds in every reachable state.
-/

namespace Vjft.Term

/-! ### Repeated calls -/

section Repeated

variable [CLib]

/-- `applyCmd`, seen on the node. -/
def effects (event : InputEvent) : ℕ → MsgNode → Option MsgNode
  | 0, node => some node
  | n + 1, node => (effect event node).bind (effects event n)

/-- `applyCmd`, seen on the undo stack. -/
def stackEffects (event : InputEvent) : ℕ → MsgNode → ActionStack → ActionStack
  | 0, _, undoStack => undoStack
  | n + 1, node, undoStack =>
    match effect event node with
    | some node' => stackEffects event n node' (stackEffect event node undoStack)
    | none => undoStack

lemma effects_one (event : InputEvent) (node : MsgNode) :
    effects event 1 node = effect event node := by
  rw [effects]
  cases effect event node <;> rfl

lemma effects_succ (event : InputEvent) (n : ℕ) (node : MsgNode) :
    effects event (n + 1) node = (effects event n node).bind (effect event) := by
  induction n generalizing node with
  | zero =>
    rw [effects_one]
    rfl
  | succ n ih =>
    have hrest : effects event (n + 1) = fun x => (effects event n x).bind (effect event) :=
      funext ih
    calc effects event (n + 1 + 1) node
        = (effect event node).bind (effects event (n + 1)) := rfl
      _ = ((effect event node).bind (effects event n)).bind (effect event) := by
        rw [hrest, Option.bind_assoc]
      _ = (effects event (n + 1) node).bind (effect event) := rfl

lemma effects_of_fixed {event : InputEvent} {node : MsgNode} (h : effect event node = some node)
    (n : ℕ) : effects event n node = some node := by
  induction n with
  | zero => rfl
  | succ n ih =>
    rw [effects, h]
    exact ih

lemma applyCmd_spec {event : InputEvent} (he : event.cmdFn ≠ .cmdEnter) (n : ℕ) (s : Editor) :
    match effects event n s.curr with
    | none => applyCmd event n s = none
    | some node => ∃ t, applyCmd event n s = some t ∧ t.curr = node ∧
        t.undoStack = stackEffects event n s.curr s.undoStack ∧ t.redoStack = s.redoStack ∧
        t.freed = s.freed := by
  induction n generalizing s with
  | zero => exact ⟨s, rfl, rfl, rfl, rfl, rfl⟩
  | succ n ih =>
    have hcall := callCmd_spec he s
    rw [effects, stackEffects, applyCmd]
    rcases hn : effect event s.curr with - | node
    · rw [hn] at hcall
      simp only at hcall
      simp only [hcall, Option.bind_none]
      rfl
    · rw [hn] at hcall
      obtain ⟨t, r, ht, hcurr, hundo, hredo, hfreed⟩ := hcall
      have hrest := ih t
      simp only [ht, Option.bind_some]
      rw [hcurr, hundo, hredo, hfreed] at hrest
      exact hrest

end Repeated

/-! ### Recorded `Action`s -/

/-- What holds of every `Action` on the stacks. -/
structure Action.Ok (a : Action) : Prop where
  cmdFn : ∃ c : EditingCmd, a.cmdFn = c.fn
  one_le_cnt : 1 ≤ a.cnt
  insert : a.cmdFn = .cmdInsert → a.cnt = 1 ∧ ∃ ds, ds ≠ [] ∧ a.seq = some (utf8.encode ds)
  backspace : a.cmdFn = .cmdBackspace → a.cnt = 1 ∧ a.seq.isSome
  forwardWord : a.cmdFn = .cmdForwardWord → a.seq = none

/-- The stacks hold `Action`s that commands have recorded, and the redo stack no `NULL`. -/
structure HistoryOk (s : Editor) : Prop where
  undo : ∀ a, some a ∈ s.undoStack → a.Ok
  redo : ∀ act ∈ s.redoStack, ∃ a, act = some a ∧ a.Ok

/-- The event with which `cmd_undo` calls the complementary command. -/
def Action.undoEvent (a : Action) : InputEvent := ⟨(getCompCmd a.cmdFn).getD .cmdStub, a.seq⟩

/-- The event with which `cmd_redo` calls the command again. -/
def Action.redoEvent (a : Action) : InputEvent := ⟨a.cmdFn, a.seq⟩

def Action.undoNode [CLib] (a : Action) (node : MsgNode) : Option MsgNode :=
  effects a.undoEvent a.cnt node

def Action.redoNode [CLib] (a : Action) (node : MsgNode) : Option MsgNode :=
  effects a.redoEvent a.cnt node

lemma Action.undoEvent_cmdFn {a : Action} {c : EditingCmd} (h : a.cmdFn = c.fn) :
    a.undoEvent.cmdFn = c.comp := by
  simp [undoEvent, h, c.getCompCmd_fn]

/-- The commands that an `Action` calls have the bytes they need. -/
lemma Action.Ok.redoEvent_seq {a : Action} (ha : a.Ok) (h : a.redoEvent.cmdFn = .cmdInsert) :
    a.redoEvent.seq ≠ none := by
  obtain ⟨-, ds, -, hseq⟩ := ha.insert h
  rw [redoEvent, hseq]
  exact Option.some_ne_none _

lemma Action.Ok.undoEvent_seq {a : Action} (ha : a.Ok) (h : a.undoEvent.cmdFn = .cmdInsert) :
    a.undoEvent.seq ≠ none := by
  obtain ⟨c, hc⟩ := ha.cmdFn
  rw [undoEvent_cmdFn hc] at h
  cases c <;> simp only [EditingCmd.comp, reduceCtorEq] at h
  exact Option.isSome_iff_ne_none.mp (ha.backspace hc).2

/-! ### One round -/

section Round

variable [CLib] {s : Editor} {event : InputEvent}

lemma processEvent_stuck {c : EditingCmd} (he : c.Calls event) (hc : c.Stuck s.curr) :
    processEvent s event = some (s, false) := by
  rw [processEvent, if_neg (by simp [he.cmdFn]), if_neg (by simp [he.cmdFn]), c.callCmd_eq s he,
    if_pos hc]
  rfl

lemma processEvent_acted {c : EditingCmd} (he : c.Calls event) (hc : ¬ c.Stuck s.curr) :
    processEvent s event =
      some ({ c.performed s event with
        undoStack := some (c.recorded s event) :: restOf c.fn s.undoStack
        redoStack := []
        freed := clearStack s.freed s.redoStack }, true) := by
  rw [processEvent, if_neg (by simp [he.cmdFn]), if_neg (by simp [he.cmdFn]), c.callCmd_eq s he,
    if_neg hc]
  rfl

lemma processEvent_undo {a : Action} {u : ActionStack} (he : event.cmdFn = .cmdUndo)
    (ha : a.Ok) (hu : s.undoStack = some a :: u) :
    match a.undoNode s.curr with
    | none => processEvent s event = none
    | some node => ∃ s', processEvent s event = some (s', true) ∧ s'.curr = node ∧
        s'.undoStack = stackEffects a.undoEvent a.cnt s.curr u ∧
        s'.redoStack = some a :: s.redoStack := by
  obtain ⟨c, hc⟩ := ha.cmdFn
  have hcomp : getCompCmd a.cmdFn = some a.undoEvent.cmdFn := by
    rw [hc, c.getCompCmd_fn, Action.undoEvent_cmdFn hc]
  have hne : a.undoEvent.cmdFn ≠ .cmdEnter := by
    rw [Action.undoEvent_cmdFn hc]
    exact c.comp_ne_cmdEnter
  have hspec := applyCmd_spec hne a.cnt { s with undoStack := u }
  have hundo : processEvent s event =
      (applyCmd a.undoEvent a.cnt { s with undoStack := u }).map fun t =>
        ({ t with redoStack := some a :: t.redoStack }, true) := by
    rw [processEvent, if_pos he, cmdUndo, if_neg (by simp [hu])]
    simp only [hu, popAction, hcomp, pushAction]
    change (applyCmd a.undoEvent a.cnt _ >>= _) >>= _ = _
    cases applyCmd a.undoEvent a.cnt { s with undoStack := u } <;> rfl
  rw [Action.undoNode, hundo]
  rcases hn : effects a.undoEvent a.cnt s.curr with - | node
  · simp only [hn] at hspec
    simp only [hspec, Option.map_none]
  · simp only [hn] at hspec
    obtain ⟨t, ht, hcurr, hundo, hredo, -⟩ := hspec
    refine ⟨{ t with redoStack := some a :: t.redoStack }, ?_, hcurr, hundo, ?_⟩
    · rw [ht, Option.map_some]
    · simp only [hredo]

lemma processEvent_redo {a : Action} {r : ActionStack} (he : event.cmdFn = .cmdRedo)
    (ha : a.Ok) (hr : s.redoStack = some a :: r) :
    match a.redoNode s.curr with
    | none => processEvent s event = none
    | some node => ∃ s', processEvent s event = some (s', true) ∧ s'.curr = node ∧
        s'.undoStack = some a :: stackEffects a.redoEvent a.cnt s.curr s.undoStack ∧
        s'.redoStack = r := by
  obtain ⟨c, hc⟩ := ha.cmdFn
  have hne : a.redoEvent.cmdFn ≠ .cmdEnter := by
    rw [Action.redoEvent, hc]
    exact c.fn_ne_cmdEnter
  have hspec := applyCmd_spec hne a.cnt { s with redoStack := r }
  have hredo : processEvent s event =
      (applyCmd a.redoEvent a.cnt { s with redoStack := r }).map fun t =>
        ({ t with undoStack := some a :: t.undoStack }, true) := by
    rw [processEvent, if_neg (by rw [he]; decide), if_pos he, cmdRedo, if_neg (by simp [hr])]
    simp only [hr, popAction, pushAction]
    change (applyCmd a.redoEvent a.cnt _ >>= _) >>= _ = _
    cases applyCmd a.redoEvent a.cnt { s with redoStack := r } <;> rfl
  rw [Action.redoNode, hredo]
  rcases hn : effects a.redoEvent a.cnt s.curr with - | node
  · simp only [hn] at hspec
    simp only [hspec, Option.map_none]
  · simp only [hn] at hspec
    obtain ⟨t, ht, hcurr, hundo, hredo, -⟩ := hspec
    refine ⟨{ t with undoStack := some a :: t.undoStack }, ?_, hcurr, ?_, hredo⟩
    · rw [ht, Option.map_some]
    · simp only [hundo]

end Round

/-- The event finds nothing to do. -/
def Quiet (s : Editor) (event : InputEvent) : Prop :=
  match event.cmdFn with
  | .cmdUndo => s.undoStack = []
  | .cmdRedo => s.redoStack = []
  | .cmdEnter => s.curr.text = []
  | cmdFn =>
    match EditingCmd.ofFn cmdFn with
    | some c => c.Stuck s.curr
    | none => True

lemma quiet_of_stuck {s : Editor} {event : InputEvent} {c : EditingCmd}
    (he : event.cmdFn = c.fn) (hc : c.Stuck s.curr) : Quiet s event := by
  cases c <;> simp only [Quiet, he, EditingCmd.fn, EditingCmd.ofFn] <;> exact hc

/-- What a round can do. -/
inductive Moved [CLib] (s : Editor) (event : InputEvent) (s' : Editor) : Prop
  | idle (quiet : Quiet s event) (curr : s'.curr = s.curr)
      (undoStack : s'.undoStack = s.undoStack) (redoStack : s'.redoStack = s.redoStack)
  | sent (he : event.cmdFn = .cmdEnter) (ht : s.curr.text ≠ [])
      (curr : s'.curr = { text := [], cursorPos := 0, markerPos := -1 })
      (undoStack : s'.undoStack = s.undoStack) (redoStack : s'.redoStack = s.redoStack)
  | acted (c : EditingCmd) (he : event.cmdFn = c.fn) (hc : ¬ c.Stuck s.curr)
      (curr : s'.curr = c.update s.curr event)
      (undoStack : s'.undoStack = some (c.recorded s event) :: restOf c.fn s.undoStack)
      (redoStack : s'.redoStack = [])
  /-- `cmd_undo` pops a `NULL`. -/
  | dropped (he : event.cmdFn = .cmdUndo) (hu : s.undoStack = none :: s'.undoStack)
      (curr : s'.curr = s.curr) (redoStack : s'.redoStack = s.redoStack)
  | undone (a : Action) (u : ActionStack) (he : event.cmdFn = .cmdUndo)
      (hu : s.undoStack = some a :: u) (curr : a.undoNode s.curr = some s'.curr)
      (undoStack : s'.undoStack = stackEffects a.undoEvent a.cnt s.curr u)
      (redoStack : s'.redoStack = some a :: s.redoStack)
  | redone (a : Action) (he : event.cmdFn = .cmdRedo)
      (hr : s.redoStack = some a :: s'.redoStack) (curr : a.redoNode s.curr = some s'.curr)
      (undoStack : s'.undoStack = some a :: stackEffects a.redoEvent a.cnt s.curr s.undoStack)

section Inversion

variable [CLib] {s s' : Editor} {event : InputEvent} {updated : Bool}

lemma moved_of_undo (hs : HistoryOk s) (hundo : event.cmdFn = .cmdUndo)
    (h : processEvent s event = some (s', updated)) : Moved s event s' := by
  rcases hu : s.undoStack with - | ⟨- | a, u⟩
  · simp only [processEvent, if_pos hundo, cmdUndo, hu] at h
    cases h
    exact .idle (by simpa only [Quiet, hundo] using hu) rfl rfl rfl
  · simp only [processEvent, if_pos hundo, cmdUndo, hu, popAction] at h
    cases h
    exact .dropped hundo hu rfl rfl
  · have hspec := processEvent_undo hundo (hs.undo a (by simp [hu])) hu
    rcases hn : a.undoNode s.curr with - | node
    · simp only [hn] at hspec
      rw [hspec] at h
      cases h
    · simp only [hn] at hspec
      obtain ⟨t, ht, hcurr, hstack, hredo⟩ := hspec
      rw [ht] at h
      cases h
      exact .undone a u hundo hu (hcurr ▸ hn) hstack hredo

lemma moved_of_redo (hs : HistoryOk s) (hredo : event.cmdFn = .cmdRedo)
    (h : processEvent s event = some (s', updated)) : Moved s event s' := by
  rcases hr : s.redoStack with - | ⟨act, r⟩
  · have hundo : ¬ event.cmdFn = .cmdUndo := by simp [hredo]
    simp only [processEvent, if_neg hundo, if_pos hredo, cmdRedo, hr] at h
    cases h
    exact .idle (by simpa only [Quiet, hredo] using hr) rfl rfl rfl
  · obtain ⟨a, rfl, ha⟩ := hs.redo act (by simp [hr])
    have hspec := processEvent_redo hredo ha hr
    rcases hn : a.redoNode s.curr with - | node
    · simp only [hn] at hspec
      rw [hspec] at h
      cases h
    · simp only [hn] at hspec
      obtain ⟨t, ht, hcurr, hstack, hrest⟩ := hspec
      rw [ht] at h
      cases h
      exact .redone a hredo (hrest ▸ hr) (hcurr ▸ hn) hstack

lemma moved_of_editing {c : EditingCmd} (hf : c.Calls event)
    (h : processEvent s event = some (s', updated)) : Moved s event s' := by
  by_cases hstuck : c.Stuck s.curr
  · rw [processEvent_stuck hf hstuck] at h
    cases h
    exact .idle (quiet_of_stuck hf.cmdFn hstuck) rfl rfl rfl
  · rw [processEvent_acted hf hstuck] at h
    cases h
    exact .acted c hf.cmdFn hstuck rfl rfl rfl

/-- The other commands make no `Action`. -/
lemma moved_of_callCmd (he : KeyEvent event) (hc : EditingCmd.ofFn event.cmdFn = none)
    (hundo : event.cmdFn ≠ .cmdUndo) (hredo : event.cmdFn ≠ .cmdRedo)
    (h : processEvent s event = some (s', updated)) : Moved s event s' := by
  rw [processEvent, if_neg hundo, if_neg hredo] at h
  cases hf : event.cmdFn <;> simp only [hf, EditingCmd.ofFn, reduceCtorEq] at hc
  case cmdUninsert => exact absurd hf he.1
  case cmdGetBackToLinePos => exact absurd hf he.2.1
  case cmdUndo => exact absurd hf hundo
  case cmdRedo => exact absurd hf hredo
  case cmdEnter =>
    simp only [callCmd, hf, cmdEnter] at h
    by_cases ht : s.curr.text.length = 0
    · rw [if_pos ht] at h
      cases h
      refine .idle ?_ rfl rfl rfl
      simpa only [Quiet, hf] using List.length_eq_zero_iff.mp ht
    · rw [if_neg ht] at h
      cases h
      refine .sent hf (fun h0 => ht (by simp [h0])) rfl ?_ ?_
      all_goals
        simp only [pushMessage]
        split_ifs <;> rfl
  case cmdConnect =>
    simp only [callCmd, hf, connectToServer] at h
    cases h
    refine .idle ?_ ?_ ?_ ?_
    · simp only [Quiet, hf, EditingCmd.ofFn]
    all_goals split_ifs <;> rfl
  all_goals
    simp only [callCmd, hf] at h
    cases h
    exact .idle (by simp only [Quiet, hf, EditingCmd.ofFn]) rfl rfl rfl

lemma moved_of_processEvent (hs : HistoryOk s) (he : KeyEvent event)
    (h : processEvent s event = some (s', updated)) : Moved s event s' := by
  cases hc : EditingCmd.ofFn event.cmdFn with
  | some c =>
    exact moved_of_editing (EditingCmd.calls_of_keyEvent he (EditingCmd.fn_of_ofFn hc)) h
  | none =>
    by_cases hundo : event.cmdFn = .cmdUndo
    · exact moved_of_undo hs hundo h
    by_cases hredo : event.cmdFn = .cmdRedo
    · exact moved_of_redo hs hredo h
    · exact moved_of_callCmd he hc hundo hredo h

end Inversion

/-! ### Every `Action` on the stacks is a recorded one -/

lemma mem_of_mem_restOf {action : CmdFunc} {u : ActionStack} {a : Action}
    (h : some a ∈ restOf action u) : some a ∈ u := by
  rcases u with - | ⟨- | prev, next⟩
  · simp [restOf] at h
  · simpa [restOf] using h
  · rw [restOf] at h
    split_ifs at h
    · exact List.mem_cons_of_mem _ h
    · exact h

lemma mem_of_mem_stackEffects [CLib] {event : InputEvent} {n : ℕ} {node : MsgNode} {u : ActionStack}
    {a : Action} (h : some a ∈ stackEffects event n node u) : some a ∈ u := by
  induction n generalizing node u with
  | zero => exact h
  | succ n ih =>
    rw [stackEffects] at h
    split at h
    · have h' := ih h
      rw [stackEffect] at h'
      split at h'
      · split_ifs at h'
        · exact h'
        · exact mem_of_mem_restOf h'
      · exact h'
    · exact h

lemma mergeTarget_eq_some {action : CmdFunc} {u : ActionStack} {prev : Action}
    (h : mergeTarget action u = some prev) : some prev ∈ u ∧ prev.cmdFn = action := by
  rcases u with - | ⟨- | top, next⟩
  · simp [mergeTarget] at h
  · simp [mergeTarget] at h
  · rw [mergeTarget] at h
    split_ifs at h with ht
    obtain rfl := Option.some.inj h
    exact ⟨List.mem_cons_self, ht⟩

lemma one_le_takenAction_cnt (s : Editor) (event : InputEvent) (action : CmdFunc) :
    1 ≤ (takenAction s event action).cnt := by
  rw [takenAction]
  split <;> simp

namespace EditingCmd

variable [CLib]

@[simp] lemma adjust_cmdFn (c : EditingCmd) (node : MsgNode) (event : InputEvent) (act : Action) :
    (c.adjust node event act).cmdFn = act.cmdFn := by
  cases c <;> simp only [adjust] <;> split_ifs <;> rfl

@[simp] lemma recorded_cmdFn (c : EditingCmd) (s : Editor) {event : InputEvent}
    (he : event.cmdFn = c.fn) : (c.recorded s event).cmdFn = c.fn := by
  rw [recorded, adjust_cmdFn, takenAction]
  rcases ht : mergeTarget c.fn s.undoStack with - | prev
  · exact he
  · exact (mergeTarget_eq_some ht).2

lemma one_le_adjust_cnt (c : EditingCmd) (node : MsgNode) (event : InputEvent) {act : Action}
    (h : 1 ≤ act.cnt) : 1 ≤ (c.adjust node event act).cnt := by
  cases c <;> simp only [adjust] <;>
    first | exact h | (split_ifs <;> first | exact h | exact le_rfl)

lemma recorded_ok (c : EditingCmd) {s : Editor} {event : InputEvent} (hs : HistoryOk s)
    (hk : KeyEvent event) (he : event.cmdFn = c.fn) : (c.recorded s event).Ok := by
  have hfn := c.recorded_cmdFn s he
  refine ⟨⟨c, hfn⟩, c.one_le_adjust_cnt _ _ (one_le_takenAction_cnt s event c.fn), ?_, ?_, ?_⟩
  · intro hf
    obtain rfl : c = insert := fn_injective (hfn.symm.trans hf)
    obtain ⟨es, hes, hseq'⟩ := hk.2.2.1 he
    rw [recorded, takenAction]
    rcases ht : mergeTarget insert.fn s.undoStack with - | prev
    · simpa [adjust] using ⟨es, hes, hseq'⟩
    · obtain ⟨hmem, hprev⟩ := mergeTarget_eq_some ht
      obtain ⟨hcnt, ds, hds, hseq⟩ := (hs.undo prev hmem).insert hprev
      simp only [adjust, hcnt, hseq, hseq', deref, Option.getD_some, ← utf8.encode_append]
      exact ⟨rfl, ds ++ es, by simp [hds], rfl⟩
  · intro hf
    obtain rfl : c = backspace := fn_injective (hfn.symm.trans hf)
    rw [recorded, takenAction]
    rcases ht : mergeTarget backspace.fn s.undoStack with - | prev
    · simp [adjust]
    · obtain ⟨hmem, hprev⟩ := mergeTarget_eq_some ht
      obtain ⟨hcnt, -⟩ := (hs.undo prev hmem).backspace hprev
      simp [adjust, hcnt]
  · intro hf
    obtain rfl : c = forwardWord := fn_injective (hfn.symm.trans hf)
    rw [recorded, takenAction]
    rcases ht : mergeTarget forwardWord.fn s.undoStack with - | prev
    · exact hk.2.2.2 (by rw [he]; decide)
    · obtain ⟨hmem, hprev⟩ := mergeTarget_eq_some ht
      exact (hs.undo prev hmem).forwardWord hprev

end EditingCmd

lemma Moved.historyOk [CLib] {s s' : Editor} {event : InputEvent} (hs : HistoryOk s)
    (hk : KeyEvent event) (h : Moved s event s') : HistoryOk s' := by
  cases h with
  | idle _ _ hundo hredo =>
    exact ⟨by simpa only [hundo] using hs.undo, by simpa only [hredo] using hs.redo⟩
  | sent _ _ _ hundo hredo =>
    exact ⟨by simpa only [hundo] using hs.undo, by simpa only [hredo] using hs.redo⟩
  | acted c he hc _ hundo hredo =>
    constructor
    · intro a ha
      rw [hundo] at ha
      rcases List.mem_cons.mp ha with h | h
      · obtain rfl := Option.some.inj h
        exact c.recorded_ok hs hk he
      · exact hs.undo a (mem_of_mem_restOf h)
    · simp [hredo]
  | dropped _ hu _ hredo =>
    constructor
    · intro a ha
      apply hs.undo a
      rw [hu]
      exact List.mem_cons_of_mem _ ha
    · simpa only [hredo] using hs.redo
  | undone a u _ hu _ hundo hredo =>
    constructor
    · intro b hb
      apply hs.undo b
      rw [hundo] at hb
      rw [hu]
      exact List.mem_cons_of_mem _ (mem_of_mem_stackEffects hb)
    · intro act hact
      rw [hredo] at hact
      rcases List.mem_cons.mp hact with rfl | h
      · exact ⟨a, rfl, hs.undo a (by simp [hu])⟩
      · exact hs.redo act h
  | redone a _ hr _ hundo =>
    have ha : a.Ok := by
      obtain ⟨b, hb, hok⟩ := hs.redo (some a) (by simp [hr])
      rwa [Option.some.inj hb]
    constructor
    · intro b hb
      rw [hundo] at hb
      rcases List.mem_cons.mp hb with h | h
      · rwa [Option.some.inj h]
      · exact hs.undo b (mem_of_mem_stackEffects h)
    · intro act hact
      apply hs.redo act
      rw [hr]
      exact List.mem_cons_of_mem _ hact

lemma Initial.historyOk {s : Editor} (h : Initial s) : HistoryOk s :=
  ⟨by simp [h.undoStack], by simp [h.redoStack]⟩

lemma Reachable.historyOk [CLib] {s : Editor} (h : Reachable s) : HistoryOk s := by
  obtain ⟨s₀, h0, hrun⟩ := h
  induction hrun with
  | refl => exact h0.historyOk
  | tail _ hstep ih =>
    obtain ⟨event, updated, hk, hp⟩ := hstep
    exact (moved_of_processEvent ih hk hp).historyOk ih hk

end Vjft.Term
