import Vjft.Term.Frame
import Vjft.Term.MsgList
import Vjft.Term.ReDraw

/-!
# The output area (`reDraw` of `term/main.c`)

Above the input area `reDraw` draws messages in frames, from the bottom up. It reserves the rows
that a message needs at the width of the area, but inside of its frame the message has less room.
-/

namespace Vjft.Term

open Linked

/-! ### The code -/

def margin : ℤ := 4

/-- `maxWidth` in `reDraw`. -/
def outputMaxWidth (winCols : ℤ) : ℤ := winCols - vert - 2 * margin

/-- A call of `display_message_with_frame`. -/
structure FrameCall where
  address : ℕ
  node : ListNode
  x : ℤ
  y : ℤ
  maxWidth : ℤ
  maxHeight : ℤ

/-- The call that the loop makes for a node that needs so many rows. -/
def frameCall (winCols obBottom needRows : ℤ) (address : ℕ) (node : ListNode) : FrameCall :=
  { address, node
    x := vert + 2
    y := obBottom - needRows
    maxWidth := outputMaxWidth winCols - vert - 2
    maxHeight := needRows + 3 }

/-- `ob_bottom` after that call. -/
def nextBottom (obBottom needRows : ℤ) : ℤ :=
  if needRows ≤ obBottom then obBottom - (needRows + 3) else 0

lemma Measure.curRow_le_measure (maxWidth cursorPos : ℤ) (curPos : ℕ) (codepoint : Sym)
    (m : Measure) : m.curRow ≤ (m.measure maxWidth cursorPos curPos codepoint).curRow := by
  have hplace := congrArg Prod.fst (place_measure maxWidth cursorPos curPos codepoint m)
  dsimp only at hplace
  rw [hplace]
  split_ifs
  · exact Int.le_add_one le_rfl
  · exact le_rfl

lemma calcDisplaySize.curRow_le_loop {text : Bytes} {maxWidth cursorPos : ℤ} {n curPos : ℕ}
    {m m' : Measure} (h : loop text maxWidth cursorPos n curPos m = .ok m') :
    m.curRow ≤ m'.curRow := by
  induction n generalizing curPos m with
  | zero =>
    cases h
    exact le_rfl
  | succ n ih =>
    simp only [loop, bind_eq_ok_iff] at h
    obtain ⟨byte, -, codepoint, -, h⟩ := h
    have hmeasure := m.curRow_le_measure maxWidth cursorPos curPos codepoint
    split_ifs at h
    · cases h
      exact hmeasure
    · have hrest := ih h
      exact hmeasure.trans hrest

/-- Every text needs a row. -/
lemma one_le_needRows {text : Bytes} {maxWidth cursorPos : ℤ} {size : DisplaySize}
    (h : calcDisplaySize text maxWidth cursorPos = .ok size) : 1 ≤ size.needRows := by
  simp only [calcDisplaySize, bind_eq_ok_iff] at h
  obtain ⟨length, -, m, hm, h⟩ := h
  cases h
  exact calcDisplaySize.curRow_le_loop hm

/-- The loop from the node `current` on: the buffer, and the calls that were made, from the lowest
frame on. -/
def outputLoop (heap : Heap ListNode) (winCols : ℤ) (current : Option ℕ) (obBottom : ℤ)
    (buffer : ScreenBuffer) : Except Stop (ScreenBuffer × List FrameCall) :=
  match current with
  | none => .ok (buffer, [])
  | some address =>
    if _hbottom : 0 < obBottom then
      match heap[address]? with
      | none => .error .outOfBounds
      | some node =>
        match _hsize : calcDisplaySize (CStr.toMemory node.text) (outputMaxWidth winCols) 0 with
        | .error stop => .error stop
        | .ok size => do
          let call := frameCall winCols obBottom size.needRows address node
          let (buffer, _) ← displayMessageWithFrame buffer (CStr.toMemory node.text)
            node.cursorPos call.x call.y call.maxWidth call.maxHeight
          let (buffer, calls) ←
            outputLoop heap winCols node.prev (nextBottom obBottom size.needRows) buffer
          pure (buffer, call :: calls)
    else .ok (buffer, [])
termination_by obBottom.toNat
decreasing_by
  have hrows := one_le_needRows _hsize
  rw [nextBottom]
  split_ifs <;> omega

/-- `current` in front of the loop: the last message is left out. -/
def firstCurrent (list : MsgList) : Except Stop (Option ℕ) :=
  match list.tail with
  | none => .ok none
  | some tail => do
    let node ← orStop list.heap[tail]? .outOfBounds
    pure node.prev

/-- The part of `reDraw` behind the lines above the input area, which begins in row `up`. -/
def reDrawOutput (list : MsgList) (winCols up : ℤ) (buffer : ScreenBuffer) :
    Except Stop (ScreenBuffer × List FrameCall) := do
  let bottom := up - 2
  let outputBufferAvailableLines := bottom - 1
  let current ← firstCurrent list
  outputLoop list.heap winCols current outputBufferAvailableLines buffer

/-! ### Which calls are made -/

/-- The rows that `calc_display_size` returns, if it does. -/
def needRows (maxWidth cursorPos : ℤ) (text : CStr) : ℤ :=
  match calcDisplaySize (CStr.toMemory text) maxWidth cursorPos with
  | .ok size => size.needRows
  | .error _ => 1

lemma one_le_needRows_text (maxWidth cursorPos : ℤ) (text : CStr) :
    1 ≤ needRows maxWidth cursorPos text := by
  rw [needRows]
  split
  · next size h => exact one_le_needRows h
  · exact le_rfl

/-- The rows that the loop reserves for a message, without those of its border. -/
def reservedRows (winCols : ℤ) (node : ListNode) : ℤ :=
  needRows (outputMaxWidth winCols) 0 node.text

/-- The calls for the nodes of a list, from its front on. -/
def frameCalls (winCols : ℤ) : List (ℕ × ListNode) → ℤ → List FrameCall
  | [], _ => []
  | (address, node) :: nodes, obBottom =>
    if 0 < obBottom then
      frameCall winCols obBottom (reservedRows winCols node) address node ::
        frameCalls winCols nodes (nextBottom obBottom (reservedRows winCols node))
    else []

variable {winCols obBottom : ℤ} {buffer buffer' : ScreenBuffer} {calls : List FrameCall}

/-- The loop follows the links. -/
lemma outputLoop_eq_ok {heap : Heap ListNode} {current : Option ℕ} {nodes : List (ℕ × ListNode)}
    (hchain : Chain ListNode.prev heap current nodes none)
    (h : outputLoop heap winCols current obBottom buffer = .ok (buffer', calls)) :
    calls = frameCalls winCols nodes obBottom := by
  induction nodes generalizing current obBottom buffer calls with
  | nil =>
    obtain rfl : current = none := hchain
    rw [outputLoop] at h
    cases h
    rfl
  | cons node nodes ih =>
    obtain ⟨address, node⟩ := node
    obtain ⟨rfl, hnode, hrest⟩ := hchain
    rw [outputLoop] at h
    dsimp only at h hnode hrest
    rw [frameCalls]
    split_ifs at h ⊢ with hbottom
    · simp only [hnode] at h
      split at h
      · cases h
      · next size hsize =>
        simp only [bind_eq_ok_iff] at h
        obtain ⟨⟨buffer₁, height⟩, -, ⟨buffer₂, calls₂⟩, hloop, h⟩ := h
        cases h
        have hrows : reservedRows winCols node = size.needRows := by
          rw [reservedRows, needRows, hsize]
        rw [hrows, ih hrest hloop]
    · cases h
      rfl

/-- The calls are for the nodes from the tail on, without the tail itself. -/
lemma reDrawOutput_eq_ok {list : MsgList} {nodes : List (ℕ × ListNode)} (hlist : list.Holds nodes)
    {up : ℤ} (h : reDrawOutput list winCols up buffer = .ok (buffer', calls)) :
    calls = frameCalls winCols nodes.reverse.tail (up - 2 - 1) := by
  have hbackward := hlist.backward
  simp only [reDrawOutput, bind_eq_ok_iff] at h
  obtain ⟨current, hcurrent, hloop⟩ := h
  rw [firstCurrent] at hcurrent
  cases hnodes : nodes.reverse with
  | nil =>
    rw [hnodes] at hbackward
    have htail : list.tail = none := hbackward
    rw [htail] at hcurrent
    cases hcurrent
    exact outputLoop_eq_ok (show Chain ListNode.prev list.heap none [] none from rfl) hloop
  | cons last rest =>
    obtain ⟨tail, last⟩ := last
    rw [hnodes] at hbackward
    obtain ⟨htail, hlast, hrest⟩ := hbackward
    rw [htail] at hcurrent
    dsimp only at hcurrent hlast hrest
    rw [hlast, orStop_some, ok_bind] at hcurrent
    cases hcurrent
    exact outputLoop_eq_ok hrest hloop

/-! ### The order of the messages -/

lemma frameCalls_of_nonpos {nodes : List (ℕ × ListNode)} (h : ¬ 0 < obBottom) :
    frameCalls winCols nodes obBottom = [] := by
  cases nodes with
  | nil => rfl
  | cons node nodes => rw [frameCalls, if_neg h]

/-- The calls are for the first nodes. -/
lemma addresses_frameCalls (winCols : ℤ) (nodes : List (ℕ × ListNode)) (obBottom : ℤ) :
    (frameCalls winCols nodes obBottom).map FrameCall.address <+: addrs nodes := by
  induction nodes generalizing obBottom with
  | nil => exact List.nil_prefix
  | cons node nodes ih =>
    rw [frameCalls]
    split_ifs
    · exact (List.prefix_cons_inj node.1).2 (ih _)
    · exact List.nil_prefix

lemma frameCalls_eq_nil_iff (winCols : ℤ) (nodes : List (ℕ × ListNode)) (obBottom : ℤ) :
    frameCalls winCols nodes obBottom = [] ↔ nodes = [] ∨ obBottom ≤ 0 := by
  cases nodes with
  | nil => simp [frameCalls]
  | cons node nodes =>
    rw [frameCalls]
    split_ifs with h
    · simp [h]
    · simp [not_lt.1 h]

lemma nextBottom_eq {needRows : ℤ} (h : 0 < nextBottom obBottom needRows) :
    nextBottom obBottom needRows = obBottom - needRows - 3 := by
  rw [nextBottom] at h ⊢
  split_ifs at h ⊢
  · omega
  · omega

/-- All frames begin above the row `obBottom`. -/
lemma y_lt_of_mem_frameCalls {nodes : List (ℕ × ListNode)} {call : FrameCall}
    (h : call ∈ frameCalls winCols nodes obBottom) : call.y < obBottom := by
  induction nodes generalizing obBottom with
  | nil => cases h
  | cons node nodes ih =>
    have hrows : 1 ≤ reservedRows winCols node.2 := one_le_needRows_text _ _ _
    rw [frameCalls] at h
    split_ifs at h with hbottom
    · rcases List.mem_cons.1 h with rfl | h
      · exact sub_lt_self _ hrows
      · have hnext : 0 < nextBottom obBottom (reservedRows winCols node.2) := by
          by_contra hnonpos
          rw [frameCalls_of_nonpos hnonpos] at h
          cases h
        have hy := ih h
        rw [nextBottom_eq hnext] at hy
        omega
    · cases h

/-- The calls behind the first one are for frames that begin at least four rows above it. -/
lemma y_lt_of_mem_frameCalls_next {nodes : List (ℕ × ListNode)} {needRows : ℤ} {call : FrameCall}
    (h : call ∈ frameCalls winCols nodes (nextBottom obBottom needRows)) :
    call.y < obBottom - needRows - 3 := by
  have hnext : 0 < nextBottom obBottom needRows := by
    by_contra hnonpos
    rw [frameCalls_of_nonpos hnonpos] at h
    cases h
  rw [← nextBottom_eq hnext]
  exact y_lt_of_mem_frameCalls h

/-- The calls go up. -/
lemma pairwise_frameCalls (winCols : ℤ) (nodes : List (ℕ × ListNode)) (obBottom : ℤ) :
    (frameCalls winCols nodes obBottom).Pairwise fun call call' => call'.y < call.y := by
  induction nodes generalizing obBottom with
  | nil => exact .nil
  | cons node nodes ih =>
    rw [frameCalls]
    split_ifs
    · refine .cons ?_ (ih _)
      intro call hcall
      have hy := y_lt_of_mem_frameCalls_next hcall
      exact hy.trans (sub_lt_self _ (by decide))
    · exact .nil

/-- The calls that draw a frame; in an area that is too narrow none does. -/
def drawn (calls : List FrameCall) : List FrameCall :=
  calls.filter fun call => 0 < call.maxWidth - 4

/-- The frames go up, and from the lowest one on they are those of the newest messages. -/
structure ShowsNewest (pushed : List ℕ) (calls : List FrameCall) : Prop where
  order : (drawn calls).Pairwise fun call call' => call'.y < call.y
  newest : (drawn calls).map FrameCall.address <+: pushed.reverse

/-- The frames of an area all have the same width. -/
lemma drawn_frameCalls (winCols : ℤ) (nodes : List (ℕ × ListNode)) (obBottom : ℤ) :
    drawn (frameCalls winCols nodes obBottom) =
      if 0 < outputMaxWidth winCols - vert - 2 - 4 then frameCalls winCols nodes obBottom
      else [] := by
  have hwidth : ∀ call ∈ frameCalls winCols nodes obBottom,
      call.maxWidth = outputMaxWidth winCols - vert - 2 := by
    induction nodes generalizing obBottom with
    | nil =>
      intro call hcall
      cases hcall
    | cons node nodes ih =>
      rw [frameCalls]
      split_ifs
      · exact List.forall_mem_cons.2 ⟨rfl, ih _⟩
      · intro call hcall
        cases hcall
  rw [drawn]
  split_ifs with h
  · apply List.filter_eq_self.2
    intro call hcall
    simpa [hwidth call hcall] using h
  · apply List.filter_eq_nil_iff.2
    intro call hcall
    simpa [hwidth call hcall] using h

/-- A beginning of a list without repetitions is one of the reversed list only if it is empty or
there is at most one element. -/
lemma prefix_reverse_iff {l s : List ℕ} (hnodup : l.Nodup) (h : s <+: l) :
    s <+: l.reverse ↔ s = [] ∨ l.length ≤ 1 := by
  constructor
  · intro hreverse
    cases s with
    | nil => exact .inl rfl
    | cons a s =>
      right
      obtain ⟨rest, rfl⟩ := h
      obtain ⟨rest', hrest⟩ := hreverse
      have hlast : (a :: (s ++ rest)).getLast? = some a := by
        rw [← List.head?_reverse, ← List.cons_append, ← hrest]
        rfl
      cases hcons : s ++ rest with
      | nil => simp [hcons]
      | cons b bs =>
        rw [hcons, List.getLast?_cons_cons] at hlast
        rw [List.cons_append, hcons] at hnodup
        exact absurd (List.mem_of_getLast? hlast) (List.nodup_cons.1 hnodup).1
  · rintro (rfl | hlen)
    · exact List.nil_prefix
    · match l, hlen with
      | [], _ => exact h
      | [a], _ => exact h

/-- The calls for the messages `pushed`, which are the nodes behind the tail. -/
lemma showsNewest_frameCalls_iff {nodes : List (ℕ × ListNode)} {pushed : List ℕ}
    (haddrs : addrs nodes = pushed) (hnodup : pushed.Nodup) (winCols obBottom : ℤ) :
    ShowsNewest pushed (frameCalls winCols nodes obBottom) ↔
      pushed.length ≤ 1 ∨ obBottom ≤ 0 ∨ outputMaxWidth winCols - vert - 2 - 4 ≤ 0 := by
  have hstart : (drawn (frameCalls winCols nodes obBottom)).map FrameCall.address <+: pushed := by
    rw [drawn_frameCalls]
    split_ifs
    · exact haddrs ▸ addresses_frameCalls winCols nodes obBottom
    · exact List.nil_prefix
  have hnil : (drawn (frameCalls winCols nodes obBottom)).map FrameCall.address = [] ↔
      pushed = [] ∨ obBottom ≤ 0 ∨ outputMaxWidth winCols - vert - 2 - 4 ≤ 0 := by
    rw [List.map_eq_nil_iff, drawn_frameCalls]
    split_ifs with hwidth
    · rw [frameCalls_eq_nil_iff, ← haddrs, addrs, List.map_eq_nil_iff, or_iff_left hwidth.not_ge]
    · simp [not_lt.1 hwidth]
  have hiff : ShowsNewest pushed (frameCalls winCols nodes obBottom) ↔ _ :=
    ⟨fun hshows => hshows.newest, fun hnewest =>
      ⟨(pairwise_frameCalls winCols nodes obBottom).filter _, hnewest⟩⟩
  rw [hiff, prefix_reverse_iff hnodup hstart, hnil]
  constructor
  · rintro ((rfl | hnone) | hlen)
    · exact .inl (Nat.zero_le 1)
    · exact .inr hnone
    · exact .inl hlen
  · rintro (hlen | hnone)
    · exact .inr hlen
    · exact .inl (.inr hnone)

/-- The loop shows the newest messages exactly when at most one was pushed, or no frame is drawn,
because there is no row left or the area is too narrow. Otherwise it begins with the oldest one. -/
theorem reDrawOutput_showsNewest_iff {list : MsgList} {input : ℕ} {pushed : List ℕ}
    (hlist : MsgList.Pushed list input pushed) {up : ℤ}
    (h : reDrawOutput list winCols up buffer = .ok (buffer', calls)) :
    ShowsNewest pushed calls ↔
      pushed.length ≤ 1 ∨ up - 2 - 1 ≤ 0 ∨ outputMaxWidth winCols - vert - 2 - 4 ≤ 0 := by
  obtain ⟨nodes, hholds, haddrs⟩ := hlist.exists_holds
  obtain rfl := reDrawOutput_eq_ok hholds h
  have hnodup := hholds.backward.nodup
  rw [haddrs] at hnodup
  apply showsNewest_frameCalls_iff _ (List.nodup_cons.1 hnodup).2
  rw [addrs, List.map_tail, ← addrs, haddrs, List.tail_cons]

/-! ### The loop returns -/

/-- The texts of the nodes are well-formed. -/
def WellFormed (nodes : List (ℕ × ListNode)) : Prop :=
  ∀ node ∈ nodes, ∃ cs, node.2.text = utf8.encode cs

lemma exists_displayMessageWithFrame_eq (buffer : ScreenBuffer) (cs : List CodePoint)
    (cursorPos x y maxWidth maxHeight : ℤ) :
    ∃ result, displayMessageWithFrame buffer (CStr.toMemory (utf8.encode cs)) cursorPos x y maxWidth
      maxHeight = .ok result := by
  by_cases hw : 5 ≤ maxWidth
  · obtain ⟨pen, -, hpen, -⟩ := exists_calls_frameWindow hw
      (drawFrame buffer x y maxWidth (rowsOf (maxWidth - 4) cs)) x y cs
    rw [displayMessageWithFrame_eq buffer cs cursorPos x y maxHeight hw, hpen]
    exact ⟨_, rfl⟩
  · have hnarrow : maxWidth - 4 ≤ 0 := by omega
    rw [displayMessageWithFrame]
    dsimp only
    rw [if_pos hnarrow]
    exact ⟨_, rfl⟩

lemma exists_outputLoop_eq {heap : Heap ListNode} {current : Option ℕ}
    {nodes : List (ℕ × ListNode)} (hchain : Chain ListNode.prev heap current nodes none)
    (hnodes : WellFormed nodes) (winCols obBottom : ℤ) (buffer : ScreenBuffer) :
    ∃ result, outputLoop heap winCols current obBottom buffer = .ok result := by
  induction nodes generalizing current obBottom buffer with
  | nil =>
    obtain rfl : current = none := hchain
    rw [outputLoop]
    exact ⟨_, rfl⟩
  | cons node nodes ih =>
    obtain ⟨address, node⟩ := node
    obtain ⟨rfl, hnode, hrest⟩ := hchain
    obtain ⟨⟨cs, hcs⟩, hnodes⟩ := List.forall_mem_cons.1 hnodes
    dsimp only at hnode hrest hcs
    rw [outputLoop]
    dsimp only
    split_ifs with hbottom
    · simp only [hnode]
      obtain ⟨needCols, hsize⟩ := calcDisplaySize_encode (outputMaxWidth winCols) 0 cs
      rw [← hcs] at hsize
      split
      · next stop hstop =>
        rw [hsize] at hstop
        cases hstop
      · next size _ =>
        obtain ⟨⟨buffer', height⟩, hframe⟩ := exists_displayMessageWithFrame_eq buffer cs
          node.cursorPos (vert + 2) (obBottom - size.needRows) (outputMaxWidth winCols - vert - 2)
          (size.needRows + 3)
        obtain ⟨⟨buffer'', calls⟩, hloop⟩ :=
          ih hrest hnodes (nextBottom obBottom size.needRows) buffer'
        rw [← hcs] at hframe
        simp only [frameCall, hframe, ok_bind, hloop]
        exact ⟨_, rfl⟩
    · exact ⟨_, rfl⟩

/-- All texts are drawn or left out when they are well-formed. -/
lemma exists_reDrawOutput_eq {list : MsgList} {nodes : List (ℕ × ListNode)}
    (hlist : list.Holds nodes) (hnodes : WellFormed nodes) (winCols up : ℤ)
    (buffer : ScreenBuffer) : ∃ result, reDrawOutput list winCols up buffer = .ok result := by
  have hbackward := hlist.backward
  have hreverse : WellFormed nodes.reverse :=
    fun node hnode => hnodes node (List.mem_reverse.1 hnode)
  cases hcons : nodes.reverse with
  | nil =>
    rw [hcons] at hbackward
    have htail : list.tail = none := hbackward
    rw [reDrawOutput, firstCurrent, htail]
    exact exists_outputLoop_eq (show Chain ListNode.prev list.heap none [] none from rfl)
      (fun _ hnode => by cases hnode) _ _ _
  | cons last rest =>
    rw [hcons] at hbackward hreverse
    obtain ⟨htail, hlast, hrest⟩ := hbackward
    rw [reDrawOutput, firstCurrent, htail]
    dsimp only
    rw [hlast, orStop_some, ok_bind]
    exact exists_outputLoop_eq hrest (List.forall_mem_cons.1 hreverse).2 _ _ _

/-- Two messages, the older one first. -/
lemma exists_two_messages_eq (cs ds : List CodePoint) (winCols up : ℤ) (buffer : ScreenBuffer) :
    ∃ list nodes result, MsgList.Pushed list 0 [1, 2] ∧ list.Holds nodes ∧
      nodes.reverse.tail = [
        (1, ⟨⟨utf8.encode cs, 0, -1⟩, some 2, some 0⟩),
        (2, ⟨⟨utf8.encode ds, 0, -1⟩, none, some 1⟩)] ∧
      reDrawOutput list winCols up buffer = .ok result := by
  obtain ⟨list, hpushed, hholds⟩ := MsgList.exists_pushed_two (utf8.encode cs) (utf8.encode ds)
  have hnodes : WellFormed (MsgList.pushNode 2 (utf8.encode ds)
      (MsgList.pushNode 1 (utf8.encode cs) [(0, MsgList.newNode [] none)])) := by
    intro node hnode
    simp only [MsgList.pushNode, List.mem_cons, List.not_mem_nil, or_false] at hnode
    rcases hnode with rfl | rfl | rfl
    · exact ⟨ds, rfl⟩
    · exact ⟨cs, rfl⟩
    · exact ⟨[], rfl⟩
  obtain ⟨result, hresult⟩ := exists_reDrawOutput_eq hholds hnodes winCols up buffer
  exact ⟨list, _, result, hpushed, hholds, rfl, hresult⟩

/-- With no row above the input area nothing is shown. -/
theorem reDrawOutput_showsNewest_no_row :
    ∃ list buffer calls, MsgList.Pushed list 0 [1, 2] ∧
      reDrawOutput list 80 3 ⟨24, 80, fun _ _ => ⟨0x20, 32, 40, false⟩⟩ = .ok (buffer, calls) ∧
      ShowsNewest [1, 2] calls := by
  obtain ⟨list, nodes, ⟨buffer, calls⟩, hpushed, -, -, hresult⟩ :=
    exists_two_messages_eq [] [] 80 3 ⟨24, 80, fun _ _ => ⟨0x20, 32, 40, false⟩⟩
  exact ⟨list, buffer, calls, hpushed, hresult,
    (reDrawOutput_showsNewest_iff hpushed hresult).2 (.inr (.inl (by decide)))⟩

/-- Of the messages `a` and `b`, in that order, `a` is the lowest one in a window of 80 columns. -/
theorem reDrawOutput_not_showsNewest :
    ∃ list buffer calls, MsgList.Pushed list 0 [1, 2] ∧
      reDrawOutput list 80 12 ⟨24, 80, fun _ _ => ⟨0x20, 32, 40, false⟩⟩ = .ok (buffer, calls) ∧
      ¬ ShowsNewest [1, 2] calls := by
  obtain ⟨list, nodes, ⟨buffer, calls⟩, hpushed, hholds, hnodes, hresult⟩ :=
    exists_two_messages_eq [CodePoint.ofChar 'a'] [CodePoint.ofChar 'b'] 80 12
      ⟨24, 80, fun _ _ => ⟨0x20, 32, 40, false⟩⟩
  refine ⟨list, buffer, calls, hpushed, hresult, ?_⟩
  rw [reDrawOutput_eq_ok hholds hresult,
    showsNewest_frameCalls_iff (by rw [hnodes]; rfl) (by decide)]
  decide

end Vjft.Term
