import Vjft.Term.Output
import Mathlib.Algebra.Order.BigOperators.Group.List

/-!
# Frames that overlap

The loop of `reDraw` reserves the rows of a message at the width of the output area, and
`display_message_with_frame` draws as many as the message needs at the smaller width inside of the
frame. The gap of one row between two frames makes up for one more row, and below the lowest frame
there is no gap.
-/

namespace Vjft.Term

open Linked

/-- The rows between the borders of a frame. -/
def FrameCall.neededRows (call : FrameCall) : ℤ :=
  needRows (call.maxWidth - 4) call.node.cursorPos call.node.text

/-- The last row of a frame. -/
def FrameCall.bottom (call : FrameCall) : ℤ := call.y + call.neededRows + 1

lemma FrameCall.y_lt_bottom (call : FrameCall) : call.y < call.bottom := by
  have hrows := one_le_needRows_text (call.maxWidth - 4) call.node.cursorPos call.node.text
  rw [bottom, neededRows]
  omega

/-- No row is in two frames, and all frames end above the line in row `up - 1`. -/
structure FramesApart (up : ℤ) (calls : List FrameCall) : Prop where
  apart : calls.Pairwise fun call call' =>
    ∀ row, ¬ ((call.y ≤ row ∧ row ≤ call.bottom) ∧ (call'.y ≤ row ∧ row ≤ call'.bottom))
  above : ∀ call ∈ calls, call.bottom < up - 1

/-- Each frame ends above the one before it, and the first one above the row `bound`. -/
def Stacked : ℤ → List FrameCall → Prop
  | _, [] => True
  | bound, call :: calls => call.bottom < bound ∧ Stacked call.y calls

lemma Stacked.bottom_lt {bound : ℤ} {calls : List FrameCall} (h : Stacked bound calls) :
    ∀ call ∈ calls, call.bottom < bound := by
  induction calls generalizing bound with
  | nil =>
    intro call hcall
    cases hcall
  | cons call calls ih =>
    refine List.forall_mem_cons.2 ⟨h.1, ?_⟩
    intro call' hcall'
    exact (ih h.2 call' hcall').trans (call.y_lt_bottom.trans h.1)

/-- Frames that go up are apart when each ends above the one before it. -/
lemma framesApart_iff_stacked {up : ℤ} {calls : List FrameCall}
    (h : calls.Pairwise fun call call' => call'.y < call.y) :
    FramesApart up calls ↔ Stacked (up - 1) calls := by
  constructor
  · rintro ⟨hapart, habove⟩
    generalize up - 1 = bound at habove
    induction calls generalizing bound with
    | nil => trivial
    | cons call calls ih =>
      obtain ⟨hcall, hcalls⟩ := List.pairwise_cons.1 h
      obtain ⟨hfirst, hrest⟩ := List.pairwise_cons.1 hapart
      refine ⟨habove call List.mem_cons_self, ih hcalls hrest call.y ?_⟩
      intro call' hcall'
      by_contra hnot
      -- the first row of the lower frame would be in both
      have hy := hcall call' hcall'
      have hbottom := call.y_lt_bottom
      exact hfirst call' hcall' call.y ⟨⟨le_rfl, hbottom.le⟩, hy.le, not_lt.1 hnot⟩
  · intro hstacked
    refine ⟨?_, hstacked.bottom_lt⟩
    generalize up - 1 = bound at hstacked
    clear h
    induction calls generalizing bound with
    | nil => exact .nil
    | cons call calls ih =>
      refine .cons ?_ (ih call.y hstacked.2)
      intro call' hcall' row hrow
      have hbottom := hstacked.2.bottom_lt call' hcall'
      omega

/-! ### The two widths -/

/-- The rows of a message inside of its frame. -/
def innerRows (winCols : ℤ) (node : ListNode) : ℤ :=
  needRows (outputMaxWidth winCols - vert - 2 - 4) node.cursorPos node.text

/-- The rows of a frame and of the gap below it, as the loop reserves them. -/
def reservedHeight (winCols : ℤ) (node : ℕ × ListNode) : ℤ := reservedRows winCols node.2 + 3

lemma sum_reservedHeight_nonneg (winCols : ℤ) (nodes : List (ℕ × ListNode)) :
    0 ≤ (nodes.map (reservedHeight winCols)).sum := by
  apply List.sum_nonneg
  intro height hheight
  obtain ⟨node, -, rfl⟩ := List.mem_map.1 hheight
  have hrows := one_le_needRows_text (outputMaxWidth winCols) 0 node.2.text
  rw [reservedHeight, reservedRows]
  omega

/-- A message is reached if there are rows left in front of it. -/
lemma sum_lt_nextBottom_iff (winCols obBottom : ℤ) (node : ℕ × ListNode)
    (rest : List (ℕ × ListNode)) :
    (rest.map (reservedHeight winCols)).sum <
        nextBottom obBottom (reservedRows winCols node.2) ↔
      ((node :: rest).map (reservedHeight winCols)).sum < obBottom := by
  have hnonneg := sum_reservedHeight_nonneg winCols rest
  rw [List.map_cons, List.sum_cons, nextBottom, reservedHeight]
  split_ifs <;> omega

/-- In front of a message that is reached the loop leaves one row free. -/
lemma y_sub_nextBottom {winCols obBottom : ℤ} {node : ℕ × ListNode}
    (h : 0 < nextBottom obBottom (reservedRows winCols node.2)) :
    (frameCall winCols obBottom (reservedRows winCols node.2) node.1 node.2).y -
      nextBottom obBottom (reservedRows winCols node.2) - 2 = 1 := by
  rw [nextBottom_eq h, frameCall]
  dsimp only
  omega

/-- The frames are stacked when each message that is reached needs few enough rows in its frame; the
first one has `bound - obBottom - 2` more of them than are reserved, and each later one has one. -/
lemma stacked_frameCalls_iff (winCols : ℤ) (nodes : List (ℕ × ListNode)) (obBottom bound : ℤ) :
    Stacked bound (frameCalls winCols nodes obBottom) ↔
      ∀ i node, nodes[i]? = some node →
        ((nodes.take i).map (reservedHeight winCols)).sum < obBottom →
        innerRows winCols node.2 ≤
          reservedRows winCols node.2 + if i = 0 then bound - obBottom - 2 else 1 := by
  induction nodes generalizing obBottom bound with
  | nil => simp [frameCalls, Stacked]
  | cons node nodes ih =>
    by_cases hbottom : 0 < obBottom
    · have hfirst : (frameCall winCols obBottom (reservedRows winCols node.2) node.1 node.2).bottom
          < bound ↔ innerRows winCols node.2 ≤
            reservedRows winCols node.2 + (bound - obBottom - 2) := by
        simp only [FrameCall.bottom, FrameCall.neededRows, frameCall, innerRows]
        omega
      rw [frameCalls, if_pos hbottom, Stacked, hfirst, ih]
      refine Iff.trans (and_congr ?_ ?_) Nat.and_forall_add_one
      · simp [hbottom]
      · apply forall_congr'
        intro i
        apply forall₂_congr
        intro node' hnode'
        rw [List.take_succ_cons, ← sum_lt_nextBottom_iff, if_neg (Nat.succ_ne_zero i)]
        apply forall_congr'
        intro hreached
        have hnonneg := sum_reservedHeight_nonneg winCols (nodes.take i)
        rw [y_sub_nextBottom (hnonneg.trans_lt hreached), ite_self]
    · rw [frameCalls_of_nonpos hbottom]
      refine iff_of_true trivial ?_
      intro i node' _ hreached
      have hnonneg := sum_reservedHeight_nonneg winCols ((node :: nodes).take i)
      omega

lemma framesApart_frameCalls_iff (winCols up : ℤ) (nodes : List (ℕ × ListNode)) :
    FramesApart up (frameCalls winCols nodes (up - 2 - 1)) ↔
      ∀ i node, nodes[i]? = some node →
        ((nodes.take i).map (reservedHeight winCols)).sum < up - 2 - 1 →
        innerRows winCols node.2 ≤ reservedRows winCols node.2 + if i = 0 then 0 else 1 := by
  have hzero : up - 1 - (up - 2 - 1) - 2 = 0 := by omega
  rw [framesApart_iff_stacked (pairwise_frameCalls _ _ _), stacked_frameCalls_iff, hzero]

/-- The frames of the loop are apart, and above the line over the input area, exactly when no
message that is reached needs too many rows in its frame: the first one no more than the loop
reserves, each later one at most one more. -/
theorem reDrawOutput_framesApart_iff {list : MsgList} {nodes : List (ℕ × ListNode)}
    (hlist : list.Holds nodes) {winCols up : ℤ} {buffer buffer' : ScreenBuffer}
    {calls : List FrameCall} (h : reDrawOutput list winCols up buffer = .ok (buffer', calls)) :
    FramesApart up calls ↔
      ∀ i node, nodes.reverse.tail[i]? = some node →
        ((nodes.reverse.tail.take i).map (reservedHeight winCols)).sum < up - 2 - 1 →
        innerRows winCols node.2 ≤ reservedRows winCols node.2 + if i = 0 then 0 else 1 := by
  rw [reDrawOutput_eq_ok hlist h]
  exact framesApart_frameCalls_iff winCols up nodes.reverse.tail

/-! ### Well-formed texts -/

lemma needRows_encode (w p : ℤ) (cs : List CodePoint) :
    needRows w p (utf8.encode cs) = rowsOf w cs := by
  obtain ⟨needCols, hsize⟩ := calcDisplaySize_encode w p cs
  rw [needRows, hsize]

/-- Short messages in a window of 80 columns are apart. -/
theorem reDrawOutput_framesApart_short :
    ∃ list nodes buffer calls, MsgList.Holds list nodes ∧
      reDrawOutput list 80 12 ⟨24, 80, fun _ _ => ⟨0x20, 32, 40, false⟩⟩ = .ok (buffer, calls) ∧
      FramesApart 12 calls := by
  obtain ⟨list, nodes, ⟨buffer, calls⟩, -, hholds, hnodes, hresult⟩ :=
    exists_two_messages_eq [CodePoint.ofChar 'a'] [CodePoint.ofChar 'b'] 80 12
      ⟨24, 80, fun _ _ => ⟨0x20, 32, 40, false⟩⟩
  refine ⟨list, nodes, buffer, calls, hholds, hresult, ?_⟩
  rw [reDrawOutput_framesApart_iff hholds hresult, hnodes]
  intro i node hnode _
  match i with
  | 0 =>
    cases hnode
    simp only [innerRows, reservedRows, needRows_encode]
    decide
  | 1 =>
    cases hnode
    simp only [innerRows, reservedRows, needRows_encode]
    decide
  | i + 2 => simp at hnode

/-- In a window of 65 columns there is one column inside of a frame, in which `ab` needs four rows;
one row is reserved for it. -/
theorem reDrawOutput_not_framesApart :
    5 ≤ outputMaxWidth 65 - vert - 2 ∧
    ∃ list buffer calls, MsgList.Pushed list 0 [1, 2] ∧
      reDrawOutput list 65 12 ⟨24, 65, fun _ _ => ⟨0x20, 32, 40, false⟩⟩ = .ok (buffer, calls) ∧
      ¬ FramesApart 12 calls := by
  obtain ⟨list, nodes, ⟨buffer, calls⟩, hpushed, hholds, hnodes, hresult⟩ :=
    exists_two_messages_eq [CodePoint.ofChar 'a', CodePoint.ofChar 'b'] [] 65 12
      ⟨24, 65, fun _ _ => ⟨0x20, 32, 40, false⟩⟩
  refine ⟨by decide, list, buffer, calls, hpushed, hresult, ?_⟩
  rw [reDrawOutput_eq_ok hholds hresult, framesApart_frameCalls_iff, hnodes]
  intro h
  have hrows := h 0 _ rfl (by decide)
  simp only [innerRows, reservedRows, needRows_encode] at hrows
  exact absurd hrows (by decide)

end Vjft.Term
