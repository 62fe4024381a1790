import Vjft.Term.Minibuffer
import Vjft.Term.Output
import Vjft.Term.Render

/-!
# A whole picture (`reDraw` of `term/main.c`)

`reDraw` draws the minibuffer at the bottom, the message that is being written above it, and the
other messages in the rest of the screen, with lines between the areas. Then the back buffer goes to
the terminal and is cleared for the next picture.
-/

namespace Vjft.Term

open Terminal Painting Linked

/-! ### The code -/

/-- `U'―'` -/
def horizontalBar : Sym := 0x2015

/-- `U'|'` -/
def verticalBar : Sym := 0x7C

/-- `reDraw` from the text in the minibuffer on, up to the call of `render_screen`. -/
def reDraw (list : MsgList) (mbText : CStr) (winRows winCols : ℤ) (buffer : ScreenBuffer) :
    Except Stop ScreenBuffer := do
  let address ← orStop list.curr .outOfBounds
  let curr ← orStop list.heap[address]? .outOfBounds
  let (mb, pen) ← reDrawMinibuffer buffer mbText winRows winCols
  let bottom := winRows - mb.needRows
  let buffer := drawHorizontalLine pen.backBuffer 0 bottom winCols horizontalBar
  let (ib, pen) ← reDrawInput buffer curr.text.toMemory curr.cursorPos curr.markerPos winRows
    winCols mb.needRows
  let buffer := drawHorizontalLine pen.backBuffer vert (ib.up - 1) (winCols - vert) horizontalBar
  let buffer := drawVerticalLine buffer vert 0 (ib.up + ib.needRows + 2) verticalBar
  let (buffer, _) ← reDrawOutput list winCols ib.up buffer
  pure buffer

/-! ### What is drawn -/

/-- The symbols that `reDraw` draws besides the texts. -/
def frameSymbols : List Sym :=
  [filler, endOfText, horizontalBar, verticalBar, topLeft, topRight, bottomLeft, bottomRight,
    horizontal, vertical]

lemma frameSymbols_le {sym : Sym} (h : sym ∈ frameSymbols) : sym ≤ 0x10FFFF := by
  have hall : frameSymbols.all (· ≤ 0x10FFFF) := by decide
  exact of_decide_eq_true (List.all_eq_true.mp hall sym h)

section Draws

variable [Kind]

/-- A character that a text may have so that the terminal shows the text as it is drawn. -/
def IsShown (c : CodePoint) : Prop := c = newline ∨ Kind.isNarrow c.toNat

/-- The terminal has a cell for each symbol of the lines and frames. -/
def ShowsFrames : Prop := ∀ sym ∈ frameSymbols, Kind.isNarrow sym.toNat

/-- Drawing changes a buffer by calls of `buffered_putchar` that the terminal shows as they are. -/
def Draws (buffer buffer' : ScreenBuffer) : Prop :=
  ∃ calls : List Putchar, buffer' = buffer.putAll calls ∧
    ∀ call ∈ calls, Drawable call.stroke.2

variable {buffer buffer' buffer'' : ScreenBuffer} {cs : List CodePoint} {win : Window}

lemma Draws.refl (buffer : ScreenBuffer) : Draws buffer buffer :=
  ⟨[], rfl, fun _ h => absurd h List.not_mem_nil⟩

lemma Draws.trans (h : Draws buffer buffer') (h' : Draws buffer' buffer'') :
    Draws buffer buffer'' := by
  obtain ⟨calls, rfl, hcalls⟩ := h
  obtain ⟨calls', rfl, hcalls'⟩ := h'
  exact ⟨calls ++ calls', (ScreenBuffer.putAll_append _ _ _).symm,
    List.forall_mem_append.mpr ⟨hcalls, hcalls'⟩⟩

/-- What is seen is a call, or was there before. -/
lemma Draws.drawable (h : Draws buffer buffer') (hbuffer : ∀ k, Drawable (buffer.look k))
    (k : ℤ × ℤ) : Drawable (buffer'.look k) := by
  obtain ⟨calls, rfl, hcalls⟩ := h
  rw [ScreenBuffer.look_putAll]
  by_cases hk : ∃ stroke ∈ (calls.map Putchar.stroke).filter (buffer.Has ·.1), stroke.1 = k
  · obtain ⟨stroke, hstroke, -, hpaint⟩ := exists_paint_eq (f := buffer.look) hk
    obtain ⟨call, hcall, rfl⟩ := List.mem_map.mp (List.mem_of_mem_filter hstroke)
    rw [hpaint]
    exact hcalls call hcall
  · rw [paint_of_notMem fun stroke hstroke heq => hk ⟨stroke, hstroke, heq⟩]
    exact hbuffer k

/-- The colours of the code are colours of the terminal. -/
lemma Window.drawable_colors (win : Window) (i : ℕ) {sym : Sym} (hle : sym ≤ 0x10FFFF)
    (hsym : Kind.isNarrow sym.toNat) : Drawable (sym, win.colors i) := by
  rw [Window.colors]
  refine ⟨hle, hsym, ?_, ?_⟩ <;> dsimp only <;> split_ifs <;> decide

lemma drawable_default {sym : Sym} (hle : sym ≤ 0x10FFFF) (hsym : Kind.isNarrow sym.toNat) :
    Drawable (sym, defaultFgColor, defaultBgColor) := by
  have hcolors : IsFg defaultFgColor.toNat ∧ IsBg defaultBgColor.toNat := by decide
  exact ⟨hle, hsym, hcolors⟩

lemma drawable_filler : Drawable (filler, defaultFgColor, defaultBgColor) :=
  drawable_default (by decide) (Kind.isNarrow_ascii (by decide) (by decide))

lemma ShowsFrames.drawable_plainCall (h : ShowsFrames) {row col : ℤ} {sym : Sym}
    (hsym : sym ∈ frameSymbols) : Drawable (plainCall row col sym).stroke.2 :=
  drawable_default (frameSymbols_le hsym) (h sym hsym)

lemma drawable_of_mem_charCalls {i : ℕ} {c : CodePoint} {pl : ℤ × ℤ} {call : Putchar}
    (hc : IsShown c) (h : call ∈ charCalls win i c pl) : Drawable call.stroke.2 := by
  rw [charCalls] at h
  split_ifs at h with hnl
  · rw [List.eq_of_mem_replicate h]
    exact drawable_filler
  · obtain rfl := List.mem_singleton.mp h
    have hle : c.val ≤ 0x10FFFF := UInt32.le_iff_toNat_le.mpr (Nat.le_of_lt_succ c.toNat_lt)
    exact win.drawable_colors i hle (hc.resolve_left hnl)

lemma drawable_of_mem_markCalls (hshows : ShowsFrames) {i : ℕ} {pl : ℤ × ℤ} {call : Putchar}
    (h : call ∈ win.markCalls i pl) : Drawable call.stroke.2 := by
  rw [Window.markCalls] at h
  split_ifs at h
  · rcases List.mem_cons.mp h with rfl | h
    · have hmark : Drawable (endOfText, win.colors i) :=
        win.drawable_colors i (by decide) (hshows endOfText (by decide))
      exact hmark
    · rw [lastCalls] at h
      split_ifs at h
      · rw [List.eq_of_mem_replicate h]
        exact drawable_filler
      · exact absurd h List.not_mem_nil
  · exact absurd h List.not_mem_nil

lemma drawable_of_mem_callsAt (hshows : ShowsFrames) {i : ℕ} {call : Putchar}
    (hcs : ∀ c ∈ cs, IsShown c) (h : call ∈ win.callsAt cs i) : Drawable call.stroke.2 := by
  rw [Window.callsAt] at h
  split_ifs at h
  · exact absurd h List.not_mem_nil
  · cases hc : cs[i]? with
    | some c =>
      rw [hc] at h
      simp only [Window.symCalls] at h
      split_ifs at h
      · exact drawable_of_mem_charCalls (hcs c (List.mem_of_getElem? hc)) h
      · exact absurd h List.not_mem_nil
    | none =>
      rw [hc] at h
      exact drawable_of_mem_markCalls hshows h

/-- Drawing a text changes the buffer in drawable ways. -/
lemma exists_displayWrapped_draws (hshows : ShowsFrames) (buffer : ScreenBuffer) (win : Window)
    (hcs : ∀ c ∈ cs, IsShown c) :
    ∃ pen, displayWrapped buffer (CStr.toMemory (utf8.encode cs)) win = .ok pen ∧
      Draws buffer pen.backBuffer := by
  obtain ⟨pen, hpen, hdrawn⟩ := displayWrapped_drawn buffer win cs
  have hcalls (n : ℕ) : ∀ call ∈ win.callsBefore cs n, Drawable call.stroke.2 := by
    intro call hcall
    obtain ⟨j, -, hmem⟩ := Window.mem_callsBefore.mp hcall
    exact drawable_of_mem_callsAt hshows hcs hmem
  refine ⟨pen, hpen, ?_⟩
  cases hdrawn with
  | whole _ hbuffer _ => exact ⟨_, hbuffer, hcalls _⟩
  | stuck i _ _ _ hbuffer => exact ⟨_, hbuffer, hcalls i⟩

lemma draws_horizontalLine (hshows : ShowsFrames) (x y cols : ℤ) {sym : Sym}
    (hsym : sym ∈ frameSymbols) :
    Draws buffer (drawHorizontalLine buffer x y cols sym) := by
  refine ⟨_, drawHorizontalLine_eq, fun call hcall => ?_⟩
  obtain ⟨_, -, rfl⟩ := mem_horizontalCalls.mp hcall
  exact hshows.drawable_plainCall hsym

lemma draws_verticalLine (hshows : ShowsFrames) (x y rows : ℤ) {sym : Sym}
    (hsym : sym ∈ frameSymbols) :
    Draws buffer (drawVerticalLine buffer x y rows sym) := by
  refine ⟨_, drawVerticalLine_eq, fun call hcall => ?_⟩
  obtain ⟨_, -, rfl⟩ := mem_verticalCalls.mp hcall
  exact hshows.drawable_plainCall hsym

/-- The symbols of a border are drawable. -/
lemma draws_frame (hshows : ShowsFrames) (x y maxWidth neededRows : ℤ) :
    Draws buffer (drawFrame buffer x y maxWidth neededRows) := by
  refine ⟨_, drawFrame_eq, fun call hcall => ?_⟩
  simp only [borderCalls, List.mem_append, List.mem_cons, List.not_mem_nil, or_false,
    mem_horizontalCalls, mem_verticalCalls] at hcall
  rcases hcall with (((((rfl | rfl | rfl | rfl) | ⟨_, -, rfl⟩) | ⟨_, -, rfl⟩) | ⟨_, -, rfl⟩) |
    ⟨_, -, rfl⟩)
  all_goals exact hshows.drawable_plainCall (by decide)

lemma exists_displayMessageWithFrame_draws (hshows : ShowsFrames) (buffer : ScreenBuffer)
    (cursorPos x y maxWidth maxHeight : ℤ) (hcs : ∀ c ∈ cs, IsShown c) :
    ∃ result, displayMessageWithFrame buffer (CStr.toMemory (utf8.encode cs)) cursorPos x y maxWidth
      maxHeight = .ok result ∧ Draws buffer result.1 := by
  by_cases hw : 5 ≤ maxWidth
  · obtain ⟨pen, hpen, hdraws⟩ := exists_displayWrapped_draws hshows
      (drawFrame buffer x y maxWidth (rowsOf (maxWidth - 4) cs)) (frameWindow x y maxWidth cs) hcs
    rw [displayMessageWithFrame_eq buffer cs cursorPos x y maxHeight hw, hpen]
    exact ⟨_, rfl, (draws_frame hshows x y maxWidth _).trans hdraws⟩
  · have hnarrow : maxWidth - 4 ≤ 0 := by omega
    rw [displayMessageWithFrame]
    dsimp only
    rw [if_pos hnarrow]
    exact ⟨_, rfl, Draws.refl buffer⟩

end Draws

/-! ### The areas -/

lemma isAscii_of_isDigit {c : Char} (h : c.isDigit = true) :
    0x20 ≤ c.toNat ∧ c.toNat < 0x7F := by
  rw [Char.isDigit, Bool.and_eq_true, decide_eq_true_iff, decide_eq_true_iff] at h
  have hlo : 48 ≤ c.toNat := UInt32.le_iff_toNat_le.mp h.1
  have hhi : c.toNat ≤ 57 := UInt32.le_iff_toNat_le.mp h.2
  omega

section Texts

variable [Kind]

/-- A text that the terminal shows as it is drawn. -/
def IsShownText (text : CStr) : Prop := ∃ cs, text = utf8.encode cs ∧ ∀ c ∈ cs, IsShown c

lemma IsShownText.append {text text' : CStr} (h : IsShownText text) (h' : IsShownText text') :
    IsShownText (text ++ text') := by
  obtain ⟨cs, rfl, hcs⟩ := h
  obtain ⟨ds, rfl, hds⟩ := h'
  exact ⟨cs ++ ds, (utf8.encode_append cs ds).symm, List.forall_mem_append.mpr ⟨hcs, hds⟩⟩

lemma isShownText_literal {s : String}
    (h : s.toList.all (fun c => c = '\n' ∨ 0x20 ≤ c.toNat ∧ c.toNat < 0x7F) = true) :
    IsShownText (literal s) := by
  simp only [List.all_eq_true, decide_eq_true_eq] at h
  rw [literal]
  generalize s.toList = l at h
  induction l with
  | nil => exact ⟨[], rfl, fun _ hc => absurd hc List.not_mem_nil⟩
  | cons c l ih =>
    obtain ⟨hc, hl⟩ := List.forall_mem_cons.mp h
    have hne : c.toNat ≠ 0 := by
      rcases hc with rfl | hc
      · decide
      · exact Nat.pos_iff_ne_zero.mp (lt_of_lt_of_le (by decide) hc.1)
    have hword : utf8.encode [⟨c, hne⟩] = String.utf8EncodeChar c := utf8.encode_singleton _
    have hfirst : IsShownText (String.utf8EncodeChar c) := by
      refine ⟨_, hword.symm, fun d hd => ?_⟩
      obtain rfl := List.mem_singleton.mp hd
      exact hc.imp (fun hnl => Subtype.ext hnl) fun hc => Kind.isNarrow_ascii hc.1 hc.2
    rw [List.flatMap_cons]
    exact hfirst.append (ih hl)

lemma isShownText_toString (n : ℤ) : IsShownText (literal (toString n)) := by
  have hrepr (m : ℕ) : ∀ c ∈ m.repr.toList, 0x20 ≤ c.toNat ∧ c.toNat < 0x7F := by
    intro c hc
    rw [Nat.repr, String.toList_ofList] at hc
    exact isAscii_of_isDigit (Nat.isDigit_of_mem_toDigits (by decide) (by decide) hc)
  apply isShownText_literal
  simp only [List.all_eq_true, decide_eq_true_eq]
  rw [Int.toString_eq_repr, Int.repr_eq_if]
  intro c hc
  right
  split_ifs at hc
  · exact hrepr _ c hc
  · rw [String.toList_append, List.mem_append] at hc
    rcases hc with hc | hc
    · obtain rfl := List.mem_singleton.mp hc
      decide
    · exact hrepr _ c hc

lemma isShownText_mbText2 (mbNeedRows mbNeedCols : ℤ) :
    IsShownText (mbText2 mbNeedRows mbNeedCols) := by
  have hlabel : IsShownText (literal "\nmb_need_rows=") := isShownText_literal (by decide)
  have hlabel' : IsShownText (literal "\nmb_need_cols=") := isShownText_literal (by decide)
  have hend : IsShownText (literal "\n") := isShownText_literal (by decide)
  exact (((hlabel.append (isShownText_toString _)).append hlabel').append
    (isShownText_toString _)).append hend

end Texts

section Areas

variable [Kind] (hshows : ShowsFrames) {list : MsgList} {nodes : List (ℕ × ListNode)}

include hshows

lemma exists_outputLoop_draws {heap : Heap ListNode} {current : Option ℕ}
    (hchain : Chain ListNode.prev heap current nodes none)
    (hnodes : ∀ node ∈ nodes, IsShownText node.2.text) (winCols obBottom : ℤ)
    (buffer : ScreenBuffer) :
    ∃ result, outputLoop heap winCols current obBottom buffer = .ok result ∧
      Draws buffer result.1 := by
  induction nodes generalizing current obBottom buffer with
  | nil =>
    obtain rfl : current = none := hchain
    rw [outputLoop]
    exact ⟨_, rfl, Draws.refl buffer⟩
  | cons node nodes ih =>
    obtain ⟨address, node⟩ := node
    obtain ⟨rfl, hnode, hrest⟩ := hchain
    obtain ⟨⟨cs, hcs, hshown⟩, hnodes⟩ := List.forall_mem_cons.1 hnodes
    dsimp only at hnode hrest hcs
    rw [outputLoop]
    dsimp only
    split_ifs with hbottom
    · simp only [hnode]
      obtain ⟨needCols, hsize⟩ := calcDisplaySize_encode (outputMaxWidth winCols) 0 cs
      rw [← hcs] at hsize
      split
      · next stop hstop =>
        rw [hsize] at hstop
        cases hstop
      · next size _ =>
        obtain ⟨⟨buffer', height⟩, hframe, hdraws⟩ :=
          exists_displayMessageWithFrame_draws hshows buffer node.cursorPos (vert + 2)
            (obBottom - size.needRows) (outputMaxWidth winCols - vert - 2) (size.needRows + 3)
            hshown
        obtain ⟨⟨buffer'', calls⟩, hloop, hdraws'⟩ :=
          ih hrest hnodes (nextBottom obBottom size.needRows) buffer'
        rw [← hcs] at hframe
        simp only [frameCall, hframe, ok_bind, hloop]
        exact ⟨_, rfl, hdraws.trans hdraws'⟩
    · exact ⟨_, rfl, Draws.refl buffer⟩

lemma exists_reDrawOutput_draws (hlist : list.Holds nodes)
    (hnodes : ∀ node ∈ nodes, IsShownText node.2.text) (winCols up : ℤ) (buffer : ScreenBuffer) :
    ∃ result, reDrawOutput list winCols up buffer = .ok result ∧ Draws buffer result.1 := by
  have hbackward := hlist.backward
  have hreverse : ∀ node ∈ nodes.reverse, IsShownText node.2.text := fun node hnode =>
    hnodes node (List.mem_reverse.1 hnode)
  cases hcons : nodes.reverse with
  | nil =>
    rw [hcons] at hbackward
    have htail : list.tail = none := hbackward
    rw [reDrawOutput, firstCurrent, htail]
    exact exists_outputLoop_draws hshows (show Chain ListNode.prev list.heap none [] none from rfl)
      (fun _ hnode => by cases hnode) _ _ _
  | cons last rest =>
    rw [hcons] at hbackward hreverse
    obtain ⟨htail, hlast, hrest⟩ := hbackward
    rw [reDrawOutput, firstCurrent, htail]
    dsimp only
    rw [hlast, orStop_some, ok_bind]
    exact exists_outputLoop_draws hshows hrest (List.forall_mem_cons.1 hreverse).2 _ _ _

lemma exists_reDrawMinibuffer_draws {text : CStr} (htext : IsShownText text) (winRows winCols : ℤ)
    (buffer : ScreenBuffer) :
    ∃ size pen, reDrawMinibuffer buffer text winRows winCols = .ok (size, pen) ∧
      Draws buffer pen.backBuffer := by
  obtain ⟨cs, rfl, hcs⟩ := htext
  obtain ⟨needCols, hsize⟩ := calcDisplaySize_encode (winCols - 2) (-1) cs
  obtain ⟨ds, hds, htexts⟩ := IsShownText.append ⟨cs, rfl, hcs⟩
    (isShownText_mbText2 (rowsOf (winCols - 2) cs) needCols)
  obtain ⟨needCols', hsize'⟩ := calcDisplaySize_encode (winCols - 2) (-1) ds
  rw [reDrawMinibuffer]
  dsimp only
  rw [hsize, ok_bind]
  dsimp only
  rw [hds, hsize', ok_bind]
  generalize (⟨needCols', _, _⟩ : DisplaySize) = size
  obtain ⟨pen, hpen, hdraws⟩ :=
    exists_displayWrapped_draws hshows buffer (mbWindow winRows size) htexts
  rw [hpen]
  exact ⟨size, pen, rfl, hdraws⟩

lemma exists_reDrawInput_draws {text : CStr} (htext : IsShownText text) (cursorPos markerPos
    winRows winCols mbNeedRows : ℤ) (buffer : ScreenBuffer) :
    ∃ ib pen, reDrawInput buffer text.toMemory cursorPos markerPos winRows winCols mbNeedRows =
      .ok (ib, pen) ∧ Draws buffer pen.backBuffer := by
  obtain ⟨cs, rfl, hcs⟩ := htext
  obtain ⟨needCols, hsize⟩ := calcDisplaySize_encode (ibRelMaxWidth winCols) cursorPos cs
  rw [reDrawInput, hsize, ok_bind]
  dsimp only
  generalize inputArea winRows winCols mbNeedRows _ = ib
  obtain ⟨pen, hpen, hdraws⟩ :=
    exists_displayWrapped_draws hshows buffer (ib.window cursorPos markerPos) hcs
  rw [hpen]
  exact ⟨ib, pen, rfl, hdraws⟩

/-- Whatever the size of the window, a picture is drawn. -/
lemma exists_reDraw_draws (hlist : list.Holds nodes) (hne : nodes ≠ [])
    (hnodes : ∀ node ∈ nodes, IsShownText node.2.text) {mbText : CStr}
    (hmb : IsShownText mbText) (winRows winCols : ℤ) (buffer : ScreenBuffer) :
    ∃ buffer', reDraw list mbText winRows winCols buffer = .ok buffer' ∧ Draws buffer buffer' := by
  obtain ⟨address, hcurr⟩ := Option.ne_none_iff_exists'.mp (mt hlist.curr_none.mp hne)
  obtain ⟨curr, hnode, hmem⟩ := hlist.forward.exists_mem (hlist.curr address hcurr)
  obtain ⟨mb, pen, hminibuffer, hdraws₁⟩ :=
    exists_reDrawMinibuffer_draws hshows hmb winRows winCols buffer
  have hbar : horizontalBar ∈ frameSymbols := by decide
  have hdraws₂ := hdraws₁.trans
    (draws_horizontalLine hshows 0 (winRows - mb.needRows) winCols hbar)
  obtain ⟨ib, pen', hinput, hdraws₃⟩ := exists_reDrawInput_draws hshows (hnodes _ hmem)
    curr.cursorPos curr.markerPos winRows winCols mb.needRows
    (drawHorizontalLine pen.backBuffer 0 (winRows - mb.needRows) winCols horizontalBar)
  have hdraws₄ := hdraws₃.trans
    ((draws_horizontalLine hshows vert (ib.up - 1) (winCols - vert) hbar).trans
      (@draws_verticalLine _ _ hshows vert 0 (ib.up + ib.needRows + 2) verticalBar (by decide)))
  obtain ⟨⟨buffer', calls⟩, houtput, hdraws₅⟩ := exists_reDrawOutput_draws hshows hlist hnodes
    winCols ib.up (drawVerticalLine
      (drawHorizontalLine pen'.backBuffer vert (ib.up - 1) (winCols - vert) horizontalBar) vert 0
      (ib.up + ib.needRows + 2) verticalBar)
  refine ⟨buffer', ?_, hdraws₂.trans (hdraws₄.trans hdraws₅)⟩
  rw [reDraw, hcurr, orStop_some, ok_bind, hnode, orStop_some, ok_bind, hminibuffer, ok_bind]
  dsimp only
  rw [hinput, ok_bind]
  dsimp only
  rw [houtput, ok_bind]
  rfl

end Areas

/-! ### Pictures on the terminal -/

/-- The buffers of the program, and the terminal, which has read all that was written to it. -/
structure Display where
  screen : Screen
  terminal : Terminal

/-- What happens to the display. The terminal is not the program's own: it may become any other one
between two pictures, of another size, with other contents, and in the middle of something that it
reads. -/
inductive DisplayEvent
  | redraw (list : MsgList) (mbText : CStr) (outcome : Outcome)
  | terminalChanges (terminal : Terminal)
  | updWinSize

namespace Display

/-- `resize_buffers`: both buffers are new ones of the same size. -/
def resizeBuffers (s : Screen) (rows cols : ℤ) : Screen :=
  ⟨createScreenBuffer rows cols, createScreenBuffer rows cols, s.stdout, rfl, rfl⟩

/-- `upd_win_size`, which learns the size of the terminal, and `init_buffers`. -/
def start (t : Terminal) : Display :=
  ⟨⟨createScreenBuffer t.rows t.cols, createScreenBuffer t.rows t.cols, [], rfl, rfl⟩, t⟩

/-- Drawing changes the cells of the back buffer, not its size. -/
def draw (s : Screen) (buffer : ScreenBuffer) : Screen :=
  { s with backBuffer := { s.backBuffer with cells := buffer.cells }, stdout := [] }

def clearBack (s : Screen) : Screen :=
  { s with backBuffer := clearScreenBuffer s.backBuffer }

variable [Kind]

/-- `none` stands for a program that has ended. -/
def step (d : Display) : DisplayEvent → Option Display
  | .redraw list mbText outcome =>
    let back := d.screen.backBuffer
    match reDraw list mbText back.rows back.cols back with
    | .error _ => none
    | .ok buffer =>
      match (draw d.screen buffer).renderScreen outcome with
      | .error _ => none
      | .ok s => some ⟨clearBack s, d.terminal.run s.stdout⟩
  | .terminalChanges terminal => some { d with terminal }
  | .updWinSize =>
    some { d with screen := resizeBuffers d.screen d.terminal.rows d.terminal.cols }

def run (d : Display) (events : List DisplayEvent) : Option Display := events.foldlM step d

/-- Between two pictures the back buffer is empty. -/
def Between (d : Display) : Prop :=
  d.screen.backBuffer = createScreenBuffer d.screen.backBuffer.rows d.screen.backBuffer.cols

variable {d d' : Display} {event : DisplayEvent} {events : List DisplayEvent} {list : MsgList}
  {mbText : CStr} {outcome : Outcome}

lemma step_redraw_eq_some_iff :
    d.step (.redraw list mbText outcome) = some d' ↔
      ∃ buffer s, reDraw list mbText d.screen.backBuffer.rows d.screen.backBuffer.cols
          d.screen.backBuffer = .ok buffer ∧
        (draw d.screen buffer).renderScreen outcome = .ok s ∧
        d' = ⟨clearBack s, d.terminal.run s.stdout⟩ := by
  rw [step]
  constructor
  · intro h
    split at h
    · cases h
    · next buffer hbuffer =>
      split at h
      · cases h
      · next s hs => exact ⟨buffer, s, hbuffer, hs, (Option.some.inj h).symm⟩
  · rintro ⟨buffer, s, hbuffer, hs, rfl⟩
    rw [hbuffer]
    dsimp only
    rw [hs]

lemma Between.step (h : d.Between) (hstep : d.step event = some d') : d'.Between := by
  cases event with
  | redraw list mbText outcome =>
    obtain ⟨_, _, -, -, rfl⟩ := step_redraw_eq_some_iff.mp hstep
    rfl
  | terminalChanges terminal =>
    obtain rfl := Option.some.inj hstep
    exact h
  | updWinSize =>
    obtain rfl := Option.some.inj hstep
    rfl

lemma Between.run (h : d.Between) (hrun : d.run events = some d') : d'.Between := by
  induction events generalizing d with
  | nil =>
    obtain rfl := Option.some.inj hrun
    exact h
  | cons event events ih =>
    obtain ⟨d₁, hstep, hrest⟩ := Option.bind_eq_some_iff.mp hrun
    exact ih (h.step hstep) hrest

/-- The cells that are not drawn are drawable as well. -/
lemma Between.drawable (h : d.Between) (k : ℤ × ℤ) : Drawable (d.screen.backBuffer.look k) := by
  rw [h]
  exact drawable_filler

end Display

section Shows

variable [Kind] {t : Terminal} {events : List DisplayEvent} {d : Display} {list : MsgList}
  {mbText : CStr} {outcome : Outcome}

/-- Whatever was shown before, whatever else was written to the terminal, and however the size of
the window changed in the meantime: once the buffers are of the size of the terminal, a picture is
shown as `reDraw` draws it on an empty buffer, if all of it is written and each look in it is one
that the terminal shows as it is. -/
theorem run_redraw_shows (hrun : (Display.start t).run events = some d)
    (hrows : d.screen.backBuffer.rows = d.terminal.rows)
    (hcols : d.screen.backBuffer.cols = d.terminal.cols) :
    let drawn := reDraw list mbText d.terminal.rows d.terminal.cols
      (createScreenBuffer d.terminal.rows d.terminal.cols)
    (∀ picture, drawn = .ok picture →
      (∀ call : Output, (∀ k ∈ call.cell, d.terminal.Has k) → outcome.IsWhole picture call) →
      (∀ k, d.terminal.Has k → Drawable (picture.lookAt k)) →
        ∃ d', d.step (.redraw list mbText outcome) = some d' ∧ d'.terminal.isVisible = true ∧
          ∀ k, d.terminal.Has k → d'.terminal.grid k = glyphOf (picture.lookAt k)) ∧
    (∀ nodes, list.Holds nodes → nodes ≠ [] → (∀ node ∈ nodes, IsShownText node.2.text) →
      IsShownText mbText → ShowsFrames →
        ∃ picture, drawn = .ok picture ∧ ∀ k, Drawable (picture.lookAt k)) := by
  intro drawn
  have hbetween : d.Between := Display.Between.run (d := Display.start t) rfl hrun
  have hdrawn : drawn = reDraw list mbText d.screen.backBuffer.rows d.screen.backBuffer.cols
      d.screen.backBuffer := by
    rw [hbetween, hrows, hcols]
    rfl
  constructor
  · intro picture hpicture hwhole hdraw
    have hshows := @renderScreen_shows _ d.terminal (Display.draw d.screen picture) outcome hrows
      hcols hdraw
    cases hrender : (Display.draw d.screen picture).renderScreen outcome with
    | error s =>
      rw [hrender] at hshows
      obtain ⟨k, hk, houtcome, -⟩ := hshows
      obtain ⟨n, hn, -⟩ := hwhole (.symbol k) fun k' hk' => Option.some.inj hk' ▸ hk
      exact absurd (houtcome.symm.trans hn) (Option.some_ne_none n).symm
    | ok s =>
      rw [hrender] at hshows
      obtain ⟨bytes, hbytes, -, hvisible, hcells⟩ := hshows.2 hwhole
      obtain rfl : s.stdout = bytes := hbytes
      exact ⟨_, Display.step_redraw_eq_some_iff.mpr ⟨picture, s, hdrawn ▸ hpicture, hrender, rfl⟩,
        hvisible, hcells⟩
  · intro nodes hlist hne hnodes hmb hframes
    obtain ⟨picture, hpicture, hdraws⟩ := exists_reDraw_draws hframes hlist hne hnodes hmb
      d.screen.backBuffer.rows d.screen.backBuffer.cols d.screen.backBuffer
    exact ⟨picture, hdrawn.trans hpicture, fun k => hdraws.drawable hbetween.drawable (k.1, k.2)⟩

end Shows

/-- A picture of which not all is written, then a larger terminal that waits for the rest of a
character, and a second picture. -/
theorem run_redraw_shows_larger_window :
    let _ : Kind := latinKind
    let t : Terminal := ⟨24, 80, fun _ => ⟨0x58, 39, 49⟩, 5, 7, true, 39, 49, false, .ground⟩
    let t' : Terminal := ⟨30, 100, fun _ => ⟨0x59, 39, 49⟩, 0, 0, true, 39, 49, false, .utf8 0 1⟩
    ∃ list d d' picture outcome,
      (Display.start t).run
        [.redraw list [] fun _ => some 4, .terminalChanges t', .updWinSize] = some d ∧
      reDraw list [] 30 100 (createScreenBuffer 30 100) = .ok picture ∧
      d.step (.redraw list [] outcome) = some d' ∧ d'.terminal.isVisible = true ∧
      ∀ k : ℕ × ℕ, k.1 < 30 ∧ k.2 < 100 → d'.terminal.grid k = glyphOf (picture.lookAt k) := by
  intro _ t t'
  obtain ⟨list, -, hholds⟩ := MsgList.exists_pushed_two (utf8.encode []) (utf8.encode [])
  have hempty : IsShownText [] := ⟨[], rfl, fun _ hc => absurd hc List.not_mem_nil⟩
  have hframes : ShowsFrames := by
    have hall : frameSymbols.all fun sym => Kind.isNarrow sym.toNat := by decide
    exact List.all_eq_true.mp hall
  have hnodes : ∀ node ∈ MsgList.pushNode 2 [] (MsgList.pushNode 1 []
      [(0, MsgList.newNode [] none)]), IsShownText node.2.text := by
    simp only [MsgList.pushNode, List.forall_mem_cons]
    exact ⟨hempty, hempty, hempty, fun _ h => absurd h List.not_mem_nil⟩
  have hne : MsgList.pushNode 2 [] (MsgList.pushNode 1 [] [(0, MsgList.newNode [] none)]) ≠ [] :=
    List.cons_ne_nil _ _
  obtain ⟨d₁, hd₁⟩ : ∃ d₁,
      (Display.start t).step (.redraw list [] fun _ => some 4) = some d₁ := by
    obtain ⟨picture, hpicture, -⟩ := exists_reDraw_draws hframes hholds hne hnodes hempty 24 80
      (createScreenBuffer 24 80)
    obtain ⟨s, -, hs⟩ := @Screen.renderScreen_of_canWrite (fun _ => some 4)
      (Display.draw (Display.start t).screen picture) fun _ _ => .inr (Option.some_ne_none 4)
    exact ⟨_, Display.step_redraw_eq_some_iff.mpr ⟨picture, _, hpicture, hs, rfl⟩⟩
  let d : Display := ⟨Display.resizeBuffers d₁.screen 30 100, t'⟩
  have hrun : (Display.start t).run
      [.redraw list [] fun _ => some 4, .terminalChanges t', .updWinSize] = some d := by
    rw [Display.run, List.foldlM_cons, hd₁]
    rfl
  have hshows (outcome : Outcome) :=
    @run_redraw_shows latinKind _ _ _ list [] outcome hrun rfl rfl
  obtain ⟨picture, hpicture, hdraw⟩ := (hshows fun _ => none).2 _ hholds hne hnodes hempty hframes
  obtain ⟨d', hd', hvisible, hcells⟩ :=
    (hshows fun call => some (Screen.text picture call).length).1 picture hpicture
      (fun _ _ => ⟨_, rfl, le_rfl⟩) fun k _ => hdraw k
  exact ⟨list, d, d', picture, _, hrun, hpicture, hd', hvisible, hcells⟩

end Vjft.Term
