import Vjft.App.Basic
import Vjft.Memory
import Vjft.Term.Utf8

/-!
# The text field of the dialog (`TextField.cpp`)

The text of the field is kept as the lines into which it was wrapped. Input joins the lines, appends
to the text and wraps it again; Backspace shortens the last line.
-/

namespace Vjft

open Term (CStr isspace)

def sdlkBackspace : SdlKeycode := 0x08

/-- `'\n'` -/
def lineFeed : UInt8 := 0x0A

/-- `s.c_str()`, which ends at the first NUL of a string that has one. -/
def cStr (s : Bytes) : CStr := s.takeWhile (· ≠ 0)

/-- `result.push_back(s)`, unless the string is empty. -/
def pushNonempty (result : List Bytes) (s : Bytes) : List Bytes :=
  if s ≠ [] then result ++ [s] else result

/-- The events that the field acts on; `text` is the C string in `e.text.text`. -/
inductive FieldEvent
  | textInput (text : CStr)
  | keyDown (sym : SdlKeycode)
  | other

structure TextField where
  width : ℤ
  lines : List Bytes
  focused : Bool

namespace TextField

/-! ### Wrapping -/

def splitString (input : Bytes) : List Bytes := loop input [] []
where
  loop : Bytes → List Bytes → Bytes → List Bytes
  | [], result, current => pushNonempty result current
  | ch :: input, result, current =>
    if isspace ch then loop input (pushNonempty result current ++ [[ch]]) []
    else loop input result (current ++ [ch])

/-- `ttfSizeText` gives the `text_width` that `TTF_SizeText` leaves for a text. -/
def wrapSplitted (ttfSizeText : CStr → ℤ) (width : ℤ) (input : List Bytes) : List Bytes :=
  loop input [] []
where
  loop : List Bytes → List Bytes → Bytes → List Bytes
  | [], result, curr => pushNonempty result curr
  | element :: input, result, curr =>
    if element = [lineFeed] then loop input (result ++ [curr ++ element]) []
    else
      let candidat := curr ++ element
      if ttfSizeText (cStr candidat) < width then loop input result candidat
      else loop input (pushNonempty result curr) element

def joinStrings (delimiter : Bytes) : List Bytes → Bytes
  | [] => []
  | first :: rest => first ++ rest.flatMap (delimiter ++ ·)

@[simp] lemma flatten_pushNonempty (result : List Bytes) (s : Bytes) :
    (pushNonempty result s).flatten = result.flatten ++ s := by
  rw [pushNonempty]
  split_ifs with h
  · simp
  · simp [not_not.mp h]

lemma forall_mem_pushNonempty {P : Bytes → Prop} {result : List Bytes} {s : Bytes}
    (hresult : ∀ t ∈ result, P t) (hs : s ≠ [] → P s) : ∀ t ∈ pushNonempty result s, P t := by
  intro t ht
  rw [pushNonempty] at ht
  split_ifs at ht with h
  · rcases List.mem_append.mp ht with ht | ht
    · exact hresult t ht
    · exact List.mem_singleton.mp ht ▸ hs h
  · exact hresult t ht

lemma forall_mem_concat {P : Bytes → Prop} {result : List Bytes} {s : Bytes}
    (hresult : ∀ t ∈ result, P t) (hs : P s) : ∀ t ∈ result ++ [s], P t := by
  intro t ht
  rcases List.mem_append.mp ht with ht | ht
  · exact hresult t ht
  · exact List.mem_singleton.mp ht ▸ hs

lemma joinStrings_nil (lines : List Bytes) : joinStrings [] lines = lines.flatten := by
  cases lines with
  | nil => rfl
  | cons first rest => simp [joinStrings, List.flatMap]

/-! ### Elements -/

/-- A word or a single white-space character. -/
def IsElement (element : Bytes) : Prop :=
  (element ≠ [] ∧ ∀ b ∈ element, ¬ isspace b) ∨ ∃ ch, isspace ch ∧ element = [ch]

/-- The only element with a newline is the newline. -/
lemma IsElement.lineFeed_notMem {element : Bytes} (h : IsElement element)
    (hne : element ≠ [lineFeed]) : lineFeed ∉ element := by
  rcases h with ⟨-, hword⟩ | ⟨ch, -, rfl⟩
  · intro hmem
    exact hword lineFeed hmem rfl
  · intro hmem
    exact hne (List.mem_singleton.mp hmem ▸ rfl)

lemma flatten_splitString_loop (input : Bytes) (result : List Bytes) (current : Bytes) :
    (splitString.loop input result current).flatten = result.flatten ++ current ++ input := by
  induction input generalizing result current with
  | nil => simp [splitString.loop]
  | cons ch input ih =>
    rw [splitString.loop]
    split_ifs with h
    · simp [ih]
    · simp [ih]

lemma flatten_splitString (s : Bytes) : (splitString s).flatten = s := by
  simp [splitString, flatten_splitString_loop]

/-- A word in the making has no white space. -/
lemma isElement_of_mem_splitString_loop {input : Bytes} {result : List Bytes} {current : Bytes}
    (hresult : ∀ element ∈ result, IsElement element) (hcurrent : ∀ b ∈ current, ¬ isspace b) :
    ∀ element ∈ splitString.loop input result current, IsElement element := by
  induction input generalizing result current with
  | nil => exact forall_mem_pushNonempty hresult fun hne => .inl ⟨hne, hcurrent⟩
  | cons ch input ih =>
    rw [splitString.loop]
    split_ifs with hch
    · have hpush := forall_mem_pushNonempty hresult fun hne => .inl ⟨hne, hcurrent⟩
      exact ih (forall_mem_concat hpush (.inr ⟨ch, hch, rfl⟩)) (by simp)
    · apply ih hresult
      intro b hb
      rcases List.mem_append.mp hb with hb | hb
      · exact hcurrent b hb
      · rwa [List.mem_singleton.mp hb]

lemma isElement_of_mem_splitString {s element : Bytes} (h : element ∈ splitString s) :
    IsElement element :=
  isElement_of_mem_splitString_loop (by simp) (by simp) element h

/-! ### Lines -/

/-- A line apart from a newline at its end. -/
def withoutLineFeed (line : Bytes) : Bytes :=
  if line.getLast? = some lineFeed then line.dropLast else line

lemma withoutLineFeed_concat (curr : Bytes) : withoutLineFeed (curr ++ [lineFeed]) = curr := by
  simp [withoutLineFeed]

lemma withoutLineFeed_of_notMem {line : Bytes} (h : lineFeed ∉ line) :
    withoutLineFeed line = line := by
  rw [withoutLineFeed, if_neg]
  intro hlast
  exact h (List.mem_of_getLast? hlast)

section Wrapping

variable (ttfSizeText : CStr → ℤ) (width : ℤ)

/-- A text that may stand in a line: it is empty, it is narrow enough, or it cannot be divided. -/
def Fits (elements : List Bytes) (text : Bytes) : Prop :=
  text = [] ∨ ttfSizeText (cStr text) < width ∨ text ∈ elements

lemma flatten_wrapSplitted_loop (input result : List Bytes) (curr : Bytes) :
    (wrapSplitted.loop ttfSizeText width input result curr).flatten =
      result.flatten ++ curr ++ input.flatten := by
  induction input generalizing result curr with
  | nil => simp [wrapSplitted.loop]
  | cons element input ih =>
    rw [wrapSplitted.loop]
    dsimp only
    split_ifs with hlf hwidth
    · simp [ih]
    · simp [ih]
    · simp [ih]

lemma flatten_wrapSplitted (input : List Bytes) :
    (wrapSplitted ttfSizeText width input).flatten = input.flatten := by
  simp [wrapSplitted, flatten_wrapSplitted_loop]

variable {ttfSizeText width}

/-- The current line fits and has no newline, and every line that was pushed is not empty and fits
apart from its newline. -/
lemma fits_of_mem_wrapSplitted_loop {elements input result : List Bytes} {curr : Bytes}
    (helements : ∀ element ∈ elements, IsElement element) (hinput : input ⊆ elements)
    (hresult : ∀ line ∈ result, line ≠ [] ∧
      Fits ttfSizeText width elements (withoutLineFeed line))
    (hcurr : Fits ttfSizeText width elements curr) (hnl : lineFeed ∉ curr) :
    ∀ line ∈ wrapSplitted.loop ttfSizeText width input result curr, line ≠ [] ∧
      Fits ttfSizeText width elements (withoutLineFeed line) := by
  induction input generalizing result curr with
  | nil =>
    apply forall_mem_pushNonempty hresult
    intro hne
    rw [withoutLineFeed_of_notMem hnl]
    exact ⟨hne, hcurr⟩
  | cons element input ih =>
    obtain ⟨hmem, hrest⟩ := List.cons_subset.mp hinput
    rw [wrapSplitted.loop]
    dsimp only
    split_ifs with hlf hwidth
    · subst hlf
      apply ih hrest _ (.inl rfl) List.not_mem_nil
      apply forall_mem_concat hresult
      rw [withoutLineFeed_concat]
      exact ⟨by simp, hcurr⟩
    · have helement := (helements element hmem).lineFeed_notMem hlf
      apply ih hrest hresult (.inr (.inl hwidth))
      simp [hnl, helement]
    · have helement := (helements element hmem).lineFeed_notMem hlf
      apply ih hrest _ (.inr (.inr hmem)) helement
      apply forall_mem_pushNonempty hresult
      intro hne
      rw [withoutLineFeed_of_notMem hnl]
      exact ⟨hne, hcurr⟩

lemma fits_of_mem_wrapSplitted {input : List Bytes} {line : Bytes}
    (hinput : ∀ element ∈ input, IsElement element)
    (h : line ∈ wrapSplitted ttfSizeText width input) :
    line ≠ [] ∧ Fits ttfSizeText width input (withoutLineFeed line) :=
  fits_of_mem_wrapSplitted_loop hinput (List.Subset.refl _) (by simp) (.inl rfl) (by simp) line h

/-- Wrapping a text loses nothing and keeps to the width as far as its words allow. -/
theorem wrapSplitted_splitString (ttfSizeText : CStr → ℤ) (width : ℤ) (s : Bytes) :
    (wrapSplitted ttfSizeText width (splitString s)).flatten = s ∧
    ∀ line ∈ wrapSplitted ttfSizeText width (splitString s), line ≠ [] ∧
      (withoutLineFeed line = [] ∨ ttfSizeText (cStr (withoutLineFeed line)) < width ∨
        (withoutLineFeed line ∈ splitString s ∧ IsElement (withoutLineFeed line))) := by
  constructor
  · rw [flatten_wrapSplitted, flatten_splitString]
  · intro line hline
    obtain ⟨hne, hfits⟩ := fits_of_mem_wrapSplitted (fun _ => isElement_of_mem_splitString) hline
    refine ⟨hne, ?_⟩
    rcases hfits with h | h | h
    · exact .inl h
    · exact .inr (.inl h)
    · exact .inr (.inr ⟨h, isElement_of_mem_splitString h⟩)

end Wrapping

/-! ### Events -/

def loseFocus (field : TextField) : TextField := { field with focused := false }

/-- `case SDLK_BACKSPACE`; `pop_back` takes a byte from the last line. -/
def backspace (lines : List Bytes) : List Bytes :=
  match lines.getLast? with
  | none => lines
  | some back =>
    if back ≠ [] then
      let lines := lines.dropLast ++ [back.dropLast]
      if back.dropLast = [] ∧ 1 < lines.length then lines.dropLast else lines
    else lines.dropLast

def handleEvent (ttfSizeText : CStr → ℤ) (field : TextField) (e : FieldEvent) : TextField :=
  if !field.focused then field
  else
    match e with
    | .textInput text =>
      let contents := joinStrings [] field.lines ++ text
      { field with lines := wrapSplitted ttfSizeText field.width (splitString contents) }
    | .keyDown sym =>
      if sym = sdlkBackspace then { field with lines := backspace field.lines }
      else if sym = sdlkEscape then field.loseFocus
      else field
    | .other => field

/-- Lines as the events leave them: none is empty unless it is the only one. -/
def Tidy (lines : List Bytes) : Prop := [] ∉ lines ∨ lines = [[]]

lemma backspace_concat (front : List Bytes) {back : Bytes} (h : back ≠ []) :
    backspace (front ++ [back]) =
      if back.dropLast = [] ∧ front ≠ [] then front else front ++ [back.dropLast] := by
  have hlen : 1 < (front ++ [back.dropLast]).length ↔ front ≠ [] := by
    rw [List.length_append, List.length_singleton, ← List.length_pos_iff]
    omega
  rw [backspace, List.getLast?_concat]
  simp only [if_pos h, List.dropLast_concat, hlen]

/-- Backspace removes the last byte of the text, whatever lines the text stands in. -/
lemma Tidy.backspace {lines : List Bytes} (h : Tidy lines) :
    (backspace lines).flatten = lines.flatten.dropLast ∧ Tidy (TextField.backspace lines) := by
  rcases h with h | rfl
  · rcases List.eq_nil_or_concat' lines with rfl | ⟨front, back, rfl⟩
    · exact ⟨rfl, .inl h⟩
    · rw [List.mem_append, List.mem_singleton, not_or] at h
      have hback : back ≠ [] := fun hnil => h.2 hnil.symm
      rw [backspace_concat front hback, List.flatten_concat,
        List.dropLast_append_of_ne_nil hback]
      split_ifs with hempty
      · exact ⟨by rw [hempty.1, List.append_nil], .inl h.1⟩
      · refine ⟨List.flatten_concat, ?_⟩
        rcases Decidable.not_and_iff_or_not.mp hempty with hne | hfront
        · exact .inl (by simp [h.1, Ne.symm hne])
        · rw [not_not.mp hfront]
          by_cases hnil : back.dropLast = []
          · exact .inr (by rw [hnil]; rfl)
          · exact .inl (by simp [Ne.symm hnil])
  · exact ⟨rfl, .inl List.not_mem_nil⟩

/-! ### Editing -/

/-- What the user does to the text. -/
inductive Edit
  | input (text : List CodePoint)
  | backspace
  deriving DecidableEq

/-- The event in which SDL reports an edit. -/
def Edit.event : Edit → FieldEvent
  | .input text => .textInput (utf8.encode text)
  | .backspace => .keyDown sdlkBackspace

/-- The text that the edits are meant to leave. -/
def plainText (edits : List Edit) : List CodePoint := edits.foldl apply []
where
  apply (text : List CodePoint) : Edit → List CodePoint
    | .input added => text ++ added
    | .backspace => text.dropLast

/-- The field after the edits, from an empty field with the focus. -/
def run (ttfSizeText : CStr → ℤ) (width : ℤ) (edits : List Edit) : TextField :=
  edits.foldl (fun field edit => field.handleEvent ttfSizeText edit.event) ⟨width, [], true⟩

section Editing

variable (ttfSizeText : CStr → ℤ) (width : ℤ)

lemma plainText_concat (edits : List Edit) (edit : Edit) :
    plainText (edits ++ [edit]) = plainText.apply (plainText edits) edit := by
  simp [plainText]

lemma run_concat (edits : List Edit) (edit : Edit) :
    run ttfSizeText width (edits ++ [edit]) =
      (run ttfSizeText width edits).handleEvent ttfSizeText edit.event := by
  simp [run]

lemma focused_handleEvent {field : TextField} (hfocus : field.focused = true) (edit : Edit) :
    (field.handleEvent ttfSizeText edit.event).focused = true := by
  rw [handleEvent.eq_def, hfocus]
  cases edit with
  | input text => rfl
  | backspace => rfl

lemma lines_handleEvent_input {field : TextField} (hfocus : field.focused = true)
    (text : List CodePoint) :
    (field.handleEvent ttfSizeText (Edit.input text).event).lines =
      wrapSplitted ttfSizeText field.width
        (splitString (field.lines.flatten ++ utf8.encode text)) := by
  rw [handleEvent.eq_def, hfocus, Edit.event, joinStrings_nil]
  rfl

lemma lines_handleEvent_backspace {field : TextField} (hfocus : field.focused = true) :
    (field.handleEvent ttfSizeText Edit.backspace.event).lines =
      TextField.backspace field.lines := by
  rw [handleEvent.eq_def, hfocus, Edit.event]
  rfl

lemma tidy_wrapSplitted (s : Bytes) : Tidy (wrapSplitted ttfSizeText width (splitString s)) :=
  .inl fun hmem =>
    (fits_of_mem_wrapSplitted (fun _ => isElement_of_mem_splitString) hmem).1 rfl

/-- The field keeps the focus, and its lines stay tidy. -/
lemma tidy_run (edits : List Edit) :
    (run ttfSizeText width edits).focused = true ∧ Tidy (run ttfSizeText width edits).lines := by
  induction edits using List.reverseRecOn with
  | nil => exact ⟨rfl, .inl List.not_mem_nil⟩
  | append_singleton edits edit ih =>
    obtain ⟨hfocus, htidy⟩ := ih
    rw [run_concat]
    refine ⟨focused_handleEvent ttfSizeText hfocus edit, ?_⟩
    cases edit with
    | input text =>
      rw [lines_handleEvent_input ttfSizeText hfocus]
      exact tidy_wrapSplitted ttfSizeText _ _
    | backspace =>
      rw [lines_handleEvent_backspace ttfSizeText hfocus]
      exact htidy.backspace.2

/-- Without its last byte a text lacks its last character exactly if that is a single byte. -/
lemma dropLast_encode_eq_iff (cs : List CodePoint) :
    (utf8.encode cs).dropLast = utf8.encode cs.dropLast ↔ ∀ c ∈ cs.getLast?, c.toNat < 0x80 := by
  rcases List.eq_nil_or_concat' cs with rfl | ⟨cs, c, rfl⟩
  · simp
  · rw [utf8.encode_append, utf8.encode_singleton,
      List.dropLast_append_of_ne_nil (utf8.word_ne_nil c), List.dropLast_concat,
      List.append_right_eq_self, Utf8.dropLast_word_eq_nil_iff]
    simp

/-- One edit keeps the text right exactly if it does not cut off a part of a character. -/
lemma flatten_handleEvent_iff {field : TextField} (hfocus : field.focused = true)
    (htidy : Tidy field.lines) {cs : List CodePoint} (hcs : field.lines.flatten = utf8.encode cs)
    (edit : Edit) :
    (field.handleEvent ttfSizeText edit.event).lines.flatten =
        utf8.encode (plainText.apply cs edit) ↔
      (edit = .backspace → ∀ c ∈ cs.getLast?, c.toNat < 0x80) := by
  cases edit with
  | input text =>
    rw [lines_handleEvent_input ttfSizeText hfocus, flatten_wrapSplitted, flatten_splitString, hcs,
      plainText.apply, utf8.encode_append]
    simp
  | backspace =>
    rw [lines_handleEvent_backspace ttfSizeText hfocus, htidy.backspace.1, hcs, plainText.apply,
      dropLast_encode_eq_iff]
    simp

/-- The Backspaces of a run are those in front of its last edit, and that edit. -/
lemma forall_backspace_concat_iff {P : List Edit → Prop} (edits : List Edit) (edit : Edit) :
    (∀ es, es ++ [Edit.backspace] <+: edits ++ [edit] → P es) ↔
      (∀ es, es ++ [Edit.backspace] <+: edits → P es) ∧ (edit = .backspace → P edits) := by
  simp only [List.prefix_concat_iff]
  constructor
  · intro h
    refine ⟨fun es hes => h es (.inr hes), ?_⟩
    rintro rfl
    exact h edits (.inl rfl)
  · rintro ⟨h, hlast⟩ es (hes | hes)
    · obtain ⟨rfl, hedit⟩ := List.append_inj' hes rfl
      exact hlast (List.singleton_inj.mp hedit).symm
    · exact h es hes

/-- The field holds the text at every moment exactly if every Backspace finds an empty text or a
last character of one byte. -/
theorem flatten_lines_run_iff (edits : List Edit) :
    (∀ es, es <+: edits →
        (run ttfSizeText width es).lines.flatten = utf8.encode (plainText es)) ↔
      ∀ es, es ++ [Edit.backspace] <+: edits → ∀ c ∈ (plainText es).getLast?, c.toNat < 0x80 := by
  induction edits using List.reverseRecOn with
  | nil => simp [run, plainText]
  | append_singleton edits edit ih =>
    obtain ⟨hfocus, htidy⟩ := tidy_run ttfSizeText width edits
    rw [forall_backspace_concat_iff, ← ih]
    simp only [List.prefix_concat_iff, or_imp, forall_and, forall_eq]
    rw [and_comm, run_concat, plainText_concat]
    apply and_congr_right
    intro hprev
    exact flatten_handleEvent_iff ttfSizeText hfocus htidy (hprev edits (List.prefix_refl _)) edit

/-- Two bytes of input and a Backspace leave a byte that is no text. -/
theorem flatten_lines_run_not_plain :
    ¬ ∀ (ttfSizeText : CStr → ℤ) (width : ℤ) (edits : List Edit),
      (run ttfSizeText width edits).lines.flatten = utf8.encode (plainText edits) := by
  intro h
  exact absurd (h (fun text => text.length) 100 [.input [CodePoint.ofChar 'я'], .backspace])
    (by decide)

end Editing

end TextField

end Vjft
