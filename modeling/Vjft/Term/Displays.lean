import Vjft.Term.Keyb
import Vjft.Term.Layout
import Vjft.Term.Network

/-!
# The stacks in the minibuffer (`term/main.c`)

`displayStack` describes the `Action`s of a stack one after the other, each in a buffer of 128
bytes, and `dispCtrlStack` writes the names of the keys in the stack from the end of its buffer on.
-/

namespace Vjft.Term

/-! ### The stacks of actions -/

/-- What `snprintf` writes of a text into a buffer of `size` bytes, in front of the NUL. -/
def snprintf (size : ℕ) (text : CStr) : CStr := text.take (size - 1)

/-- `strcat` to a string in a block of `size` bytes. -/
def strcat (size : ℕ) (dest src : CStr) : Except Stop CStr := do
  require (dest.length + src.length + 1 ≤ size) .outOfBounds
  pure (dest ++ src)

/-- An `Action` as it is displayed. The count is any `int`. -/
structure Entry where
  cmdFn : CmdFunc
  seq : Option CStr
  cnt : ℤ

def Action.entry (act : Action) : Entry := ⟨act.cmdFn, act.seq, act.cnt⟩

def ActionStack.entries (stack : ActionStack) : List (Option Entry) :=
  stack.map (Option.map Action.entry)

/-- `"(%s «%s» %d) "` -/
def describe (act : Entry) : CStr :=
  literal "(" ++ literal (descrCmdFn act.cmdFn) ++ literal " «" ++ act.seq.getD (literal "null") ++
    literal "» " ++ literal (toString act.cnt) ++ literal ") "

/-- The text that is appended to the minibuffer, and nothing if there is no memory for it. `memory`
tells of which sizes there are blocks. -/
def displayStack (memory : ℕ → Bool) (stack : List (Option Entry)) : Except Stop (Option CStr) :=
  if memory 256 then loop stack 256 [] else .ok none
where
  loop : List (Option Entry) → ℕ → CStr → Except Stop (Option CStr)
  | [], _, buffer => .ok (some buffer)
  | none :: next, bufferSize, buffer => loop next bufferSize buffer
  | some act :: next, bufferSize, buffer =>
    let descr := snprintf 128 (describe act)
    let neededSize := buffer.length + descr.length + 1
    if neededSize > bufferSize then
      if memory (bufferSize * 2) then do
        let buffer ← strcat (bufferSize * 2) buffer descr
        loop next (bufferSize * 2) buffer
      else .ok none
    else do
      let buffer ← strcat bufferSize buffer descr
      loop next bufferSize buffer

/-- What is shown of an element of a stack. -/
def shown : Option Entry → CStr
  | none => []
  | some act => snprintf 128 (describe act)

lemma strcat_eq_ok {size : ℕ} {dest src buffer : CStr} (h : strcat size dest src = .ok buffer) :
    buffer = dest ++ src := by
  simp only [strcat, bind_eq_ok_iff] at h
  obtain ⟨_, -, h⟩ := h
  exact (Except.ok.inj h).symm

lemma displayStack.loop_eq_ok {memory : ℕ → Bool} {stack : List (Option Entry)} {bufferSize : ℕ}
    {buffer text : CStr} (h : loop memory stack bufferSize buffer = .ok (some text)) :
    text = buffer ++ stack.flatMap shown := by
  induction stack generalizing bufferSize buffer with
  | nil =>
    cases h
    exact (List.append_nil _).symm
  | cons elt next ih =>
    cases elt with
    | none =>
      rw [loop] at h
      exact ih h
    | some act =>
      have hcat {size : ℕ} (h : (do
          let buffer ← strcat size buffer (snprintf 128 (describe act))
          loop memory next size buffer) = .ok (some text)) :
          text = buffer ++ (some act :: next).flatMap shown := by
        obtain ⟨buffer', hbuffer, hrest⟩ := bind_eq_ok_iff.mp h
        rw [ih hrest, strcat_eq_ok hbuffer, List.append_assoc]
        rfl
      rw [loop] at h
      split_ifs at h
      · exact hcat h
      · cases h
      · exact hcat h

lemma displayStack_eq_ok {memory : ℕ → Bool} {stack : List (Option Entry)} {text : CStr}
    (h : displayStack memory stack = .ok (some text)) : text = stack.flatMap shown := by
  rw [displayStack] at h
  split_ifs at h
  · exact displayStack.loop_eq_ok h
  · cases h

/-! ### The size of the buffer -/

lemma length_snprintf_le (size : ℕ) (text : CStr) : (snprintf size text).length ≤ size - 1 :=
  List.length_take_le _ _

lemma strcat_of_le {size : ℕ} {dest src : CStr} (h : dest.length + src.length + 1 ≤ size) :
    strcat size dest src = .ok (dest ++ src) := by
  rw [strcat, require_of_pos h]
  rfl

/-- A block has 256 bytes at least, which is more than a description has, so a block that is twice
as large has room for one more of them. -/
lemma displayStack.exists_loop_eq_ok (memory : ℕ → Bool) (stack : List (Option Entry))
    {bufferSize : ℕ} {buffer : CStr} (hsize : 256 ≤ bufferSize)
    (hbuffer : buffer.length + 1 ≤ bufferSize) :
    ∃ text, loop memory stack bufferSize buffer = .ok text := by
  induction stack generalizing bufferSize buffer with
  | nil => exact ⟨_, rfl⟩
  | cons elt next ih =>
    cases elt with
    | none => exact ih hsize hbuffer
    | some act =>
      have hdescr := length_snprintf_le 128 (describe act)
      have hcat {size : ℕ} (hsize : 256 ≤ size)
          (hfits : buffer.length + (snprintf 128 (describe act)).length + 1 ≤ size) :
          ∃ text, (do
            let buffer ← strcat size buffer (snprintf 128 (describe act))
            loop memory next size buffer) = .ok text := by
        rw [strcat_of_le hfits, ok_bind]
        apply ih hsize
        rw [List.length_append]
        exact hfits
      rw [loop]
      split_ifs with hneeded
      · exact hcat (by omega) (by omega)
      · exact ⟨_, rfl⟩
      · exact hcat hsize (not_lt.mp hneeded)

/-- No `strcat` goes beyond the end of the buffer, whatever is in the stack and wherever the memory
ends. -/
theorem displayStack_inBounds (memory : ℕ → Bool) (stack : List (Option Entry)) :
    ∃ text, displayStack memory stack = .ok text := by
  rw [displayStack]
  split_ifs
  · exact displayStack.exists_loop_eq_ok memory stack le_rfl (by decide)
  · exact ⟨_, rfl⟩

/-! ### Characters that are cut -/

/-- The number of bytes of `seq` that are in front of the end of the buffer. -/
def room (act : Entry) : ℕ := 123 - (literal (descrCmdFn act.cmdFn)).length

/-- The buffer ends inside of a character: of one in `seq`, or of the quotation mark behind it. -/
def CutsCharacter (act : Entry) : Prop :=
  ∃ seq, act.seq = some seq ∧
    (Utf8.IsContinuation (byteAt seq (room act)) ∨ seq.length + 1 = room act)

lemma length_descrCmdFn (cmdFn : CmdFunc) : (literal (descrCmdFn cmdFn)).length ≤ 24 := by
  cases cmdFn <;> decide

lemma zero_notMem_descrCmdFn (cmdFn : CmdFunc) : '\x00' ∉ (descrCmdFn cmdFn).toList := by
  cases cmdFn <;> decide

/-- The digits of a number are bytes below `0x80`. -/
lemma not_isContinuation_of_mem_repr {n : ℕ} {b : UInt8} (hb : b ∈ literal n.repr) :
    ¬ Utf8.IsContinuation b := by
  rw [literal, List.mem_flatMap, Nat.repr, String.toList_ofList] at hb
  obtain ⟨c, hc, hbyte⟩ := hb
  have hdigit := Nat.isDigit_of_mem_toDigits (by decide) (by decide) hc
  have hlt : c.toNat < 0x80 := by
    rw [Char.isDigit, Bool.and_eq_true, decide_eq_true_iff, decide_eq_true_iff] at hdigit
    exact lt_of_le_of_lt (UInt32.le_iff_toNat_le.mp hdigit.2) (by decide)
  have hne : c.toNat ≠ 0 := by
    rintro h0
    obtain rfl : c = '\x00' := Char.toNat_inj.mp h0
    exact absurd hdigit (by decide)
  have hword : String.utf8EncodeChar c = [UInt8.ofNat c.toNat] := Utf8.word_of_lt ⟨c, hne⟩ hlt
  rw [hword, List.mem_singleton] at hbyte
  rintro ⟨h80, -⟩
  rw [hbyte, UInt8.toNat_ofNat_of_lt' (hlt.trans (by decide))] at h80
  exact absurd hlt (not_lt.mpr h80)

lemma not_isContinuation_of_mem_toString {n : ℤ} {b : UInt8} (hb : b ∈ literal (toString n)) :
    ¬ Utf8.IsContinuation b := by
  rw [Int.toString_eq_repr, Int.repr_eq_if] at hb
  split_ifs at hb
  · exact not_isContinuation_of_mem_repr hb
  · rw [literal, String.toList_append, List.flatMap_append, List.mem_append] at hb
    rcases hb with hb | hb
    · obtain rfl : b = 0x2D := List.mem_singleton.mp hb
      exact fun h => absurd h.1 (by decide)
    · exact not_isContinuation_of_mem_repr hb

lemma not_isContinuation_getD {bytes : Bytes} (h : ∀ b ∈ bytes, ¬ Utf8.IsContinuation b) (i : ℕ) :
    ¬ Utf8.IsContinuation (bytes.getD i 0) := by
  rcases lt_or_ge i bytes.length with hi | hi
  · rw [List.getD_eq_getElem _ _ hi]
    exact h _ (List.getElem_mem hi)
  · rw [List.getD_eq_default _ _ hi]
    exact Utf8.not_isContinuation_zero

/-- Of the bytes behind `seq` the second one is in the middle of a character. -/
lemma isContinuation_byteAt_append (seq : CStr) (cnt : ℤ) (k : ℕ) :
    Utf8.IsContinuation
        (byteAt (seq ++ (literal "» " ++ literal (toString cnt) ++ literal ") ")) k) ↔
      Utf8.IsContinuation (byteAt seq k) ∨ seq.length + 1 = k := by
  rcases lt_or_ge k seq.length with hk | hk
  · rw [byteAt, List.getD_append _ _ _ _ hk, ← byteAt]
    exact (or_iff_left (by omega)).symm
  · obtain ⟨j, rfl⟩ := Nat.exists_eq_add_of_le hk
    rw [byteAt, List.getD_append_right _ _ _ _ hk, Nat.add_sub_cancel_left, byteAt_of_length_le hk,
      or_iff_right Utf8.not_isContinuation_zero, Nat.add_right_inj]
    have hquote : literal "» " ++ literal (toString cnt) ++ literal ") " =
        0xC2 :: 0xBB :: 0x20 :: (literal (toString cnt) ++ [0x29, 0x20]) := by rfl
    rw [hquote]
    have hfirst : ¬ Utf8.IsContinuation 0xC2 := fun h => absurd h.2 (by decide)
    have hspace : ¬ Utf8.IsContinuation 0x20 := fun h => absurd h.1 (by decide)
    have hparen : ¬ Utf8.IsContinuation 0x29 := fun h => absurd h.1 (by decide)
    obtain _ | _ | j := j
    · exact iff_of_false hfirst (by decide)
    · exact iff_of_true (show Utf8.IsContinuation 0xBB from ⟨by decide, by decide⟩) rfl
    · refine iff_of_false (not_isContinuation_getD ?_ j) (by omega)
      intro b hb
      rw [List.mem_cons, List.mem_append, List.mem_pair] at hb
      rcases hb with rfl | hb | rfl | rfl
      · exact hspace
      · exact not_isContinuation_of_mem_toString hb
      · exact hparen
      · exact hspace

/-- The byte of a description that is the first one not to fit. -/
lemma isContinuation_describe (act : Entry) :
    Utf8.IsContinuation (byteAt (describe act) 127) ↔ CutsCharacter act := by
  have hname := length_descrCmdFn act.cmdFn
  have hlength : (literal "(" ++ literal (descrCmdFn act.cmdFn) ++ literal " «").length =
      (literal (descrCmdFn act.cmdFn)).length + 4 := by
    simp only [List.length_append, show (literal "(").length = 1 by decide,
      show (literal " «").length = 3 by decide]
    omega
  have hdescribe : describe act = literal "(" ++ literal (descrCmdFn act.cmdFn) ++ literal " «" ++
      (act.seq.getD (literal "null") ++
        (literal "» " ++ literal (toString act.cnt) ++ literal ") ")) := by
    simp only [describe, List.append_assoc]
  have hroom : 127 - ((literal (descrCmdFn act.cmdFn)).length + 4) = room act := by
    rw [room]
    omega
  rw [hdescribe, byteAt, List.getD_append_right _ _ _ _ (by omega), hlength, hroom, ← byteAt,
    isContinuation_byteAt_append, CutsCharacter]
  cases hseq : act.seq with
  | some seq => simp
  | none =>
    have hnull : (literal "null").length = 4 := by decide
    have hfar : 99 ≤ room act := by
      rw [room]
      omega
    rw [Option.getD_none, byteAt_of_length_le (by omega)]
    refine iff_of_false ?_ (by simp)
    rintro (h | h)
    · exact Utf8.not_isContinuation_zero h
    · omega

/-- The texts in a stack of actions are well-formed. -/
def TextsOf (stack : List (Option Entry)) : Prop :=
  ∀ act, some act ∈ stack → ∀ seq, act.seq = some seq → ∃ cs, seq = utf8.encode cs

lemma describe_eq_encode {act : Entry}
    (h : ∀ seq, act.seq = some seq → ∃ cs, seq = utf8.encode cs) :
    ∃ ds, describe act = utf8.encode ds := by
  obtain ⟨ds₁, h₁⟩ := @exists_encode_literal "(" (by decide)
  obtain ⟨ds₂, h₂⟩ := exists_encode_literal (zero_notMem_descrCmdFn act.cmdFn)
  obtain ⟨ds₃, h₃⟩ := @exists_encode_literal " «" (by decide)
  obtain ⟨ds₄, h₄⟩ : ∃ ds, act.seq.getD (literal "null") = utf8.encode ds := by
    cases hseq : act.seq with
    | none => exact @exists_encode_literal "null" (by decide)
    | some seq => exact h seq hseq
  obtain ⟨ds₅, h₅⟩ := @exists_encode_literal "» " (by decide)
  obtain ⟨ds₆, h₆⟩ := literal_toString_eq_encode act.cnt
  obtain ⟨ds₇, h₇⟩ := @exists_encode_literal ") " (by decide)
  refine ⟨ds₁ ++ ds₂ ++ ds₃ ++ ds₄ ++ ds₅ ++ ds₆ ++ ds₇, ?_⟩
  simp only [describe, h₁, h₂, h₃, h₄, h₅, h₆, h₇, VarCode.encode_append]

lemma exists_snprintf_eq_iff {act : Entry}
    (h : ∀ seq, act.seq = some seq → ∃ cs, seq = utf8.encode cs) :
    (∃ ds, snprintf 128 (describe act) = utf8.encode ds) ↔ ¬ CutsCharacter act := by
  obtain ⟨ds, hds⟩ := describe_eq_encode h
  rw [← isContinuation_describe, snprintf, hds]
  exact Utf8.exists_take_eq_iff

/-- Every description begins with a parenthesis. -/
lemma not_isContinuation_headD (stack : List (Option Entry)) :
    ¬ Utf8.IsContinuation ((stack.flatMap shown).headD 0) := by
  induction stack with
  | nil => exact Utf8.not_isContinuation_zero
  | cons elt next ih =>
    cases elt with
    | none => exact ih
    | some act => exact fun h => absurd (show Utf8.IsContinuation 0x28 from h).1 (by decide)

/-- The descriptions are a text if each of them is. -/
lemma exists_flatMap_shown_eq_iff {stack : List (Option Entry)} (h : TextsOf stack) :
    (∃ cs, stack.flatMap shown = utf8.encode cs) ↔
      ∀ act, some act ∈ stack → ¬ CutsCharacter act := by
  induction stack with
  | nil => exact iff_of_true ⟨[], rfl⟩ (fun act hact => absurd hact List.not_mem_nil)
  | cons elt next ih =>
    have hrest : TextsOf next := fun act hact => h act (List.mem_cons_of_mem _ hact)
    rw [List.flatMap_cons, Utf8.exists_append_eq_iff (not_isContinuation_headD next), ih hrest]
    cases elt with
    | none =>
      rw [and_iff_right ⟨[], rfl⟩]
      simp
    | some act =>
      rw [shown, exists_snprintf_eq_iff (h act List.mem_cons_self)]
      simp

/-- The text of a stack is well-formed, and `calc_display_size` does not leave the minibuffer that
it is in, exactly when no character is cut. -/
theorem displayStack_isText_iff {memory : ℕ → Bool} {stack : List (Option Entry)} {text : CStr}
    (hstack : TextsOf stack) (h : displayStack memory stack = .ok (some text)) :
    ((∃ cs, text = utf8.encode cs) ∧
      ∀ before behind w p, ∃ size,
        calcDisplaySize (CStr.toMemory (utf8.encode before ++ text ++ utf8.encode behind)) w p =
          .ok size) ↔
      ∀ act, some act ∈ stack → ¬ CutsCharacter act := by
  obtain rfl := displayStack_eq_ok h
  rw [← exists_flatMap_shown_eq_iff hstack]
  refine ⟨And.left, fun htext => ⟨htext, ?_⟩⟩
  obtain ⟨cs, hcs⟩ := htext
  intro before behind w p
  rw [hcs, ← VarCode.encode_append, ← VarCode.encode_append, calcDisplaySize_eq]
  exact ⟨_, rfl⟩

lemma displayStack_singleton (act : Entry) :
    displayStack (fun _ => true) [some act] = .ok (some (shown (some act))) := by
  have hlen : (snprintf 128 (describe act)).length ≤ 127 := List.length_take_le _ _
  rw [displayStack, if_pos rfl, displayStack.loop, List.length_nil, Nat.zero_add,
    if_neg (by omega), strcat, List.length_nil, Nat.zero_add, require_of_pos (by omega), ok_bind]
  rfl

/-- One letter was put in and none is cut. -/
theorem displayStack_isText_letter :
    let stack : ActionStack := [some ⟨0, .cmdInsert, some (literal "п"), 1⟩]
    ∃ text cs, displayStack (fun _ => true) stack.entries = .ok (some text) ∧
      text = utf8.encode cs := by
  intro stack
  have hdisplay := displayStack_singleton ⟨.cmdInsert, some (literal "п"), 1⟩
  have hstack : TextsOf stack.entries := by
    intro act hact seq hseq
    obtain rfl : act = _ := Option.some.inj (List.mem_singleton.mp hact)
    obtain rfl : literal "п" = seq := Option.some.inj hseq
    exact exists_encode_literal (by decide)
  have hiff := displayStack_isText_iff hstack hdisplay
  obtain ⟨⟨cs, hcs⟩, -⟩ := hiff.mpr (by
    rintro act hact ⟨seq, hseq, hcut⟩
    obtain rfl : act = _ := Option.some.inj (List.mem_singleton.mp hact)
    obtain rfl : literal "п" = seq := Option.some.inj hseq
    rcases hcut with hcut | hlen
    · exact absurd hcut.1 (by decide)
    · exact absurd hlen (by decide))
  exact ⟨_, cs, hdisplay, hcs⟩

/-- After 112 letters `a` and a Cyrillic letter are typed, that letter is cut, and
`calc_display_size` goes beyond the end of the text. -/
theorem displayStack_cuts_letter :
    let stack : ActionStack :=
      [some ⟨0, .cmdInsert,
        some (utf8.encode (List.replicate 112 (.ofChar 'a') ++ [.ofChar 'п'])), 1⟩]
    ∃ text, displayStack (fun _ => true) stack.entries = .ok (some text) ∧
      (¬ ∃ cs, text = utf8.encode cs) ∧
      ¬ ∃ size, calcDisplaySize (CStr.toMemory text) 78 (-1) = .ok size := by
  intro stack
  let act : Entry :=
    ⟨.cmdInsert, some (utf8.encode (List.replicate 112 (.ofChar 'a') ++ [.ofChar 'п'])), 1⟩
  refine ⟨_, displayStack_singleton act, ?_, ?_⟩
  · have hiff := @exists_snprintf_eq_iff act fun seq hseq => ⟨_, (Option.some.inj hseq).symm⟩
    have hroom : room act = 113 := by decide +kernel
    have hcut : Utf8.IsContinuation (byteAt (utf8.encode
        (List.replicate 112 (.ofChar 'a') ++ [.ofChar 'п'])) 113) :=
      ⟨by decide +kernel, by decide +kernel⟩
    rw [shown, hiff, not_not]
    refine ⟨_, rfl, .inl ?_⟩
    rw [hroom]
    exact hcut
  · rintro ⟨size, hsize⟩
    have hok : (calcDisplaySize (CStr.toMemory (shown (some act))) 78 (-1)).isOk = false := by
      decide +kernel
    rw [hsize] at hok
    cases hok

/-! ### The stack of keys -/

/-- The name of the enumerator. -/
def keyToStr (k : Key) : CStr := (keyMap[k]?.map fun e => literal e.val).getD []

lemma keyToStr_key {val : String} (h : key val < keyMap.length) :
    keyToStr (key val) = literal val := by
  rw [keyToStr, List.getElem?_eq_getElem h, Option.map_some, val_getElem_key h rfl]
  rfl

/-- The variables of `dispCtrlStack`: where `ptr` is in the buffer, and the bytes that were written,
each with its place in the buffer. -/
structure KeysDisplay where
  ptr : ℤ
  writes : List (ℤ × UInt8)

/-- `memcpy` to the place where `ptr` is. -/
def KeysDisplay.write (s : KeysDisplay) (bytes : Bytes) : KeysDisplay :=
  { s with writes := s.writes ++ bytes.zipIdx.map fun b => (s.ptr + b.2, b.1) }

/-- A round of the loop. -/
def KeysDisplay.push (s : KeysDisplay) (k : Key) : KeysDisplay :=
  let tmp := keyToStr k
  let len := tmp.length
  let s := { s with ptr := s.ptr - len }
  let s := s.write tmp
  let s := { s with ptr := s.ptr - 1 }
  s.write [0x20]

/-- The state in front of `appendToMiniBuffer(ptr)`. -/
def dispCtrlStack (ctrlStack : CtrlStack) : KeysDisplay :=
  let s : KeysDisplay := ⟨maxBuffer - 1, []⟩
  let s := s.write [0]
  if ctrlStack ≠ [] then
    let s := ctrlStack.foldl KeysDisplay.push s
    { s with ptr := s.ptr + 1 }
  else s

/-- Every byte is written into the buffer. -/
def KeysDisplay.Inside (s : KeysDisplay) : Prop :=
  ∀ write ∈ s.writes, 0 ≤ write.1 ∧ write.1 < maxBuffer

/-- The bytes that the names of the keys take, with a blank in front of each. -/
def namesLength (ctrlStack : CtrlStack) : ℕ := (ctrlStack.map fun k => (keyToStr k).length + 1).sum

section Inside

variable {s : KeysDisplay} {k : Key}

lemma KeysDisplay.inside_write {bytes : Bytes} :
    (s.write bytes).Inside ↔
      s.Inside ∧ ∀ i < bytes.length, 0 ≤ s.ptr + i ∧ s.ptr + i < maxBuffer := by
  rw [Inside, write, List.forall_mem_append, List.forall_mem_map]
  refine and_congr_right fun _ => ⟨fun h i hi => ?_, fun h b hb => ?_⟩
  · exact h (bytes[i], i) (List.mk_mem_zipIdx_iff_getElem?.mpr (List.getElem?_eq_getElem hi))
  · exact h b.2 (List.snd_lt_of_mem_zipIdx hb)

lemma KeysDisplay.ptr_push : (s.push k).ptr = s.ptr - ((keyToStr k).length + 1 : ℕ) := by
  rw [push]
  dsimp only [write]
  omega

/-- The blank in front of a name is written at the lowest place. -/
lemma KeysDisplay.inside_push (hptr : s.ptr < maxBuffer) :
    (s.push k).Inside ↔ s.Inside ∧ 0 ≤ (s.push k).ptr := by
  have hname : (({ s with ptr := s.ptr - (keyToStr k).length } : KeysDisplay).write
      (keyToStr k)).Inside ↔ s.Inside ∧ ∀ i < (keyToStr k).length,
        0 ≤ s.ptr - (keyToStr k).length + i ∧ s.ptr - (keyToStr k).length + i < maxBuffer :=
    inside_write
  have hblank : (s.push k).Inside ↔
      (({ s with ptr := s.ptr - (keyToStr k).length } : KeysDisplay).write (keyToStr k)).Inside ∧
        ∀ i < 1, 0 ≤ (s.push k).ptr + (i : ℕ) ∧ (s.push k).ptr + (i : ℕ) < maxBuffer :=
    inside_write
  rw [hblank, hname, and_assoc]
  refine and_congr_right fun _ => ⟨fun h => ?_, fun h => ⟨fun i hi => ?_, fun i hi => ?_⟩⟩
  · simpa using (h.2 0 Nat.one_pos).1
  · rw [ptr_push] at h
    omega
  · rw [ptr_push] at h ⊢
    omega

/-- The key on top of the stack is written first, and the one at its bottom at the lowest place. -/
lemma KeysDisplay.inside_foldl_push {ctrlStack : CtrlStack} (hptr : s.ptr < maxBuffer) :
    (ctrlStack.foldl push s).ptr = s.ptr - namesLength ctrlStack ∧
      ((ctrlStack.foldl push s).Inside ↔
        s.Inside ∧ (ctrlStack = [] ∨ 0 ≤ (ctrlStack.foldl push s).ptr)) := by
  induction ctrlStack generalizing s with
  | nil => exact ⟨(Int.sub_zero _).symm, by simp⟩
  | cons k next ih =>
    have hnext : (s.push k).ptr < maxBuffer := by
      rw [ptr_push]
      omega
    obtain ⟨hlen, hinside⟩ := ih hnext
    rw [List.foldl_cons]
    refine ⟨?_, ?_⟩
    · rw [hlen, ptr_push, namesLength, namesLength, List.map_cons, List.sum_cons]
      omega
    · rw [hinside, inside_push hptr, and_assoc, hlen]
      refine and_congr_right fun _ => ?_
      cases next with
      | nil => simp [namesLength]
      | cons k' next =>
        simp only [reduceCtorEq, false_or]
        exact and_iff_right_of_imp (by omega)

end Inside

lemma namesLength_append (popped rest : CtrlStack) :
    namesLength (popped ++ rest) = namesLength popped + namesLength rest := by
  rw [namesLength, List.map_append, List.sum_append]
  rfl

lemma dispCtrlStack_inside (ctrlStack : CtrlStack) :
    (dispCtrlStack ctrlStack).Inside ↔ namesLength ctrlStack < maxBuffer := by
  have hstart : (KeysDisplay.write ⟨maxBuffer - 1, []⟩ [0]).Inside :=
    List.forall_mem_singleton.mpr (by decide)
  rw [dispCtrlStack]
  split_ifs with hne
  · obtain ⟨hptr, hinside⟩ := @KeysDisplay.inside_foldl_push
      (KeysDisplay.write ⟨maxBuffer - 1, []⟩ [0]) ctrlStack (by decide)
    refine hinside.trans ?_
    rw [and_iff_right hstart, or_iff_right hne, hptr]
    dsimp only [KeysDisplay.write]
    omega
  · rw [not_not.mp hne]
    exact iff_of_true hstart (by decide)

/-- The keystroke belongs to no binding and stays in the stack. -/
def Keyboard.Pushes (s : Keyboard) : Prop :=
  s.token.len ≠ 0 ∧ ¬ (keyPrintable s.nextKey ∧ s.ctrlStack = []) ∧
    s.nextKey ≠ key "KEY_CTRL_G" ∧ findCommandByKey (pushCtrlStack s.ctrlStack s.nextKey) = none

/-- There is room for the name of a key that is pushed. -/
def Keyboard.HasRoom (s : Keyboard) : Prop :=
  s.Pushes → namesLength (pushCtrlStack s.ctrlStack s.nextKey) < maxBuffer

/-- A step in which a key is pushed only if there is room for its name. -/
def Keyboard.StepWithRoom (s s' : Keyboard) : Prop := s.Step s' ∧ (s' = (keyb s).1 → s.HasRoom)

lemma Keyboard.namesLength_keyb {s : Keyboard} (h : namesLength s.ctrlStack < maxBuffer)
    (hroom : s.HasRoom) : namesLength (keyb s).1.ctrlStack < maxBuffer := by
  have hrule := KeybRule.of_keyb s
  generalize (Term.keyb s).1 = s' at hrule ⊢
  cases hrule with
  | nothing _ => exact h
  | insert _ _ _ => exact h
  | reset _ _ _ =>
    obtain ⟨popped, hpopped⟩ := clearCtrlStack_suffix s.ctrlStack
    rw [← hpopped, namesLength_append] at h
    exact (Nat.le_add_left _ _).trans_lt h
  | dispatch cmd _ _ _ hfind =>
    obtain ⟨hmem, hcombo⟩ := findCommandByKey_eq_some hfind
    have h0 := zero_notMem_combo cmd hmem
    rw [hcombo, List.mem_reverse] at h0
    have hnil := clearCtrlStack_eq_nil_iff.mpr fun h => h0 (List.dropLast_subset _ h)
    dsimp only
    rw [hnil]
    decide
  | unbound hlen hinsert hreset hfind => exact hroom ⟨hlen, hinsert, hreset, hfind⟩

/-- The display of a stack of keys stays in its buffer exactly when the names of the keys fit into
it, and then it does in every run in which there is room for each name that is pushed. -/
theorem dispCtrlStack_inside_iff (s : Keyboard) :
    ((dispCtrlStack s.ctrlStack).Inside ↔ namesLength s.ctrlStack < maxBuffer) ∧
      ∀ s', Relation.ReflTransGen Keyboard.StepWithRoom s s' →
        (dispCtrlStack s.ctrlStack).Inside → (dispCtrlStack s'.ctrlStack).Inside := by
  refine ⟨dispCtrlStack_inside s.ctrlStack, ?_⟩
  intro s' hrun hinside
  rw [dispCtrlStack_inside] at hinside ⊢
  induction hrun with
  | refl => exact hinside
  | tail _ hstep ih =>
    obtain ⟨hstep, hroom⟩ := hstep
    cases hstep with
    | arrive bytes => exact ih
    | keyb => exact Keyboard.namesLength_keyb ih (hroom rfl)
    | processEvents messages => exact ih

/-! ### Pressing Ctrl-X again and again -/

/-- Every Ctrl-X stays in the stack. -/
lemma exists_reachable_replicate_ctrlX (n : ℕ) :
    ∃ s : Keyboard, s.Reachable ∧ s.input = [] ∧
      s.ctrlStack = List.replicate n (key "KEY_CTRL_X") := by
  induction n with
  | zero => exact ⟨⟨[], [], [], []⟩, ⟨[], .refl⟩, rfl, rfl⟩
  | succ n ih =>
    obtain ⟨s, ⟨messages, hrun⟩, hinput, hstack⟩ := ih
    let s' : Keyboard := { s with input := s.input ++ [0x18] }
    have hread : s'.input = [0x18] := congrArg (· ++ [0x18]) hinput
    have htoken : s'.token = ⟨1, [0x18], []⟩ := by
      rw [Keyboard.token, hread]
      decide
    obtain ⟨hinput', hstack'⟩ := Keyboard.ctrlStack_of_ctrlX htoken hstack
    exact ⟨(keyb s').1, ⟨messages, (hrun.tail (.arrive s [0x18])).tail (.keyb s')⟩, hinput',
      hstack'⟩

lemma namesLength_replicate_ctrlX (n : ℕ) :
    namesLength (List.replicate n (key "KEY_CTRL_X")) = n * 11 := by
  have hname : (keyToStr (key "KEY_CTRL_X")).length + 1 = 11 := by
    rw [keyToStr_key ctrlX_spec.2.1]
    decide
  rw [namesLength, List.map_replicate, hname, List.sum_replicate_nat]

/-- Ctrl-X was pressed once. -/
theorem dispCtrlStack_inside_ctrl_x :
    ∃ s : Keyboard, s.Reachable ∧ s.ctrlStack = [key "KEY_CTRL_X"] ∧
      (dispCtrlStack s.ctrlStack).Inside := by
  obtain ⟨s, hs, -, hstack⟩ := exists_reachable_replicate_ctrlX 1
  refine ⟨s, hs, hstack, (dispCtrlStack_inside_iff s).1.mpr ?_⟩
  rw [hstack, namesLength_replicate_ctrlX]
  decide

/-- Ctrl-X was pressed 94 times, and something is written in front of the buffer. -/
theorem dispCtrlStack_not_inside :
    ∃ s : Keyboard, s.Reachable ∧ s.ctrlStack = List.replicate 94 (key "KEY_CTRL_X") ∧
      ¬ (dispCtrlStack s.ctrlStack).Inside := by
  obtain ⟨s, hs, -, hstack⟩ := exists_reachable_replicate_ctrlX 94
  refine ⟨s, hs, hstack, ?_⟩
  rw [dispCtrlStack_inside, hstack, namesLength_replicate_ctrlX]
  decide

end Vjft.Term
