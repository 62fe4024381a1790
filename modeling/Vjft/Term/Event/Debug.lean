import Vjft.Term.HexBuffer
import Vjft.Term.Keyb
import Vjft.Term.Displays

/-!
# Keys that no command is bound to (`term/event.c`)

An event of type `DBG` carries the bytes of a key. `convertToAsciiCodes` writes their codes into a
buffer, as far as there is room, and the message shows the name of the key and the codes.
-/

namespace Vjft.Term

/-! ### The code -/

/-- `snprintf(output + offset, size, "%s", text)` -/
def snprintfAt (output : Bytes) (offset size : ℕ) (text : Bytes) : Except Stop Bytes :=
  if size = 0 then .ok output
  else do
    let written := text.take (size - 1) ++ [0]
    require (offset + written.length ≤ output.length) .outOfBounds
    pure (output.take offset ++ written ++ output.drop (offset + written.length))

def lowerHexDigit (digit : ℕ) : UInt8 :=
  if digit < 10 then UInt8.ofNat (0x30 + digit) else UInt8.ofNat (0x61 + digit - 10)

/-- What `"%x"` makes of a byte. -/
def hexCode (b : UInt8) : Bytes :=
  if b < 0x10 then [lowerHexDigit b.toNat]
  else [lowerHexDigit (b.toNat / 16), lowerHexDigit (b.toNat % 16)]

def convertToAsciiCodes (input : CStr) (output : Bytes) (outputSize : ℕ) :
    Except Stop Bytes := do
  let (output, offset) ← loop input output 0
  writeByte output offset 0
where
  loop : CStr → Bytes → ℕ → Except Stop (Bytes × ℕ)
  | [], output, offset => .ok (output, offset)
  | b :: rest, output, offset => do
    let written := (hexCode b).length
    let output ← snprintfAt output offset (outputSize - offset) (hexCode b)
    if written ≥ outputSize - offset then pure (output, offset)
    else
      let offset := offset + written
      if rest ≠ [] then
        if offset < outputSize - 1 then do
          let output ← writeByte output offset 0x20
          loop rest output (offset + 1)
        else pure (output, offset)
      else pure (output, offset)

/-! ### Codes -/

/-- The codes of all bytes, with a blank between each two. -/
def codes (input : CStr) : Bytes := [0x20].intercalate (input.map hexCode)

/-- The bytes that some codes are those of. -/
def readCodes (text : Bytes) : CStr :=
  if text = [] then []
  else (text.splitOn 0x20).map fun code =>
    UInt8.ofNat (code.foldl (fun num c => num * 16 + ((hexValue c).getD 0).toNat) 0)

/-- What the loop writes of some codes, with room for so many bytes and the NUL among them. -/
def codesWithin (room : ℕ) : CStr → Bytes
  | [] => []
  | b :: rest =>
    if room ≤ (hexCode b).length then []
    else if rest ≠ [] ∧ (hexCode b).length + 1 < room then
      hexCode b ++ 0x20 :: codesWithin (room - (hexCode b).length - 1) rest
    else hexCode b

lemma length_hexCode (b : UInt8) : 1 ≤ (hexCode b).length ∧ (hexCode b).length ≤ 2 := by
  rw [hexCode]
  split_ifs
  · exact ⟨le_rfl, Nat.le_succ 1⟩
  · exact ⟨Nat.le_succ 1, le_rfl⟩

/-- The code of a byte is read as the byte, and has neither a blank nor a NUL. -/
lemma hexCode_spec (b : UInt8) : ((0x20 : UInt8) ∉ hexCode b ∧ (0 : UInt8) ∉ hexCode b) ∧
    UInt8.ofNat ((hexCode b).foldl (fun num c => num * 16 + ((hexValue c).getD 0).toNat) 0) =
      b := by
  have key : ∀ n < 256, ((0x20 : UInt8) ∉ hexCode (UInt8.ofNat n) ∧
      (0 : UInt8) ∉ hexCode (UInt8.ofNat n)) ∧ UInt8.ofNat ((hexCode (UInt8.ofNat n)).foldl
        (fun num c => num * 16 + ((hexValue c).getD 0).toNat) 0) = UInt8.ofNat n := by
    decide +kernel
  have hb := key b.toNat b.toNat_lt
  rwa [UInt8.ofNat_toNat] at hb

lemma codes_cons {rest : CStr} (b : UInt8) (h : rest ≠ []) :
    codes (b :: rest) = hexCode b ++ 0x20 :: codes rest := by
  rw [codes, List.map_cons, List.intercalate_cons_of_ne_nil (mt List.map_eq_nil_iff.mp h),
    List.append_assoc]
  rfl

@[simp] lemma codes_nil : codes [] = [] := rfl

@[simp] lemma codes_singleton (b : UInt8) : codes [b] = hexCode b := List.intercalate_singleton

lemma one_le_length_codes {input : CStr} (h : input ≠ []) : 1 ≤ (codes input).length := by
  obtain ⟨b, rest, rfl⟩ := List.exists_cons_of_ne_nil h
  have hcode := (length_hexCode b).1
  by_cases hrest : rest = []
  · rw [hrest, codes_singleton]
    exact hcode
  · rw [codes_cons b hrest, List.length_append]
    exact Nat.le_add_right_of_le hcode

/-- The codes tell the bytes. -/
lemma readCodes_codes (input : CStr) : readCodes (codes input) = input := by
  by_cases h : input = []
  · rw [h, codes_nil, readCodes, if_pos rfl]
  have hne : codes input ≠ [] := List.ne_nil_of_length_pos (one_le_length_codes h)
  have hblank : ∀ code ∈ input.map hexCode, (0x20 : UInt8) ∉ code := by
    intro code hcode
    obtain ⟨b, -, rfl⟩ := List.mem_map.mp hcode
    exact (hexCode_spec b).1.1
  rw [readCodes, if_neg hne, codes, List.splitOn_intercalate _ hblank (mt List.map_eq_nil_iff.mp h),
    List.map_map]
  refine (List.map_congr_left fun b _ => ?_).trans (List.map_id input)
  exact (hexCode_spec b).2

/-! ### The buffer -/

section Buffer

variable {room : ℕ} {input : CStr}

lemma codesWithin_cons (room : ℕ) (b : UInt8) (rest : CStr) :
    codesWithin room (b :: rest) =
      if room ≤ (hexCode b).length then []
      else if rest ≠ [] ∧ (hexCode b).length + 1 < room then
        hexCode b ++ 0x20 :: codesWithin (room - (hexCode b).length - 1) rest
      else hexCode b := rfl

lemma length_codesWithin_lt (input : CStr) (hroom : 1 ≤ room) :
    (codesWithin room input).length < room := by
  induction input generalizing room with
  | nil => exact hroom
  | cons b rest ih =>
    rw [codesWithin_cons]
    split_ifs with hfull hnext
    · exact hroom
    · have hrest := @ih (room - (hexCode b).length - 1) (by omega)
      rw [List.length_append, List.length_cons]
      omega
    · exact not_le.mp hfull

/-- The codes of the first bytes of which there are some. -/
lemma codes_take_succ (b : UInt8) (rest : CStr) (n : ℕ) :
    codes ((b :: rest).take (n + 1)) =
      if n = 0 ∨ rest = [] then hexCode b else hexCode b ++ 0x20 :: codes (rest.take n) := by
  rw [List.take_succ_cons]
  split_ifs with h
  · have hnil : rest.take n = [] := List.take_eq_nil_iff.mpr h
    rw [hnil, codes_singleton]
  · exact codes_cons b (mt List.take_eq_nil_iff.mp h)

lemma length_codes_take_succ_le (b : UInt8) (rest : CStr) (n : ℕ) :
    (hexCode b).length ≤ (codes ((b :: rest).take (n + 1))).length := by
  rw [codes_take_succ]
  split_ifs
  · exact le_rfl
  · rw [List.length_append]
    exact Nat.le_add_right _ _

/-- What fits is written: the codes of the first bytes, up to the last one whose code fits, and
maybe the blank behind it. -/
lemma exists_codesWithin (input : CStr) (hroom : 1 ≤ room) :
    codesWithin room input <+: codes input ∧ ∃ n ≤ input.length,
      (codesWithin room input = codes (input.take n) ∨
        0 < n ∧ codesWithin room input = codes (input.take n) ++ [0x20]) ∧
      ∀ m ≤ input.length, (codes (input.take m)).length < room ↔ m ≤ n := by
  induction input generalizing room with
  | nil =>
    refine ⟨List.nil_prefix, 0, le_rfl, .inl rfl, fun m hm => ?_⟩
    rw [List.take_nil]
    exact iff_of_true hroom hm
  | cons b rest ih =>
    have hcode := length_hexCode b
    rw [codesWithin_cons]
    split_ifs with hfull hnext
    · refine ⟨List.nil_prefix, 0, Nat.zero_le _, .inl rfl, fun m _ => ?_⟩
      cases m with
      | zero => exact iff_of_true hroom le_rfl
      | succ m =>
        have hle := length_codes_take_succ_le b rest m
        exact iff_of_false (by omega) (Nat.not_succ_le_zero m)
    · obtain ⟨hrest, hlt⟩ := hnext
      obtain ⟨hpre, n, hn, hwritten, hfits⟩ :=
        @ih (room - (hexCode b).length - 1) (by omega)
      refine ⟨?_, n + 1, Nat.succ_le_succ hn, ?_, fun m hm => ?_⟩
      · rw [codes_cons b hrest]
        exact (List.prefix_append_right_inj _).mpr ((List.prefix_cons_inj _).mpr hpre)
      · rw [codes_take_succ]
        rcases hwritten with hwritten | ⟨hpos, hwritten⟩
        · rw [hwritten]
          rcases Nat.eq_zero_or_pos n with rfl | hpos
          · rw [if_pos (.inl rfl)]
            exact .inr ⟨Nat.one_pos, rfl⟩
          · rw [if_neg (not_or.mpr ⟨hpos.ne', hrest⟩)]
            exact .inl rfl
        · rw [hwritten, if_neg (not_or.mpr ⟨hpos.ne', hrest⟩), List.append_assoc]
          exact .inr ⟨Nat.succ_pos n, rfl⟩
      · cases m with
        | zero => exact iff_of_true hroom (Nat.zero_le _)
        | succ m =>
          rw [codes_take_succ, Nat.succ_le_succ_iff]
          split_ifs with h0
          · obtain rfl : m = 0 := h0.resolve_right hrest
            exact iff_of_true (not_le.mp hfull) (Nat.zero_le n)
          · rw [← hfits m (Nat.le_of_succ_le_succ hm), List.length_append, List.length_cons]
            omega
    · refine ⟨?_, 1, Nat.succ_le_succ (Nat.zero_le _), .inl ?_, fun m hm => ?_⟩
      · by_cases hrest : rest = []
        · exact hrest ▸ codes_singleton b ▸ List.prefix_rfl
        · rw [codes_cons b hrest]
          exact List.prefix_append _ _
      · rw [codes_take_succ, if_pos (.inl rfl)]
      · cases m with
        | zero => exact iff_of_true hroom (Nat.zero_le _)
        | succ m =>
          rw [codes_take_succ]
          split_ifs with h0
          · have hm0 : m = 0 := h0.elim id fun hrest => by
              rw [hrest] at hm
              exact Nat.le_zero.mp (Nat.le_of_succ_le_succ hm)
            rw [hm0]
            exact iff_of_true (not_le.mp hfull) le_rfl
          · obtain ⟨hm0, hrest⟩ := not_or.mp h0
            have hlong := not_lt.mp fun hlt => hnext ⟨hrest, hlt⟩
            rw [List.length_append, List.length_cons]
            exact iff_of_false (by omega) (by omega)

/-- `snprintf` to the rest of a buffer writes as much as there is room for, and the NUL. -/
lemma snprintfAt_append (front : Bytes) {tail : Bytes} (text : Bytes) (htail : 1 ≤ tail.length) :
    let written := text.take (tail.length - 1)
    snprintfAt (front ++ tail) front.length tail.length text =
        .ok (front ++ (written ++ 0 :: tail.drop (written.length + 1))) ∧
      (written ++ 0 :: tail.drop (written.length + 1)).length = tail.length := by
  intro written
  have hwritten : written.length ≤ tail.length - 1 := List.length_take_le _ _
  have hlen : (written ++ [0]).length = written.length + 1 := List.length_append
  have hroom : front.length + (written ++ [0]).length ≤ (front ++ tail).length := by
    rw [hlen, List.length_append]
    omega
  refine ⟨?_, ?_⟩
  · rw [snprintfAt, if_neg (by omega)]
    dsimp only
    rw [require_of_pos hroom, ok_bind, List.take_left, hlen, ← List.drop_drop, List.drop_left,
      List.append_assoc, List.append_assoc]
    rfl
  · rw [List.length_append, List.length_cons, List.length_drop]
    omega

/-- The loop writes behind what it wrote before. -/
lemma convertToAsciiCodes.exists_loop_eq {outputSize : ℕ} (input : CStr) (front tail : Bytes)
    (htail : 1 ≤ tail.length) (hsize : front.length + tail.length = outputSize) :
    ∃ tail', loop outputSize input (front ++ tail) front.length =
        .ok (front ++ codesWithin tail.length input ++ tail',
          front.length + (codesWithin tail.length input).length) ∧
      (codesWithin tail.length input).length + tail'.length = tail.length := by
  induction input generalizing front tail with
  | nil =>
    refine ⟨tail, ?_, Nat.zero_add _⟩
    rw [codesWithin, List.append_nil]
    rfl
  | cons b rest ih =>
    obtain ⟨hwrite, hlen⟩ := snprintfAt_append front (hexCode b) htail
    have hroom : outputSize - front.length = tail.length := by omega
    have hcode := length_hexCode b
    rw [loop, hroom]
    dsimp only
    rw [hwrite, ok_bind, codesWithin_cons]
    by_cases hfull : tail.length ≤ (hexCode b).length
    · rw [if_pos hfull, if_pos hfull, List.append_nil]
      exact ⟨_, rfl, (Nat.zero_add _).trans hlen⟩
    have htake : (hexCode b).take (tail.length - 1) = hexCode b :=
      List.take_of_length_le (by omega)
    rw [if_neg hfull, if_neg hfull, htake]
    have hdrop : (tail.drop ((hexCode b).length + 1)).length =
        tail.length - (hexCode b).length - 1 := by
      rw [List.length_drop]
      omega
    generalize tail.drop ((hexCode b).length + 1) = rem at hdrop ⊢
    by_cases hnext : rest ≠ [] ∧ (hexCode b).length + 1 < tail.length
    · have hblank : writeByte (front ++ (hexCode b ++ 0 :: rem)) (front.length + (hexCode b).length)
          0x20 = .ok (front ++ hexCode b ++ [0x20] ++ rem) := by
        rw [← List.append_assoc, ← List.length_append, InMemory.writeByte_middle,
          List.append_assoc _ [0x20]]
        rfl
      have hlen' : (front ++ hexCode b ++ [0x20]).length =
          front.length + (hexCode b).length + 1 := by
        simp only [List.length_append, List.length_singleton]
      obtain ⟨tail', hloop, htail'⟩ := ih (front ++ hexCode b ++ [0x20]) rem (by omega) (by omega)
      rw [hlen', hdrop] at hloop
      rw [hdrop] at htail'
      rw [if_pos hnext, if_pos hnext.1, if_pos (by omega), hblank, ok_bind, hloop]
      refine ⟨tail', ?_, ?_⟩
      · simp only [List.append_assoc, List.length_append, List.length_cons, List.cons_append,
          List.nil_append, Nat.add_assoc, Nat.add_comm 1]
      · rw [List.length_append, List.length_cons]
        omega
    · rw [if_neg hnext]
      refine ⟨0 :: rem, ?_, ?_⟩
      · have hpure : (if rest ≠ [] then
            if front.length + (hexCode b).length < outputSize - 1 then do
              let output ← writeByte (front ++ (hexCode b ++ 0 :: rem))
                (front.length + (hexCode b).length) 0x20
              loop outputSize rest output (front.length + (hexCode b).length + 1)
            else pure (front ++ (hexCode b ++ 0 :: rem), front.length + (hexCode b).length)
          else pure (front ++ (hexCode b ++ 0 :: rem), front.length + (hexCode b).length)) =
            Except.ok (front ++ (hexCode b ++ 0 :: rem), front.length + (hexCode b).length) := by
          split_ifs with hrest hlt
          · exact absurd ⟨hrest, by omega⟩ hnext
          · rfl
          · rfl
        rw [hpure, List.append_assoc]
      · rw [List.length_cons]
        omega

lemma zero_notMem_codes (input : CStr) : (0 : UInt8) ∉ codes input := by
  induction input with
  | nil => exact List.not_mem_nil
  | cons b rest ih =>
    have hcode := (hexCode_spec b).1.2
    by_cases hrest : rest = []
    · rwa [hrest, codes_singleton]
    · rw [codes_cons b hrest, List.mem_append, List.mem_cons]
      rintro (h | h | h)
      · exact hcode h
      · exact absurd h (by decide)
      · exact ih h

/-- With room for all codes, all are written. -/
lemma codesWithin_eq_codes (hlen : (codes input).length < room) :
    codesWithin room input = codes input := by
  have hroom : 1 ≤ room := Nat.one_le_of_lt hlen
  obtain ⟨hpre, n, -, hwritten, hfits⟩ := exists_codesWithin input hroom
  have hall : input.length ≤ n := by
    rw [← hfits _ le_rfl, List.take_length]
    exact hlen
  rw [List.take_of_length_le hall] at hwritten
  refine hwritten.resolve_right fun h => ?_
  have hle := hpre.length_le
  rw [h.2, List.length_append, List.length_singleton] at hle
  omega

lemma exists_convertToAsciiCodes_eq (input : CStr) {output : Bytes} (hsize : 1 ≤ output.length) :
    ∃ output', convertToAsciiCodes input output output.length = .ok output' ∧
      output'.length = output.length ∧
      cString output' = .ok (codesWithin output.length input) := by
  obtain ⟨tail, hloop, htail⟩ := convertToAsciiCodes.exists_loop_eq input [] output hsize
    (Nat.zero_add _)
  have hlt := length_codesWithin_lt input hsize
  obtain ⟨x, tail, rfl⟩ := List.exists_cons_of_length_pos (l := tail) (by omega)
  refine ⟨codesWithin output.length input ++ 0 :: tail, ?_, ?_, ?_⟩
  · rw [List.nil_append, List.nil_append, List.length_nil, Nat.zero_add] at hloop
    rw [convertToAsciiCodes, hloop, ok_bind]
    exact InMemory.writeByte_middle _ _ _ _
  · rw [List.length_append]
    exact htail
  · refine cString_eq_ok_iff.mpr ⟨fun h => ?_, tail, rfl⟩
    exact zero_notMem_codes input ((exists_codesWithin input hsize).1.subset h)

end Buffer

/-- A buffer of any size but 0 is enough for `convertToAsciiCodes`: it shows the codes of as many
bytes as there is room for, and of all bytes if there is room, so that these can be told. -/
theorem convertToAsciiCodes_shows (input : CStr) {output : Bytes} (hsize : 1 ≤ output.length) :
    ∃ output' shown, convertToAsciiCodes input output output.length = .ok output' ∧
      output'.length = output.length ∧ cString output' = .ok shown ∧ shown <+: codes input ∧
      (∃ n ≤ input.length,
        (shown = codes (input.take n) ∨ 0 < n ∧ shown = codes (input.take n) ++ [0x20]) ∧
        ∀ m ≤ input.length, (codes (input.take m)).length < output.length ↔ m ≤ n) ∧
      ((codes input).length < output.length → shown = codes input ∧ readCodes shown = input) := by
  obtain ⟨output', hok, hlen, hshown⟩ := exists_convertToAsciiCodes_eq input hsize
  obtain ⟨hpre, hcodes⟩ := exists_codesWithin input hsize
  refine ⟨output', _, hok, hlen, hshown, hpre, hcodes, fun hroom => ?_⟩
  rw [codesWithin_eq_codes hroom]
  exact ⟨rfl, readCodes_codes input⟩

/-- In six bytes there is room for two of three codes. -/
theorem convertToAsciiCodes_shows_two :
    ∃ output' shown,
      convertToAsciiCodes [0x61, 0x62, 0x63] (List.replicate 6 0xFF) 6 = .ok output' ∧
      cString output' = .ok shown ∧
      (shown = codes [0x61, 0x62] ∨ shown = codes [0x61, 0x62] ++ [0x20]) := by
  obtain ⟨output', shown, hok, -, hshown, -, ⟨n, -, htext, hfits⟩, -⟩ :=
    @convertToAsciiCodes_shows [0x61, 0x62, 0x63] (List.replicate 6 0xFF) (by decide)
  have htwo := (hfits 2 (by decide)).mp (by decide)
  have hthree := mt (hfits 3 (by decide)).mpr (by decide)
  obtain rfl : n = 2 := by omega
  exact ⟨output', shown, hok, hshown, htext.imp_right And.right⟩

/-! ### The message -/

def asciiCodesBufSize : ℕ := 127

def dbgLogMsgSize : ℕ := 255

/-- What `processEvents` pushes for an event of type `DBG` with these bytes:
`"[DBG]: %s, [%s]\n"`. -/
def dbgLogMsg (seq : CStr) : Except Stop CStr := do
  let asciiCodes ← convertToAsciiCodes seq (List.replicate asciiCodesBufSize 0) asciiCodesBufSize
  let codes ← cString asciiCodes
  let k := identifyKey seq seq.length
  pure (snprintf dbgLogMsgSize
    (literal "[DBG]: " ++ keyToStr k ++ literal ", [" ++ codes ++ literal "]\n"))

lemma length_codes_le (input : CStr) : (codes input).length ≤ 3 * input.length := by
  induction input with
  | nil => exact le_rfl
  | cons b rest ih =>
    have hcode := (length_hexCode b).2
    by_cases hrest : rest = []
    · rw [hrest, codes_singleton, List.length_singleton]
      omega
    · rw [codes_cons b hrest, List.length_append, List.length_cons, List.length_cons]
      omega

lemma length_literal (s : String) : (literal s).length = s.utf8ByteSize := by
  rw [literal, ← String.size_toByteArray, ← String.utf8Encode_toList, List.utf8Encode,
    List.size_toByteArray]

lemma length_keyToStr_le (k : Key) : (keyToStr k).length ≤ 64 := by
  have hnames : ∀ e ∈ keyMap, e.val.utf8ByteSize ≤ 64 := by
    decide +kernel
  rw [keyToStr]
  cases hk : keyMap[k]? with
  | none => exact Nat.zero_le _
  | some e =>
    rw [Option.map_some, Option.getD_some, length_literal]
    exact hnames e (List.mem_of_getElem? hk)

/-- There is a message for all bytes. -/
lemma dbgLogMsg_eq_snprintf (seq : CStr) :
    dbgLogMsg seq = .ok (snprintf dbgLogMsgSize (literal "[DBG]: " ++
      keyToStr (identifyKey seq seq.length) ++ literal ", [" ++
      codesWithin asciiCodesBufSize seq ++ literal "]\n")) := by
  have hbuf : (List.replicate asciiCodesBufSize (0 : UInt8)).length = asciiCodesBufSize :=
    List.length_replicate
  have hsize : 1 ≤ (List.replicate asciiCodesBufSize (0 : UInt8)).length := by
    rw [hbuf, asciiCodesBufSize]
    exact Nat.le_add_left 1 126
  obtain ⟨output', houtput, -, hshown⟩ := exists_convertToAsciiCodes_eq seq hsize
  rw [hbuf] at houtput hshown
  rw [dbgLogMsg, houtput, ok_bind, hshown, ok_bind]
  rfl

/-- The codes of a key that was read are all in the message. -/
lemma dbgLogMsg_eq_append {seq : CStr} (h : seq.length ≤ maxInputBuffer) :
    dbgLogMsg seq = .ok (literal "[DBG]: " ++ keyToStr (identifyKey seq seq.length) ++
      literal ", [" ++ codes seq ++ literal "]\n") := by
  have hcodes := length_codes_le seq
  have hname := length_keyToStr_le (identifyKey seq seq.length)
  have hsizes : maxInputBuffer = 40 ∧ asciiCodesBufSize = 127 ∧ dbgLogMsgSize = 255 :=
    ⟨rfl, rfl, rfl⟩
  have hparts : (literal "[DBG]: ").length = 7 ∧ (literal ", [").length = 3 ∧
      (literal "]\n").length = 2 := by
    decide +kernel
  rw [dbgLogMsg_eq_snprintf, codesWithin_eq_codes (by omega)]
  refine congrArg Except.ok (List.take_of_length_le ?_)
  simp only [List.length_append]
  omega

/-! ### Keys that were read -/

lemma readUtf8CharOrEscSeq.length_buf_le (n : ℕ) (buf input : Bytes) :
    (loop n buf input).buf.length ≤ buf.length + n := by
  induction n generalizing buf input with
  | zero => exact le_rfl
  | succ n ih =>
    cases input with
    | nil => exact Nat.le_add_right _ _
    | cons b input =>
      have hlen : (buf ++ [b]).length = buf.length + 1 := List.length_append
      rw [loop]
      split_ifs
      · rw [hlen]
        exact Nat.add_le_add_left (Nat.succ_pos n) _
      · refine (ih (buf ++ [b]) input).trans ?_
        rw [hlen, Nat.add_assoc, Nat.add_comm 1]

lemma Keyboard.length_strdup_le (s : Keyboard) : (strdup s.token.buf).length ≤ maxInputBuffer := by
  have hbuf := readUtf8CharOrEscSeq.length_buf_le (maxInputBuffer - 1) [] s.input
  rw [List.length_nil, Nat.zero_add] at hbuf
  exact (List.takeWhile_prefix _).length_le.trans (hbuf.trans (Nat.sub_le _ _))

/-- The event that `keyb` puts in the queue for a key that no command is bound to. -/
def Keyboard.unboundEvent (s : Keyboard) : QueuedEvent := ⟨.dbg, none, some (strdup s.token.buf)⟩

/-- Every event of type `DBG` in the queue was put in it by `keyb`, for the key that it read in a
state from which the program came here. -/
def Keyboard.FromKeys (s : Keyboard) : Prop :=
  ∀ e ∈ s.eventQueue, e.type = .dbg → ∃ t : Keyboard, t.Reachable ∧
    Relation.ReflTransGen Keyboard.Step (keyb t).1 s ∧ t.token.len ≠ 0 ∧ e = t.unboundEvent ∧
    (keyb t).1.eventQueue = t.eventQueue ++ [e]

lemma Keyboard.FromKeys.keyb {s : Keyboard} (hs : s.Reachable) (h : s.FromKeys) :
    (keyb s).1.FromKeys := by
  have hold (e : QueuedEvent) (he : e ∈ s.eventQueue) (hdbg : e.type = .dbg) :
      ∃ t : Keyboard, t.Reachable ∧
        Relation.ReflTransGen Keyboard.Step (Term.keyb t).1 (Term.keyb s).1 ∧ t.token.len ≠ 0 ∧
        e = t.unboundEvent ∧ (Term.keyb t).1.eventQueue = t.eventQueue ++ [e] := by
    obtain ⟨t, ht, hrun, hread⟩ := h e he hdbg
    exact ⟨t, ht, hrun.tail (.keyb s), hread⟩
  have hrun : Relation.ReflTransGen Keyboard.Step (Term.keyb s).1 (Term.keyb s).1 := .refl
  have hrule := KeybRule.of_keyb s
  generalize hs' : (Term.keyb s).1 = s' at hrule hold hrun ⊢
  intro e he hdbg
  cases hrule with
  | nothing _ => exact hold e he hdbg
  | insert _ _ _ | dispatch _ _ _ _ _ =>
    rcases List.mem_append.mp he with he | he
    · exact hold e he hdbg
    · obtain rfl := List.mem_singleton.mp he
      cases hdbg
  | reset _ _ _ => exact hold e he hdbg
  | unbound hlen _ _ _ =>
    rcases List.mem_append.mp he with he | he
    · exact hold e he hdbg
    · obtain rfl := List.mem_singleton.mp he
      exact ⟨s, hs, hs' ▸ hrun, hlen, rfl, congrArg Keyboard.eventQueue hs'⟩

lemma Keyboard.Reachable.fromKeys {s : Keyboard} (h : s.Reachable) : s.FromKeys := by
  obtain ⟨messages, hrun⟩ := h
  induction hrun with
  | refl => exact fun e he => absurd he List.not_mem_nil
  | @tail t t' hrun hstep ih =>
    cases hstep with
    | arrive bytes =>
      intro e he hdbg
      obtain ⟨u, hu, hsteps, hread⟩ := ih e he hdbg
      exact ⟨u, hu, hsteps.tail (.arrive t bytes), hread⟩
    | keyb => exact ih.keyb ⟨messages, hrun⟩
    | processEvents messages => exact fun e he => absurd he List.not_mem_nil

/-- The messages about the keys that no command is bound to are complete: whatever was typed, an
event of type `DBG` is that of a key which `keyb` has read and put in the queue, and all its bytes
in front of a NUL can be told from its message. If there is no NUL, these are the bytes of the key,
and the message has its name. -/
theorem Keyboard.Reachable.dbgLogMsg_eq {s : Keyboard} (hs : s.Reachable) :
    ∀ e ∈ s.eventQueue, e.type = .dbg → ∃ t : Keyboard, t.Reachable ∧
      Relation.ReflTransGen Keyboard.Step (keyb t).1 s ∧ t.token.len ≠ 0 ∧
      e = ⟨.dbg, none, some (strdup t.token.buf)⟩ ∧
      (keyb t).1.eventQueue = t.eventQueue ++ [e] ∧
      ∃ name shown, dbgLogMsg (strdup t.token.buf) = .ok (literal "[DBG]: " ++ name ++
          literal ", [" ++ shown ++ literal "]\n") ∧
        name = keyToStr (identifyKey (strdup t.token.buf) (strdup t.token.buf).length) ∧
        readCodes shown = strdup t.token.buf ∧
        (0 ∉ t.token.buf → name = keyToStr t.nextKey ∧ readCodes shown = t.token.buf) := by
  intro e he hdbg
  obtain ⟨t, ht, hrun, hlen, heq, hput⟩ := hs.fromKeys e he hdbg
  refine ⟨t, ht, hrun, hlen, heq, hput, _, codes (strdup t.token.buf),
    dbgLogMsg_eq_append t.length_strdup_le, rfl, readCodes_codes _, fun h0 => ?_⟩
  rw [readCodes_codes, strdup_eq h0, Keyboard.nextKey, t.token_len hlen]
  exact ⟨rfl, rfl⟩

/-- The message about Tab. -/
theorem Keyboard.Reachable.dbgLogMsg_eq_tab :
    ∃ shown, dbgLogMsg [0x09] = .ok (literal "[DBG]: " ++ keyToStr (identifyKey [0x09] 1) ++
      literal ", [" ++ shown ++ literal "]\n") ∧ readCodes shown = [0x09] := by
  have hs : (keyb ⟨[0x09], [], [], []⟩).1.Reachable :=
    ⟨[], (Relation.ReflTransGen.single (.arrive ⟨[], [], [], []⟩ _)).tail (.keyb _)⟩
  have hqueue : (keyb ⟨[0x09], [], [], []⟩).1.eventQueue = [⟨.dbg, none, some [0x09]⟩] := by
    decide +kernel
  obtain ⟨t, -, -, -, heq, -, name, shown, hmsg, hname, hread, -⟩ :=
    Keyboard.Reachable.dbgLogMsg_eq hs ⟨.dbg, none, some [0x09]⟩
      (hqueue ▸ List.mem_singleton_self _) rfl
  obtain hseq : [0x09] = strdup t.token.buf := Option.some.inj (congrArg QueuedEvent.seq heq)
  rw [← hseq] at hmsg hname hread
  exact ⟨shown, hname ▸ hmsg, hread⟩

end Vjft.Term
