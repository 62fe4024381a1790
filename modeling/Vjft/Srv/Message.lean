import Std.Data.ExtTreeMap
import Vjft.Lib.Search
import Vjft.Memory

/-!
# Messages of named values

`Message` of the server (`src/srv/Message.cpp`) writes a map from strings to strings as a text
and reads such a text. Nothing is escaped: a key ends at the first ` "`, a value at the first `")`.
-/

namespace Vjft.Message

open Search

/-- `std::map<std::string, std::string>`; its order is that of the bytes. -/
abbrev Data := Std.ExtTreeMap Bytes Bytes compare

/-- `(:` -/
def openKey : Bytes := [40, 58]

/-- ` "` -/
def closeKey : Bytes := [32, 34]

/-- `")` -/
def closeValue : Bytes := [34, 41]

/-- `"(:" << pair.first << " \"" << pair.second << "\") "` -/
def packPair (pair : Bytes × Bytes) : Bytes :=
  openKey ++ pair.1 ++ closeKey ++ pair.2 ++ closeValue ++ [32]

def pack (data : Data) : Bytes := data.toList.flatMap packPair

/-- One round of the loop: the pair that it reads and where the next round starts. There is none
where the loop ends, by its condition or by a `break`. -/
def nextPair (packed_message : Bytes) (pos : ℕ) : Option ((Bytes × Bytes) × ℕ) := do
  let pos ← findFrom openKey packed_message pos
  let key_start := pos + 2
  let key_end ← findFrom closeKey packed_message key_start
  let key := substr packed_message key_start (key_end - key_start)
  let value_start := key_end + 2
  let value_end ← findFrom closeValue packed_message value_start
  let value := substr packed_message value_start (value_end - value_start)
  pure ((key, value), value_end + 2)

/-- A round goes forward in the text. -/
lemma nextPair_bounds {s : Bytes} {pos next : ℕ} {pair : Bytes × Bytes}
    (h : nextPair s pos = some (pair, next)) : pos < next ∧ next ≤ s.length := by
  simp only [nextPair, Option.bind_eq_bind, Option.bind_eq_some_iff, Option.pure_def,
    Option.some.injEq, Prod.mk.injEq] at h
  obtain ⟨start, hstart, key_end, hkey, value_end, hvalue, -, rfl⟩ := h
  obtain ⟨hle_start, -⟩ := findFrom_bounds (by decide) hstart
  obtain ⟨hle_key, -⟩ := findFrom_bounds (by decide) hkey
  obtain ⟨hle_value, hle⟩ := findFrom_bounds (by decide) hvalue
  constructor
  · omega
  · exact hle

/-- The loop of `unpack` from a position on. -/
def unpackFrom (packed_message : Bytes) (pos : ℕ) (data : Data) : Data :=
  match _h : nextPair packed_message pos with
  | none => data
  | some (pair, next) => unpackFrom packed_message next (data.insert pair.1 pair.2)
termination_by packed_message.length - pos
decreasing_by
  have hbounds := nextPair_bounds _h
  omega

def unpack (packed_message : Bytes) : Data := unpackFrom packed_message 0 ∅

lemma unpackFrom_of_none {s : Bytes} {pos : ℕ} (h : nextPair s pos = none) (data : Data) :
    unpackFrom s pos data = data := by
  rw [unpackFrom]
  split
  · rfl
  · simp_all

lemma unpackFrom_of_some {s : Bytes} {pos next : ℕ} {pair : Bytes × Bytes}
    (h : nextPair s pos = some (pair, next)) (data : Data) :
    unpackFrom s pos data = unpackFrom s next (data.insert pair.1 pair.2) := by
  rw [unpackFrom]
  split
  · simp_all
  · simp_all

/-! ### Pairs that a text can hold -/

/-- Neither the key nor the value contains what ends it. -/
def IsClean (pair : Bytes × Bytes) : Prop :=
  ¬ closeKey <:+: pair.1 ∧ ¬ closeValue <:+: pair.2

instance (pair : Bytes × Bytes) : Decidable (IsClean pair) :=
  inferInstanceAs (Decidable (_ ∧ _))

/-- Only clean pairs are read, from any text. -/
lemma isClean_of_nextPair {s : Bytes} {pos next : ℕ} {pair : Bytes × Bytes}
    (h : nextPair s pos = some (pair, next)) : IsClean pair := by
  simp only [nextPair, Option.bind_eq_bind, Option.bind_eq_some_iff, Option.pure_def,
    Option.some.injEq, Prod.mk.injEq] at h
  obtain ⟨start, -, key_end, hkey, value_end, hvalue, rfl, -⟩ := h
  exact ⟨not_infix_substr_of_findFrom (by decide) hkey,
    not_infix_substr_of_findFrom (by decide) hvalue⟩

/-- Every pair of the map is clean. -/
def AllClean (data : Data) : Prop := ∀ key value, data[key]? = some value → IsClean (key, value)

lemma allClean_empty : AllClean ∅ := by
  intro key value h
  simp at h

lemma AllClean.insert {data : Data} (hdata : AllClean data) {pair : Bytes × Bytes}
    (hpair : IsClean pair) : AllClean (data.insert pair.1 pair.2) := by
  intro key value h
  rw [Std.ExtTreeMap.getElem?_insert] at h
  split_ifs at h with hkey
  · cases h
    rw [← Std.LawfulEqCmp.eq_of_compare hkey]
    exact hpair
  · exact hdata key value h

/-- All that is read is clean. -/
lemma allClean_unpackFrom (s : Bytes) (pos : ℕ) (data : Data) (h : AllClean data) :
    AllClean (unpackFrom s pos data) := by
  fun_induction unpackFrom s pos data with
  | case1 pos data hnext => exact h
  | case2 pos data pair next hnext ih =>
    apply ih
    exact h.insert (isClean_of_nextPair hnext)

lemma allClean_unpack (s : Bytes) : AllClean (unpack s) :=
  allClean_unpackFrom s 0 ∅ allClean_empty

/-! ### Reading what was written -/

lemma isUnbordered_openKey : IsUnbordered openKey := isUnbordered_pair (by decide)

lemma isUnbordered_closeKey : IsUnbordered closeKey := isUnbordered_pair (by decide)

lemma isUnbordered_closeValue : IsUnbordered closeValue := isUnbordered_pair (by decide)

/-- Between two pairs stands at most one blank. -/
def IsGap (gap : Bytes) : Prop := gap = [] ∨ gap = [32]

lemma IsGap.not_infix {gap : Bytes} (h : IsGap gap) : ¬ openKey <:+: gap := by
  rcases h with rfl | rfl
  · decide
  · decide

/-- A clean pair is read back, and the next round starts at the blank behind it. -/
lemma nextPair_packPair (before : Bytes) {gap : Bytes} (hgap : IsGap gap) {pair : Bytes × Bytes}
    (hpair : IsClean pair) (rest : Bytes) :
    ∃ read : Bytes, read ++ ([32] ++ rest) = before ++ gap ++ packPair pair ++ rest ∧
      nextPair (before ++ gap ++ packPair pair ++ rest) before.length
        = some (pair, read.length) := by
  obtain ⟨key, value⟩ := pair
  obtain ⟨hkey, hvalue⟩ := hpair
  refine ⟨before ++ gap ++ openKey ++ key ++ closeKey ++ value ++ closeValue, ?_, ?_⟩
  · simp [packPair]
  · have hstart := isUnbordered_openKey.findFrom_append before hgap.not_infix
      (key ++ (closeKey ++ (value ++ (closeValue ++ ([32] ++ rest)))))
    have hkey_end := isUnbordered_closeKey.findFrom_append (before ++ gap ++ openKey) hkey
      (value ++ (closeValue ++ ([32] ++ rest)))
    have hkey_text := substr_append (before ++ gap ++ openKey) key
      (closeKey ++ (value ++ (closeValue ++ ([32] ++ rest))))
    have hvalue_end := isUnbordered_closeValue.findFrom_append
      (before ++ gap ++ openKey ++ key ++ closeKey) hvalue ([32] ++ rest)
    have hvalue_text := substr_append (before ++ gap ++ openKey ++ key ++ closeKey) value
      (closeValue ++ ([32] ++ rest))
    have hopen : openKey.length = 2 := rfl
    have hclose : closeKey.length = 2 := rfl
    have hcloseValue : closeValue.length = 2 := rfl
    simp only [List.append_assoc, List.length_append, hopen, hclose, ← Nat.add_assoc] at *
    simp only [nextPair, packPair, List.append_assoc, hstart, Option.bind_eq_bind,
      Option.bind_some, hkey_end, hvalue_end, Nat.add_sub_cancel_left, hkey_text, hvalue_text,
      Option.pure_def, hcloseValue]

/-- Behind the last pair no further one is found. -/
lemma nextPair_gap (before : Bytes) {gap : Bytes} (hgap : IsGap gap) :
    nextPair (before ++ gap) before.length = none := by
  have hnone : findFrom openKey (before ++ gap) before.length = none := by
    apply findFrom_eq_none
    rw [List.drop_left]
    exact hgap.not_infix
  simp [nextPair, hnone]

/-- The loop reads clean pairs back, one after another. -/
lemma unpackFrom_packPair (pairs : List (Bytes × Bytes)) (h : ∀ pair ∈ pairs, IsClean pair)
    (before : Bytes) {gap : Bytes} (hgap : IsGap gap) (data : Data) :
    unpackFrom (before ++ gap ++ pairs.flatMap packPair) before.length data
      = data.insertMany pairs := by
  induction pairs generalizing before gap data with
  | nil =>
    rw [List.flatMap_nil, List.append_nil, unpackFrom_of_none (nextPair_gap before hgap),
      Std.ExtTreeMap.insertMany_nil]
  | cons pair pairs ih =>
    obtain ⟨hpair, hpairs⟩ := List.forall_mem_cons.1 h
    obtain ⟨read, hread, hnext⟩ :=
      nextPair_packPair before hgap hpair (pairs.flatMap packPair)
    rw [List.flatMap_cons, ← List.append_assoc, unpackFrom_of_some hnext, ← hread,
      ← List.append_assoc, ih hpairs read (.inr rfl), Std.ExtTreeMap.insertMany_cons]

/-- A map is made again from its pairs. -/
lemma insertMany_toList (data : Data) : (∅ : Data).insertMany data.toList = data := by
  apply Std.ExtTreeMap.ext_getElem?
  intro key
  rw [← Std.ExtTreeMap.ofList_eq_insertMany_empty]
  cases hkey : data[key]? with
  | none =>
    apply Std.ExtTreeMap.getElem?_ofList_of_contains_eq_false
    rw [Std.ExtTreeMap.map_fst_toList_eq_keys]
    simpa using hkey
  | some value =>
    apply Std.ExtTreeMap.getElem?_ofList_of_mem (Std.ReflCmp.compare_self)
    · exact Std.ExtTreeMap.distinct_keys_toList
    · exact Std.ExtTreeMap.mem_toList_iff_getElem?_eq_some.2 hkey

/-- `unpack` undoes `pack` exactly for the maps in which no key contains ` "` and no value
contains `")`. -/
theorem unpack_pack_eq_iff (data : Data) :
    unpack (pack data) = data ↔
      ∀ key value, data[key]? = some value →
        ¬ closeKey <:+: key ∧ ¬ closeValue <:+: value := by
  constructor
  · intro h
    rw [← h]
    exact allClean_unpack (pack data)
  · intro h
    have hclean : ∀ pair ∈ data.toList, IsClean pair := by
      intro pair hpair
      exact h _ _ (Std.ExtTreeMap.mem_toList_iff_getElem?_eq_some.1 hpair)
    have hread := unpackFrom_packPair data.toList hclean [] (.inl rfl) ∅
    rw [insertMany_toList] at hread
    exact hread

/-- A value that contains `")` is not read back: of `k` with the value `")` the text is
`(:k "")") `, in which the value ends where it begins. -/
theorem unpack_pack_closeValue :
    unpack (pack ((∅ : Data).insert [107] [34, 41])) ≠ (∅ : Data).insert [107] [34, 41] := by
  have hfirst : nextPair (pack ((∅ : Data).insert [107] [34, 41])) 0
      = some (([107], []), 7) := by decide
  have hnone : nextPair (pack ((∅ : Data).insert [107] [34, 41])) 7 = none := by decide
  rw [unpack, unpackFrom_of_some hfirst, unpackFrom_of_none hnone]
  intro h
  have hkey := congrArg (fun data : Data => data[([107] : Bytes)]?) h
  simp at hkey

end Vjft.Message
