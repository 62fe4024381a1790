import Mathlib.Data.List.Basic

/-!
# Packets in a stream

Packets are sent one after the other, and what arrives is the stream of their entries. A packet
begins with `h` entries from which the reader learns how long the rest is. A reader that first reads
`h` entries and then the rest, and so on, stands between two packets or behind the beginning of one,
and what it reads are the packets in their order.
-/

namespace Framing

variable {α : Type*} {sent sent' taken : List (List α)} {p data : List α} {h pos : ℕ}

/-- The reader has taken these packets, and the next ones are to come. -/
structure Between (sent taken : List (List α)) (pos : ℕ) : Prop where
  taken_prefix : taken <+: sent
  pos_eq : pos = taken.flatten.length

/-- The reader has taken these packets and the beginning of `p`. -/
structure Inside (h : ℕ) (sent taken : List (List α)) (p : List α) (pos : ℕ) : Prop where
  taken_prefix : taken ++ [p] <+: sent
  pos_eq : pos = taken.flatten.length + h

lemma between_nil (sent : List (List α)) : Between sent [] 0 := ⟨List.nil_prefix, rfl⟩

lemma Between.mono (hb : Between sent taken pos) (hs : sent <+: sent') :
    Between sent' taken pos := ⟨hb.taken_prefix.trans hs, hb.pos_eq⟩

lemma Inside.mono (hi : Inside h sent taken p pos) (hs : sent <+: sent') :
    Inside h sent' taken p pos := ⟨hi.taken_prefix.trans hs, hi.pos_eq⟩

/-- The stream goes on with the packets that were not taken. -/
lemma Between.drop_flatten (hb : Between sent taken pos) :
    ∃ rest, sent = taken ++ rest ∧ sent.flatten.drop pos = rest.flatten := by
  obtain ⟨rest, rfl⟩ := hb.taken_prefix
  exact ⟨rest, rfl, by rw [hb.pos_eq, List.flatten_append, List.drop_left]⟩

lemma Inside.drop_flatten (hi : Inside h sent taken p pos) (hp : h ≤ p.length) :
    ∃ rest, sent = taken ++ p :: rest ∧ sent.flatten.drop pos = p.drop h ++ rest.flatten := by
  obtain ⟨rest, hsent⟩ := hi.taken_prefix
  rw [List.append_assoc, List.singleton_append] at hsent
  refine ⟨rest, hsent.symm, ?_⟩
  rw [← hsent, hi.pos_eq, List.flatten_append, List.flatten_cons, ← List.drop_drop,
    List.drop_left, List.drop_append_of_le_length hp]

/-- The first `h` entries belong to the next packet. -/
lemma Between.header (hb : Between sent taken pos) (hsent : ∀ p ∈ sent, h ≤ p.length)
    (hpos : 0 < h) (hlen : data.length = h) (hdata : data <+: sent.flatten.drop pos) :
    ∃ p ∈ sent, data = p.take h ∧ Inside h sent taken p (pos + h) := by
  obtain ⟨rest, hrest, hdrop⟩ := hb.drop_flatten
  rw [hdrop] at hdata
  cases rest with
  | nil =>
    have hle := hdata.length_le
    rw [List.flatten_nil, List.length_nil, hlen] at hle
    exact absurd hpos (Nat.not_lt_of_le hle)
  | cons p rest =>
    have hmem : p ∈ sent := by
      rw [hrest]
      exact List.mem_append_right _ List.mem_cons_self
    refine ⟨p, hmem, ?_, ⟨rest, ?_⟩, by rw [hb.pos_eq]⟩
    · rw [List.flatten_cons] at hdata
      have htake := List.prefix_iff_eq_take.mp hdata
      rwa [hlen, List.take_append_of_le_length (hsent p hmem)] at htake
    · rw [hrest, List.append_assoc]
      rfl

/-- The entries behind them are the rest of the packet. -/
lemma Inside.body (hi : Inside h sent taken p pos) (hp : h ≤ p.length)
    (hlen : data.length = p.length - h) (hdata : data <+: sent.flatten.drop pos) :
    data = p.drop h ∧ Between sent (taken ++ [p]) (pos + data.length) := by
  obtain ⟨rest, -, hdrop⟩ := hi.drop_flatten hp
  rw [hdrop] at hdata
  have hdrop_len : (p.drop h).length = p.length - h := List.length_drop
  refine ⟨?_, hi.taken_prefix, ?_⟩
  · have htake := List.prefix_iff_eq_take.mp hdata
    rwa [hlen, ← hdrop_len, List.take_left] at htake
  · rw [hi.pos_eq, hlen, List.flatten_append, List.flatten_singleton, List.length_append]
    omega

/-- A reader that has read the whole stream has taken all packets. -/
lemma Between.eq_of_length (hb : Between sent taken pos) (hsent : ∀ p ∈ sent, 0 < p.length)
    (hpos : pos = sent.flatten.length) : taken = sent := by
  obtain ⟨rest, rfl⟩ := hb.taken_prefix
  have hlen : rest.flatten.length = 0 := by
    rw [hb.pos_eq, List.flatten_append, List.length_append] at hpos
    omega
  have hnil : rest = [] := by
    rw [List.eq_nil_iff_forall_not_mem]
    intro p hp
    have hle := (List.sublist_flatten_of_mem hp).length_le
    have hlt := hsent p (List.mem_append_right _ hp)
    omega
  rw [hnil, List.append_nil]

lemma Inside.pos_lt (hi : Inside h sent taken p pos) (hp : h < p.length) :
    pos < sent.flatten.length := by
  obtain ⟨rest, rfl⟩ := hi.taken_prefix
  simp only [hi.pos_eq, List.flatten_append, List.flatten_singleton, List.length_append]
  omega

end Framing
