import Vjft.Srv.Crypt
import Vjft.Term.Crypt

/-!
# Packets between the two programs

What the terminal client enciphers, the server programs' `decipher` reads. In the other direction
the client refuses an envelope without random bytes, and a chunk that is not full.
-/

namespace Vjft

variable {ssl : OpenSSL} {senderPrivate senderPublic receiverPublic receiverPrivate : ssl.PKey}
  {msg : Bytes}

/-- The two functions compute one hash. -/
lemma calcCrc_eq_calcCRC (h : ssl.Hashes msg) :
    Term.calcCrc ssl msg = some (Srv.Crypt.calcCRC ssl msg) := by
  obtain ⟨hash, hdigest, hlen⟩ := h
  simp only [Term.calcCrc, Srv.Crypt.calcCRC, hdigest, hlen, Option.getD_some, ne_eq,
    not_true_eq_false, if_false, Chunks.rightpad_of_length_eq 0 hlen]

/-! ### From the terminal client to the server programs -/

theorem srv_decipher_term_encipher (hkeys : ssl.KeyPair receiverPublic receiverPrivate)
    (hsign : ssl.Signs senderPrivate senderPublic msg) (hhash : ssl.Hashes msg)
    (hmsg : msg.length ≤ 65535) (hnul : 0 ∉ msg) (rest : Bytes) (rand : ℕ → ℕ) (seed : ℕ → Bytes) :
    (do
      let (pack, _) ←
        Term.encipher ssl senderPrivate receiverPublic rand seed (msg ++ 0 :: rest) msg.length
      Srv.Crypt.decipher ssl receiverPrivate senderPublic pack) = .ok msg := by
  obtain ⟨sig, hsig, -, hlen, hverify⟩ := hsign
  have hsigned : cString (msg ++ 0 :: rest) = .ok msg := cString_append_eq_left_iff.2 ⟨hnul, rfl⟩
  obtain ⟨e, pack, hpack, hchunks, -, rfl, hcrc, he⟩ :=
    Term.exists_encipher_eq hkeys hsigned hsig hlen hhash hmsg rand seed
  rw [calcCrc_eq_calcCRC hhash, Option.some.injEq] at hcrc
  have hprefix : e.bytes <+: (e.fullChunks.map (List.rightpad CHUNK_SIZE 0)).flatten := by
    rw [e.map_rightpad_fullChunks]
    exact ⟨_, e.flatten_fullChunks.symm⟩
  have hfull : ∀ chunk ∈ e.fullChunks, chunk.length ≤ CHUNK_SIZE := by
    intro chunk hchunk
    exact (e.length_of_mem_fullChunks chunk hchunk).le
  rw [hpack, ok_bind]
  dsimp only
  rw [Srv.Crypt.decipher_eq hchunks e.length_fullChunks_lt hfull hprefix,
    Srv.Crypt.checkFields_eq hcrc.symm (he ▸ hverify)]

theorem srv_decipher_term_encipher_hi :
    (do
      let (pack, _) ← Term.encipher .plain () () id (fun _ => []) ([0x48, 0x69] ++ 0 :: []) 2
      Srv.Crypt.decipher .plain () () pack) = .ok [0x48, 0x69] :=
  srv_decipher_term_encipher (OpenSSL.plain_keyPair () ()) (OpenSSL.plain_signs () () _)
    (OpenSSL.plain_hashes _) (by decide) (by decide) [] id fun _ => []

/-! ### From the server programs to the terminal client -/

/-- What the client makes of a pack of the server programs with a string as the message. -/
lemma term_decipher_srv_encipher_eq (hkeys : ssl.KeyPair receiverPublic receiverPrivate)
    (hsign : ssl.Signs senderPrivate senderPublic msg) (hhash : ssl.Hashes msg)
    (hmsg : msg.length ≤ 65535) (hnul : 0 ∉ msg) (rand : ℕ → ℕ) (seed : ℕ → Bytes)
    (behind : Bytes) :
    (do
      let pack ← Srv.Crypt.encipher ssl senderPrivate receiverPublic rand seed msg
      Term.decipher ssl receiverPrivate senderPublic behind pack pack.length) =
      if CHUNK_SIZE ∣ envSize (Srv.Crypt.randomLen rand) msg.length then
        if Srv.Crypt.randomLen rand = 0 then .error .null
        else if 0 ∈ behind then .ok msg
        else .error .outOfBounds
      else .error .null := by
  obtain ⟨e, pack, hpack, hchunks, hrandom, rfl, hcrc, hverify⟩ :=
    Srv.Crypt.exists_encipher_eq hkeys hsign hhash hmsg rand seed
  have hlenr : e.random.length = Srv.Crypt.randomLen rand := by
    rw [hrandom, Srv.Crypt.length_random]
  have hcrc' : Term.calcCrc ssl e.msg = some e.crc := by rw [calcCrc_eq_calcCRC hhash, hcrc]
  have hdrop : e.bytes.drop e.msgOffset = e.msg := by
    simpa using e.drop_msgOffset []
  rw [hpack, ok_bind, Term.decipher_eq hchunks e.length_chunks_lt, e.flatten_chunks]
  simp only [e.forall_length_chunks_iff, hlenr]
  have hnil : e.random = [] ↔ Srv.Crypt.randomLen rand = 0 := by
    rw [← hlenr, List.length_eq_zero_iff]
  apply if_congr Iff.rfl _ rfl
  split_ifs with hzero hbehind
  · rw [Term.parseEnv_eq_null (List.prefix_refl _) (hnil.2 hzero), error_bind]
  · have hne : e.random ≠ [] := mt hnil.1 hzero
    rw [Term.parseEnv_eq (List.prefix_refl _) hne, hdrop, if_pos (by simp [hbehind]), ok_bind,
      Term.checkFields_eq hcrc', if_pos hverify]
  · have hne : e.random ≠ [] := mt hnil.1 hzero
    rw [Term.parseEnv_eq (List.prefix_refl _) hne, hdrop, if_neg (by simp [hbehind, hnul]),
      error_bind]

/-- The client gets the message when there are random bytes, the envelope fills its last chunk, and
`printf` finds a NUL behind it. -/
theorem term_decipher_srv_encipher_iff (hkeys : ssl.KeyPair receiverPublic receiverPrivate)
    (hsign : ssl.Signs senderPrivate senderPublic msg) (hhash : ssl.Hashes msg)
    (hmsg : msg.length ≤ 65535) (hnul : 0 ∉ msg) (rand : ℕ → ℕ) (seed : ℕ → Bytes)
    (behind : Bytes) :
    (do
      let pack ← Srv.Crypt.encipher ssl senderPrivate receiverPublic rand seed msg
      Term.decipher ssl receiverPrivate senderPublic behind pack pack.length) = .ok msg ↔
      Srv.Crypt.randomLen rand ≠ 0 ∧
        CHUNK_SIZE ∣ envSize (Srv.Crypt.randomLen rand) msg.length ∧ 0 ∈ behind := by
  rw [term_decipher_srv_encipher_eq hkeys hsign hhash hmsg hnul]
  split_ifs with hdvd hzero hbehind <;> simp [*]

theorem term_decipher_srv_encipher_hi :
    (do
      let pack ← Srv.Crypt.encipher .plain () () (fun _ => 216) (fun _ => []) [0x48, 0x69]
      Term.decipher .plain () () [0] pack pack.length) = .ok [0x48, 0x69] :=
  (term_decipher_srv_encipher_iff (OpenSSL.plain_keyPair () ()) (OpenSSL.plain_signs () () _)
    (OpenSSL.plain_hashes _) (by decide) (by decide) (fun _ => 216) (fun _ => []) [0]).2
    ⟨by decide, by decide, by decide⟩

/-- No random bytes are drawn for the message `a`. -/
theorem term_decipher_srv_encipher_no_random :
    OpenSSL.plain.KeyPair () () ∧ OpenSSL.plain.Signs () () [0x61] ∧
      OpenSSL.plain.Hashes [0x61] ∧ Srv.Crypt.randomLen (fun _ => 0) = 0 ∧
      (do
        let pack ← Srv.Crypt.encipher .plain () () (fun _ => 0) (fun _ => []) [0x61]
        Term.decipher .plain () () [0] pack pack.length) = .error .null := by
  have hkeys := OpenSSL.plain_keyPair () ()
  have hsign := OpenSSL.plain_signs () () [0x61]
  have hhash := OpenSSL.plain_hashes [0x61]
  refine ⟨hkeys, hsign, hhash, rfl, ?_⟩
  have hrun := term_decipher_srv_encipher_eq hkeys hsign hhash (by decide) (by decide)
    (fun _ => 0) (fun _ => []) [0]
  rw [if_neg (by decide)] at hrun
  exact hrun

end Vjft
