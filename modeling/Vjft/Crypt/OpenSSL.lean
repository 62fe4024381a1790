import Vjft.Lib.Chunks
import Vjft.Memory

/-!
# The functions of OpenSSL that both programs call

`src/` has the calls of `EVP_PKEY_encrypt`, `EVP_PKEY_decrypt`, `EVP_DigestSign*`,
`EVP_DigestVerify*` and of the SHA-256 digest, but not the library. The library is a parameter of
the model, and what the two programs rely on is a property of keys and messages.
-/

namespace Vjft

/-! ### The sizes in `srv/defs.hpp` and `term/defs.h` -/

def SIG_SIZE : ℕ := 512

def HASH_SIZE : ℕ := 32

def CHUNK_SIZE : ℕ := 255

def ENC_CHUNK_SIZE : ℕ := 512

/-! ### The library -/

/-- A call without a buffer announces the `size` to allocate, a second call writes the `data`. -/
structure Output where
  size : ℕ
  data : Bytes
  data_le : data.length ≤ size

/-- The calls of the library; `none` is a failure. -/
structure OpenSSL where
  /-- `EVP_PKEY` -/
  PKey : Type
  /-- RSA encryption with OAEP padding, which draws the `seed`. -/
  encrypt : PKey → (seed : Bytes) → Bytes → Option Output
  /-- RSA decryption. -/
  decrypt : PKey → Bytes → Option Output
  /-- `EVP_DigestSign*` with SHA-256. -/
  sign : PKey → Bytes → Option Output
  /-- `EVP_DigestVerify*` with SHA-256: of a message and a signature. -/
  verify : PKey → Bytes → Bytes → Bool
  /-- `EVP_Digest*` with SHA-256. -/
  digest : Bytes → Option Bytes

namespace OpenSSL

variable (ssl : OpenSSL)

/-- A ciphertext of the size of the key that the private key opens to `chunk`. -/
def Sealed (privateKey : ssl.PKey) (chunk enc : Bytes) : Prop :=
  enc.length = ENC_CHUNK_SIZE ∧ ∃ d, ssl.decrypt privateKey enc = some d ∧ d.data = chunk

/-- Decryption undoes encryption of a chunk, and the ciphertext has the size of the key. -/
def KeyPair (publicKey privateKey : ssl.PKey) : Prop :=
  ∀ seed chunk : Bytes, chunk.length ≤ CHUNK_SIZE → ∃ e, ssl.encrypt publicKey seed chunk = some e ∧
    e.size = ENC_CHUNK_SIZE ∧ ssl.Sealed privateKey chunk e.data

/-- The signature of `msg` has the size of the key and verifies over `msg`. -/
def Signs (privateKey publicKey : ssl.PKey) (msg : Bytes) : Prop :=
  ∃ s, ssl.sign privateKey msg = some s ∧ s.size = SIG_SIZE ∧ s.data.length = SIG_SIZE ∧
    ssl.verify publicKey msg s.data = true

/-- The signature of `msg` verifies over `msg` and over nothing else. -/
def SignsOnly (privateKey publicKey : ssl.PKey) (msg : Bytes) : Prop :=
  ∃ s, ssl.sign privateKey msg = some s ∧ s.size = SIG_SIZE ∧ s.data.length = SIG_SIZE ∧
    ∀ m, ssl.verify publicKey m s.data = true ↔ m = msg

/-- The digest of `msg` has the size of a SHA-256 hash. -/
def Hashes (msg : Bytes) : Prop := ∃ h, ssl.digest msg = some h ∧ h.length = HASH_SIZE

end OpenSSL

/-! ### An instance without secrets -/

namespace OpenSSL

/-- Up to 255 bytes behind their number, filled up to 512 bytes. -/
def box (m : Bytes) : Bytes := (UInt8.ofNat m.length :: m.rightpad 511 0).take 512

@[simp] lemma length_box (m : Bytes) : (box m).length = 512 := by
  simp only [box, List.rightpad, List.length_take, List.length_cons, List.length_append,
    List.length_replicate]
  omega

/-- The bytes in a box. -/
def unbox : Bytes → Bytes
  | [] => []
  | n :: m => m.take n.toNat

lemma unbox_box {m : Bytes} (h : m.length ≤ 255) : unbox (box m) = m := by
  have hn : (UInt8.ofNat m.length).toNat = m.length := by
    rw [UInt8.toNat_ofNat']
    omega
  have hlen : (m.rightpad 511 0).length = 511 := Chunks.length_rightpad_of_le 0 (by omega)
  rw [box, List.take_of_length_le (by rw [List.length_cons, hlen]), unbox, hn, List.rightpad,
    List.take_left]

lemma unbox_length_le (e : Bytes) : (unbox e).length ≤ e.length := by
  cases e <;> simp [unbox]

/-- Keys do not matter, a ciphertext is a box with the chunk, and a signature is a box with the
first bytes of the message. -/
def plain : OpenSSL where
  PKey := Unit
  encrypt _ _ chunk := some ⟨512, box chunk, (length_box chunk).le⟩
  decrypt _ enc := some ⟨enc.length, unbox enc, unbox_length_le enc⟩
  sign _ msg := some ⟨512, box (msg.take 255), (length_box _).le⟩
  verify _ msg sign := sign == box (msg.take 255)
  digest msg := some ((msg.rightpad HASH_SIZE 0).take HASH_SIZE)

lemma plain_keyPair (publicKey privateKey : Unit) : plain.KeyPair publicKey privateKey := by
  intro _ chunk h
  exact ⟨_, rfl, rfl, length_box chunk, _, rfl, unbox_box h⟩

lemma plain_signs (privateKey publicKey : Unit) (msg : Bytes) :
    plain.Signs privateKey publicKey msg :=
  ⟨_, rfl, rfl, length_box _, by simp [plain]⟩

lemma plain_signsOnly (privateKey publicKey : Unit) {msg : Bytes} (h : msg.length < 255) :
    plain.SignsOnly privateKey publicKey msg := by
  refine ⟨_, rfl, rfl, length_box _, ?_⟩
  intro m
  suffices box (msg.take 255) = box (m.take 255) ↔ m = msg by simpa [plain] using this
  constructor
  · intro hbox
    have htake : msg.take 255 = m.take 255 := by
      have hunbox := congrArg unbox hbox
      rwa [unbox_box (List.length_take_le _ _), unbox_box (List.length_take_le _ _)] at hunbox
    have hm : m.length < 255 := by
      have hlen := congrArg List.length htake
      simp only [List.length_take] at hlen
      omega
    rwa [List.take_of_length_le h.le, List.take_of_length_le hm.le, eq_comm] at htake
  · intro hm
    rw [hm]

lemma plain_hashes (msg : Bytes) : plain.Hashes msg :=
  ⟨_, rfl, by simp [HASH_SIZE]; omega⟩

end OpenSSL

end Vjft
