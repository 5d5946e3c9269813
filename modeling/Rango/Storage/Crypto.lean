import Rango.Types.Codec

/-!
# Encryption at rest

`CryptoEngine` puts a random nonce before the ciphertext. The cipher itself is a parameter,
the nonce an input of each call.
-/

namespace Rango

/-- The twelve bytes drawn for one encryption. -/
structure Nonce where
  bytes : Bytes
  length_eq : bytes.length = 12

/-- `CryptoEngine`: the cipher under a fixed key. -/
structure CryptoEngine where
  /-- `Aes256Gcm::encrypt` -/
  sealBytes : Bytes → Bytes → Bytes
  /-- `Aes256Gcm::decrypt` -/
  openBytes : Bytes → Bytes → Except String Bytes

namespace CryptoEngine

/-- `CryptoEngine::encrypt`. -/
def encrypt (c : CryptoEngine) (nonce : Nonce) (plaintext : Bytes) : Bytes :=
  nonce.bytes ++ c.sealBytes nonce.bytes plaintext

/-- `CryptoEngine::decrypt`. -/
def decrypt (c : CryptoEngine) (ciphertext : Bytes) : Except RangoError Bytes :=
  if ciphertext.length < 12 then .error (.storage "ciphertext too short (missing nonce)")
  else
    match c.openBytes (ciphertext.take 12) (ciphertext.drop 12) with
    | .error err => .error (.storage ("decryption failed: " ++ err))
    | .ok plaintext => .ok plaintext

/-- The cipher opens what it sealed. -/
def RoundTrips (c : CryptoEngine) : Prop :=
  ∀ nonce plaintext, c.openBytes nonce (c.sealBytes nonce plaintext) = .ok plaintext

/-- The ciphertext is longer than the plaintext by the tag of sixteen bytes. -/
def Sized (c : CryptoEngine) : Prop :=
  ∀ nonce plaintext, (c.sealBytes nonce plaintext).length = plaintext.length + 16

theorem decrypt_encrypt {c : CryptoEngine} (h : c.RoundTrips) (nonce : Nonce)
    (plaintext : Bytes) : c.decrypt (c.encrypt nonce plaintext) = .ok plaintext := by
  have hlen : ¬ (c.encrypt nonce plaintext).length < 12 := by
    rw [encrypt, List.length_append, nonce.length_eq]
    omega
  rw [decrypt, if_neg hlen, encrypt, List.take_left' nonce.length_eq,
    List.drop_left' nonce.length_eq, h]

lemma length_encrypt {c : CryptoEngine} (h : c.Sized) (nonce : Nonce) (plaintext : Bytes) :
    (c.encrypt nonce plaintext).length = plaintext.length + 28 := by
  rw [encrypt, List.length_append, nonce.length_eq, h]
  omega

end CryptoEngine
end Rango
