import Emis.Common.Errors
import Emis.Common.Json
import Mathlib.Algebra.GroupWithZero.Nat

/-!
# Authenticated encryption

`common/crypto/secret-box.ts` over the ciphers of `node:crypto`, whose inputs and outputs
are taken as the base64url texts that are stored.
-/

namespace Emis

/-- A text without dots, as hexadecimal digits and base64url are. -/
structure Encoded where
  text : Str
  noDot : '.' ∉ text

/-- AES-256-GCM and SHA-256 for keys of 32 bytes. -/
structure Crypto (Key : Type) where
  keyId : Key → Encoded
  /-- The ciphertext and its tag, for an initial value, the associated data and the plaintext. -/
  cipher : Key → (iv aad plaintext : Str) → Encoded × Encoded
  decipher : Key → (iv aad ciphertext tag : Str) → Option Str

/-- What was sealed opens, and nothing opens to a text longer than its ciphertext. -/
structure Crypto.Lawful {Key : Type} (crypto : Crypto Key) : Prop where
  opens : ∀ key iv aad plaintext, crypto.decipher key iv aad (crypto.cipher key iv aad plaintext).1.text
    (crypto.cipher key iv aad plaintext).2.text = some plaintext
  length : ∀ key iv aad ciphertext tag plaintext, crypto.decipher key iv aad ciphertext tag = some plaintext →
    plaintext.length ≤ ciphertext.length

def SecretBoxError (message : String) : Error := .internal message

def VERSION : Str := ['v', '1']

/-- The keys by their ids, and which of them seals. -/
structure SecretBox (Key : Type) where
  keys : List (Str × Key)
  currentKeyId : Str

namespace SecretBox

variable {Key : Type} (crypto : Crypto Key)

/-- `new SecretBox(currentKey, previousKeys)`. -/
def new (currentKey : Key) (previousKeys : List Key) : SecretBox Key where
  keys := (currentKey :: previousKeys).map fun key => ((crypto.keyId key).text, key)
  currentKeyId := (crypto.keyId currentKey).text

/-- `keys.get`: the last one that was set. -/
def key? (box : SecretBox Key) (keyId : Str) : Option Key :=
  (box.keys.reverse.find? fun e => e.1 == keyId).map Prod.snd

/-- The parts in the order in which they are joined by dots. -/
def join (parts : List Str) : Str := ['.'].intercalate parts

def encrypt (box : SecretBox Key) (iv : Encoded) (plaintext context : Str) : Except Error Str :=
  match box.key? box.currentKeyId with
  | none => .error (SecretBoxError "Current key missing")
  | some key =>
      let sealed := crypto.cipher key iv.text context plaintext
      .ok (join [VERSION, box.currentKeyId, iv.text, sealed.1.text, sealed.2.text])

def decrypt (box : SecretBox Key) (payload context : Str) : Except Error Str :=
  match payload.splitOn '.' with
  | [version, keyId, iv, ciphertext, tag] =>
      if version ≠ VERSION then .error (SecretBoxError "Unsupported payload")
      else
        match box.key? keyId with
        | none => .error (SecretBoxError "Unknown encryption key")
        | some key =>
            match crypto.decipher key iv context ciphertext tag with
            | some plaintext => .ok plaintext
            | none => .error (SecretBoxError "Decryption failed")
  | _ => .error (SecretBoxError "Unsupported payload")

/-- False when the payload was sealed with an older key. -/
def isCurrent (box : SecretBox Key) (payload : Str) : Bool := (payload.splitOn '.')[1]? == some box.currentKeyId

/-! ## Opening what was sealed -/

variable {crypto}

theorem splitOn_join {a b c d e : Str} (ha : '.' ∉ a) (hb : '.' ∉ b) (hc : '.' ∉ c) (hd : '.' ∉ d) (he : '.' ∉ e) :
    (join [a, b, c, d, e]).splitOn '.' = [a, b, c, d, e] := by
  have hcut : ∀ {x : Str} (rest : Str), '.' ∉ x → (x ++ '.' :: rest).splitOn '.' = x :: rest.splitOn '.' := by
    intro x rest hx
    rw [List.splitOn_append_cons_of_beq x rest (by simp), List.splitOn_eq_singleton hx, List.singleton_append]
  have hjoin : join [a, b, c, d, e] = a ++ '.' :: (b ++ '.' :: (c ++ '.' :: (d ++ '.' :: e))) := by
    simp [join, List.intercalate, List.intersperse]
  rw [hjoin, hcut _ ha, hcut _ hb, hcut _ hc, hcut _ hd, List.splitOn_eq_singleton he]

/-- The first key is there, under its id. -/
theorem key?_new (currentKey : Key) (previousKeys : List Key) :
    ∃ key, (new crypto currentKey previousKeys).key? (new crypto currentKey previousKeys).currentKeyId = some key := by
  have hmem : ((crypto.keyId currentKey).text, currentKey) ∈ (new crypto currentKey previousKeys).keys.reverse :=
    List.mem_reverse.2 List.mem_cons_self
  cases hfind : (new crypto currentKey previousKeys).keys.reverse.find?
      fun e => e.1 == (new crypto currentKey previousKeys).currentKeyId with
  | none =>
      have hmiss := List.find?_eq_none.1 hfind _ hmem
      simp [new] at hmiss
  | some e => exact ⟨e.2, by rw [key?, hfind]; rfl⟩

/-- Whoever has the key opens what was sealed for the same context. -/
theorem decrypt_encrypt (hcrypto : crypto.Lawful) {writer reader : SecretBox Key} {iv : Encoded}
    {plaintext context sealed : Str} (hid : '.' ∉ writer.currentKeyId)
    (hknown : reader.key? writer.currentKeyId = writer.key? writer.currentKeyId)
    (h : writer.encrypt crypto iv plaintext context = .ok sealed) :
    reader.decrypt crypto sealed context = .ok plaintext := by
  rw [encrypt] at h
  split at h
  · cases h
  · rename_i key hkey
    obtain rfl := Except.ok.inj h
    have hopens := hcrypto.opens key iv.text context plaintext
    rw [decrypt, splitOn_join (by decide) hid iv.noDot (Encoded.noDot _) (Encoded.noDot _)]
    simp only [ne_eq, not_true_eq_false, if_false, hknown, hkey, hopens]

/-- The parts and the dots between them are the text. -/
theorem length_splitOn (text : Str) :
    ((text.splitOn '.').map List.length).sum + (text.splitOn '.').length = text.length + 1 := by
  induction text with
  | nil => simp
  | cons c text ih =>
      rw [List.splitOn_cons_eq_if_modifyHead]
      split
      · simp only [List.map_cons, List.length_nil, List.sum_cons, List.length_cons]
        omega
      · obtain ⟨part, parts, hparts⟩ := List.exists_cons_of_ne_nil (List.splitOn_ne_nil '.' text)
        rw [hparts] at ih ⊢
        simp only [List.modifyHead_cons, List.map_cons, List.length_cons, List.sum_cons] at ih ⊢
        omega

/-- What opens is shorter than what it was opened from. -/
theorem length_of_decrypt (hcrypto : crypto.Lawful) {box : SecretBox Key} {payload context plaintext : Str}
    (h : box.decrypt crypto payload context = .ok plaintext) : plaintext.length < payload.length := by
  have hlength := length_splitOn payload
  rw [decrypt] at h
  split at h
  · rename_i version keyId iv ciphertext tag hparts
    rw [hparts] at hlength
    simp only [List.map_cons, List.map_nil, List.sum_cons, List.sum_nil, List.length_cons, List.length_nil] at hlength
    split at h
    · cases h
    split at h
    · cases h
    split at h
    · rename_i opened hopened
      obtain rfl := Except.ok.inj h
      have hshort := hcrypto.length _ _ _ _ _ _ hopened
      omega
    · cases h
  · cases h

end SecretBox

end Emis
