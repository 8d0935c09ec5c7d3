import Mathlib.Data.List.Basic

/-!
# UTF-8

The bytes of a character, and the decoder of the Encoding standard, which writes `U+FFFD` for what
is not the encoding of a character.
-/

namespace Utf8

def bytes (c : Char) : List ℕ := (String.utf8EncodeChar c).map UInt8.toNat

/-- A character of which the first bytes have been read. -/
structure Pending where
  needed : ℕ
  code : ℕ
  lower : ℕ
  upper : ℕ

def REPLACEMENT : Char := '\uFFFD'

/-- A byte at the beginning of a character. -/
def first (b : ℕ) : List Char × Option Pending :=
  if b ≤ 0x7F then ([Char.ofNat b], none)
  else if 0xC2 ≤ b ∧ b ≤ 0xDF then ([], some ⟨1, b % 32, 0x80, 0xBF⟩)
  else if 0xE0 ≤ b ∧ b ≤ 0xEF then
    ([], some ⟨2, b % 16, if b = 0xE0 then 0xA0 else 0x80, if b = 0xED then 0x9F else 0xBF⟩)
  else if 0xF0 ≤ b ∧ b ≤ 0xF4 then
    ([], some ⟨3, b % 8, if b = 0xF0 then 0x90 else 0x80, if b = 0xF4 then 0x8F else 0xBF⟩)
  else ([REPLACEMENT], none)

/-- A byte inside a character; one that does not belong there begins the next character. -/
def next (p : Pending) (b : ℕ) : List Char × Option Pending :=
  if p.lower ≤ b ∧ b ≤ p.upper then
    if p.needed = 1 then ([Char.ofNat (p.code * 64 + b % 64)], none)
    else ([], some ⟨p.needed - 1, p.code * 64 + b % 64, 0x80, 0xBF⟩)
  else (REPLACEMENT :: (first b).1, (first b).2)

def read : Option Pending → ℕ → List Char × Option Pending
  | none, b => first b
  | some p, b => next p b

def decodeFrom (p : Option Pending) : List ℕ → List Char
  | [] => if p.isSome then [REPLACEMENT] else []
  | b :: bs => (read p b).1 ++ decodeFrom (read p b).2 bs

def decode (bs : List ℕ) : List Char := decodeFrom none bs

/-- The four shapes of an encoding. -/
theorem bytes_cases (c : Char) :
    (c.toNat ≤ 0x7F ∧ bytes c = [c.toNat]) ∨
    (0x7F < c.toNat ∧ c.toNat ≤ 0x7FF ∧ bytes c = [0xC0 + c.toNat / 64, 0x80 + c.toNat % 64]) ∨
    (0x7FF < c.toNat ∧ c.toNat ≤ 0xFFFF ∧
      bytes c = [0xE0 + c.toNat / 4096, 0x80 + c.toNat / 64 % 64, 0x80 + c.toNat % 64]) ∨
    (0xFFFF < c.toNat ∧
      bytes c = [0xF0 + c.toNat / 262144, 0x80 + c.toNat / 4096 % 64, 0x80 + c.toNat / 64 % 64,
        0x80 + c.toNat % 64]) := by
  have hc : c.toNat < 0x110000 := by
    have hvalid : c.toNat.isValidChar := c.valid
    rcases hvalid with h | h <;> omega
  have hval : c.val.toNat = c.toNat := rfl
  unfold bytes String.utf8EncodeChar
  simp only [hval]
  split
  · refine .inl ⟨‹_›, ?_⟩
    simp only [List.map_cons, List.map_nil, UInt8.toNat_ofNat', List.cons.injEq, and_true]
    omega
  split
  · refine .inr (.inl ⟨by omega, ‹_›, ?_⟩)
    simp only [List.map_cons, List.map_nil, UInt8.toNat_ofNat', List.cons.injEq, and_true]
    omega
  split
  · refine .inr (.inr (.inl ⟨by omega, ‹_›, ?_⟩))
    simp only [List.map_cons, List.map_nil, UInt8.toNat_ofNat', List.cons.injEq, and_true]
    omega
  · refine .inr (.inr (.inr ⟨by omega, ?_⟩))
    simp only [List.map_cons, List.map_nil, UInt8.toNat_ofNat', List.cons.injEq, and_true]
    omega

section Steps

variable {b code code' needed lower upper : ℕ}

theorem decode_first (h : first b = ([], some ⟨needed, code, lower, upper⟩)) (bs : List ℕ) :
    decode (b :: bs) = decodeFrom (some ⟨needed, code, lower, upper⟩) bs := by
  rw [decode, decodeFrom, read, h, List.nil_append]

/-- A byte in the middle of a character. -/
theorem decodeFrom_next (hlower : lower ≤ b) (hupper : b ≤ upper) (hneeded : needed ≠ 0)
    (hcode : code * 64 + b % 64 = code') (bs : List ℕ) :
    decodeFrom (some ⟨needed + 1, code, lower, upper⟩) (b :: bs) =
      decodeFrom (some ⟨needed, code', 0x80, 0xBF⟩) bs := by
  have hnext : next ⟨needed + 1, code, lower, upper⟩ b = ([], some ⟨needed, code', 0x80, 0xBF⟩) := by
    simp only [next, hlower, hupper, and_self, if_true, Nat.add_eq_right, hneeded, if_false, Nat.add_sub_cancel, hcode]
  rw [decodeFrom, read, hnext, List.nil_append]

/-- The last byte of a character. -/
theorem decodeFrom_last {c : Char} (hlower : lower ≤ b) (hupper : b ≤ upper)
    (hcode : code * 64 + b % 64 = c.toNat) (bs : List ℕ) :
    decodeFrom (some ⟨1, code, lower, upper⟩) (b :: bs) = c :: decode bs := by
  have hnext : next ⟨1, code, lower, upper⟩ b = ([c], none) := by
    simp only [next, hlower, hupper, and_self, if_true, hcode, Char.ofNat_toNat]
  rw [decodeFrom, read, hnext, List.singleton_append, decode]

end Steps

/-- A character is read back from its encoding. -/
theorem decode_bytes (c : Char) (rest : List ℕ) : decode (bytes c ++ rest) = c :: decode rest := by
  have hvalid : c.toNat < 0xD800 ∨ 0xDFFF < c.toNat ∧ c.toNat < 0x110000 := c.valid
  rcases bytes_cases c with ⟨hc, hbytes⟩ | ⟨hlow, hhigh, hbytes⟩ | ⟨hlow, hhigh, hbytes⟩ | ⟨hlow, hbytes⟩
  · rw [hbytes]
    simp [decode, decodeFrom, read, first, hc]
  · have hfirst : first (0xC0 + c.toNat / 64) = ([], some ⟨1, c.toNat / 64, 0x80, 0xBF⟩) := by
      have hcode : (0xC0 + c.toNat / 64) % 32 = c.toNat / 64 := by omega
      rw [first, if_neg (by omega), if_pos (by omega), hcode]
    rw [hbytes, List.cons_append, List.singleton_append, decode_first hfirst]
    exact decodeFrom_last (by omega) (by omega) (by omega) rest
  · have hfirst : first (0xE0 + c.toNat / 4096) = ([], some ⟨2, c.toNat / 4096,
        if 0xE0 + c.toNat / 4096 = 0xE0 then 0xA0 else 0x80,
        if 0xE0 + c.toNat / 4096 = 0xED then 0x9F else 0xBF⟩) := by
      have hcode : (0xE0 + c.toNat / 4096) % 16 = c.toNat / 4096 := by omega
      rw [first, if_neg (by omega), if_neg (by omega), if_pos (by omega), hcode]
    rw [hbytes, List.cons_append, List.cons_append, List.singleton_append, decode_first hfirst]
    calc
      _ = decodeFrom (some ⟨1, c.toNat / 64, 0x80, 0xBF⟩) ((0x80 + c.toNat % 64) :: rest) :=
        decodeFrom_next (by split <;> omega) (by split <;> omega) (by decide) (by omega) _
      _ = c :: decode rest := decodeFrom_last (by omega) (by omega) (by omega) rest
  · have hfirst : first (0xF0 + c.toNat / 262144) = ([], some ⟨3, c.toNat / 262144,
        if 0xF0 + c.toNat / 262144 = 0xF0 then 0x90 else 0x80,
        if 0xF0 + c.toNat / 262144 = 0xF4 then 0x8F else 0xBF⟩) := by
      have hcode : (0xF0 + c.toNat / 262144) % 8 = c.toNat / 262144 := by omega
      rw [first, if_neg (by omega), if_neg (by omega), if_neg (by omega), if_pos (by omega), hcode]
    rw [hbytes, List.cons_append, List.cons_append, List.cons_append, List.singleton_append, decode_first hfirst]
    calc
      _ = decodeFrom (some ⟨2, c.toNat / 4096, 0x80, 0xBF⟩)
          ((0x80 + c.toNat / 64 % 64) :: (0x80 + c.toNat % 64) :: rest) :=
        decodeFrom_next (by split <;> omega) (by split <;> omega) (by decide) (by omega) _
      _ = decodeFrom (some ⟨1, c.toNat / 64, 0x80, 0xBF⟩) ((0x80 + c.toNat % 64) :: rest) :=
        decodeFrom_next (by omega) (by omega) (by decide) (by omega) _
      _ = c :: decode rest := decodeFrom_last (by omega) (by omega) (by omega) rest

theorem decode_flatMap_bytes (s : List Char) : decode (s.flatMap bytes) = s := by
  induction s with
  | nil => rfl
  | cons c s ih => rw [List.flatMap_cons, decode_bytes, ih]

end Utf8
