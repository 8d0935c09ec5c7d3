import Emis.Library.Utf8
import Mathlib.Data.List.DropRight
import Mathlib.Data.List.Infix

/-!
# URLs

Parts of the URL standard: percent-encoding, the parameters of a query, and the origin of the URL
that a reference beginning with a slash has on a page of an `http` or `https` site. The parser of
hosts is left open.
-/

namespace Url

/-! ## Percent-encoding -/

def hexDigit (n : ℕ) : Char := (Nat.digitChar n).toUpper

/-- The value of a byte that is a hexadecimal digit. -/
def hexValue (b : ℕ) : Option ℕ :=
  if 0x30 ≤ b ∧ b ≤ 0x39 then some (b - 0x30)
  else if 0x41 ≤ b ∧ b ≤ 0x46 then some (b - 0x37)
  else if 0x61 ≤ b ∧ b ≤ 0x66 then some (b - 0x57)
  else none

def percentEncode (b : ℕ) : List Char := ['%', hexDigit (b / 16), hexDigit (b % 16)]

def percentDecode : List ℕ → List ℕ
  | [] => []
  | [b] => [b]
  | [b, h] => [b, h]
  | b :: h :: l :: rest =>
      match b == 0x25, hexValue h, hexValue l with
      | true, some x, some y => (16 * x + y) :: percentDecode rest
      | _, _, _ => b :: percentDecode (h :: l :: rest)

/-- `encodeURIComponent` leaves these characters as they are. -/
def isUnreserved (c : Char) : Bool :=
  c.isAlphanum || ['-', '_', '.', '!', '~', '*', '\x27', '(', ')'].contains c

def encodeComponent (s : List Char) : List Char :=
  s.flatMap fun c => if isUnreserved c then [c] else (Utf8.bytes c).flatMap percentEncode

/-! ## Queries -/

/-- The text between the question mark and the fragment. -/
def query (url : List Char) : List Char := ((url.takeWhile (· ≠ '#')).dropWhile (· ≠ '?')).drop 1

/-- A name or a value of `application/x-www-form-urlencoded`. -/
def decodeComponent (s : List Char) : List Char :=
  Utf8.decode (percentDecode ((s.map fun c => if c = '+' then ' ' else c).flatMap Utf8.bytes))

/-- The parameters of a query. -/
def parameters (query : List Char) : List (List Char × List Char) :=
  ((query.splitOn '&').filter (· ≠ [])).map fun pair =>
    (decodeComponent (pair.takeWhile (· ≠ '=')), decodeComponent ((pair.dropWhile (· ≠ '=')).drop 1))

def parameter (name query : List Char) : Option (List Char) :=
  ((parameters query).find? fun p => p.1 == name).map Prod.snd

/-! ## Origins -/

/-- Spaces and controls at the ends, and tabs and line breaks anywhere, are not part of a URL. -/
def clean (s : List Char) : List Char :=
  ((s.dropWhile fun c => c.toNat ≤ 0x20).rdropWhile fun c => c.toNat ≤ 0x20).filter
    fun c => !(['\t', '\n', '\r'].contains c)

def isSlash (c : Char) : Bool := c = '/' || c = '\\'

structure Origin (H : Type) where
  https : Bool
  host : H
  port : Option ℕ
deriving DecidableEq

section Origins

variable {H : Type} (parseHost : List Char → Option H)

/-- The port state: the default port is no port. -/
def parsePort (https : Bool) (s : List Char) : Option (Option ℕ) :=
  if s.all Char.isDigit then
    if s = [] then some none
    else
      let port := Nat.ofDigitChars 10 s 0
      if 65535 < port then none else some (if port = (if https then 443 else 80) then none else some port)
  else none

/-- The host and the rest, which begins with the first colon outside brackets. -/
def splitHost (inside : Bool) : List Char → List Char × List Char
  | [] => ([], [])
  | c :: s =>
      if c = ':' ∧ inside = false then ([], c :: s)
      else
        let (host, rest) := splitHost (if c = '[' then true else if c = ']' then false else inside) s
        (c :: host, rest)

/-- The authority state: what stands before the last `@` are credentials. -/
def parseAuthority (https : Bool) (s : List Char) : Option (Origin H) :=
  let authority := s.takeWhile fun c => !(isSlash c || c = '?' || c = '#')
  let (host, rest) := splitHost false (authority.rtakeWhile (· ≠ '@'))
  if host = [] then none
  else do
    let host ← parseHost host
    let port ← parsePort https (rest.drop 1)
    return ⟨https, host, port⟩

/-- What follows the two slashes of a reference that has its own authority. -/
def networkPath : List Char → Option (List Char)
  | c :: d :: s => if isSlash c && isSlash d then some (s.dropWhile isSlash) else none
  | _ => none

/-- The origin of a reference that begins with a slash, on a page of the site `base`. -/
def resolve (base : Origin H) (s : List Char) : Option (Origin H) :=
  match networkPath (clean s) with
  | some authority => parseAuthority parseHost base.https authority
  | none => some base

end Origins

/-! ## Reading a component back -/

theorem hexDigit_spec : ∀ n < 16, (hexDigit n).toNat ≤ 0x7F ∧ hexValue (hexDigit n).toNat = some n ∧
    isUnreserved (hexDigit n) = true := by decide

theorem bytes_of_le {c : Char} (h : c.toNat ≤ 0x7F) : Utf8.bytes c = [c.toNat] := by
  rcases Utf8.bytes_cases c with ⟨-, hbytes⟩ | ⟨hlow, -⟩ | ⟨hlow, -⟩ | ⟨hlow, -⟩
  · exact hbytes
  all_goals omega

theorem bytes_percentEncode {b : ℕ} (hb : b < 256) :
    (percentEncode b).flatMap Utf8.bytes = [0x25, (hexDigit (b / 16)).toNat, (hexDigit (b % 16)).toNat] := by
  have hhigh := hexDigit_spec (b / 16) (by omega)
  have hlow := hexDigit_spec (b % 16) (Nat.mod_lt _ (by decide))
  have hpercent : Utf8.bytes '%' = [0x25] := bytes_of_le (by decide)
  simp only [percentEncode, List.flatMap_cons, List.flatMap_nil, hpercent, bytes_of_le hhigh.1, bytes_of_le hlow.1,
    List.cons_append, List.nil_append]

theorem percentDecode_percentEncode {b : ℕ} (hb : b < 256) (rest : List ℕ) :
    percentDecode ((percentEncode b).flatMap Utf8.bytes ++ rest) = b :: percentDecode rest := by
  obtain ⟨-, hhigh, -⟩ := hexDigit_spec (b / 16) (by omega)
  obtain ⟨-, hlow, -⟩ := hexDigit_spec (b % 16) (Nat.mod_lt _ (by decide))
  have hb : 16 * (b / 16) + b % 16 = b := Nat.div_add_mod b 16
  rw [bytes_percentEncode (by omega), List.cons_append, List.cons_append, List.singleton_append, percentDecode, hhigh,
    hlow]
  simp only [beq_self_eq_true, hb]

theorem percentDecode_cons {b : ℕ} (hb : b ≠ 0x25) (rest : List ℕ) :
    percentDecode (b :: rest) = b :: percentDecode rest := by
  match rest with
  | [] | [_] => rfl
  | h :: l :: rest =>
      rw [percentDecode]
      simp [hb]

theorem percentDecode_bytes {bs : List ℕ} (hbs : ∀ b ∈ bs, b < 256) (rest : List ℕ) :
    percentDecode ((bs.flatMap percentEncode).flatMap Utf8.bytes ++ rest) = bs ++ percentDecode rest := by
  induction bs with
  | nil => rfl
  | cons b bs ih =>
      rw [List.flatMap_cons, List.flatMap_append, List.append_assoc, percentDecode_percentEncode (hbs b (by simp)),
        ih fun b' hb' => hbs b' (by simp [hb']), List.cons_append]

theorem isUnreserved_toNat {c : Char} (h : isUnreserved c = true) : c.toNat ≤ 0x7F ∧ c.toNat ≠ 0x25 := by
  rw [isUnreserved, Bool.or_eq_true] at h
  rcases h with h | h
  · delta Char.isAlphanum Char.isAlpha Char.isUpper Char.isLower Char.isDigit at h
    simp only [Bool.or_eq_true, Bool.and_eq_true, decide_eq_true_eq, UInt32.le_iff_toNat_le, ge_iff_le] at h
    have hval : c.val.toNat = c.toNat := rfl
    have hcodes : 'A'.val.toNat = 65 ∧ 'Z'.val.toNat = 90 ∧ 'a'.val.toNat = 97 ∧ 'z'.val.toNat = 122 ∧
      '0'.val.toNat = 48 ∧ '9'.val.toNat = 57 := by decide
    omega
  · rw [List.contains_iff_mem] at h
    have hall : ∀ c ∈ ['-', '_', '.', '!', '~', '*', '\x27', '(', ')'], c.toNat ≤ 0x7F ∧ c.toNat ≠ 0x25 := by decide
    exact hall c h

theorem byte_lt {c : Char} {b : ℕ} (h : b ∈ Utf8.bytes c) : b < 256 := by
  obtain ⟨u, -, rfl⟩ := List.mem_map.1 h
  exact u.toNat_lt

theorem percentDecode_encodeComponent (s : List Char) :
    percentDecode ((encodeComponent s).flatMap Utf8.bytes) = s.flatMap Utf8.bytes := by
  induction s with
  | nil => rfl
  | cons c s ih =>
      rw [encodeComponent, List.flatMap_cons, List.flatMap_append, List.flatMap_cons]
      split
      · rename_i hc
        obtain ⟨hle, hne⟩ := isUnreserved_toNat hc
        rw [List.flatMap_singleton, bytes_of_le hle, List.singleton_append, List.singleton_append,
          percentDecode_cons hne, ← ih]
        rfl
      · rw [percentDecode_bytes fun b hb => byte_lt hb, ← ih]
        rfl

theorem mem_encodeComponent {s : List Char} {c : Char} (h : c ∈ encodeComponent s) :
    isUnreserved c = true ∨ c = '%' := by
  obtain ⟨d, -, hd⟩ := List.mem_flatMap.1 h
  split at hd
  · rename_i hunreserved
    rw [List.mem_singleton.1 hd]
    exact .inl hunreserved
  · obtain ⟨b, hb, hc⟩ := List.mem_flatMap.1 hd
    have hlt := byte_lt hb
    simp only [percentEncode, List.mem_cons, List.not_mem_nil, or_false] at hc
    rcases hc with rfl | rfl | rfl
    · exact .inr rfl
    · exact .inl (hexDigit_spec _ (by omega)).2.2
    · exact .inl (hexDigit_spec _ (Nat.mod_lt _ (by decide))).2.2

theorem not_mem_encodeComponent {s : List Char} {c : Char} (h : isUnreserved c = false) (hpercent : c ≠ '%') :
    c ∉ encodeComponent s := by
  intro hc
  rcases mem_encodeComponent hc with hunreserved | rfl
  · rw [h] at hunreserved
    cases hunreserved
  · exact hpercent rfl

theorem decodeComponent_encodeComponent (s : List Char) : decodeComponent (encodeComponent s) = s := by
  have hplus : (encodeComponent s).map (fun c => if c = '+' then ' ' else c) = encodeComponent s := by
    refine (List.map_congr_left fun c hc => if_neg ?_).trans (List.map_id _)
    rintro rfl
    exact not_mem_encodeComponent (by decide) (by decide) hc
  rw [decodeComponent, hplus, percentDecode_encodeComponent, Utf8.decode_flatMap_bytes]

/-- A parameter that stands alone in a query is read back. -/
theorem parameter_encodeComponent {name : List Char} (hname : ∀ c ∈ name, isUnreserved c = true) (s : List Char) :
    parameter name (name ++ '=' :: encodeComponent s) = some s := by
  have hsplit : (name ++ '=' :: encodeComponent s).splitOn '&' = [name ++ '=' :: encodeComponent s] := by
    refine List.splitOnP_eq_singleton fun c hc => beq_eq_false_iff_ne.2 ?_
    rintro rfl
    rcases List.mem_append.1 hc with hc | hc
    · exact absurd (hname _ hc) (by decide)
    rcases List.mem_cons.1 hc with hc | hc
    · exact absurd hc (by decide)
    · exact not_mem_encodeComponent (by decide) (by decide) hc
  have hequals : ∀ c ∈ name, decide (c ≠ '=') = true := by
    intro c hc
    refine decide_eq_true ?_
    rintro rfl
    exact absurd (hname _ hc) (by decide)
  have htake : (name ++ '=' :: encodeComponent s).takeWhile (· ≠ '=') = name := by
    rw [List.takeWhile_append_of_pos hequals]
    simp
  have hdrop : (name ++ '=' :: encodeComponent s).dropWhile (· ≠ '=') = '=' :: encodeComponent s := by
    rw [List.dropWhile_append_of_pos hequals]
    simp
  have hplain : encodeComponent name = name := by
    refine (List.flatMap_congr fun c hc => if_pos (hname c hc)).trans ?_
    exact List.flatMap_singleton' name
  have hdecoded : decodeComponent name = name := by
    have h := decodeComponent_encodeComponent name
    rwa [hplain] at h
  have hne : name ++ '=' :: encodeComponent s ≠ [] := by simp
  simp only [parameter, parameters, hsplit, List.filter_cons, hne, decide_true, List.filter_nil, if_true, ne_eq,
    not_false_eq_true, List.map_cons, List.map_nil, htake, hdrop, hdecoded, List.drop_succ_cons, List.drop_zero,
    decodeComponent_encodeComponent, List.find?_cons, beq_self_eq_true, Option.map_some]

theorem query_cons {path text : List Char} (hquestion : '?' ∉ path) (hpath : '#' ∉ path) (htext : '#' ∉ text) :
    query (path ++ '?' :: text) = text := by
  have hfragment : (path ++ '?' :: text).takeWhile (· ≠ '#') = path ++ '?' :: text := by
    refine List.takeWhile_eq_self_iff.2 fun c hc => decide_eq_true ?_
    rintro rfl
    simp only [List.mem_append, List.mem_cons, hpath, htext] at hc
    exact absurd hc (by decide)
  have hpos : ∀ c ∈ path, decide (c ≠ '?') = true := by
    intro c hc
    refine decide_eq_true ?_
    rintro rfl
    exact hquestion hc
  rw [query, hfragment, List.dropWhile_append_of_pos hpos]
  simp

end Url
