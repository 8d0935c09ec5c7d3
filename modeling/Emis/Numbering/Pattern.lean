import Emis.Common.Errors
import Emis.Library.Numerals
import Mathlib.Algebra.GroupWithZero.Nat
import Mathlib.Data.List.Count
import Mathlib.Data.List.TakeDrop

/-!
# Number patterns

`packages/contracts/src/numbering.ts`: which patterns are usable, and how a
pattern is filled in. A text is its list of characters.
-/

namespace Emis.Numbering

open Numerals

abbrev Text := List Char

def isUpper (c : Char) : Bool := 'A' ≤ c && c ≤ 'Z'

/-- `orgCodeSchema`: two to ten capital letters or digits. -/
structure OrgCode where
  text : Text
  chars : ∀ c ∈ text, isUpper c = true ∨ c.isDigit = true
  length : 2 ≤ text.length ∧ text.length ≤ 10
  deriving DecidableEq, Repr

/-! ## Placeholders -/

/-- One match of `TOKEN_RE`: a name, and what stands after its colon. -/
structure Token where
  name : Text
  width : Option Text
  deriving DecidableEq, Repr

def Token.text : Token → Text
  | ⟨name, none⟩ => '{' :: (name ++ ['}'])
  | ⟨name, some width⟩ => '{' :: (name ++ ':' :: (width ++ ['}']))

inductive Piece where
  | literal (c : Char)
  | token (t : Token)
  deriving DecidableEq, Repr

def Piece.text : Piece → Text
  | .literal c => [c]
  | .token t => t.text

def SEQ : Text := ['S', 'E', 'Q']
def YYYY : Text := ['Y', 'Y', 'Y', 'Y']
def YY : Text := ['Y', 'Y']
def MM : Text := ['M', 'M']
def FY : Text := ['F', 'Y']
def BRANCH : Text := ['B', 'R', 'A', 'N', 'C', 'H']

def NUMBER_TOKENS : List Text := [YYYY, YY, MM, FY, BRANCH]

/-- `TOKEN_RE` at the start of a text: capital letters in braces, with an
optional colon and digits. What is left of the text comes along. -/
def matchToken : Text → Option (Token × Text)
  | '{' :: s =>
      let name := s.takeWhile isUpper
      if name.isEmpty then none
      else match s.dropWhile isUpper with
        | '}' :: rest => some (⟨name, none⟩, rest)
        | ':' :: s =>
            let width := s.takeWhile Char.isDigit
            if width.isEmpty then none
            else match s.dropWhile Char.isDigit with
              | '}' :: rest => some (⟨name, some width⟩, rest)
              | _ => none
        | _ => none
  | _ => none

/-- The matches of `TOKEN_RE` from left to right, and the characters between
them. Every step consumes a character. -/
def scan : ℕ → Text → List Piece
  | 0, _ => []
  | _ + 1, [] => []
  | n + 1, c :: s =>
      match matchToken (c :: s) with
      | some (t, rest) => .token t :: scan n rest
      | none => .literal c :: scan n s

def pieces (pattern : Text) : List Piece := scan pattern.length pattern

def Piece.token? : Piece → Option Token
  | .literal _ => none
  | .token t => some t

def matchAll (pattern : Text) : List Token := (pieces pattern).filterMap Piece.token?

/-! ## Checking a pattern -/

/-- `rest.replace(whole, '')`: the first occurrence is taken out. -/
def removeFirst (whole : Text) : Text → Text
  | [] => []
  | c :: s =>
      if whole.isPrefixOf (c :: s) then (c :: s).drop whole.length
      else c :: removeFirst whole s

/-- `LITERAL_RE` of one character. -/
def isLiteral (c : Char) : Bool :=
  c.isAlpha || c.isDigit || ['-', '/', '_', '.'].contains c

/-- Is this a width from 1 to 12? -/
def widthOk : Option Text → Bool
  | none => false
  | some width => 1 ≤ Nat.ofDigitChars 10 width 0 && Nat.ofDigitChars 10 width 0 ≤ 12

abbrev PatternProblem := Option String

def useSeq : String := "Use \x7bSEQ:n\x7d with n between 1 and 12, e.g. \x7bSEQ:5\x7d."

def unknownPlaceholder (whole : Text) : String :=
  "Unknown placeholder " ++ String.ofList whole ++ ". Use " ++
    ", ".intercalate (NUMBER_TOKENS.map fun t => String.ofList (Token.text ⟨t, none⟩)) ++
    " or \x7bSEQ:n\x7d."

/-- The loop of `checkNumberPattern` over the matches: the problem it returns
with, or its counter and the rest of the pattern. -/
def checkTokens : List Token → ℕ → Text → Except String (ℕ × Text)
  | [], seqCount, rest => .ok (seqCount, rest)
  | t :: ts, seqCount, rest =>
      if t.name = SEQ then
        if widthOk t.width then checkTokens ts (seqCount + 1) (removeFirst t.text rest)
        else .error useSeq
      else if NUMBER_TOKENS.contains t.name && t.width.isNone then
        checkTokens ts seqCount (removeFirst t.text rest)
      else .error (unknownPlaceholder t.text)

/-- Why a pattern is unusable, or none when it's fine. -/
def checkNumberPattern (pattern : Text) : PatternProblem :=
  match checkTokens (matchAll pattern) 0 pattern with
  | .error problem => some problem
  | .ok (seqCount, rest) =>
      if seqCount ≠ 1 then some "The pattern needs exactly one \x7bSEQ:n\x7d placeholder."
      else if !rest.all isLiteral then
        some "Only letters, digits and - / _ . are allowed around placeholders."
      else none

/-- A pattern that `numberPatternSchema` lets through. -/
structure NumberPattern where
  text : Text
  usable : checkNumberPattern text = none
  length : 5 ≤ text.length ∧ text.length ≤ 60
  deriving DecidableEq

/-- What `trim` takes off. -/
def isBlank (c : Char) : Bool :=
  c.isWhitespace || [0xb, 0xc, 0xa0, 0x1680, 0x2028, 0x2029, 0x202f, 0x205f, 0x3000, 0xfeff].contains
    c.toNat || (0x2000 ≤ c.toNat && c.toNat ≤ 0x200a)

def trim (s : Text) : Text := ((s.dropWhile isBlank).reverse.dropWhile isBlank).reverse

def numberPatternSchema (raw : Text) : Option NumberPattern :=
  if h : checkNumberPattern (trim raw) = none ∧ 5 ≤ (trim raw).length ∧ (trim raw).length ≤ 60 then
    some ⟨trim raw, h.1, h.2⟩
  else none

/-! ## Filling a pattern in -/

/-- Calendar parts in the institution's timezone, and the code of the branch. -/
structure NumberContext where
  year : ℕ
  month : ℕ
  /-- The calendar year the current fiscal year started in. -/
  fiscalYear : ℕ
  branchCode : Option OrgCode

/-- Does `{BRANCH}` occur? A placeholder holds no other brace, so all occurrences
are matches of `TOKEN_RE`. -/
def patternUsesBranch (pattern : Text) : Bool := (matchAll pattern).contains ⟨BRANCH, none⟩

def padStart (width : ℕ) (s : Text) : Text := List.leftpad width '0' s

def fillToken (ctx : NumberContext) (seq : Text) (name : Text) : Except Error Text :=
  if name = YYYY then .ok (Nat.toDigits 10 ctx.year)
  else if name = YY then .ok (padStart 2 (Nat.toDigits 10 (ctx.year % 100)))
  else if name = MM then .ok (padStart 2 (Nat.toDigits 10 ctx.month))
  else if name = FY then .ok (Nat.toDigits 10 ctx.fiscalYear)
  else if name = BRANCH then
    match ctx.branchCode with
    | none => .error (.internal "This number pattern needs a branch")
    | some code => .ok code.text
  else .ok seq

def fillPieces (ctx : NumberContext) (seq : Text) : List Piece → Except Error Text
  | [] => .ok []
  | .literal c :: ps => do
      let rest ← fillPieces ctx seq ps
      return c :: rest
  | .token t :: ps => do
      let value ← fillToken ctx seq t.name
      let rest ← fillPieces ctx seq ps
      return value ++ rest

def fill (pattern : Text) (ctx : NumberContext) (seq : Text) : Except Error Text :=
  fillPieces ctx seq (pieces pattern)

/-- The counter key: the pattern rendered with everything except the sequence. -/
def numberScope (pattern : Text) (ctx : NumberContext) : Except Error Text :=
  fill pattern ctx (Token.text ⟨SEQ, none⟩)

/-- `Number(/\{SEQ:(\d+)\}/.exec(pattern)?.[1] ?? 1)`, where again all occurrences
are matches of `TOKEN_RE`. -/
def seqWidth (pattern : Text) : ℕ :=
  match (matchAll pattern).find? fun t => t.name == SEQ && t.width.isSome with
  | some ⟨_, some width⟩ => Nat.ofDigitChars 10 width 0
  | _ => 1

def formatNumber (pattern : Text) (ctx : NumberContext) (sequence : ℕ) : Except Error Text :=
  fill pattern ctx (padStart (seqWidth pattern) (Nat.toDigits 10 sequence))

end Emis.Numbering
