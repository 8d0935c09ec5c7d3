import Emis.Common.Json
import Emis.Library.Numerals

/-!
# Writing CSV text

`modules/reports/domain/csv.ts`.
-/

namespace Emis.Reports

def decimalMoney (minorUnits : ℤ) : Str :=
  let abs := minorUnits.natAbs
  (if minorUnits < 0 then ['-'] else []) ++ (Nat.toDigits 10 (abs / 100) ++ '.' :: Numerals.numeral 2 (abs % 100))

/-- A cell that `toCsv` takes. A number is the text of `String(value)`. -/
inductive Cell
  | string (value : Str)
  | number (value : Str)
  | numeric (value : Str)
  deriving DecidableEq, Repr

/-- `/^[=+\-@\t\r]/`. -/
def startsFormula : Str → Bool
  | [] => false
  | ch :: _ => ch ∈ ['=', '+', '-', '@', '\t', '\r']

/-- `/[",\r\n]/`, of one character. -/
def isSpecial (ch : Char) : Bool := ch ∈ ['\x22', ',', '\r', '\n']

/-- Every quote twice. -/
def doubled (text : Str) : Str :=
  text.flatMap fun ch => if ch = '\x22' then ['\x22', '\x22'] else [ch]

def csvCell (value : Str) (numeric : Bool) : Str :=
  let text := if !numeric && startsFormula value then '\'' :: value else value
  if text.any isSpecial then '\x22' :: (doubled text ++ ['\x22']) else text

def Cell.csv : Cell → Str
  | .string value => csvCell value false
  | .number value => csvCell value false
  | .numeric value => csvCell value true

def crlf : Str := ['\r', '\n']

def line (cells : List Cell) : Str := [','].intercalate (cells.map Cell.csv)

def toCsv (header : List Str) (rows : List (List Cell)) : Str :=
  '\ufeff' :: (crlf.intercalate ((header.map Cell.string :: rows).map line) ++ crlf)

example : toCsv ["Name".toList, "Owed".toList] [[.string "=A1, \x22x\x22".toList, .numeric "-1.50".toList]] =
    "\ufeffName,Owed\r\n\x22'=A1, \x22\x22x\x22\x22\x22,-1.50\r\n".toList := by decide

end Emis.Reports
