import Emis.Common.Json

/-!
# Reading CSV text

`modules/imports/domain/csv-parse.ts`. Where the loop consumes two characters, at an
escaped quote and at a CRLF, its next turn is skipped.
-/

namespace Emis.Imports

/-- A row with the line it starts on. -/
structure CsvRow where
  line : ℕ
  cells : List Str
  deriving DecidableEq, Repr

structure CsvError where
  message : String
  line : ℕ
  deriving DecidableEq, Repr

/-- The variables of the loop. -/
structure Reader where
  rows : List CsvRow := []
  cells : List Str := []
  cell : Str := []
  inQuotes : Bool := false
  rowLine : ℕ := 1
  line : ℕ := 1
  cellStarted : Bool := false
  skip : Bool := false
  deriving DecidableEq, Repr

namespace Reader

def endCell (r : Reader) : Reader :=
  { r with cells := r.cells ++ [r.cell], cell := [], cellStarted := false }

/-- A row of one empty cell is a blank line. -/
def endRow (r : Reader) : Reader :=
  let ended := r.endCell
  { ended with
    rows := if ended.cells = [[]] then r.rows else r.rows ++ [⟨r.rowLine, ended.cells⟩]
    cells := [] }

/-- The row ends, and so does its line. -/
def newline (r : Reader) : Reader := { r.endRow with line := r.line + 1, rowLine := r.line + 1 }

/-- One more character of the cell. -/
def put (r : Reader) (ch : Char) : Reader := { r with cell := r.cell ++ [ch], cellStarted := true }

/-- One more character between quotes. -/
def putQuoted (r : Reader) (ch : Char) : Reader :=
  { r with line := if ch = '\n' then r.line + 1 else r.line, cell := r.cell ++ [ch] }

/-- One turn of the loop, which looks at the next character too. -/
def turn (r : Reader) (ch : Char) (next : Option Char) : Reader :=
  if r.skip then { r with skip := false }
  else if r.inQuotes then
    if ch = '\x22' then
      if next = some '\x22' then { r with cell := r.cell ++ ['\x22'], skip := true }
      else { r with inQuotes := false }
    else r.putQuoted ch
  else if ch = '\x22' ∧ r.cellStarted = false then { r with inQuotes := true, cellStarted := true }
  else if ch = ',' then r.endCell
  else if ch = '\r' ∧ next = some '\n' then { r.newline with skip := true }
  else if ch = '\r' ∨ ch = '\n' then r.newline
  else r.put ch

def loop : Reader → Str → Reader
  | r, [] => r
  | r, ch :: rest => loop (r.turn ch rest.head?) rest

end Reader

/-- The text without a leading byte-order mark. -/
def withoutMark : Str → Str
  | [] => []
  | ch :: rest => if ch = '\ufeff' then rest else ch :: rest

def parseCsv (input : Str) : Except CsvError (List CsvRow) :=
  let r := Reader.loop {} (withoutMark input)
  if r.inQuotes then .error ⟨"A quoted value is never closed", r.rowLine⟩
  else if r.cellStarted ∨ r.cells ≠ [] ∨ r.cell ≠ [] then .ok r.endRow.rows
  else .ok r.rows

example : (parseCsv "a,\x22b\x22\x22\nc\x22\r\n\r\nd".toList).toOption =
    some [⟨1, ["a".toList, "b\x22\nc".toList]⟩, ⟨4, ["d".toList]⟩] := by decide

end Emis.Imports
