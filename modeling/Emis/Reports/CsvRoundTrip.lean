import Emis.Reports.Csv
import Emis.Imports.Csv
import Emis.Library.Printing

/-!
# What is written is read back

The reader goes over the text one cell at a time. Between two cells it holds the
rows and the cells it has read and nothing else, wherever the quotes were.
-/

namespace Emis.Reports

open Imports (Reader CsvRow parseCsv)

namespace Cell

/-- A cell marked numeric. -/
def isNumeric : Cell → Bool
  | numeric _ => true
  | _ => false

/-- The text a cell stands for in the file. -/
def shown : Cell → Str
  | numeric value => value
  | string value | number value => if startsFormula value then '\'' :: value else value

theorem csv_eq (cell : Cell) :
    cell.csv = if cell.shown.any isSpecial then '\x22' :: (doubled cell.shown ++ ['\x22']) else cell.shown := by
  cases cell <;> simp [csv, csvCell, shown]

theorem not_startsFormula_shown {cell : Cell} (h : cell.isNumeric = false) :
    startsFormula cell.shown = false := by
  have hmark : ∀ value, startsFormula (if startsFormula value then '\'' :: value else value) = false := by
    intro value
    by_cases hvalue : startsFormula value = true
    · rw [if_pos hvalue]
      rfl
    · rw [if_neg hvalue]
      simpa using hvalue
  cases cell with
  | string value => exact hmark value
  | number value => exact hmark value
  | numeric value => simp [isNumeric] at h

end Cell

/-- The reader has the rows `rows`, then `cells` of the next row, and is inside `cell`. -/
structure Within (r : Reader) (rows : List (List Str)) (cells : List Str) (cell : Str) : Prop where
  rows : r.rows.map CsvRow.cells = rows
  cells : r.cells = cells
  cell : r.cell = cell
  unquoted : r.inQuotes = false
  skips : r.skip = false

/-- The reader is before a cell. -/
structure Before (r : Reader) (rows : List (List Str)) (cells : List Str) : Prop
    extends Within r rows cells [] where
  fresh : r.cellStarted = false

theorem loop_plain {text : Str} (htext : text.any isSpecial = false) (rest : Str) {r : Reader}
    (hquotes : r.inQuotes = false) (hskip : r.skip = false) :
    r.loop (text ++ rest) =
      { r with cell := r.cell ++ text, cellStarted := r.cellStarted || !text.isEmpty }.loop rest := by
  induction text generalizing r with
  | nil => simp
  | cons ch text ih =>
      simp only [List.any_cons, Bool.or_eq_false_iff] at htext
      obtain ⟨hch, htext⟩ := htext
      have hturn : ∀ next, r.turn ch next = r.put ch := by
        intro next
        simp only [isSpecial, List.mem_cons, List.not_mem_nil, or_false, decide_eq_false_iff_not,
          not_or] at hch
        simp [Reader.turn, hquotes, hskip, hch]
      rw [List.cons_append, Reader.loop, hturn, ih htext (by simpa [Reader.put]) (by simpa [Reader.put])]
      simp [Reader.put]

theorem loop_doubled (text : Str) {rest : Str} (hrest : rest.head? ≠ some '\x22') {r : Reader}
    (hquotes : r.inQuotes = true) (hskip : r.skip = false) :
    ∃ line, r.loop (doubled text ++ '\x22' :: rest) =
      { r with cell := r.cell ++ text, inQuotes := false, line := line }.loop rest := by
  induction text generalizing r with
  | nil =>
      refine ⟨r.line, ?_⟩
      simp [doubled, Reader.loop, Reader.turn, hquotes, hskip, hrest]
  | cons ch text ih =>
      by_cases hch : ch = '\x22'
      · subst hch
        obtain ⟨line, hline⟩ := ih (r := { r with cell := r.cell ++ ['\x22'] }) hquotes hskip
        refine ⟨line, ?_⟩
        rw [show doubled ('\x22' :: text) = '\x22' :: '\x22' :: doubled text by simp [doubled]]
        simp only [List.cons_append, Reader.loop, List.head?_cons]
        have htwice : (r.turn '\x22' (some '\x22')).turn '\x22' (doubled text ++ '\x22' :: rest).head? =
            { r with cell := r.cell ++ ['\x22'] } := by
          simp [Reader.turn, hquotes, hskip]
        rw [htwice, hline]
        simp
      · have hturn : ∀ next, r.turn ch next = r.putQuoted ch := by
          intro next
          simp [Reader.turn, hquotes, hskip, hch]
        obtain ⟨line, hline⟩ := ih (r := r.putQuoted ch) (by simpa [Reader.putQuoted])
          (by simpa [Reader.putQuoted])
        refine ⟨line, ?_⟩
        rw [show doubled (ch :: text) = ch :: doubled text by simp [doubled, hch], List.cons_append,
          Reader.loop, hturn, hline]
        simp [Reader.putQuoted]

theorem Before.read_cell {r : Reader} {rows : List (List Str)} {cells : List Str}
    (h : Before r rows cells) (cell : Cell) (rest : Str) (hrest : rest.head? ≠ some '\x22') :
    ∃ r', Within r' rows cells cell.shown ∧ r.loop (cell.csv ++ rest) = r'.loop rest := by
  rw [Cell.csv_eq]
  by_cases hspecial : cell.shown.any isSpecial = true
  · have hopen : ∀ next, r.turn '\x22' next = { r with inQuotes := true, cellStarted := true } := by
      intro next
      simp [Reader.turn, h.unquoted, h.skips, h.fresh]
    obtain ⟨line, hline⟩ := loop_doubled cell.shown hrest
      (r := { r with inQuotes := true, cellStarted := true }) rfl h.skips
    refine ⟨{ r with cell := r.cell ++ cell.shown, inQuotes := false, cellStarted := true, line := line }, ?_, ?_⟩
    · exact ⟨h.rows, h.cells, by simp [h.cell], rfl, h.skips⟩
    · rw [if_pos hspecial, List.cons_append, List.append_assoc, Reader.loop, hopen]
      exact hline
  · have hplain := loop_plain (by simpa using hspecial) rest h.unquoted h.skips
    refine ⟨_, ?_, by rw [if_neg hspecial]; exact hplain⟩
    · exact ⟨h.rows, h.cells, by simp [h.cell], h.unquoted, h.skips⟩

theorem Within.read_comma {r : Reader} {rows : List (List Str)} {cells : List Str} {cell : Str}
    (h : Within r rows cells cell) (rest : Str) :
    ∃ r', Before r' rows (cells ++ [cell]) ∧ r.loop (',' :: rest) = r'.loop rest := by
  have hturn : ∀ next, r.turn ',' next = r.endCell := by
    intro next
    simp [Reader.turn, h.unquoted, h.skips]
  refine ⟨r.endCell, ?_, by rw [Reader.loop, hturn]⟩
  exact ⟨⟨h.rows, by simp [Reader.endCell, h.cells, h.cell], rfl, h.unquoted, h.skips⟩, rfl⟩

/-- A row that the reader keeps: not empty, nor a single empty cell. -/
def isKept (row : List Str) : Bool := row ≠ [] ∧ row ≠ [[]]

theorem Within.read_crlf {r : Reader} {rows : List (List Str)} {cells : List Str} {cell : Str}
    (h : Within r rows cells cell) (rest : Str) :
    ∃ r', Before r' (rows ++ [cells ++ [cell]].filter isKept) [] ∧ r.loop (crlf ++ rest) = r'.loop rest := by
  have hturn : ∀ next, (r.turn '\r' (some '\n')).turn '\n' next = r.newline := by
    intro next
    simp [Reader.turn, h.unquoted, h.skips, Reader.newline, Reader.endRow, Reader.endCell]
  refine ⟨r.newline, ?_, ?_⟩
  · refine ⟨⟨?_, rfl, rfl, h.unquoted, h.skips⟩, rfl⟩
    simp only [Reader.newline, Reader.endRow, Reader.endCell, h.cells, h.cell]
    by_cases hblank : cells ++ [cell] = [[]]
    · simp [hblank, isKept, h.rows]
    · simp [hblank, isKept, h.rows]
  · simp only [crlf, List.cons_append, List.nil_append, Reader.loop, List.head?_cons, hturn]

theorem Before.read_cells {r : Reader} {rows : List (List Str)} {cells : List Str}
    (h : Before r rows cells) (cell : Cell) (more : List Cell) (rest : Str)
    (hrest : rest.head? ≠ some '\x22') :
    ∃ r' init last, Within r' rows init last ∧ init ++ [last] = cells ++ (cell :: more).map Cell.shown ∧
      r.loop (line (cell :: more) ++ rest) = r'.loop rest := by
  induction more generalizing r cells cell with
  | nil =>
      obtain ⟨r', hr', heq⟩ := h.read_cell cell rest hrest
      exact ⟨r', cells, cell.shown, hr', rfl, by simpa [line] using heq⟩
  | cons next more ih =>
      have hline : line (cell :: next :: more) = cell.csv ++ ',' :: line (next :: more) := by
        simp [line, List.intercalate_cons_cons]
      obtain ⟨r₁, h₁, heq₁⟩ := h.read_cell cell (',' :: (line (next :: more) ++ rest)) (by simp)
      obtain ⟨r₂, h₂, heq₂⟩ := h₁.read_comma (line (next :: more) ++ rest)
      obtain ⟨r', init, last, hr', hcells, heq⟩ := ih h₂ next
      refine ⟨r', init, last, hr', by simp [hcells], ?_⟩
      rw [hline, List.append_assoc, List.cons_append, heq₁, heq₂, heq]

theorem Before.read_line {r : Reader} {rows : List (List Str)} (h : Before r rows [])
    (cells : List Cell) (rest : Str) :
    ∃ r', Before r' (rows ++ [cells.map Cell.shown].filter isKept) [] ∧
      r.loop (line cells ++ (crlf ++ rest)) = r'.loop rest := by
  cases cells with
  | nil =>
      obtain ⟨r', hr', heq⟩ := h.toWithin.read_crlf rest
      exact ⟨r', by simpa [isKept] using hr', by simpa [line] using heq⟩
  | cons cell more =>
      obtain ⟨r₁, init, last, h₁, hcells, heq₁⟩ := h.read_cells cell more (crlf ++ rest) (by simp [crlf])
      obtain ⟨r', hr', heq⟩ := h₁.read_crlf rest
      refine ⟨r', ?_, heq₁.trans heq⟩
      rwa [hcells, List.nil_append] at hr'

theorem Before.read_lines {r : Reader} {rows : List (List Str)} (h : Before r rows [])
    (lines : List (List Cell)) :
    ∃ r', Before r' (rows ++ (lines.map (·.map Cell.shown)).filter isKept) [] ∧
      r.loop (lines.flatMap fun cells => line cells ++ crlf) = r' := by
  induction lines generalizing r rows with
  | nil => exact ⟨r, by simpa using h, rfl⟩
  | cons cells lines ih =>
      obtain ⟨r₁, h₁, heq₁⟩ := h.read_line cells (lines.flatMap fun cells => line cells ++ crlf)
      obtain ⟨r', hr', heq⟩ := ih h₁
      refine ⟨r', ?_, ?_⟩
      · rw [List.map_cons, ← List.singleton_append, List.filter_append, ← List.append_assoc]
        exact hr'
      · rw [List.flatMap_cons, List.append_assoc, heq₁, heq]

theorem toCsv_eq (header : List Str) (rows : List (List Cell)) :
    toCsv header rows =
      '\ufeff' :: (header.map Cell.string :: rows).flatMap fun cells => line cells ++ crlf := by
  have hlines : ∀ (first : List Cell) rows, crlf.intercalate ((first :: rows).map line) ++ crlf =
      (first :: rows).flatMap fun cells => line cells ++ crlf := by
    intro first rows
    induction rows generalizing first with
    | nil => simp
    | cons next rows ih =>
        rw [List.map_cons, List.map_cons, List.intercalate_cons_cons, ← List.map_cons,
          List.append_assoc, List.append_assoc, ih next, List.flatMap_cons (x := first), List.append_assoc]
  rw [toCsv, hlines]

/-- The cells of the file, row by row, without the rows a reader skips. -/
def kept (header : List Str) (rows : List (List Cell)) : List (List Cell) :=
  (header.map Cell.string :: rows).filter fun row => isKept (row.map Cell.shown)

/-- The text is read as the cells it was written from, and what is read of a cell that is
not marked numeric starts no formula. -/
theorem parseCsv_toCsv (header : List Str) (rows : List (List Cell)) :
    ∃ read, parseCsv (toCsv header rows) = .ok read ∧
      read.map CsvRow.cells = (kept header rows).map (·.map Cell.shown) ∧
      List.Forall₂ (List.Forall₂ fun cell text => cell.isNumeric = false → startsFormula text = false)
        (kept header rows) (read.map CsvRow.cells) := by
  have hstart : Before {} [] [] := ⟨⟨rfl, rfl, rfl, rfl, rfl⟩, rfl⟩
  obtain ⟨r, hr, heq⟩ := hstart.read_lines (header.map Cell.string :: rows)
  have hread : r.rows.map CsvRow.cells = (kept header rows).map (·.map Cell.shown) := by
    rw [hr.rows, List.nil_append, List.filter_map]
    rfl
  refine ⟨r.rows, ?_, hread, ?_⟩
  · have hloop : Reader.loop {} (Imports.withoutMark (toCsv header rows)) = r := by
      rw [toCsv_eq]
      exact heq
    simp only [parseCsv, hloop]
    simp [hr.unquoted, hr.fresh, hr.cells, hr.cell]
  · rw [hread, List.forall₂_map_right_iff, List.forall₂_same]
    intro row _
    rw [List.forall₂_map_right_iff, List.forall₂_same]
    intro cell _ hcell
    exact Cell.not_startsFormula_shown hcell

end Emis.Reports
