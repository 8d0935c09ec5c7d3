import Emis.Imports.Csv

/-!
# Line numbers

The line of the file on which a row starts, and the line that `parseCsv` gives it.
-/

namespace Emis.Imports

/-- LF ends a line, and CR where no LF follows. -/
def endsLine (ch : Char) (next : Option Char) : ℕ :=
  if ch = '\n' ∨ ch = '\r' ∧ next ≠ some '\n' then 1 else 0

/-- The line ends in a text that `next` comes after. -/
def lineEndsTo : Str → Option Char → ℕ
  | [], _ => 0
  | ch :: rest, next => endsLine ch (rest.head?.or next) + lineEndsTo rest next

/-- The line ends in a text. -/
def lineEnds (s : Str) : ℕ := lineEndsTo s none

namespace Reader

/-- The reader after a text that `next` comes after. -/
def readTo : Reader → Str → Option Char → Reader
  | r, [], _ => r
  | r, ch :: rest, next => readTo (r.turn ch (rest.head?.or next)) rest next

/-- A CR between quotes that no LF follows. -/
def quotedReturn (r : Reader) (ch : Char) (next : Option Char) : ℕ :=
  if r.inQuotes = true ∧ ch = '\r' ∧ next ≠ some '\n' then 1 else 0

def quotedReturnsTo : Reader → Str → Option Char → ℕ
  | _, [], _ => 0
  | r, ch :: rest, next =>
      r.quotedReturn ch (rest.head?.or next) + quotedReturnsTo (r.turn ch (rest.head?.or next)) rest next

/-- Has the row ended once the character is read? Outside quotes only the LF of a
CRLF is skipped. -/
def endsRow (r : Reader) (ch : Char) : Bool := !r.inQuotes && (r.skip || ch == '\r' || ch == '\n')

/-- The rows at the end of the text. -/
def finish (r : Reader) : List CsvRow :=
  if r.cellStarted ∨ r.cells ≠ [] ∨ r.cell ≠ [] then r.endRow.rows else r.rows

/-- What stands before each row that is kept: `read` is what is read by now, and
`start` what stands before the row being read. -/
def rowStarts : Reader → Str → Str → Str → List Str
  | r, _, start, [] => if r.finish = r.rows then [] else [start]
  | r, read, start, ch :: rest =>
      (if (r.turn ch rest.head?).rows = r.rows then [] else [start]) ++
        rowStarts (r.turn ch rest.head?) (read ++ [ch]) (if r.endsRow ch then read ++ [ch] else start) rest

end Reader

/-- The text before the first character of each row. -/
def rowStarts (input : Str) : List Str := Reader.rowStarts {} [] [] (withoutMark input)

/-- The CRs between quotes, without LF, in the rows that a text is. -/
def quotedReturns (s : Str) : ℕ := Reader.quotedReturnsTo {} s none

/-! ## One more character -/

section Snoc

variable {s : Str} {ch : Char} {next : Option Char} {r : Reader}

theorem head?_snoc (s : Str) (ch : Char) (next : Option Char) :
    (s ++ [ch]).head?.or next = s.head?.or (some ch) := by
  cases s <;> rfl

theorem lineEndsTo_snoc : lineEndsTo (s ++ [ch]) next = lineEndsTo s (some ch) + endsLine ch next := by
  induction s with
  | nil => simp [lineEndsTo]
  | cons c s ih => rw [List.cons_append, lineEndsTo, lineEndsTo, head?_snoc, ih, Nat.add_assoc]

theorem readTo_snoc : r.readTo (s ++ [ch]) next = (r.readTo s (some ch)).turn ch next := by
  induction s generalizing r with
  | nil => simp [Reader.readTo]
  | cons c s ih => rw [List.cons_append, Reader.readTo, Reader.readTo, head?_snoc, ih]

theorem quotedReturnsTo_snoc : r.quotedReturnsTo (s ++ [ch]) next =
    r.quotedReturnsTo s (some ch) + (r.readTo s (some ch)).quotedReturn ch next := by
  induction s generalizing r with
  | nil => simp [Reader.quotedReturnsTo, Reader.readTo]
  | cons c s ih =>
      rw [List.cons_append, Reader.quotedReturnsTo, Reader.quotedReturnsTo, Reader.readTo, head?_snoc, ih,
        Nat.add_assoc]

end Snoc

/-! ## While reading -/

/-- The line that a row has and the one it starts on. -/
def OnLine (line : ℕ) (start : Str) : Prop := line + quotedReturns start = 1 + lineEnds start

/-- The LF of a CRLF is still to come, which the line counts already. -/
def Reader.ahead (r : Reader) : ℕ := if r.skip = true ∧ r.inQuotes = false then 1 else 0

/-- A reader in the middle of a text. -/
structure Tracks (r : Reader) (read start rest : Str) : Prop where
  reader : r = Reader.readTo {} read rest.head?
  line : r.line + Reader.quotedReturnsTo {} read rest.head? = 1 + lineEndsTo read rest.head? + r.ahead
  row : r.skip = false ∨ r.inQuotes = true → OnLine r.rowLine start
  skipped : r.skip = true →
    if r.inQuotes then rest.head? = some '\x22' else rest.head? = some '\n' ∧ r.rowLine = r.line

section Steps

variable {r : Reader} {read start rest : Str} {ch : Char}

/-- What a turn has to keep. -/
theorem Tracks.turn (h : Tracks r read start (ch :: rest)) {start' : Str}
    (hline : (r.turn ch rest.head?).line + r.quotedReturn ch rest.head? + r.ahead =
      r.line + endsLine ch rest.head? + (r.turn ch rest.head?).ahead)
    (hrow : (r.turn ch rest.head?).skip = false ∨ (r.turn ch rest.head?).inQuotes = true →
      OnLine (r.turn ch rest.head?).rowLine start')
    (hskipped : (r.turn ch rest.head?).skip = true →
      if (r.turn ch rest.head?).inQuotes then rest.head? = some '\x22'
      else rest.head? = some '\n' ∧ (r.turn ch rest.head?).rowLine = (r.turn ch rest.head?).line) :
    Tracks (r.turn ch rest.head?) (read ++ [ch]) start' rest where
  reader := by
    rw [readTo_snoc]
    exact congrArg (fun r : Reader => r.turn ch rest.head?) h.reader
  line := by
    have hbefore := h.line
    rw [List.head?_cons] at hbefore
    rw [quotedReturnsTo_snoc, lineEndsTo_snoc]
    have hreader := h.reader
    rw [List.head?_cons] at hreader
    rw [← hreader]
    omega
  row := hrow
  skipped := hskipped

/-- The row that starts behind the character. -/
theorem Tracks.onLine (h : Tracks r read start (ch :: rest)) (hquotes : r.inQuotes = false)
    {line : ℕ} (hline : line + r.ahead = r.line + endsLine ch none) : OnLine line (read ++ [ch]) := by
  have hbefore := h.line
  have hreader := h.reader
  rw [List.head?_cons] at hbefore hreader
  rw [OnLine, quotedReturns, lineEnds, quotedReturnsTo_snoc, lineEndsTo_snoc, ← hreader,
    Reader.quotedReturn, if_neg (by simp [hquotes])]
  omega

theorem endsRow_skip (hskip : r.skip = true) (hquotes : r.inQuotes = false) : r.endsRow ch = true := by
  simp [Reader.endsRow, hskip, hquotes]

theorem endsRow_quoted (hquotes : r.inQuotes = true) : r.endsRow ch = false := by
  simp [Reader.endsRow, hquotes]

theorem Tracks.step_skipped (h : Tracks r read start (ch :: rest)) (hskip : r.skip = true) :
    Tracks (r.turn ch rest.head?) (read ++ [ch]) (if r.endsRow ch then read ++ [ch] else start) rest := by
  have hturn : r.turn ch rest.head? = { r with skip := false } := by
    rw [Reader.turn, if_pos hskip]
  have hskipped := h.skipped hskip
  cases hquotes : r.inQuotes with
  | true =>
      -- The second of two quotes.
      rw [hquotes, if_pos rfl, List.head?_cons] at hskipped
      obtain rfl := Option.some.inj hskipped
      rw [endsRow_quoted hquotes, if_neg (by simp)]
      apply h.turn
      · rw [hturn]
        simp [Reader.quotedReturn, Reader.ahead, endsLine, hquotes]
      · intro _
        rw [hturn]
        exact h.row (Or.inr hquotes)
      · rw [hturn]
        nofun
  | false =>
      -- The LF of a CRLF.
      rw [hquotes, if_neg (by simp), List.head?_cons] at hskipped
      obtain ⟨hch, hrow⟩ := hskipped
      obtain rfl := Option.some.inj hch
      rw [endsRow_skip hskip hquotes, if_pos rfl]
      apply h.turn
      · rw [hturn]
        simp [Reader.quotedReturn, Reader.ahead, endsLine, hquotes, hskip]
      · intro _
        rw [hturn]
        apply h.onLine hquotes
        simp [Reader.ahead, endsLine, hquotes, hskip, hrow]
      · rw [hturn]
        nofun

theorem Tracks.step_quoted (h : Tracks r read start (ch :: rest)) (hskip : r.skip = false)
    (hquotes : r.inQuotes = true) :
    Tracks (r.turn ch rest.head?) (read ++ [ch]) (if r.endsRow ch then read ++ [ch] else start) rest := by
  have hrow := h.row (Or.inl hskip)
  rw [endsRow_quoted hquotes, if_neg (by simp)]
  by_cases hch : ch = '\x22'
  · by_cases hnext : rest.head? = some '\x22'
    · have hturn : r.turn ch rest.head? = { r with cell := r.cell ++ ['\x22'], skip := true } := by
        rw [Reader.turn, if_neg (by simp [hskip]), if_pos hquotes, if_pos hch, if_pos hnext]
      apply h.turn
      · rw [hturn, hch]
        simp [Reader.quotedReturn, Reader.ahead, endsLine, hquotes, hskip]
      · rw [hturn]
        exact fun _ => hrow
      · rw [hturn]
        simp [hquotes, hnext]
    · have hturn : r.turn ch rest.head? = { r with inQuotes := false } := by
        rw [Reader.turn, if_neg (by simp [hskip]), if_pos hquotes, if_pos hch, if_neg hnext]
      apply h.turn
      · rw [hturn, hch]
        simp [Reader.quotedReturn, Reader.ahead, endsLine, hskip]
      · rw [hturn]
        exact fun _ => hrow
      · rw [hturn]
        simp [hskip]
  · have hturn : r.turn ch rest.head? = r.putQuoted ch := by
      rw [Reader.turn, if_neg (by simp [hskip]), if_pos hquotes, if_neg hch]
    apply h.turn
    · rw [hturn]
      simp only [Reader.putQuoted, Reader.quotedReturn, Reader.ahead, endsLine, hquotes, hskip]
      by_cases hlf : ch = '\n'
      · simp [hlf]
      · simp [hlf]
    · rw [hturn]
      exact fun _ => hrow
    · rw [hturn]
      simp [Reader.putQuoted, hskip]

/-- A character outside quotes that does not end the row. -/
theorem Tracks.step_within (h : Tracks r read start (ch :: rest)) (hskip : r.skip = false)
    (hquotes : r.inQuotes = false) (hcr : ch ≠ '\r') (hlf : ch ≠ '\n')
    (hline : (r.turn ch rest.head?).line = r.line ∧ (r.turn ch rest.head?).rowLine = r.rowLine ∧
      (r.turn ch rest.head?).skip = false) :
    Tracks (r.turn ch rest.head?) (read ++ [ch]) (if r.endsRow ch then read ++ [ch] else start) rest := by
  obtain ⟨hline, hrowLine, hskip'⟩ := hline
  have hends : r.endsRow ch = false := by simp [Reader.endsRow, hskip, hcr, hlf]
  rw [hends, if_neg (by simp)]
  apply h.turn
  · rw [hline]
    simp [Reader.quotedReturn, Reader.ahead, endsLine, hquotes, hskip, hskip', hcr, hlf]
  · intro _
    rw [hrowLine]
    exact h.row (Or.inl hskip)
  · rw [hskip']
    nofun

theorem Tracks.step_plain (h : Tracks r read start (ch :: rest)) (hskip : r.skip = false)
    (hquotes : r.inQuotes = false) :
    Tracks (r.turn ch rest.head?) (read ++ [ch]) (if r.endsRow ch then read ++ [ch] else start) rest := by
  have hturn : r.turn ch rest.head? =
      if ch = '\x22' ∧ r.cellStarted = false then { r with inQuotes := true, cellStarted := true }
      else if ch = ',' then r.endCell
      else if ch = '\r' ∧ rest.head? = some '\n' then { r.newline with skip := true }
      else if ch = '\r' ∨ ch = '\n' then r.newline
      else r.put ch := by
    rw [Reader.turn, if_neg (by simp [hskip]), if_neg (by simp [hquotes])]
  by_cases hopen : ch = '\x22' ∧ r.cellStarted = false
  · rw [if_pos hopen] at hturn
    apply h.step_within hskip hquotes (by simp [hopen.1]) (by simp [hopen.1])
    rw [hturn]
    exact ⟨rfl, rfl, hskip⟩
  rw [if_neg hopen] at hturn
  by_cases hcomma : ch = ','
  · rw [if_pos hcomma] at hturn
    apply h.step_within hskip hquotes (by simp [hcomma]) (by simp [hcomma])
    rw [hturn]
    exact ⟨rfl, rfl, hskip⟩
  rw [if_neg hcomma] at hturn
  by_cases hcrlf : ch = '\r' ∧ rest.head? = some '\n'
  · -- The line is counted now, and ends with the LF.
    rw [if_pos hcrlf] at hturn
    apply h.turn
    · rw [hturn, hcrlf.1, hcrlf.2]
      simp [Reader.newline, Reader.endRow, Reader.endCell, Reader.quotedReturn, Reader.ahead, endsLine, hquotes,
        hskip]
    · rw [hturn]
      intro hplain
      simp [Reader.newline, Reader.endRow, Reader.endCell, hquotes] at hplain
    · rw [hturn]
      simp [Reader.newline, Reader.endRow, Reader.endCell, hquotes, hcrlf.2]
  rw [if_neg hcrlf] at hturn
  by_cases hend : ch = '\r' ∨ ch = '\n'
  · rw [if_pos hend] at hturn
    have hends : r.endsRow ch = true := by
      rcases hend with rfl | rfl <;> simp [Reader.endsRow, hquotes]
    have hone : endsLine ch rest.head? = 1 ∧ endsLine ch none = 1 := by
      rcases hend with rfl | rfl
      · have hnext : rest.head? ≠ some '\n' := fun hnext => hcrlf ⟨rfl, hnext⟩
        simp [endsLine, hnext]
      · simp [endsLine]
    rw [hends, if_pos rfl]
    apply h.turn
    · rw [hturn, hone.1]
      simp [Reader.newline, Reader.endRow, Reader.endCell, Reader.quotedReturn, Reader.ahead, hquotes, hskip]
    · intro _
      rw [hturn]
      apply h.onLine hquotes
      rw [hone.2]
      simp [Reader.newline, Reader.ahead, hskip]
    · rw [hturn]
      simp [Reader.newline, Reader.endRow, Reader.endCell, hskip]
  · rw [if_neg hend] at hturn
    apply h.step_within hskip hquotes (fun hcr => hend (Or.inl hcr)) (fun hlf => hend (Or.inr hlf))
    rw [hturn]
    exact ⟨rfl, rfl, hskip⟩

theorem Tracks.step (h : Tracks r read start (ch :: rest)) :
    Tracks (r.turn ch rest.head?) (read ++ [ch]) (if r.endsRow ch then read ++ [ch] else start) rest := by
  cases hskip : r.skip with
  | true => exact h.step_skipped hskip
  | false =>
      cases hquotes : r.inQuotes with
      | true => exact h.step_quoted hskip hquotes
      | false => exact h.step_plain hskip hquotes

theorem endRow_rows (r : Reader) :
    r.endRow.rows = r.rows ∨ ∃ cells, r.endRow.rows = r.rows ++ [⟨r.rowLine, cells⟩] := by
  by_cases hblank : r.endCell.cells = [[]]
  · left
    simp only [Reader.endRow, hblank, if_true]
  · right
    refine ⟨r.endCell.cells, ?_⟩
    simp only [Reader.endRow, hblank, if_false]

/-- A row that a turn adds is on its line. -/
theorem Tracks.rows_turn (h : Tracks r read start (ch :: rest)) :
    (r.turn ch rest.head?).rows = r.rows ∨ ∃ cells,
      (r.turn ch rest.head?).rows = r.rows ++ [⟨r.rowLine, cells⟩] ∧ OnLine r.rowLine start := by
  unfold Reader.turn
  split
  · exact Or.inl rfl
  rename_i hskip
  have hrow := h.row (Or.inl (by simpa using hskip))
  have hended : r.newline.rows = r.rows ∨ ∃ cells,
      r.newline.rows = r.rows ++ [⟨r.rowLine, cells⟩] ∧ OnLine r.rowLine start := by
    rcases endRow_rows r with hsame | ⟨cells, hmore⟩
    · exact Or.inl hsame
    · exact Or.inr ⟨cells, hmore, hrow⟩
  split
  · split
    · split <;> exact Or.inl rfl
    · exact Or.inl rfl
  split
  · exact Or.inl rfl
  split
  · exact Or.inl rfl
  split
  · exact hended
  split
  · exact hended
  · exact Or.inl rfl

end Steps

/-- Every row is on the line it is said to start on, but for the CRs between quotes. -/
theorem Tracks.rows_loop {r : Reader} {read start rest : Str} (h : Tracks r read start rest) :
    ∃ rows, (r.loop rest).finish = r.rows ++ rows ∧
      List.Forall₂ (fun row before => OnLine row.line before) rows (r.rowStarts read start rest) := by
  induction rest generalizing r read start with
  | nil =>
      have hrow : OnLine r.rowLine start := by
        apply h.row
        by_contra hpending
        rw [not_or] at hpending
        have hskipped := h.skipped (by simpa using hpending.1)
        rw [if_neg hpending.2] at hskipped
        cases hskipped.1
      have hfinish : r.finish = r.rows ∨ ∃ cells, r.finish = r.rows ++ [⟨r.rowLine, cells⟩] := by
        rw [Reader.finish]
        split
        · exact endRow_rows r
        · exact Or.inl rfl
      rw [Reader.loop, Reader.rowStarts]
      rcases hfinish with hsame | ⟨cells, hmore⟩
      · exact ⟨[], by rw [hsame, List.append_nil], by rw [if_pos hsame]; exact List.Forall₂.nil⟩
      · refine ⟨[⟨r.rowLine, cells⟩], hmore, ?_⟩
        rw [if_neg (by simp [hmore])]
        exact List.Forall₂.cons hrow List.Forall₂.nil
  | cons ch rest ih =>
      obtain ⟨rows, hrows, hlines⟩ := ih h.step
      rw [Reader.loop, Reader.rowStarts]
      rcases h.rows_turn with hsame | ⟨cells, hmore, hrow⟩
      · refine ⟨rows, by rw [hrows, hsame], ?_⟩
        rw [if_pos hsame]
        exact hlines
      · refine ⟨⟨r.rowLine, cells⟩ :: rows, by rw [hrows, hmore, List.append_assoc]; rfl, ?_⟩
        rw [if_neg (by simp [hmore])]
        exact List.Forall₂.cons hrow hlines

theorem tracks_start (text : Str) : Tracks {} [] [] text where
  reader := rfl
  line := rfl
  row _ := rfl
  skipped := nofun

theorem onLine_parseCsv {input : Str} {rows : List CsvRow} (h : parseCsv input = .ok rows) :
    List.Forall₂ (fun row before => OnLine row.line before) rows (rowStarts input) := by
  obtain ⟨added, hrows, hlines⟩ := (tracks_start (withoutMark input)).rows_loop
  have hfinish : rows = (Reader.loop {} (withoutMark input)).finish := by
    unfold parseCsv at h
    dsimp only at h
    split at h
    · cases h
    · unfold Reader.finish
      split at h
      · rename_i hrest
        rw [if_pos hrest]
        exact (Except.ok.inj h).symm
      · rename_i hrest
        rw [if_neg hrest]
        exact (Except.ok.inj h).symm
  rw [hfinish, hrows]
  exact hlines

/-- The line of every row is right if and only if no row comes behind a CR between
quotes that no LF follows. -/
theorem lines_right_iff {input : Str} {rows : List CsvRow} (h : parseCsv input = .ok rows) :
    rows.map CsvRow.line = (rowStarts input).map (fun before => 1 + lineEnds before) ↔
      ∀ before ∈ rowStarts input, quotedReturns before = 0 := by
  have hlines := onLine_parseCsv h
  clear h
  generalize rowStarts input = starts at hlines ⊢
  induction hlines with
  | nil => simp
  | cons hrow _ ih =>
      rw [OnLine] at hrow
      rw [List.map_cons, List.map_cons, List.cons.injEq, List.forall_mem_cons]
      constructor
      · rintro ⟨hline, hrest⟩
        exact ⟨by omega, ih.1 hrest⟩
      · rintro ⟨hnone, hrest⟩
        exact ⟨by omega, ih.2 hrest⟩

/-- A CRLF between quotes. -/
theorem lines_right_iff_crlf :
    let input := "h\r\n\x22a\r\nb\x22\nd".toList
    (parseCsv input).toOption.map (List.map CsvRow.line) = some [1, 2, 4] ∧
      [1, 2, 4] = (rowStarts input).map fun before => 1 + lineEnds before := by
  intro input
  have hparse : parseCsv input = .ok [⟨1, ["h".toList]⟩, ⟨2, ["a\r\nb".toList]⟩, ⟨4, ["d".toList]⟩] := by
    decide +kernel
  exact ⟨by decide +kernel, (lines_right_iff hparse).2 (by decide +kernel)⟩

/-- A CR between quotes: the last row is on line 4. -/
theorem lines_wrong :
    let input := "h\r\n\x22a\rb\x22\nd".toList
    (parseCsv input).toOption.map (List.map CsvRow.line) = some [1, 2, 3] ∧
      (rowStarts input).map (fun before => 1 + lineEnds before) = [1, 2, 4] := by
  decide +kernel

end Emis.Imports
