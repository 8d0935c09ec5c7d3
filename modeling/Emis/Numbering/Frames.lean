import Emis.Numbering.Pattern

/-!
# The shape of a usable pattern

A usable pattern holds one `{SEQ:n}`, and no brace outside its placeholders, so
a context makes a text around the sequence of it, and the counter key tells that
text.
-/

namespace Emis.Numbering

open Numerals

/-! ## Scanning -/

/-- A match is what it was made of. -/
theorem matchToken_some {s rest : Text} {t : Token} (h : matchToken s = some (t, rest)) :
    s = t.text ++ rest := by
  unfold matchToken at h
  split at h
  case h_2 => simp at h
  case h_1 s =>
    have hs : s.takeWhile isUpper ++ s.dropWhile isUpper = s := List.takeWhile_append_dropWhile
    simp only at h
    split at h
    · simp at h
    split at h
    · rename_i rest' hdrop
      obtain ⟨rfl, rfl⟩ : ⟨s.takeWhile isUpper, none⟩ = t ∧ rest' = rest := by simpa using h
      rw [hdrop] at hs
      simp [Token.text, hs]
    · rename_i s' hdrop
      have hs' : s'.takeWhile Char.isDigit ++ s'.dropWhile Char.isDigit = s' :=
        List.takeWhile_append_dropWhile
      split at h
      · simp at h
      split at h
      · rename_i rest' hdrop'
        obtain ⟨rfl, rfl⟩ :
            ⟨s.takeWhile isUpper, some (s'.takeWhile Char.isDigit)⟩ = t ∧ rest' = rest := by
          simpa using h
        rw [hdrop] at hs
        rw [hdrop'] at hs'
        simp [Token.text, hs, hs']
      · simp at h
    · simp at h

theorem text_pos (t : Token) : 0 < t.text.length := by
  obtain ⟨name, _ | width⟩ := t
  · exact Nat.succ_pos _
  · exact Nat.succ_pos _

/-- The pieces of a text put together again are the text. -/
theorem flatMap_scan {n : ℕ} {s : Text} (hn : s.length ≤ n) :
    (scan n s).flatMap Piece.text = s := by
  induction n generalizing s with
  | zero => simpa [scan, eq_comm] using hn
  | succ n ih =>
      cases s with
      | nil => rfl
      | cons c s =>
          rw [scan]
          cases hmatch : matchToken (c :: s) with
          | none =>
              have hrest : s.length ≤ n := by simpa using hn
              simp [Piece.text, ih hrest]
          | some found =>
              obtain ⟨t, rest⟩ := found
              have hs := matchToken_some hmatch
              have hpos := text_pos t
              have hlen := congrArg List.length hs
              rw [List.length_append, List.length_cons] at hlen
              have hrest : rest.length ≤ n := by
                rw [List.length_cons] at hn
                omega
              simp [Piece.text, ih hrest, hs]

theorem mem_matchAll {pattern : Text} {t : Token} :
    t ∈ matchAll pattern ↔ .token t ∈ pieces pattern := by
  rw [matchAll, List.mem_filterMap]
  constructor
  · rintro ⟨p, hp, ht⟩
    cases p with
    | literal c => simp [Piece.token?] at ht
    | token t' => exact Option.some_inj.1 ht ▸ hp
  · exact fun h => ⟨.token t, h, rfl⟩

/-- The characters of a text are those of its placeholders and those that stand by
themselves. -/
theorem count_flatMap (ps : List Piece) (c : Char) :
    (ps.flatMap Piece.text).count c =
      ps.count (.literal c) + ((ps.filterMap Piece.token?).map fun t => t.text.count c).sum := by
  induction ps with
  | nil => rfl
  | cons p ps ih =>
      rw [List.flatMap_cons, List.count_append, ih, List.count_cons]
      cases p with
      | literal c' =>
          have hmap : (Piece.literal c' :: ps).filterMap Piece.token? =
              ps.filterMap Piece.token? := rfl
          simp only [hmap, Piece.text, List.count_singleton, beq_iff_eq, Piece.literal.injEq]
          omega
      | token t =>
          have hmap : (Piece.token t :: ps).filterMap Piece.token? =
              t :: ps.filterMap Piece.token? := rfl
          simp only [hmap, Piece.text, List.map_cons, List.sum_cons, beq_iff_eq, reduceCtorEq, if_false]
          omega

/-! ## Usable patterns -/

/-- A placeholder that `checkNumberPattern` has no problem with. -/
def Known (t : Token) : Prop :=
  t.name = SEQ ∧ widthOk t.width = true ∨ t.name ∈ NUMBER_TOKENS ∧ t.width = none

theorem count_removeFirst (whole s : Text) (c : Char) :
    s.count c ≤ (removeFirst whole s).count c + whole.count c := by
  induction s with
  | nil => simp
  | cons a s ih =>
      rw [removeFirst]
      split
      · rename_i hpre
        obtain ⟨rest, hrest⟩ := List.isPrefixOf_iff_prefix.1 hpre
        rw [← hrest, List.drop_left, List.count_append]
        omega
      · simp only [List.count_cons]
        omega

theorem checkTokens_ok {ts : List Token} {k k' : ℕ} {rest rest' : Text}
    (h : checkTokens ts k rest = .ok (k', rest')) :
    (∀ t ∈ ts, Known t) ∧ k' = k + ts.countP (fun t => t.name == SEQ) ∧
      ∀ c, rest.count c ≤ rest'.count c + (ts.map fun t => t.text.count c).sum := by
  induction ts generalizing k rest with
  | nil =>
      obtain ⟨rfl, rfl⟩ : k = k' ∧ rest = rest' := by simpa [checkTokens] using h
      simp
  | cons t ts ih =>
      have hremove := count_removeFirst t.text rest
      rw [checkTokens] at h
      split at h
      · rename_i hseq
        split at h
        · rename_i hwidth
          obtain ⟨hknown, hk, hcount⟩ := ih h
          refine ⟨List.forall_mem_cons.2 ⟨.inl ⟨hseq, hwidth⟩, hknown⟩, ?_, fun c => ?_⟩
          · rw [hk, List.countP_cons]
            simp only [hseq, beq_self_eq_true, if_true]
            omega
          · have hone := hremove c
            have hrest := hcount c
            rw [List.map_cons, List.sum_cons]
            omega
        · simp at h
      · rename_i hseq
        split at h
        · rename_i hname
          simp only [Bool.and_eq_true, List.contains_iff_mem, Option.isNone_iff_eq_none] at hname
          obtain ⟨hknown, hk, hcount⟩ := ih h
          refine ⟨List.forall_mem_cons.2 ⟨.inr hname, hknown⟩, ?_, fun c => ?_⟩
          · rw [hk, List.countP_cons]
            simp [hseq]
          · have hone := hremove c
            have hrest := hcount c
            rw [List.map_cons, List.sum_cons]
            omega
        · simp at h

/-- What `checkNumberPattern` makes sure of. -/
structure Usable (pattern : Text) : Prop where
  known : ∀ t ∈ matchAll pattern, Known t
  one : (matchAll pattern).countP (fun t => t.name == SEQ) = 1
  closed : Piece.literal '{' ∉ pieces pattern

theorem check_cases {pattern : Text} (h : checkNumberPattern pattern = none) :
    ∃ rest, checkTokens (matchAll pattern) 0 pattern = .ok (1, rest) ∧ ∀ c ∈ rest, isLiteral c = true := by
  unfold checkNumberPattern at h
  split at h
  · simp at h
  rename_i seqCount rest hcheck
  split at h
  · simp at h
  rename_i hone
  split at h
  · simp at h
  rename_i hliteral
  obtain rfl : seqCount = 1 := by omega
  exact ⟨rest, hcheck, by simpa using hliteral⟩

/-- However the placeholders are taken out, what stands between them is left over, and
was looked at. -/
theorem literal_of_check {pattern : Text} (h : checkNumberPattern pattern = none) {c : Char}
    (hc : Piece.literal c ∈ pieces pattern) : isLiteral c = true := by
  obtain ⟨rest, hcheck, hliteral⟩ := check_cases h
  obtain ⟨-, -, hcount⟩ := checkTokens_ok hcheck
  have htext := count_flatMap (pieces pattern) c
  rw [pieces, flatMap_scan le_rfl] at htext
  change _ = (pieces pattern).count _ + ((matchAll pattern).map _).sum at htext
  have hpos : 0 < (pieces pattern).count (.literal c) := List.count_pos_iff.2 hc
  have hle := hcount c
  exact hliteral c (List.count_pos_iff.1 (by omega))

theorem usable_of_check {pattern : Text} (h : checkNumberPattern pattern = none) :
    Usable pattern := by
  obtain ⟨rest, hcheck, -⟩ := check_cases h
  obtain ⟨hknown, hcount, -⟩ := checkTokens_ok hcheck
  exact ⟨hknown, by omega, fun hbrace => absurd (literal_of_check h hbrace) (by decide)⟩

theorem NumberPattern.shape (p : NumberPattern) : Usable p.text := usable_of_check p.usable

/-! ## The text around the sequence -/

def isSeq : Piece → Bool
  | .literal _ => false
  | .token t => t.name == SEQ

theorem seqWidth_pos (p : NumberPattern) : 0 < seqWidth p.text := by
  unfold seqWidth
  split
  · rename_i name width hfind
    have hmem := List.mem_of_find?_eq_some hfind
    rcases p.shape.known _ hmem with ⟨-, hwidth⟩ | ⟨-, hnone⟩
    · have hrange : 1 ≤ Nat.ofDigitChars 10 width 0 ∧ Nat.ofDigitChars 10 width 0 ≤ 12 := by
        simpa [widthOk] using hwidth
      omega
    · simp at hnone
  · exact Nat.one_pos

theorem ok_of_bind {α β : Type} {x : Except Error α} {f : α → Except Error β} {b : β}
    (h : x >>= f = .ok b) : ∃ a, x = .ok a ∧ f a = .ok b := by
  cases x with
  | error e => cases h
  | ok a => exact ⟨a, rfl, h⟩

/-- The texts before and after the sequence, and its width. -/
def numberFrame (p : NumberPattern) (ctx : NumberContext) : Except Error Frame := do
  let before ← fillPieces ctx [] ((pieces p.text).takeWhile fun q => !isSeq q)
  let after ← fillPieces ctx [] ((pieces p.text).dropWhile fun q => !isSeq q).tail
  return ⟨before, seqWidth p.text, after, seqWidth_pos p⟩

/-- The texts before and after the sequence. -/
def around (pattern : Text) (ctx : NumberContext) : Except Error (Text × Text) := do
  let before ← fillPieces ctx [] ((pieces pattern).takeWhile fun q => !isSeq q)
  let after ← fillPieces ctx [] ((pieces pattern).dropWhile fun q => !isSeq q).tail
  return (before, after)

theorem numberFrame_eq (p : NumberPattern) (ctx : NumberContext) :
    numberFrame p ctx =
      (around p.text ctx).map fun a => ⟨a.1, seqWidth p.text, a.2, seqWidth_pos p⟩ := by
  rw [numberFrame, around]
  cases fillPieces ctx [] ((pieces p.text).takeWhile fun q => !isSeq q) with
  | error e => rfl
  | ok before =>
      cases fillPieces ctx [] ((pieces p.text).dropWhile fun q => !isSeq q).tail with
      | error e => rfl
      | ok after => rfl

theorem frame_of_ok {p : NumberPattern} {ctx : NumberContext} {F : Frame}
    (h : numberFrame p ctx = .ok F) :
    around p.text ctx = .ok (F.before, F.after) ∧ F.width = seqWidth p.text := by
  rw [numberFrame_eq] at h
  cases haround : around p.text ctx with
  | error e =>
      rw [haround] at h
      cases h
  | ok a =>
      rw [haround] at h
      obtain rfl := Except.ok.inj h
      exact ⟨rfl, rfl⟩

theorem fillPieces_append (ctx : NumberContext) (seq : Text) (ps qs : List Piece) :
    fillPieces ctx seq (ps ++ qs) = (do
      let s ← fillPieces ctx seq ps
      let t ← fillPieces ctx seq qs
      return s ++ t) := by
  induction ps with
  | nil => cases hqs : fillPieces ctx seq qs <;> simp only [List.nil_append, hqs] <;> rfl
  | cons p ps ih =>
      cases p with
      | literal c => simp [fillPieces, ih]
      | token t =>
          simp only [List.cons_append, fillPieces, ih, bind_assoc, pure_bind, List.append_assoc]

/-- Away from `{SEQ:n}` the sequence plays no role. -/
theorem fillPieces_of_forall (ctx : NumberContext) (seq seq' : Text) {ps : List Piece}
    (hps : ∀ t, .token t ∈ ps → t.name ∈ NUMBER_TOKENS) :
    fillPieces ctx seq ps = fillPieces ctx seq' ps := by
  induction ps with
  | nil => rfl
  | cons p ps ih =>
      have hrest := ih fun t ht => hps t (List.mem_cons_of_mem _ ht)
      cases p with
      | literal c => simp only [fillPieces, hrest]
      | token t =>
          have hname := hps t List.mem_cons_self
          have htoken : fillToken ctx seq t.name = fillToken ctx seq' t.name := by
            simp only [NUMBER_TOKENS, List.mem_cons, List.not_mem_nil, or_false] at hname
            rcases hname with h | h | h | h | h <;> rw [h] <;> rfl
          simp only [fillPieces, hrest, htoken]

/-- Where exactly one element satisfies `q`, it parts the list. -/
theorem split_of_countP {α : Type} {q : α → Bool} {l : List α} (h : l.countP q = 1) :
    ∃ a, q a = true ∧ l = (l.takeWhile fun b => !q b) ++ a :: (l.dropWhile fun b => !q b).tail ∧
      (∀ b ∈ l.takeWhile fun b => !q b, q b = false) ∧
      ∀ b ∈ (l.dropWhile fun b => !q b).tail, q b = false := by
  induction l with
  | nil => simp at h
  | cons c l ih =>
      cases hc : q c with
      | true =>
          have hzero : l.countP q = 0 := by simpa [hc] using h
          exact ⟨c, hc, by simp [hc], by simp [hc], by simpa [hc] using List.countP_eq_zero.1 hzero⟩
      | false =>
          have hone : l.countP q = 1 := by simpa [hc] using h
          obtain ⟨a, ha, hl, hbefore, hafter⟩ := ih hone
          refine ⟨a, ha, ?_, ?_, ?_⟩
          · simpa [hc] using hl
          · simpa [hc] using hbefore
          · simpa [hc] using hafter

/-- The pieces of a usable pattern: known placeholders around one `{SEQ:n}`. -/
theorem Usable.split {pattern : Text} (h : Usable pattern) :
    ∃ t, t.name = SEQ ∧ widthOk t.width = true ∧
      pieces pattern = ((pieces pattern).takeWhile fun q => !isSeq q) ++
        .token t :: ((pieces pattern).dropWhile fun q => !isSeq q).tail ∧
      (∀ t', .token t' ∈ (pieces pattern).takeWhile (fun q => !isSeq q) → t'.name ∈ NUMBER_TOKENS) ∧
      ∀ t', .token t' ∈ ((pieces pattern).dropWhile fun q => !isSeq q).tail →
        t'.name ∈ NUMBER_TOKENS := by
  have hone : (pieces pattern).countP isSeq = 1 := by
    have hcount := h.one
    rw [matchAll, List.countP_filterMap] at hcount
    rw [← hcount]
    congr 1
    funext q
    cases q <;> rfl
  have hknown : ∀ t, .token t ∈ pieces pattern → isSeq (.token t) = false →
      t.name ∈ NUMBER_TOKENS := by
    intro t ht hseq
    rcases h.known t (mem_matchAll.2 ht) with ⟨hname, -⟩ | ⟨hname, -⟩
    · simp [isSeq, hname] at hseq
    · exact hname
  obtain ⟨q, hq, hsplit, hbefore, hafter⟩ := split_of_countP hone
  have hmem : ∀ r, r ∈ (pieces pattern).takeWhile (fun q => !isSeq q) ∨
      r ∈ ((pieces pattern).dropWhile fun q => !isSeq q).tail → r ∈ pieces pattern := by
    intro r hr
    rw [hsplit]
    rcases hr with hr | hr
    · exact List.mem_append_left _ hr
    · exact List.mem_append_right _ (List.mem_cons_of_mem _ hr)
  cases q with
  | literal c => simp [isSeq] at hq
  | token t =>
      have hname : t.name = SEQ := by simpa [isSeq] using hq
      have hpiece : .token t ∈ pieces pattern := by
        rw [hsplit]
        exact List.mem_append_right _ List.mem_cons_self
      have hwidth : widthOk t.width = true := by
        rcases h.known t (mem_matchAll.2 hpiece) with ⟨-, hwidth⟩ | ⟨hother, -⟩
        · exact hwidth
        · rw [hname] at hother
          exact absurd hother (by decide)
      exact ⟨t, hname, hwidth, hsplit,
        fun t' ht' => hknown t' (hmem _ (.inl ht')) (hbefore _ ht'),
        fun t' ht' => hknown t' (hmem _ (.inr ht')) (hafter _ ht')⟩

theorem fill_around {pattern : Text} (h : Usable pattern) (ctx : NumberContext) (seq : Text) :
    fill pattern ctx seq = (around pattern ctx).map fun a => a.1 ++ seq ++ a.2 := by
  obtain ⟨t, ht, -, hsplit, hbefore, hafter⟩ := h.split
  have hseq : fillToken ctx seq t.name = .ok seq := by
    rw [ht]
    rfl
  rw [fill, hsplit, fillPieces_append, fillPieces, hseq, fillPieces_of_forall ctx seq [] hbefore,
    fillPieces_of_forall ctx seq [] hafter, around]
  cases fillPieces ctx [] ((pieces pattern).takeWhile fun q => !isSeq q) with
  | error e => rfl
  | ok before =>
      cases fillPieces ctx [] ((pieces pattern).dropWhile fun q => !isSeq q).tail with
      | error e => rfl
      | ok after =>
          change Except.ok (before ++ (seq ++ after)) = Except.ok (before ++ seq ++ after)
          rw [List.append_assoc]

theorem fill_eq (p : NumberPattern) (ctx : NumberContext) (seq : Text) :
    fill p.text ctx seq = (numberFrame p ctx).map fun F => F.fill seq := by
  rw [fill_around p.shape, numberFrame_eq]
  cases around p.text ctx with
  | error e => rfl
  | ok a => rfl

theorem numberScope_eq (p : NumberPattern) (ctx : NumberContext) :
    numberScope p.text ctx = (numberFrame p ctx).map fun F => F.fill (Token.text ⟨SEQ, none⟩) :=
  fill_eq p ctx _

theorem formatNumber_eq (p : NumberPattern) (ctx : NumberContext) (sequence : ℕ) :
    formatNumber p.text ctx sequence = (numberFrame p ctx).map fun F => F.render sequence := by
  rw [formatNumber, fill_eq]
  cases hframe : numberFrame p ctx with
  | error e => rfl
  | ok F =>
      simp only [Except.map, Frame.render, (frame_of_ok hframe).2]
      rfl

/-- Only `{BRANCH}` needs something that may not be at hand. -/
theorem fillPieces_ok {ctx : NumberContext} (seq : Text) (ps : List Piece)
    (hcode : ∀ t, .token t ∈ ps → t.name = BRANCH → ctx.branchCode ≠ none) :
    ∃ s, fillPieces ctx seq ps = .ok s := by
  induction ps with
  | nil => exact ⟨[], rfl⟩
  | cons p ps ih =>
      obtain ⟨rest, hrest⟩ := ih fun t ht => hcode t (List.mem_cons_of_mem _ ht)
      cases p with
      | literal c => exact ⟨c :: rest, by rw [fillPieces, hrest]; rfl⟩
      | token t =>
          obtain ⟨value, hvalue⟩ : ∃ value, fillToken ctx seq t.name = .ok value := by
            have hbranch := hcode t List.mem_cons_self
            cases hcode' : ctx.branchCode with
            | some code =>
                simp only [fillToken, hcode']
                split_ifs <;> exact ⟨_, rfl⟩
            | none =>
                have hne : t.name ≠ BRANCH := fun hname => hbranch hname hcode'
                simp only [fillToken, hne, if_false]
                split_ifs <;> exact ⟨_, rfl⟩
          exact ⟨value ++ rest, by rw [fillPieces, hvalue, hrest]; rfl⟩

/-- A usable pattern can be filled in where the branch it may need is at hand. -/
theorem around_ok {pattern : Text} (h : Usable pattern) {ctx : NumberContext}
    (hcode : patternUsesBranch pattern = true → ctx.branchCode ≠ none) : ∃ a, around pattern ctx = .ok a := by
  have hbranch : ∀ t, .token t ∈ pieces pattern → t.name = BRANCH → ctx.branchCode ≠ none := by
    rintro ⟨name, width⟩ ht rfl
    have hmem : ⟨BRANCH, width⟩ ∈ matchAll pattern := List.mem_filterMap.2 ⟨_, ht, rfl⟩
    apply hcode
    rcases h.known _ hmem with ⟨hseq, -⟩ | ⟨-, hnone⟩
    · have hne : BRANCH ≠ SEQ := by decide
      exact absurd hseq hne
    · obtain rfl : width = none := by simpa using hnone
      exact List.contains_iff_mem.2 hmem
  obtain ⟨before, hbefore⟩ := @fillPieces_ok ctx []
    ((pieces pattern).takeWhile fun q => !isSeq q) fun t ht => hbranch t ((List.takeWhile_sublist _).subset ht)
  obtain ⟨after, hafter⟩ := @fillPieces_ok ctx []
    ((pieces pattern).dropWhile fun q => !isSeq q).tail fun t ht =>
      hbranch t ((List.dropWhile_sublist _).subset (List.mem_of_mem_tail ht))
  exact ⟨(before, after), by rw [around, hbefore, hafter]; rfl⟩

/-! ## Their characters -/

theorem literal_of_digit {c : Char} (h : c.isDigit = true) : isLiteral c = true := by
  simp [isLiteral, h]

theorem literal_padStart {width : ℕ} {s : Text} (h : Digits s) : ∀ c ∈ padStart width s, isLiteral c = true := by
  intro c hc
  rcases List.mem_append.1 hc with hzero | hc
  · rw [List.eq_of_mem_replicate hzero]
    rfl
  · exact literal_of_digit (h c hc)

theorem literal_code (code : OrgCode) : ∀ c ∈ code.text, isLiteral c = true := by
  intro c hc
  rcases code.chars c hc with hupper | hdigit
  · have halpha : c.isAlpha = true := by
      simp only [isUpper, Bool.and_eq_true, decide_eq_true_eq] at hupper
      delta Char.isAlpha Char.isUpper
      simp only [Bool.or_eq_true, decide_eq_true_eq]
      exact .inl hupper
    simp [isLiteral, halpha]
  · exact literal_of_digit hdigit

theorem literal_fillToken {ctx : NumberContext} {name s : Text} (hname : name ∈ NUMBER_TOKENS)
    (h : fillToken ctx [] name = .ok s) : ∀ c ∈ s, isLiteral c = true := by
  have hdigits : ∀ n, ∀ c ∈ Nat.toDigits 10 n, isLiteral c = true := fun n c hc =>
    literal_of_digit (digits_toDigits n c hc)
  simp only [NUMBER_TOKENS, List.mem_cons, List.not_mem_nil, or_false] at hname
  rcases hname with rfl | rfl | rfl | rfl | rfl
  · exact Except.ok.inj h ▸ hdigits _
  · exact Except.ok.inj h ▸ literal_padStart (digits_toDigits _)
  · exact Except.ok.inj h ▸ literal_padStart (digits_toDigits _)
  · exact Except.ok.inj h ▸ hdigits _
  · rw [fillToken, if_neg (by decide), if_neg (by decide), if_neg (by decide), if_neg (by decide), if_pos rfl] at h
    cases hcode : ctx.branchCode with
    | none => simp [hcode] at h
    | some code =>
        simp only [hcode, Except.ok.injEq] at h
        exact h ▸ literal_code code

theorem literal_fillPieces {ctx : NumberContext} {ps : List Piece} {s : Text}
    (hps : ∀ t, .token t ∈ ps → t.name ∈ NUMBER_TOKENS)
    (hliteral : ∀ c, Piece.literal c ∈ ps → isLiteral c = true) (h : fillPieces ctx [] ps = .ok s) :
    ∀ c ∈ s, isLiteral c = true := by
  induction ps generalizing s with
  | nil =>
      obtain rfl : [] = s := Except.ok.inj h
      exact fun c hc => absurd hc List.not_mem_nil
  | cons p ps ih =>
      replace ih {s} := @ih s (fun t ht => hps t (List.mem_cons_of_mem _ ht))
        (fun c hc => hliteral c (List.mem_cons_of_mem _ hc))
      cases p with
      | literal c =>
          obtain ⟨rest, hrest, h⟩ := ok_of_bind h
          obtain rfl := Except.ok.inj h
          exact List.forall_mem_cons.2 ⟨hliteral c List.mem_cons_self, ih hrest⟩
      | token t =>
          obtain ⟨value, hvalue, h⟩ := ok_of_bind h
          obtain ⟨rest, hrest, h⟩ := ok_of_bind h
          obtain rfl := Except.ok.inj h
          exact List.forall_mem_append.2 ⟨literal_fillToken (hps t List.mem_cons_self) hvalue, ih hrest⟩

/-- Around the sequence stand only letters, digits and `-`, `/`, `_`, `.`. -/
theorem literal_around {pattern : Text} (hcheck : checkNumberPattern pattern = none) {ctx : NumberContext}
    {a : Text × Text} (h : around pattern ctx = .ok a) :
    (∀ c ∈ a.1, isLiteral c = true) ∧ ∀ c ∈ a.2, isLiteral c = true := by
  obtain ⟨t, -, -, hsplit, hbefore, hafter⟩ := (usable_of_check hcheck).split
  obtain ⟨before, hfirst, h⟩ := ok_of_bind h
  obtain ⟨after, hlast, h⟩ := ok_of_bind h
  obtain rfl := Except.ok.inj h
  constructor
  · refine literal_fillPieces hbefore (fun c hc => literal_of_check hcheck ?_) hfirst
    rw [hsplit]
    exact List.mem_append_left _ hc
  · refine literal_fillPieces hafter (fun c hc => literal_of_check hcheck ?_) hlast
    rw [hsplit]
    exact List.mem_append_right _ (List.mem_cons_of_mem _ hc)

/-- The scope tells the texts around the sequence: its first brace is the one of `{SEQ}`. -/
theorem around_of_scope {before after before' after' : Text} (hbefore : ∀ c ∈ before, isLiteral c = true)
    (hbefore' : ∀ c ∈ before', isLiteral c = true)
    (h : before ++ Token.text ⟨SEQ, none⟩ ++ after = before' ++ Token.text ⟨SEQ, none⟩ ++ after') :
    before = before' ∧ after = after' := by
  have hne : ∀ s : Text, (∀ c ∈ s, isLiteral c = true) → ∀ c ∈ s, (c != '{') = true := by
    intro s hs c hc
    have hbrace : c ≠ '{' := fun heq => absurd (hs c hc) (by rw [heq]; decide)
    simpa using hbrace
  have htake : ∀ s t : Text, (∀ c ∈ s, isLiteral c = true) →
      (s ++ Token.text ⟨SEQ, none⟩ ++ t).takeWhile (· != '{') = s := by
    intro s t hs
    rw [List.append_assoc, List.takeWhile_append_of_pos (hne s hs)]
    simp [Token.text]
  have hsame : before = before' := by rw [← htake before after hbefore, h, htake before' after' hbefore']
  refine ⟨hsame, ?_⟩
  rw [hsame, List.append_assoc, List.append_assoc] at h
  exact List.append_cancel_left (List.append_cancel_left h)

theorem frame_of_scope {p q : NumberPattern} {ctx ctx' : NumberContext} {F G : Frame}
    (hF : numberFrame p ctx = .ok F) (hG : numberFrame q ctx' = .ok G)
    (h : F.fill (Token.text ⟨SEQ, none⟩) = G.fill (Token.text ⟨SEQ, none⟩)) :
    F.before = G.before ∧ F.after = G.after :=
  around_of_scope (literal_around p.usable (frame_of_ok hF).1).1
    (literal_around q.usable (frame_of_ok hG).1).1 h

end Emis.Numbering
