import Emis.Library.Rules

/-!
# Runs that are one request after another

Where every answer is the one the request would give alone at that moment, a run
leaves what its answered requests leave, performed alone in the order of the answers.
-/

namespace Transactions

variable {ι Q σ L ε α : Type} [DecidableEq ι]

/-- Alone, the program answers `a` and leaves `d'`. -/
def Prog.Performs (p : Prog σ L ε α) (d : σ) (a : α) (d' : σ) : Prop :=
  p.wlp (fun b v => b = a ∧ v = d') (fun _ => False) d

theorem Prog.Performs.alone {p : Prog σ L ε α} {d d' : σ} {a : α} (h : p.Performs d a d') :
    p.alone d = (.ok a, d') := by
  rcases Prog.alone_cases h with ⟨b, v, hrun, rfl, rfl⟩ | ⟨e, -, hfalse⟩
  · exact hrun
  · exact hfalse.elim

theorem Prog.Performs.map {β : Type} (g : α → β) {p : Prog σ L ε α} {d d' : σ} {a : α} (h : p.Performs d a d') :
    (g <$> p).Performs d (g a) d' := by
  rw [Performs, Prog.wlp_map]
  exact Prog.wlp_mono (fun b v ⟨hb, hv⟩ => ⟨congrArg g hb, hv⟩) (fun _ hfalse => hfalse) h

/-- What a program answers alone is what every weakest precondition of it says. -/
theorem Prog.wlp_of_alone {p : Prog σ L ε α} {Φ : α → σ → Prop} {E : ε → Prop} {d d' : σ} {a : α}
    (h : p.wlp Φ E d) (halone : p.alone d = (.ok a, d')) : Φ a d' := by
  rcases Prog.alone_cases h with ⟨b, v, hrun, hΦ⟩ | ⟨e, hrun, -⟩
  · obtain ⟨rfl, rfl⟩ : b = a ∧ v = d' := by simpa using hrun.symm.trans halone
    exact hΦ
  · simp [hrun] at halone

/-- The request of an answer, with the answer. -/
def Label.performed? : Label ι Q ε α → Option (Q × α)
  | .answers _ q (.ok a) => some (q, a)
  | _ => none

/-- The requests that have been answered, in the order of the answers. -/
def performed (labels : List (Label ι Q ε α)) : List (Q × α) := labels.filterMap Label.performed?

omit [DecidableEq ι] in
theorem performed_snoc (labels : List (Label ι Q ε α)) (lab : Label ι Q ε α) :
    performed (labels ++ [lab]) = performed labels ++ lab.performed?.toList := by
  rw [performed, performed, List.filterMap_append]
  cases hlab : lab.performed? <;> simp [hlab]

variable (code : Q → Prog σ L ε α)

/-- The requests performed alone, one after another. -/
inductive Replay (start : σ) : List (Q × α) → σ → Prop
  | start : Replay start [] start
  | step {done d q a d'} : Replay start done d → (code q).alone d = (.ok a, d') →
      Replay start (done ++ [(q, a)]) d'

variable {code}

/-- What every request keeps when it is alone holds after all of them. -/
theorem Replay.inv {I : σ → Prop} (hcode : ∀ q a d d', I d → (code q).alone d = (.ok a, d') → I d')
    {start d : σ} {done : List (Q × α)} (h : Replay code start done d) (hstart : I start) : I d := by
  induction h with
  | start => exact hstart
  | step _ halone ih => exact hcode _ _ _ _ ih halone

/-- The same for what is true of the requests so far. -/
theorem Replay.history {G : List (Q × α) → σ → Prop}
    (hcode : ∀ done q a d d', G done d → (code q).alone d = (.ok a, d') → G (done ++ [(q, a)]) d')
    {start d : σ} {done : List (Q × α)} (h : Replay code start done d) (hstart : G [] start) : G done d := by
  induction h with
  | start => exact hstart
  | step _ halone ih => exact hcode _ _ _ _ _ ih halone

/-- The store after the first of the requests. -/
theorem Replay.split {start d : σ} {done done' : List (Q × α)} (h : Replay code start (done ++ done') d) :
    ∃ d₁, Replay code start done d₁ ∧ Replay code d₁ done' d := by
  generalize hall : done ++ done' = all at h
  induction h generalizing done' with
  | start =>
      obtain ⟨rfl, rfl⟩ := List.append_eq_nil_iff.1 hall
      exact ⟨start, .start, .start⟩
  | @step all d q a d' hrun halone ih =>
      rcases List.eq_nil_or_concat done' with rfl | ⟨rest, p, rfl⟩
      · rw [List.append_nil] at hall
        exact ⟨d', hall ▸ .step hrun halone, .start⟩
      · rw [List.concat_eq_append, ← List.append_assoc] at hall
        obtain ⟨hrest, hp⟩ := List.append_inj' hall rfl
        obtain rfl : p = (q, a) := by simpa using hp
        obtain ⟨d₁, hfirst, hthen⟩ := ih hrest
        exact ⟨d₁, hfirst, List.concat_eq_append ▸ .step hthen halone⟩

/-- A single request, performed alone. -/
theorem Replay.single {start d : σ} {q : Q} {a : α} (h : Replay code start [(q, a)] d) :
    (code q).alone start = (.ok a, d) := by
  generalize hone : [(q, a)] = done at h
  cases h with
  | start => cases hone
  | step hnone halone =>
      rw [← List.nil_append [(q, a)]] at hone
      obtain ⟨hfirst, hlast⟩ := List.append_inj' hone rfl
      cases hnone with
      | start => simp_all
      | step => simp at hfirst

/-! ## Runs of admitted requests -/

variable (code) in
/-- The worlds that admitted requests lead to, with the labels on the way. -/
inductive Served (Ok : Q → σ → Prop) (start : World ι Q σ L ε α) : List (Label ι Q ε α) → World ι Q σ L ε α → Prop
  | start : Served Ok start [] start
  | step {labels w lab w'} : Served Ok start labels w → (∀ i q, lab = .begins i q → Ok q w.db) →
      Step code w lab w' → Served Ok start (labels ++ [lab]) w'

variable {Ok : Q → σ → Prop} {start w w' : World ι Q σ L ε α} {labels : List (Label ι Q ε α)}

theorem Served.admitted (h : Served code Ok start labels w) : Admitted code Ok start w := by
  induction h with
  | start => exact .start
  | step _ hok hstep ih => exact .step ih hok hstep

theorem Admitted.served (h : Admitted code Ok start w) : ∃ labels, Served code Ok start labels w := by
  induction h with
  | start => exact ⟨[], .start⟩
  | step _ hok hstep ih =>
      obtain ⟨labels, hrun⟩ := ih
      exact ⟨_, .step hrun hok hstep⟩

namespace Protocol

variable {P : Protocol σ L}

/-- Whatever the others do, the program does at its answer what it would do alone. -/
def Acts (P : Protocol σ L) (p : Prog σ L ε α) (d : σ) : Prop :=
  P.wp (P.Done fun a d d' => p.Performs d a d') Anyway p ∅ id d

theorem Acts.map {β : Type} (g : α → β) {p : Prog σ L ε α} {d : σ} (h : P.Acts p d) : P.Acts (g <$> p) d := by
  rw [Acts, wp_map]
  refine wp_mono (fun a S f d hdone d' hr hi => ?_) (fun _ _ _ h => h) h
  obtain ⟨hguar, hinv, hperforms⟩ := hdone d' hr hi
  exact ⟨hguar, hinv, hperforms.map g⟩

/-- The same behind a check of the request. -/
theorem Acts.require {b : Bool} {e : ε} {p : Prog σ L ε α} {d : σ} (h : P.Acts p d) :
    P.Acts (Prog.require b e >>= fun _ => p) d := by
  rw [Acts, wp_bind, wp_require]
  refine ⟨fun hb => wp_mono (fun a S f d hdone d' hr hi => ?_) (fun _ _ _ h => h) h, fun _ => trivial⟩
  obtain ⟨hguar, hinv, hperforms⟩ := hdone d' hr hi
  refine ⟨hguar, hinv, ?_⟩
  subst hb
  exact hperforms

variable (hone : ∀ q, (code q).Whole (id : σ → σ)) (hidle : start.Idle) (hinv : P.Inv start.db)
  (hcode : ∀ q d, P.Inv d → Ok q d → P.Acts (code q) d)
  (hint : ∀ S d d', P.Guar S d d' → P.Intf S d d')

include hone hidle hinv hcode hint

/-- An answer is given, and the store changed, as if the request had run alone at
that moment; nothing else changes the store. -/
theorem serial_step {lab : Label ι Q ε α} (hw : Admitted code Ok start w) (hstep : Step code w lab w') :
    (∀ i q a, lab = .answers i q (.ok a) → (code q).alone w.db = (.ok a, w'.db)) ∧
      (lab.performed? = none → w'.db = w.db) := by
  have hsound : P.Sound (fun q a d d' => (code q).Performs d a d') (fun _ _ _ => True) w := by
    refine Sound.admitted (.of_idle hidle hinv) (fun q d hd hok => ?_) hw hint
    exact wp_mono (fun _ _ _ _ h => h) (fun _ _ _ _ _ _ _ => trivial) (hcode q d hd hok)
  refine ⟨?_, fun hnone => ?_⟩
  · rintro i q a rfl
    exact (Sound.answer hsound hstep).alone
  · refine hstep.quiet code hone (Reachable.oneTransaction code hone hidle hw.reachable) ?_
    cases lab with
    | answers i q r => cases r <;> simp_all [Label.performed?, Label.answer?]
    | begins | works | publishes | crashes => rfl

/-- The store is what the answered requests leave, one after another. -/
theorem serial_run (hrun : Served code Ok start labels w) : Replay code start.db (performed labels) w.db := by
  induction hrun with
  | start => exact .start
  | @step labels w lab w' hrun hok hstep ih =>
      obtain ⟨hanswer, hquiet⟩ := serial_step hone hidle hinv hcode hint hrun.admitted hstep
      rw [performed_snoc]
      cases hlab : lab.performed? with
      | none => simpa [hquiet hlab] using ih
      | some p =>
          obtain ⟨i, rfl⟩ : ∃ i, lab = .answers i p.1 (.ok p.2) := by
            cases lab with
            | answers i q r =>
                cases r with
                | ok a =>
                    obtain rfl : (q, a) = p := by simpa [Label.performed?] using hlab
                    exact ⟨i, rfl⟩
                | error e => simp [Label.performed?] at hlab
            | begins | works | publishes | crashes => simp [Label.performed?] at hlab
          exact .step ih (hanswer i _ _ rfl)

/-- What every request keeps when it is alone holds in every world. -/
theorem serial_inv {I : σ → Prop} (hkeep : ∀ q a d d', I d → (code q).alone d = (.ok a, d') → I d')
    (hstart : I start.db) (hw : Admitted code Ok start w) : I w.db := by
  obtain ⟨labels, hrun⟩ := hw.served
  exact (serial_run hone hidle hinv hcode hint hrun).inv hkeep hstart

/-- What every request, alone, leaves of the store it finds is left of any earlier store. -/
theorem serial_change {I : σ → Prop} {R : σ → σ → Prop} (hrefl : ∀ d, R d d)
    (htrans : ∀ d₁ d₂ d₃, R d₁ d₂ → R d₂ d₃ → R d₁ d₃)
    (hkeep : ∀ q a d d', I d → (code q).alone d = (.ok a, d') → I d' ∧ R d d')
    (hstart : I start.db) (hw : Admitted code Ok start w) (hw' : Admitted code Ok w w') : R w.db w'.db := by
  induction hw' with
  | start => exact hrefl _
  | @step w₁ lab w₂ hto _ hstep ih =>
      have hreach := hw.trans code hto
      have hI := serial_inv hone hidle hinv hcode hint (fun q a d d' hd h => (hkeep q a d d' hd h).1) hstart hreach
      obtain ⟨hanswer, hquiet⟩ := serial_step hone hidle hinv hcode hint hreach hstep
      refine htrans _ _ _ ih ?_
      cases lab with
      | answers i q r =>
          cases r with
          | ok a => exact (hkeep q a _ _ hI (hanswer i q a rfl)).2
          | error e => exact hquiet rfl ▸ hrefl _
      | begins | works | publishes | crashes => exact hquiet rfl ▸ hrefl _

end Protocol

end Transactions
