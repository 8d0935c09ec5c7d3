import Mathlib.Data.Option.Basic

/-!
# Machines

A machine takes one event at a time and may refuse it. Its runs are those of which every event
is taken and meets a condition.
-/

namespace Machines

variable {σ E : Type} (next : σ → E → Option σ) (Ok : σ → E → Prop)

inductive Run (start : σ) : σ → Prop
  | start : Run start start
  | step {s e s'} : Run start s → Ok s e → next s e = some s' → Run start s'

variable {next Ok}

theorem Run.trans {s₁ s₂ s₃ : σ} (h : Run next Ok s₁ s₂) (h' : Run next Ok s₂ s₃) : Run next Ok s₁ s₃ := by
  induction h' with
  | start => exact h
  | step _ hok hnext ih => exact .step ih hok hnext

theorem Run.mono {Ok' : σ → E → Prop} (hok : ∀ s e, Ok s e → Ok' s e) {start s : σ} (h : Run next Ok start s) :
    Run next Ok' start s := by
  induction h with
  | start => exact .start
  | step _ hs hnext ih => exact .step ih (hok _ _ hs) hnext

/-- What holds in the beginning and survives every step holds throughout. -/
theorem Run.invariant (Inv : σ → Prop) {start s : σ} (h : Run next Ok start s) (hstart : Inv start)
    (hstep : ∀ s e s', Inv s → Ok s e → next s e = some s' → Inv s') : Inv s := by
  induction h with
  | start => exact hstart
  | step _ hok hnext ih => exact hstep _ _ _ ih hok hnext

variable (next) in
/-- The state after the events, unless one of them is refused. -/
def play (ok : σ → E → Bool) (s : σ) : List E → Option σ
  | [] => some s
  | e :: events => if ok s e then (next s e).bind fun s' => play ok s' events else none

theorem play_run {ok : σ → E → Bool} {events : List E} {s s' : σ} (h : play next ok s events = some s') :
    Run next (fun s e => ok s e = true) s s' := by
  induction events generalizing s with
  | nil =>
      obtain rfl := Option.some.inj h
      exact .start
  | cons e events ih =>
      rw [play] at h
      split at h
      · rename_i hok
        obtain ⟨t, ht, hrest⟩ := Option.bind_eq_some_iff.1 h
        have hfirst : Run next (fun s e => ok s e = true) s t := .step .start hok ht
        exact hfirst.trans (ih hrest)
      · cases h

end Machines
