import Mathlib.Data.Set.Insert
import Mathlib.Logic.Function.Basic
import Mathlib.Logic.Relation

/-!
# Programs over a transactional store

The code of one client of a relational store, statement by statement. A
statement reads what is committed under the client's own pending writes, adds a
pending write, or takes a lock that is kept until the transaction ends. Pending
writes become visible to others when the transaction commits and disappear when
it throws.

`run` executes one program with nobody else around. The interleaved semantics
of many clients is in `Emis.Library.Interleaving`.
-/

namespace Transactions

/-- `σ` is the content of the store, `L` names its row and advisory locks, `ε`
is what a client throws and `α` what it answers. -/
inductive Prog (σ L ε α : Type) : Type where
  | ret (a : α)
  | fail (e : ε)
  | read (k : σ → Prog σ L ε α)
  | write (f : σ → σ) (k : Prog σ L ε α)
  | lock (l : L) (k : Prog σ L ε α)
  /-- Take the lock if nobody else holds it (`SKIP LOCKED`). -/
  | tryLock (l : L) (k : Bool → Prog σ L ε α)
  /-- End the transaction and go on in a new one. -/
  | commit (k : Prog σ L ε α)
  /-- A change outside the transaction: seen at once and never undone. -/
  | outside (f : σ → σ) (k : Prog σ L ε α)

namespace Prog

variable {σ τ L M ε α β : Type}

def bind : Prog σ L ε α → (α → Prog σ L ε β) → Prog σ L ε β
  | ret a, f => f a
  | fail e, _ => fail e
  | read k, f => read fun s => (k s).bind f
  | write g k, f => write g (k.bind f)
  | lock l k, f => lock l (k.bind f)
  | tryLock l k, f => tryLock l fun b => (k b).bind f
  | commit k, f => commit (k.bind f)
  | outside g k, f => outside g (k.bind f)

instance : Monad (Prog σ L ε) where
  pure := ret
  bind := bind

theorem bind_ret (p : Prog σ L ε α) : p.bind ret = p := by
  induction p with
  | ret | fail => rfl
  | read k ih => simp only [bind, ih]
  | write g k ih | lock l k ih | commit k ih | outside g k ih => simp only [bind, ih]
  | tryLock l k ih => simp only [bind, ih]

theorem bind_assoc {γ : Type} (p : Prog σ L ε α) (f : α → Prog σ L ε β)
    (g : β → Prog σ L ε γ) : (p.bind f).bind g = p.bind fun a => (f a).bind g := by
  induction p with
  | ret | fail => rfl
  | read k ih => simp only [bind, ih]
  | write h k ih | lock l k ih | commit k ih | outside h k ih => simp only [bind, ih]
  | tryLock l k ih => simp only [bind, ih]

instance : LawfulMonad (Prog σ L ε) :=
  LawfulMonad.mk' (Prog σ L ε) bind_ret (fun _ _ => rfl) bind_assoc

/-! ## Statements -/

/-- Everything a query can see: the committed store under the own writes. -/
def get : Prog σ L ε σ := read ret

def modify (f : σ → σ) : Prog σ L ε Unit := write f (ret ())

def acquire (l : L) : Prog σ L ε Unit := lock l (ret ())

/-- Has the lock been taken? -/
def tryAcquire (l : L) : Prog σ L ε Bool := tryLock l ret

/-- The end of one transaction and the start of the next. -/
def commits : Prog σ L ε Unit := commit (ret ())

def throw (e : ε) : Prog σ L ε α := fail e

/-- A change that is not undone with the transaction, such as drawing from a sequence. -/
def atOnce (f : σ → σ) : Prog σ L ε Unit := outside f (ret ())

/-- Go on if the test holds, throw otherwise. -/
def require (b : Bool) (e : ε) : Prog σ L ε Unit := if b then ret () else fail e

/-- A statement that is only made if the test holds. -/
def when (b : Bool) (p : Prog σ L ε Unit) : Prog σ L ε Unit := if b then p else ret ()

/-- The value of an option, or the error when there is none. -/
def expect (o : Option α) (e : ε) : Prog σ L ε α := o.elim (fail e) ret

/-- Go on differently where the program throws, within its transaction. -/
def catching (h : ε → Prog σ L ε α) : Prog σ L ε α → Prog σ L ε α
  | ret a => ret a
  | fail e => h e
  | read k => read fun s => (k s).catching h
  | write f k => write f (k.catching h)
  | lock l k => lock l (k.catching h)
  | tryLock l k => tryLock l fun b => (k b).catching h
  | commit k => commit (k.catching h)
  | outside f k => outside f (k.catching h)

/-- The outcome of a computation that does not touch the store. -/
def ofExcept : Except ε α → Prog σ L ε α
  | .ok a => ret a
  | .error e => fail e

/-- `UPDATE … WHERE …` on one row under READ COMMITTED. A row that does not
match in the statement's own snapshot is left alone without waiting; a row that
matches is locked, and the condition is evaluated again on what the previous
holder of the lock left behind. The answer says whether a row was updated. -/
def updateWhere (l : L) (hit : σ → Bool) (f : σ → σ) : Prog σ L ε Bool := do
  let snapshot ← get
  if hit snapshot then
    acquire l
    let latest ← get
    if hit latest then
      modify f
      return true
    else
      return false
  else
    return false

/-- The same program over a larger store, of which it sees and changes a part. -/
def zoom (view : τ → σ) (put : σ → τ → τ) (name : L → M) : Prog σ L ε α → Prog τ M ε α
  | ret a => ret a
  | fail e => fail e
  | read k => read fun t => (k (view t)).zoom view put name
  | write f k => write (fun t => put (f (view t)) t) (k.zoom view put name)
  | lock l k => lock (name l) (k.zoom view put name)
  | tryLock l k => tryLock (name l) fun b => (k b).zoom view put name
  | commit k => commit (k.zoom view put name)
  | outside f k => outside (fun t => put (f (view t)) t) (k.zoom view put name)

section Zoom

variable {view : τ → σ} {put : σ → τ → τ} {name : L → M}

theorem zoom_bind (p : Prog σ L ε α) (c : α → Prog σ L ε β) :
    (p >>= c).zoom view put name = p.zoom view put name >>= fun a => (c a).zoom view put name := by
  change (p.bind c).zoom view put name = (p.zoom view put name).bind _
  induction p with
  | ret | fail => rfl
  | read k ih => simp only [bind, zoom, ih]
  | write f k ih | lock l k ih | commit k ih | outside f k ih => simp only [bind, zoom, ih]
  | tryLock l k ih => simp only [bind, zoom, ih]

@[simp] theorem zoom_pure (a : α) :
    (pure a : Prog σ L ε α).zoom view put name = (pure a : Prog τ M ε α) := rfl

@[simp] theorem zoom_map (g : α → β) (p : Prog σ L ε α) :
    (g <$> p).zoom view put name = g <$> p.zoom view put name := by
  rw [← bind_pure_comp, zoom_bind, ← bind_pure_comp]
  rfl

@[simp] theorem zoom_get :
    (get : Prog σ L ε σ).zoom view put name = view <$> (get : Prog τ M ε τ) := rfl

@[simp] theorem zoom_modify (f : σ → σ) : (modify f : Prog σ L ε Unit).zoom view put name =
    (modify fun t => put (f (view t)) t : Prog τ M ε Unit) := rfl

@[simp] theorem zoom_acquire (l : L) : (acquire l : Prog σ L ε Unit).zoom view put name =
    (acquire (name l) : Prog τ M ε Unit) := rfl

@[simp] theorem zoom_atOnce (f : σ → σ) : (atOnce f : Prog σ L ε Unit).zoom view put name =
    (atOnce fun t => put (f (view t)) t : Prog τ M ε Unit) := rfl

@[simp] theorem zoom_require (b : Bool) (e : ε) :
    (require b e : Prog σ L ε Unit).zoom view put name = (require b e : Prog τ M ε Unit) := by
  cases b <;> rfl

@[simp] theorem zoom_expect (o : Option α) (e : ε) :
    (expect o e : Prog σ L ε α).zoom view put name = (expect o e : Prog τ M ε α) := by
  cases o <;> rfl

@[simp] theorem zoom_ofExcept (x : Except ε α) :
    (ofExcept x : Prog σ L ε α).zoom view put name = (ofExcept x : Prog τ M ε α) := by
  cases x <;> rfl

end Zoom

/-! ## Running one program alone -/

/-- `run p c v` runs `p` when `c` is committed and `v` is what the client sees.
It gives the outcome with the committed store and the store the client then
sees; a throw brings the client back to what is committed. -/
def run : Prog σ L ε α → σ → σ → Except ε α × σ × σ
  | ret a, c, v => (.ok a, c, v)
  | fail e, c, _ => (.error e, c, c)
  | read k, c, v => (k v).run c v
  | write f k, c, v => k.run c (f v)
  | lock _ k, c, v => k.run c v
  | tryLock _ k, c, v => (k true).run c v
  | commit k, _, v => k.run v v
  | outside f k, c, v => k.run (f c) (f v)

/-- A whole request: the answer, and the store it leaves committed. -/
def alone (p : Prog σ L ε α) (d : σ) : Except ε α × σ :=
  match p.run d d with
  | (.ok a, _, v) => (.ok a, v)
  | (.error e, c, _) => (.error e, c)

theorem alone_fst (p : Prog σ L ε α) (d : σ) : (p.alone d).1 = (p.run d d).1 := by
  rw [alone]
  rcases p.run d d with ⟨r, c, v⟩
  cases r <;> rfl

theorem run_bind_error {p : Prog σ L ε α} {c v : σ} {e : ε} (h : (p.run c v).1 = .error e)
    (k : α → Prog σ L ε β) : ((p >>= k).run c v).1 = .error e := by
  change ((p.bind k).run c v).1 = .error e
  induction p generalizing c v with
  | ret a => simp [run] at h
  | fail e => simpa [run, bind] using h
  | read r ih => exact ih v h
  | write f r ih | lock l r ih | commit r ih | outside f r ih => exact ih h
  | tryLock l r ih => exact ih true h

/-- What the first part of a request throws is thrown by the whole. -/
theorem alone_bind_error {p : Prog σ L ε α} {d : σ} {e : ε} (h : (p.alone d).1 = .error e)
    (k : α → Prog σ L ε β) : ((p >>= k).alone d).1 = .error e := by
  rw [alone_fst] at h ⊢
  exact run_bind_error h k

/-- Weakest liberal precondition of one transaction on its own: started where it
sees `v`, it answers `a` and sees `v'` only if `Φ a v'`, and throws `e` only if
`E e`. A program that commits on its way is not one transaction. -/
def wlp (Φ : α → σ → Prop) (E : ε → Prop) : Prog σ L ε α → σ → Prop
  | ret a, v => Φ a v
  | fail e, _ => E e
  | read k, v => (k v).wlp Φ E v
  | write f k, v => k.wlp Φ E (f v)
  | lock _ k, v => k.wlp Φ E v
  | tryLock _ k, v => (k true).wlp Φ E v
  | commit _, _ | outside _ _, _ => False

section Rules

variable {Φ Φ' : α → σ → Prop} {E E' : ε → Prop} {v : σ}

theorem wlp_sound {p : Prog σ L ε α} (h : p.wlp Φ E v) (c : σ) :
    (∃ a v', p.run c v = (.ok a, c, v') ∧ Φ a v') ∨ ∃ e, p.run c v = (.error e, c, c) ∧ E e := by
  induction p generalizing v with
  | ret a => exact .inl ⟨a, v, rfl, h⟩
  | fail e => exact .inr ⟨e, rfl, h⟩
  | read k ih => exact ih v h
  | write f k ih | lock l k ih => exact ih h
  | tryLock l k ih => exact ih true h
  | commit | outside => exact h.elim

/-- A transaction on its own either throws and changes nothing, or commits. -/
theorem alone_cases {p : Prog σ L ε α} (h : p.wlp Φ E v) :
    (∃ a v', p.alone v = (.ok a, v') ∧ Φ a v') ∨ ∃ e, p.alone v = (.error e, v) ∧ E e := by
  rcases wlp_sound h v with ⟨a, v', hrun, ha⟩ | ⟨e, hrun, he⟩
  · exact .inl ⟨a, v', by simp [alone, hrun], ha⟩
  · exact .inr ⟨e, by simp [alone, hrun], he⟩

theorem wlp_mono {p : Prog σ L ε α} (hΦ : ∀ a v, Φ a v → Φ' a v) (hE : ∀ e, E e → E' e)
    (h : p.wlp Φ E v) : p.wlp Φ' E' v := by
  induction p generalizing v with
  | ret a => exact hΦ a v h
  | fail e => exact hE e h
  | read k ih => exact ih v h
  | write f k ih | lock l k ih => exact ih h
  | tryLock l k ih => exact ih true h
  | commit | outside => exact h

@[simp] theorem wlp_bind {Φ : β → σ → Prop} (p : Prog σ L ε α) (c : α → Prog σ L ε β) :
    (p >>= c).wlp Φ E v ↔ p.wlp (fun a v => (c a).wlp Φ E v) E v := by
  change (p.bind c).wlp Φ E v ↔ _
  induction p generalizing v with
  | ret | fail | commit | outside => exact Iff.rfl
  | read k ih => exact ih v
  | write f k ih | lock l k ih => exact ih
  | tryLock l k ih => exact ih true

@[simp] theorem wlp_map {Φ : β → σ → Prop} (g : α → β) (p : Prog σ L ε α) :
    (g <$> p).wlp Φ E v ↔ p.wlp (fun a v => Φ (g a) v) E v := by
  rw [← bind_pure_comp, wlp_bind]
  rfl

/-- The same for a request whose answer is wrapped. -/
theorem alone_map_cases {p : Prog σ L ε α} (g : α → β) (h : p.wlp Φ E v) :
    (∃ a v', (g <$> p).alone v = (.ok (g a), v') ∧ Φ a v') ∨
      ∃ e, (g <$> p).alone v = (.error e, v) ∧ E e := by
  have hmap : (g <$> p).wlp (fun b v' => ∃ a, b = g a ∧ Φ a v') E v :=
    (wlp_map g p).2 (wlp_mono (fun a _ ha => ⟨a, rfl, ha⟩) (fun _ he => he) h)
  rcases alone_cases hmap with ⟨b, v', hrun, a, rfl, ha⟩ | herr
  · exact .inl ⟨a, v', hrun, ha⟩
  · exact .inr herr

@[simp] theorem wlp_pure (a : α) : (pure a : Prog σ L ε α).wlp Φ E v ↔ Φ a v := Iff.rfl

@[simp] theorem wlp_throw (e : ε) : (throw e : Prog σ L ε α).wlp Φ E v ↔ E e := Iff.rfl

theorem wlp_forM_cons {Φ : PUnit → σ → Prop} (x : α) (xs : List α)
    (c : α → Prog σ L ε PUnit) :
    ((x :: xs).forM c).wlp Φ E v ↔ (c x).wlp (fun _ v => (xs.forM c).wlp Φ E v) E v :=
  wlp_bind (c x) fun _ => xs.forM c

theorem wlp_forM_map {Φ : PUnit → σ → Prop} (g : β → α) (xs : List β)
    (c : α → Prog σ L ε PUnit) :
    ((xs.map g).forM c).wlp Φ E v ↔ (xs.forM fun x => c (g x)).wlp Φ E v := by
  induction xs generalizing v with
  | nil => exact Iff.rfl
  | cons x xs ih =>
      rw [List.map_cons, wlp_forM_cons, wlp_forM_cons]
      simp only [ih]

@[simp] theorem wlp_get {Φ : σ → σ → Prop} :
    (get : Prog σ L ε σ).wlp Φ E v ↔ Φ v v := Iff.rfl

@[simp] theorem wlp_modify {Φ : Unit → σ → Prop} (f : σ → σ) :
    (modify f : Prog σ L ε Unit).wlp Φ E v ↔ Φ () (f v) := Iff.rfl

@[simp] theorem wlp_acquire {Φ : Unit → σ → Prop} (l : L) :
    (acquire l : Prog σ L ε Unit).wlp Φ E v ↔ Φ () v := Iff.rfl

@[simp] theorem wlp_require {Φ : Unit → σ → Prop} (b : Bool) (e : ε) :
    (require b e : Prog σ L ε Unit).wlp Φ E v ↔ (b = true → Φ () v) ∧ (b = false → E e) := by
  cases b <;> simp [require, wlp]

@[simp] theorem wlp_expect (o : Option α) (e : ε) :
    (expect o e : Prog σ L ε α).wlp Φ E v ↔ (∀ a, o = some a → Φ a v) ∧ (o = none → E e) := by
  cases o <;> simp [expect, wlp]

@[simp] theorem wlp_ofExcept (x : Except ε α) :
    (ofExcept x : Prog σ L ε α).wlp Φ E v ↔ (∀ a, x = .ok a → Φ a v) ∧ ∀ e, x = .error e → E e := by
  cases x <;> simp [ofExcept, wlp]

/-- A program on a part of the store is judged on that part. -/
theorem wlp_zoom {view : τ → σ} {put : σ → τ → τ} {name : L → M} {Φ : α → τ → Prop} {t : τ}
    (hview : ∀ s t, view (put s t) = s) (hput : ∀ s s' t, put s (put s' t) = put s t)
    (hsame : ∀ t, put (view t) t = t) (p : Prog σ L ε α) :
    (p.zoom view put name).wlp Φ E t ↔ p.wlp (fun a s => Φ a (put s t)) E (view t) := by
  induction p generalizing t with
  | ret a =>
      change Φ a t ↔ Φ a (put (view t) t)
      rw [hsame]
  | fail | commit | outside => exact Iff.rfl
  | read k ih => exact ih (view t)
  | write f k ih =>
      refine ih.trans ?_
      simp only [hview, hput]
      exact Iff.rfl
  | lock l k ih => exact ih
  | tryLock l k ih => exact ih true

@[simp] theorem wlp_ite (b : Prop) [Decidable b] (p q : Prog σ L ε α) :
    (if b then p else q).wlp Φ E v ↔ (b → p.wlp Φ E v) ∧ (¬ b → q.wlp Φ E v) := by
  split <;> simp_all

@[simp] theorem wlp_when {Φ : Unit → σ → Prop} (b : Bool) (p : Prog σ L ε Unit) :
    (Prog.when b p).wlp Φ E v ↔ (b = true → p.wlp Φ E v) ∧ (b = false → Φ () v) := by
  cases b <;> simp [Prog.when, wlp]

/-- Alone, an update finds at its second look what it found at its first. -/
@[simp] theorem wlp_updateWhere {Φ : Bool → σ → Prop} (l : L) (hit : σ → Bool) (f : σ → σ) :
    (updateWhere l hit f : Prog σ L ε Bool).wlp Φ E v ↔
      (hit v = true → Φ true (f v)) ∧ (hit v = false → Φ false v) := by
  cases h : hit v <;> simp [updateWhere, h]

end Rules

/-! ## What a program leaves alone -/

/-- The program stays in one transaction, and no write of it changes `φ`. -/
def Keeps (φ : σ → τ) : Prog σ L ε α → Prop
  | ret _ | fail _ => True
  | read k => ∀ s, (k s).Keeps φ
  | write f k => (∀ s, φ (f s) = φ s) ∧ k.Keeps φ
  | lock _ k => k.Keeps φ
  | tryLock _ k => ∀ b, (k b).Keeps φ
  | commit _ | outside _ _ => False

section Keeps

variable {φ : σ → τ}

theorem Keeps.bind {p : Prog σ L ε α} {c : α → Prog σ L ε β} (hp : p.Keeps φ)
    (hc : ∀ a, (c a).Keeps φ) : (p >>= c).Keeps φ := by
  change (p.bind c).Keeps φ
  induction p with
  | ret a => exact hc a
  | fail e => trivial
  | read k ih => exact fun s => ih s (hp s)
  | write f k ih => exact ⟨hp.1, ih hp.2⟩
  | lock l k ih => exact ih hp
  | tryLock l k ih => exact fun b => ih b (hp b)
  | commit | outside => exact hp.elim

theorem Keeps.pure (a : α) : (pure a : Prog σ L ε α).Keeps φ := trivial

theorem Keeps.throw (e : ε) : (throw e : Prog σ L ε α).Keeps φ := trivial

theorem Keeps.map (g : α → β) {p : Prog σ L ε α} (hp : p.Keeps φ) : (g <$> p).Keeps φ := by
  rw [← bind_pure_comp]
  exact hp.bind fun _ => .pure _

/-- What is seen of `φ` is left alone too. -/
theorem Keeps.comp {υ : Type} (g : τ → υ) {p : Prog σ L ε α} (hp : p.Keeps φ) :
    p.Keeps fun s => g (φ s) := by
  induction p with
  | ret | fail => trivial
  | read k ih => exact fun s => ih s (hp s)
  | write f k ih => exact ⟨fun s => congrArg g (hp.1 s), ih hp.2⟩
  | lock l k ih => exact ih hp
  | tryLock l k ih => exact fun b => ih b (hp b)
  | commit | outside => exact hp.elim

theorem Keeps.get : (get : Prog σ L ε σ).Keeps φ := fun _ => trivial

theorem Keeps.acquire (l : L) : (acquire l : Prog σ L ε Unit).Keeps φ := trivial

theorem Keeps.modify {f : σ → σ} (hf : ∀ s, φ (f s) = φ s) :
    (modify f : Prog σ L ε Unit).Keeps φ := ⟨hf, trivial⟩

theorem Keeps.require (b : Bool) (e : ε) : (require b e : Prog σ L ε Unit).Keeps φ := by
  cases b <;> trivial

theorem Keeps.expect (o : Option α) (e : ε) : (expect o e : Prog σ L ε α).Keeps φ := by
  cases o <;> trivial

theorem Keeps.ofExcept (x : Except ε α) : (ofExcept x : Prog σ L ε α).Keeps φ := by
  cases x <;> trivial

theorem Keeps.ite {b : Prop} [Decidable b] {p q : Prog σ L ε α} (hp : p.Keeps φ)
    (hq : q.Keeps φ) : (if b then p else q).Keeps φ := by
  split
  · exact hp
  · exact hq

theorem Keeps.when (b : Bool) {p : Prog σ L ε Unit} (hp : p.Keeps φ) :
    (Prog.when b p).Keeps φ := .ite hp (.pure _)

theorem Keeps.updateWhere (l : L) (hit : σ → Bool) {f : σ → σ} (hf : ∀ s, φ (f s) = φ s) :
    (updateWhere l hit f : Prog σ L ε Bool).Keeps φ := by
  refine .bind .get fun s => .ite (.bind (.acquire l) fun _ => .bind .get fun s => ?_) (.pure _)
  exact .ite (.bind (.modify hf) fun _ => .pure _) (.pure _)

theorem Keeps.forM (xs : List α) {c : α → Prog σ L ε PUnit} (hc : ∀ a, (c a).Keeps φ) :
    (xs.forM c).Keeps φ := by
  induction xs with
  | nil => exact .pure _
  | cons a xs ih => exact .bind (hc a) fun _ => ih

/-- A part of the store that a program sees, seen in the whole. -/
theorem Keeps.zoom {υ ω : Type} {view : τ → σ} {put : σ → τ → τ} {name : L → M} {ψ : σ → υ}
    {χ : τ → ω} {p : Prog σ L ε α} (hp : p.Keeps ψ)
    (hput : ∀ s t, ψ s = ψ (view t) → χ (put s t) = χ t) : (p.zoom view put name).Keeps χ := by
  induction p with
  | ret | fail => trivial
  | read k ih => exact fun t => ih _ (hp _)
  | write f k ih => exact ⟨fun t => hput _ t (hp.1 _), ih hp.2⟩
  | lock l k ih => exact ih hp
  | tryLock l k ih => exact fun b => ih b (hp b)
  | commit | outside => exact hp.elim

/-- A program that leaves `φ` alone may answer or throw anything. -/
theorem Keeps.wlp {p : Prog σ L ε α} (hp : p.Keeps φ) {Φ : α → σ → Prop} {E : ε → Prop} {v : σ}
    (hΦ : ∀ a v', φ v' = φ v → Φ a v') (hE : ∀ e, E e) : p.wlp Φ E v := by
  induction p generalizing v with
  | ret a => exact hΦ a v rfl
  | fail e => exact hE e
  | read k ih => exact ih v (hp v) hΦ
  | write f k ih =>
      refine ih hp.2 fun a v' hv' => hΦ a v' ?_
      rw [hv', hp.1]
  | lock l k ih => exact ih hp hΦ
  | tryLock l k ih => exact ih true (hp true) hΦ
  | commit | outside => exact hp.elim

theorem Keeps.catching {h : ε → Prog σ L ε α} (hh : ∀ e, (h e).Keeps φ) {p : Prog σ L ε α}
    (hp : p.Keeps φ) : (p.catching h).Keeps φ := by
  induction p with
  | ret a => trivial
  | fail e => exact hh e
  | read k ih => exact fun s => ih s (hp s)
  | write f k ih => exact ⟨hp.1, ih hp.2⟩
  | lock l k ih => exact ih hp
  | tryLock l k ih => exact fun b => ih b (hp b)
  | commit | outside => exact hp.elim

/-- What is caught of a program that only reads is handled on the store it was started on. -/
theorem wlp_catching {h : ε → Prog σ L ε α} {Φ : α → σ → Prop} {E : ε → Prop} {v : σ}
    {p : Prog σ L ε α} (hp : p.Keeps id) :
    (p.catching h).wlp Φ E v ↔ p.wlp Φ (fun e => (h e).wlp Φ E v) v := by
  induction p with
  | ret a => exact Iff.rfl
  | fail e => exact Iff.rfl
  | read k ih => exact ih v (hp v)
  | write f k ih =>
      obtain rfl : f = id := funext hp.1
      exact ih hp.2
  | lock l k ih => exact ih hp
  | tryLock l k ih => exact ih true (hp true)
  | commit | outside => exact hp.elim

end Keeps

/-- The program is one transaction, and what it does outside of it leaves `φ` alone. -/
def Whole (φ : σ → τ) : Prog σ L ε α → Prop
  | ret _ | fail _ => True
  | read k => ∀ s, (k s).Whole φ
  | write _ k | lock _ k => k.Whole φ
  | tryLock _ k => ∀ b, (k b).Whole φ
  | commit _ => False
  | outside f k => (∀ s, φ (f s) = φ s) ∧ k.Whole φ

section Whole

variable {φ : σ → τ}

theorem Keeps.whole {υ : Type} {ψ : σ → υ} {p : Prog σ L ε α} (hp : p.Keeps ψ) : p.Whole φ := by
  induction p with
  | ret | fail => trivial
  | read k ih => exact fun s => ih s (hp s)
  | write f k ih => exact ih hp.2
  | lock l k ih => exact ih hp
  | tryLock l k ih => exact fun b => ih b (hp b)
  | commit | outside => exact hp.elim

theorem Whole.bind {p : Prog σ L ε α} {c : α → Prog σ L ε β} (hp : p.Whole φ)
    (hc : ∀ a, (c a).Whole φ) : (p >>= c).Whole φ := by
  change (p.bind c).Whole φ
  induction p with
  | ret a => exact hc a
  | fail e => trivial
  | read k ih => exact fun s => ih s (hp s)
  | write f k ih | lock l k ih => exact ih hp
  | tryLock l k ih => exact fun b => ih b (hp b)
  | commit => exact hp.elim
  | outside f k ih => exact ⟨hp.1, ih hp.2⟩

theorem Whole.get : (get : Prog σ L ε σ).Whole φ := fun _ => trivial

theorem Whole.acquire (l : L) : (acquire l : Prog σ L ε Unit).Whole φ := trivial

theorem Whole.modify (f : σ → σ) : (modify f : Prog σ L ε Unit).Whole φ := trivial

theorem Whole.atOnce {f : σ → σ} (hf : ∀ s, φ (f s) = φ s) :
    (atOnce f : Prog σ L ε Unit).Whole φ := ⟨hf, trivial⟩

theorem Whole.require (b : Bool) (e : ε) : (require b e : Prog σ L ε Unit).Whole φ := by
  cases b <;> trivial

theorem Whole.map (g : α → β) {p : Prog σ L ε α} (hp : p.Whole φ) : (g <$> p).Whole φ := by
  rw [← bind_pure_comp]
  exact hp.bind fun _ => trivial

theorem Whole.zoom {υ ω : Type} {view : τ → σ} {put : σ → τ → τ} {name : L → M} {ψ : σ → υ}
    {χ : τ → ω} {p : Prog σ L ε α} (hp : p.Whole ψ)
    (hput : ∀ s t, ψ s = ψ (view t) → χ (put s t) = χ t) : (p.zoom view put name).Whole χ := by
  induction p with
  | ret | fail => trivial
  | read k ih => exact fun t => ih _ (hp _)
  | write f k ih | lock l k ih => exact ih hp
  | tryLock l k ih => exact fun b => ih b (hp b)
  | commit => exact hp.elim
  | outside f k ih => exact ⟨fun t => hput _ t (hp.1 _), ih hp.2⟩

end Whole

/-- Every lock that the program takes is one of `A`. -/
def Takes (A : Set L) : Prog σ L ε α → Prop
  | ret _ | fail _ => True
  | read k => ∀ s, (k s).Takes A
  | write _ k | commit k | outside _ k => k.Takes A
  | lock l k => l ∈ A ∧ k.Takes A
  | tryLock l k => l ∈ A ∧ ∀ b, (k b).Takes A

section Takes

variable {A : Set L}

theorem takes_univ (p : Prog σ L ε α) : p.Takes Set.univ := by
  induction p with
  | ret | fail => trivial
  | read k ih => exact ih
  | write f k ih | commit k ih | outside f k ih => exact ih
  | lock l k ih => exact ⟨trivial, ih⟩
  | tryLock l k ih => exact ⟨trivial, ih⟩

theorem Takes.bind {p : Prog σ L ε α} {c : α → Prog σ L ε β} (hp : p.Takes A)
    (hc : ∀ a, (c a).Takes A) : (p >>= c).Takes A := by
  change (p.bind c).Takes A
  induction p with
  | ret a => exact hc a
  | fail e => trivial
  | read k ih => exact fun s => ih s (hp s)
  | write f k ih | commit k ih | outside f k ih => exact ih hp
  | lock l k ih => exact ⟨hp.1, ih hp.2⟩
  | tryLock l k ih => exact ⟨hp.1, fun b => ih b (hp.2 b)⟩

theorem Takes.pure (a : α) : (pure a : Prog σ L ε α).Takes A := trivial

theorem Takes.get : (get : Prog σ L ε σ).Takes A := fun _ => trivial

theorem Takes.modify (f : σ → σ) : (modify f : Prog σ L ε Unit).Takes A := trivial

theorem Takes.acquire {l : L} (hl : l ∈ A) : (acquire l : Prog σ L ε Unit).Takes A := ⟨hl, trivial⟩

theorem Takes.expect (o : Option α) (e : ε) : (expect o e : Prog σ L ε α).Takes A := by
  cases o <;> trivial

theorem Takes.updateWhere {l : L} (hl : l ∈ A) (hit : σ → Bool) (f : σ → σ) :
    (updateWhere l hit f : Prog σ L ε Bool).Takes A := by
  refine .bind .get fun s => ?_
  split
  · refine .bind (.acquire hl) fun _ => .bind .get fun s => ?_
    split
    · exact .bind (.modify f) fun _ => .pure _
    · exact .pure _
  · exact .pure _

theorem Takes.forM (xs : List α) {c : α → Prog σ L ε PUnit} (hc : ∀ a, (c a).Takes A) :
    (xs.forM c).Takes A := by
  induction xs with
  | nil => exact .pure _
  | cons a xs ih => exact .bind (hc a) fun _ => ih

end Takes

end Prog

/-- A part of a larger store, with what its locks are called there. -/
structure Part (τ M σ L : Type) where
  view : τ → σ
  put : σ → τ → τ
  name : L → M
  view_put : ∀ s t, view (put s t) = s

/-- All of the store. -/
def Part.whole {σ L : Type} : Part σ L σ L := ⟨id, fun s _ => s, id, fun _ _ => rfl⟩

/-- A program on a part of the store. -/
def Prog.inside {τ M σ L ε α : Type} (part : Part τ M σ L) (p : Prog σ L ε α) : Prog τ M ε α :=
  p.zoom part.view part.put part.name

end Transactions
