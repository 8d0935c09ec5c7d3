import Emis.Access.UsersService
import Emis.Library.Rules

/-!
# Active admins

Who can administer the institution, what a client may change under the locks it
holds, and that every statement of the staff services stays within it.
-/

namespace Emis.Access

open Transactions Protocol Identity

/-- Somebody is left who can administer. -/
def HasAdmin (d : Db) : Prop := ∃ u, Db.isActiveAdmin d u = true

theorem isActiveAdmin_iff {d : Db} {u : Uuid} : Db.isActiveAdmin d u = true ↔
    (∃ a ∈ d.assignments, a.userId = u ∧ Db.hasRoleKey d ADMIN_ROLE a = true) ∧
      ∃ a ∈ d.accounts, a.id = u ∧ a.status = .active ∧ a.passwordHash.isSome = true := by
  simp [Db.isActiveAdmin, Db.canSignIn, and_assoc]

theorem hasRoleKey_congr {d d' : Db} (h : d'.roles = d.roles) (key : String) (a : AssignmentRow) :
    Db.hasRoleKey d' key a = Db.hasRoleKey d key a := by
  rw [Db.hasRoleKey, Db.hasRoleKey, h]

/-- The keys of the tables, and no assignment has an id that was spent. -/
structure Keys (d : Db) : Prop where
  roles : (d.roles.map RoleRow.id).Nodup
  assignments : (d.assignments.map AssignmentRow.id).Nodup
  unspent : ∀ r ∈ d.assignments, r.id ∉ d.spentAssignments

/-- What a client that holds the locks `S` may do. -/
structure Guarantee (S : Set Lock) (d d' : Db) : Prop where
  roles : d'.roles = d.roles
  spent : d.spentAssignments ⊆ d'.spentAssignments
  used : ∀ i ∈ d'.spentAssignments,
    i ∈ d.spentAssignments ∨ (∃ r ∈ d.assignments, r.id = i) ∨ .assignment i ∈ S
  rows : ∀ r ∈ d.assignments, r ∈ d'.assignments ∨ r.id ∈ d'.spentAssignments
  fresh : ∀ r ∈ d'.assignments, r ∈ d.assignments ∨ .assignment r.id ∈ S
  admins : .adminGuard ∉ S → ∀ u, Db.isActiveAdmin d u = true → Db.isActiveAdmin d' u = true
  admin : HasAdmin d → HasAdmin d'

section Guarantee

variable {S : Set Lock} {d d' d'' : Db}

theorem Guarantee.refl (S : Set Lock) (d : Db) : Guarantee S d d where
  roles := rfl
  spent := List.Subset.refl _
  used _ hi := .inl hi
  rows _ hr := .inl hr
  fresh _ hr := .inl hr
  admins _ _ hu := hu
  admin h := h

theorem Guarantee.mono {S' : Set Lock} (hS : S ⊆ S') (h : Guarantee S d d') : Guarantee S' d d' where
  roles := h.roles
  spent := h.spent
  used i hi := by
    rcases h.used i hi with hold | hrow | hlock
    · exact .inl hold
    · exact .inr (.inl hrow)
    · exact .inr (.inr (hS hlock))
  rows := h.rows
  fresh r hr := (h.fresh r hr).imp id fun hlock => hS hlock
  admins hguard := h.admins fun hheld => hguard (hS hheld)
  admin := h.admin

theorem Guarantee.trans (h : Guarantee S d d') (h' : Guarantee S d' d'') : Guarantee S d d'' where
  roles := h'.roles.trans h.roles
  spent _ hi := h'.spent (h.spent hi)
  used i hi := by
    rcases h'.used i hi with hold | ⟨r, hr, rfl⟩ | hlock
    · exact h.used i hold
    · rcases h.fresh r hr with hr | hlock
      · exact .inr (.inl ⟨r, hr, rfl⟩)
      · exact .inr (.inr hlock)
    · exact .inr (.inr hlock)
  rows r hr := by
    rcases h.rows r hr with hr | hspent
    · exact h'.rows r hr
    · exact .inr (h'.spent hspent)
  fresh r hr := by
    rcases h'.fresh r hr with hr | hlock
    · exact h.fresh r hr
    · exact .inr hlock
  admins hS u hu := h'.admins hS u (h.admins hS u hu)
  admin hd := h'.admin (h.admin hd)

end Guarantee

def protocol : Protocol Db Lock where
  Inv := Keys
  Guar := Guarantee

/-! ## One statement -/

section Statements

variable {S : Set Lock} {d d' : Db}

/-- A change that is allowed, and keeps the keys. -/
def Allowed (S : Set Lock) (d d' : Db) : Prop := Guarantee S d d' ∧ Keys d'

theorem Allowed.trans {d'' : Db} (h : Allowed S d d') (h' : Allowed S d' d'') : Allowed S d d'' :=
  ⟨h.1.trans h'.1, h'.2⟩

/-- What the counting of admins depends on. -/
def core (d : Db) : List AccountRow × List AssignmentRow × List Uuid × List RoleRow :=
  (d.accounts, d.assignments, d.spentAssignments, d.roles)

theorem isActiveAdmin_core (h : core d' = core d) (u : Uuid) :
    Db.isActiveAdmin d' u = Db.isActiveAdmin d u := by
  simp only [core, Prod.mk.injEq] at h
  obtain ⟨haccounts, hassignments, -, hroles⟩ := h
  simp only [Db.isActiveAdmin, Db.canSignIn, Db.hasRoleKey, haccounts, hassignments, hroles]

/-- Tables that nobody counts. -/
theorem allowed_core (hd : Keys d) (h : core d' = core d) : Allowed S d d' := by
  have hadmin := isActiveAdmin_core h
  simp only [core, Prod.mk.injEq] at h
  obtain ⟨-, hassignments, hspent, hroles⟩ := h
  refine ⟨⟨hroles, ?_, ?_, ?_, ?_, ?_, ?_⟩, ⟨?_, ?_, ?_⟩⟩
  · rw [hspent]
    exact List.Subset.refl _
  · intro i hi
    rw [hspent] at hi
    exact .inl hi
  · intro r hr
    rw [hassignments]
    exact .inl hr
  · intro r hr
    rw [hassignments] at hr
    exact .inl hr
  · intro _ u hu
    rw [hadmin u]
    exact hu
  · rintro ⟨u, hu⟩
    exact ⟨u, (hadmin u).trans hu⟩
  · rw [hroles]
    exact hd.roles
  · rw [hassignments]
    exact hd.assignments
  · rw [hassignments, hspent]
    exact hd.unspent

/-- Accounts are changed and nobody is shut out. -/
theorem allowed_accounts (hd : Keys d) {accounts : List AccountRow}
    (h : ∀ u, Db.canSignIn d u = true → Db.canSignIn { d with accounts := accounts } u = true) :
    Allowed S d { d with accounts := accounts } := by
  have hadmin : ∀ u, Db.isActiveAdmin d u = true →
      Db.isActiveAdmin { d with accounts := accounts } u = true := by
    intro u hu
    obtain ⟨hrole, hsign⟩ := Bool.and_eq_true_iff.1 hu
    exact Bool.and_eq_true_iff.2 ⟨hrole, h u hsign⟩
  refine ⟨⟨rfl, List.Subset.refl _, fun _ => .inl, fun _ => .inl, fun _ => .inl, fun _ => hadmin, ?_⟩,
    ⟨hd.roles, hd.assignments, hd.unspent⟩⟩
  rintro ⟨u, hu⟩
  exact ⟨u, hadmin u hu⟩

/-- An account keeps its id, and loses neither its password nor its access. -/
structure Promotes (f : AccountRow → AccountRow) : Prop where
  id : ∀ a, (f a).id = a.id
  status : ∀ a, a.status = .active → (f a).status = .active
  password : ∀ a, a.passwordHash.isSome = true → (f a).passwordHash.isSome = true

theorem allowed_promote (hd : Keys d) {u : Uuid} {f : AccountRow → AccountRow} (hf : Promotes f) :
    Allowed S d (Db.changeAccount u f d) := by
  refine allowed_accounts hd fun v hv => ?_
  simp only [Db.canSignIn, List.any_eq_true, Bool.and_eq_true, beq_iff_eq] at hv ⊢
  obtain ⟨a, ha, ⟨hid, hstatus⟩, hpassword⟩ := hv
  refine ⟨if a.id == u then f a else a, List.mem_map_of_mem ha, ?_⟩
  split
  · exact ⟨⟨(hf.id a).trans hid, hf.status a hstatus⟩, hf.password a hpassword⟩
  · exact ⟨⟨hid, hstatus⟩, hpassword⟩

theorem allowed_addAccount (hd : Keys d) (a : AccountRow) :
    Allowed S d { d with accounts := d.accounts ++ [a] } := by
  refine allowed_accounts hd fun v hv => ?_
  rw [Db.canSignIn, List.any_append]
  exact Bool.or_eq_true_iff.2 (.inl hv)

def disable (u : Uuid) : Db → Db := Db.changeAccount u fun a => { a with status := .disabled }

theorem isActiveAdmin_disable {u v : Uuid} (hvu : v ≠ u) (hv : Db.isActiveAdmin d v = true) :
    Db.isActiveAdmin (disable u d) v = true := by
  rw [isActiveAdmin_iff] at hv ⊢
  obtain ⟨hrole, a, ha, rfl, hstatus⟩ := hv
  refine ⟨hrole, a, ?_, rfl, hstatus⟩
  refine List.mem_map.2 ⟨a, ha, if_neg ?_⟩
  simpa using hvu

/-- Somebody is disabled under the guard and leaves another admin, or was none. -/
theorem allowed_disable (hd : Keys d) {u : Uuid}
    (h : (.adminGuard ∈ S ∧ ∃ v, v ≠ u ∧ Db.isActiveAdmin d v = true) ∨
      Db.isActiveAdmin d u = false) : Allowed S d (disable u d) := by
  have hkeys : Keys (disable u d) := ⟨hd.roles, hd.assignments, hd.unspent⟩
  have hother : Db.isActiveAdmin d u = false → ∀ v, Db.isActiveAdmin d v = true →
      Db.isActiveAdmin (disable u d) v = true := by
    intro hu v hv
    refine isActiveAdmin_disable ?_ hv
    rintro rfl
    simp [hu] at hv
  refine ⟨⟨rfl, List.Subset.refl _, fun _ => .inl, fun _ => .inl, fun _ => .inl, ?_, ?_⟩, hkeys⟩
  · intro hguard v hv
    rcases h with ⟨hheld, -⟩ | hu
    · exact absurd hheld hguard
    · exact hother hu v hv
  · rintro ⟨w, hw⟩
    rcases h with ⟨-, v, hvu, hv⟩ | hu
    · exact ⟨v, isActiveAdmin_disable hvu hv⟩
    · exact ⟨w, hother hu w hw⟩

/-- An id that no assignment has or had. -/
def Unused (i : Uuid) (d : Db) : Prop := i ∉ d.spentAssignments ∧ ∀ r ∈ d.assignments, r.id ≠ i

theorem allowed_addAssignment (hd : Keys d) {row : AssignmentRow} (hlock : .assignment row.id ∈ S)
    (hnew : Unused row.id d) : Allowed S d { d with assignments := d.assignments ++ [row] } := by
  have hadmin : ∀ u, Db.isActiveAdmin d u = true →
      Db.isActiveAdmin { d with assignments := d.assignments ++ [row] } u = true := by
    intro u hu
    rw [isActiveAdmin_iff] at hu ⊢
    obtain ⟨⟨a, ha, hrole⟩, hsign⟩ := hu
    exact ⟨⟨a, List.mem_append_left _ ha, hrole⟩, hsign⟩
  refine ⟨⟨rfl, List.Subset.refl _, fun _ => .inl, ?_, ?_, fun _ => hadmin, ?_⟩, hd.roles, ?_, ?_⟩
  · exact fun r hr => .inl (List.mem_append_left _ hr)
  · intro r hr
    rcases List.mem_append.1 hr with hr | hr
    · exact .inl hr
    · obtain rfl : r = row := by simpa using hr
      exact .inr hlock
  · rintro ⟨u, hu⟩
    exact ⟨u, hadmin u hu⟩
  · exact nodup_snoc hd.assignments hnew.2
  · intro r hr
    rcases List.mem_append.1 hr with hr | hr
    · exact hd.unspent r hr
    · obtain rfl : r = row := by simpa using hr
      exact hnew.1

def withoutAssignment (i : Uuid) (d : Db) : Db :=
  { d with
    assignments := d.assignments.filter fun a => a.id != i
    spentAssignments := i :: d.spentAssignments }

/-- What is known of a row that was read: it is still there, or was removed. -/
def Seen (r : AssignmentRow) (d : Db) : Prop := r ∈ d.assignments ∨ r.id ∈ d.spentAssignments

/-- A row of another person or role survives. -/
theorem isActiveAdmin_without (hd : Keys d) {r : AssignmentRow} (hseen : Seen r d) {v : Uuid}
    (hv : Db.isActiveAdmin d v = true)
    (hother : v ≠ r.userId ∨ Db.hasRoleKey d ADMIN_ROLE r = false) :
    Db.isActiveAdmin (withoutAssignment r.id d) v = true := by
  rw [isActiveAdmin_iff] at hv ⊢
  obtain ⟨⟨a, ha, rfl, hrole⟩, hsign⟩ := hv
  refine ⟨⟨a, List.mem_filter.2 ⟨ha, ?_⟩, rfl, hrole⟩, hsign⟩
  have hne : a.id ≠ r.id := by
    intro hid
    rcases hseen with hr | hspent
    · obtain rfl := List.inj_on_of_nodup_map hd.assignments ha hr hid
      simp [hrole] at hother
    · exact hd.unspent a ha (hid ▸ hspent)
  simpa using hne

/-- A role is taken from somebody under the guard, or is not the admin role. -/
theorem allowed_without (hd : Keys d) {r : AssignmentRow} (hseen : Seen r d)
    (h : (.adminGuard ∈ S ∧ ∃ v, v ≠ r.userId ∧ Db.isActiveAdmin d v = true) ∨
      Db.hasRoleKey d ADMIN_ROLE r = false) : Allowed S d (withoutAssignment r.id d) := by
  refine ⟨⟨rfl, List.subset_cons_self _ _, ?_, ?_, ?_, ?_, ?_⟩, hd.roles, ?_, ?_⟩
  · intro i hi
    rcases List.mem_cons.1 hi with rfl | hi
    · rcases hseen with hr | hspent
      · exact .inr (.inl ⟨r, hr, rfl⟩)
      · exact .inl hspent
    · exact .inl hi
  · intro a ha
    by_cases hid : a.id = r.id
    · exact .inr (List.mem_cons.2 (.inl hid))
    · exact .inl (List.mem_filter.2 ⟨ha, by simpa using hid⟩)
  · exact fun a ha => .inl (List.mem_of_mem_filter ha)
  · intro hguard v hv
    rcases h with ⟨hheld, -⟩ | hrole
    · exact absurd hheld hguard
    · exact isActiveAdmin_without hd hseen hv (.inr hrole)
  · rintro ⟨w, hw⟩
    rcases h with ⟨-, v, hvu, hv⟩ | hrole
    · exact ⟨v, isActiveAdmin_without hd hseen hv (.inl hvu)⟩
    · exact ⟨w, isActiveAdmin_without hd hseen hw (.inr hrole)⟩
  · exact hd.assignments.sublist (List.filter_sublist.map _)
  · intro a ha hspent
    obtain ⟨ha, hid⟩ := List.mem_filter.1 ha
    rcases List.mem_cons.1 hspent with heq | hspent
    · simp [heq] at hid
    · exact hd.unspent a ha hspent

end Statements

/-! ## What the others cannot destroy -/

section Others

variable {S : Set Lock} {d d' : Db}

theorem rely_roles (h : protocol.Rely S d d') : d'.roles = d.roles :=
  h.same (χ := Db.roles) fun _ _ hother => by
    obtain ⟨-, T, -, hguar⟩ := hother
    exact hguar.roles

theorem rely_seen {r : AssignmentRow} (h : protocol.Rely S d d') (hd : Seen r d) : Seen r d' := by
  refine h.stable (fun d₁ d₂ hother hseen => ?_) hd
  obtain ⟨-, T, -, hguar⟩ := hother
  rcases hseen with hr | hspent
  · exact hguar.rows r hr
  · exact .inr (hguar.spent hspent)

theorem rely_unused {i : Uuid} (hlock : .assignment i ∈ S) (h : protocol.Rely S d d')
    (hd : Unused i d) : Unused i d' := by
  refine h.stable (fun d₁ d₂ hother hunused => ?_) hd
  obtain ⟨-, T, hdisj, hguar⟩ := hother
  have hfree : .assignment i ∉ T := Set.disjoint_left.1 hdisj hlock
  constructor
  · intro hi
    rcases hguar.used i hi with hspent | ⟨r, hr, hid⟩ | hheld
    · exact hunused.1 hspent
    · exact hunused.2 r hr hid
    · exact hfree hheld
  · rintro r hr rfl
    rcases hguar.fresh r hr with hr | hheld
    · exact hunused.2 r hr rfl
    · exact hfree hheld

theorem rely_admin {v : Uuid} (hlock : .adminGuard ∈ S) (h : protocol.Rely S d d')
    (hd : Db.isActiveAdmin d v = true) : Db.isActiveAdmin d' v = true := by
  refine h.stable (φ := fun x => Db.isActiveAdmin x v = true) (fun d₁ d₂ hother hadmin => ?_) hd
  obtain ⟨-, T, hdisj, hguar⟩ := hother
  exact hguar.admins (Set.disjoint_left.1 hdisj hlock) v hadmin

/-- The pending writes may be published. -/
def Ready (S : Set Lock) (f : Db → Db) (d : Db) : Prop :=
  ∀ d', protocol.Rely S d d' → Keys d' → Allowed S d' (f d')

theorem Ready.later {S' : Set Lock} {f : Db → Db} (h : Ready S f d) (hS : S ⊆ S')
    (hr : protocol.Rely S d d') : Ready S' f d' := by
  intro d'' hr' hi'
  obtain ⟨hguar, hkeys⟩ := h d'' (hr.trans (hr'.anti hS)) hi'
  exact ⟨hguar.mono hS, hkeys⟩

/-- One more write. -/
theorem Ready.write {f g : Db → Db} (h : Ready S f d)
    (hg : ∀ d', protocol.Rely S d d' → Keys (f d') → Allowed S (f d') (g (f d'))) :
    Ready S (g ∘ f) d := by
  intro d' hr hi
  have hf : Allowed S d' (f d') := h d' hr hi
  exact hf.trans (hg d' hr hf.2)

theorem ready_id (S : Set Lock) (d : Db) : Ready S id d := fun d' _ hi => ⟨.refl S d', hi⟩

end Others

end Emis.Access
