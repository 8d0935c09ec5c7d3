import Emis.Messaging.OutboxService

/-!
# What is published is what is received

A sealed payload is told by its shape, so a payload that has the shape by itself is
opened, which it does not survive.
-/

namespace Emis.Messaging

variable {Key : Type} {writer reader : Env Key}

theorem get_mem {payload : Payload} {key : Str} {v : Json} (h : payload.get key = some v) : (key, v) ∈ payload := by
  obtain ⟨f, hfind, rfl⟩ := Option.map_eq_some_iff.1 h
  have hkey : f.1 = key := by simpa using List.find?_some hfind
  exact hkey ▸ List.mem_of_find?_eq_some hfind

theorem get_of_mem {payload : Payload} {key : Str} {v : Json} (hkeys : (payload.map Prod.fst).Nodup)
    (h : (key, v) ∈ payload) : payload.get key = some v := by
  cases hfind : payload.find? fun f => f.1 == key with
  | none => exact absurd (List.find?_eq_none.1 hfind _ h) (by simp)
  | some f =>
      have hkey : f.1 = key := by simpa using List.find?_some hfind
      have heq : f = (key, v) := List.inj_on_of_nodup_map hkeys (List.mem_of_find?_eq_some hfind) h hkey
      rw [Payload.get, hfind, heq]
      rfl

/-- The same member is in every order of the keys. -/
theorem member_reordered {fields fields' : List (Str × Json)} {key s : Str}
    (h : (Json.obj fields).Reordered (.obj fields')) : (key, .str s) ∈ fields ↔ (key, .str s) ∈ fields' := by
  have hmember : ∀ fields : List (Str × Json), (key, Json.str s) ∈ fields ↔
      (key, Json.str s) ∈ sortKeys (normalFields fields) := by
    intro fields
    have hperm : (sortKeys (normalFields fields)).Perm (normalFields fields) := Transactions.orderBy_perm _ _
    rw [hperm.mem_iff, normalFields_eq, List.mem_map]
    constructor
    · exact fun hmem => ⟨_, hmem, rfl⟩
    · rintro ⟨⟨k, v⟩, hmem, heq⟩
      obtain ⟨rfl, hv⟩ := Prod.mk.inj heq
      cases v with
      | str s' => exact hv ▸ hmem
      | null | bool | num | arr | obj => simp [Json.normal] at hv
  have hnormal := h.normal
  simp only [Json.normal, Json.obj.injEq] at hnormal
  rw [hmember fields, hmember fields', hnormal]

theorem keys_reordered {fields fields' : List (Str × Json)} (h : (Json.obj fields).Reordered (.obj fields')) :
    (fields'.map Prod.fst).Perm (fields.map Prod.fst) := by
  have hkeys : ∀ fields : List (Str × Json),
      ((sortKeys (normalFields fields)).map Prod.fst).Perm (fields.map Prod.fst) := by
    intro fields
    have hperm : (sortKeys (normalFields fields)).Perm (normalFields fields) := Transactions.orderBy_perm _ _
    have hsame : (normalFields fields).map Prod.fst = fields.map Prod.fst := by
      rw [normalFields_eq, List.map_map]
      rfl
    exact hsame ▸ hperm.map Prod.fst
  have hnormal := h.normal
  simp only [Json.normal, Json.obj.injEq] at hnormal
  exact (hkeys fields').symm.trans (hnormal ▸ hkeys fields)

theorem obj_of_reordered {fields : List (Str × Json)} {v : Json} (h : (Json.obj fields).Reordered v) :
    ∃ fields', v = .obj fields' := by
  have hnormal := h.normal
  cases v with
  | obj fields' => exact ⟨fields', rfl⟩
  | null | bool | num | str | arr => simp [Json.normal] at hnormal

/-- A text read from a shorter one is no member of what is read. -/
theorem not_mem_of_parse {text s : Str} {fields : List (Str × Json)} {key : Str}
    (h : Json.parse text = some (.obj fields)) (hs : text.length < s.length) : (key, .str s) ∉ fields := by
  intro hmem
  have hall : allFields (shortIn text.length) fields = true := Json.parse_short h
  have hshort : s.length ≤ text.length := by
    simpa [Json.all, shortIn] using (allFields_iff.1 hall _ hmem).2
  omega

/-- A string that is stored under the key is found there. -/
theorem get_stored {payload stored : Payload} {key s : Str} (hdistinct : (Json.obj payload).Distinct)
    (h : (Json.obj payload).Reordered (.obj stored)) : stored.get key = some (.str s) ↔ (key, .str s) ∈ payload := by
  have hkeys : (stored.map Prod.fst).Nodup := (keys_reordered h).nodup_iff.2 hdistinct.1
  rw [member_reordered h]
  exact ⟨get_mem, get_of_mem hkeys⟩

section Published

variable {type : Str} {payload : Payload} {options : PublishOptions} {row : OutboxRow}

theorem type_of_published (h : outboxRow writer type payload options = .ok row) :
    row.type = type ∧ sealPayload writer type payload options.sensitive = .ok row.payload := by
  rw [outboxRow] at h
  cases hstored : sealPayload writer type payload options.sensitive with
  | error e => simp [hstored] at h
  | ok stored =>
      simp only [hstored, Except.map_ok, Except.ok.injEq] at h
      subst h
      exact ⟨rfl, rfl⟩

/-- What is sealed on one server is opened on another one that has its key. -/
theorem unsealed_sealed (hcrypto : writer.crypto.Lawful) (hsame : reader.crypto = writer.crypto)
    (hid : '.' ∉ writer.box.currentKeyId)
    (hknown : reader.box.key? writer.box.currentKeyId = writer.box.key? writer.box.currentKeyId)
    (hjsonb : ∀ p stored, (Json.obj p).Distinct → writer.jsonb p = .ok stored → (Json.obj p).Reordered (.obj stored))
    (hpayload : (Json.obj payload).Distinct) (hpublished : outboxRow writer type payload options = .ok row)
    (hsensitive : options.sensitive = true) : unsealed reader (storedEvent row) = .ok (.obj payload) := by
  obtain ⟨rfl, hstored⟩ := type_of_published hpublished
  rw [hsensitive, sealPayload, if_pos rfl] at hstored
  cases htext : writer.box.encrypt writer.crypto writer.iv (Json.print (.obj payload)) (sealedContext row.type) with
  | error e => simp [htext, bind, Except.bind] at hstored
  | ok text =>
      simp only [htext, bind, Except.bind] at hstored
      have hopened := SecretBox.decrypt_encrypt hcrypto hid hknown htext
      have hdistinct : (Json.obj [(SEALED, Json.str text)]).Distinct := by simp [Json.Distinct, DistinctFields]
      have hget : Payload.get (storedEvent row).payload SEALED = some (.str text) :=
        (get_stored hdistinct (hjsonb _ _ hdistinct hstored)).2 (List.mem_singleton_self _)
      have hparsed : parseJson (Json.print (.obj payload)) = .ok (.obj payload) := by
        rw [parseJson, Json.parse_print hpayload]
      rw [unsealed, hget, hsame]
      simp only [storedEvent, hopened]
      exact hparsed

/-- What is handed to the handlers is what was published, unless it was published in the
clear with a string of its own where the sealed text is kept. -/
theorem received_iff (hcrypto : writer.crypto.Lawful) (hsame : reader.crypto = writer.crypto)
    (hwriter : ∃ current previous, writer.box = .new writer.crypto current previous)
    (hknown : reader.box.key? writer.box.currentKeyId = writer.box.key? writer.box.currentKeyId)
    (hjsonb : ∀ p stored, (Json.obj p).Distinct → writer.jsonb p = .ok stored → (Json.obj p).Reordered (.obj stored))
    (hpayload : (Json.obj payload).Distinct) (hpublished : outboxRow writer type payload options = .ok row) :
    (∃ event, domainEvent reader (storedEvent row) = .ok event ∧ (Json.obj payload).Reordered event.payload) ↔
      options.sensitive = true ∨ ∀ s, (SEALED, .str s) ∉ payload := by
  have hid : '.' ∉ writer.box.currentKeyId := by
    obtain ⟨current, previous, hbox⟩ := hwriter
    rw [hbox]
    exact Encoded.noDot _
  cases hsensitive : options.sensitive with
  | true =>
      have hopens := unsealed_sealed hcrypto hsame hid hknown hjsonb hpayload hpublished hsensitive
      refine iff_of_true ⟨eventOf (storedEvent row) (.obj payload), ?_, .refl _⟩ (.inl rfl)
      rw [domainEvent, hopens]
      rfl
  | false =>
      obtain ⟨-, hstored⟩ := type_of_published hpublished
      rw [hsensitive, sealPayload, if_neg (by simp)] at hstored
      have hreordered := hjsonb payload row.payload hpayload hstored
      have hget : ∀ s, Payload.get (storedEvent row).payload SEALED = some (.str s) ↔ (SEALED, .str s) ∈ payload :=
        fun s => get_stored hpayload hreordered
      constructor
      · rintro ⟨event, hevent, hreceived⟩
        refine .inr fun s hs => ?_
        rw [domainEvent, unsealed, (hget s).2 hs] at hevent
        cases hopened : reader.box.decrypt reader.crypto s (sealedContext (storedEvent row).type) with
        | error e => simp only [hopened] at hevent; cases hevent
        | ok text =>
            simp only [hopened] at hevent
            cases hparsed : Json.parse text with
            | none => simp [parseJson, hparsed, bind, Except.bind] at hevent
            | some value =>
                have hvalue : event.payload = value := by
                  simp only [parseJson, hparsed, bind, Except.bind, Except.map_ok, Except.ok.injEq] at hevent
                  rw [← hevent]
                  rfl
                rw [hvalue] at hreceived
                obtain ⟨fields, rfl⟩ := obj_of_reordered hreceived
                have hshort := SecretBox.length_of_decrypt (hsame ▸ hcrypto) hopened
                exact not_mem_of_parse hparsed hshort ((member_reordered hreceived).1 hs)
      · rintro (hfalse | hplain)
        · cases hfalse
        refine ⟨eventOf (storedEvent row) (.obj row.payload), ?_, hreordered⟩
        have hclear : unsealed reader (storedEvent row) = .ok (.obj row.payload) := by
          rw [unsealed]
          split
          · rename_i s hs
            exact (hplain s ((hget s).1 hs)).elim
          · rfl
        rw [domainEvent, hclear]
        rfl

end Published

/-! ## A server -/

/-- A cipher that writes every character behind a mark and signs the associated data. -/
def spell (s : Str) : Str := s.flatMap fun c => if c = '.' then ['x', 'x'] else ['y', c]

def unspell : Str → Str
  | a :: b :: s => (if a = 'x' then '.' else b) :: unspell s
  | _ => []

theorem unspell_spell (s : Str) : unspell (spell s) = s := by
  induction s with
  | nil => rfl
  | cons c s ih =>
      by_cases hc : c = '.'
      · simpa [spell, unspell, hc] using ih
      · simpa [spell, unspell, hc] using ih

theorem unspell_length (s : Str) : (unspell s).length ≤ s.length := by
  fun_induction unspell s with
  | case1 a b s ih => simp only [List.length_cons]; omega
  | case2 => simp

def spelled (s : Str) : Encoded where
  text := spell s
  noDot := by
    simp only [spell, List.mem_flatMap, not_exists, not_and]
    intro c _
    split
    · simp
    · rename_i hc
      simpa using Ne.symm hc

def toyCrypto : Crypto ℕ where
  keyId key := spelled (Nat.toDigits 10 key)
  cipher _ _ aad plaintext := (spelled plaintext, spelled aad)
  decipher _ _ aad ciphertext tag := if tag = spell aad then some (unspell ciphertext) else none

theorem toyCrypto_lawful : toyCrypto.Lawful where
  opens key iv aad plaintext := by
    change (if spell aad = spell aad then some (unspell (spell plaintext)) else none) = some plaintext
    rw [if_pos rfl, unspell_spell]
  length key iv aad ciphertext tag plaintext h := by
    change (if tag = spell aad then some (unspell ciphertext) else none) = some plaintext at h
    split at h
    · obtain rfl := Option.some.inj h
      exact unspell_length ciphertext
    · cases h

def server : Env ℕ where
  crypto := toyCrypto
  box := .new toyCrypto 1 []
  iv := spelled []
  now := 0
  newId := 1
  requestId := none
  actorUserId := none
  jsonb := .ok

/-- The worker has the server's key among its previous ones. -/
def worker : Env ℕ := { server with box := .new toyCrypto 2 [1] }

def RESET : Str := "email.requested".toList

def sealedRow : OutboxRow :=
  newRow server RESET { sensitive := true } [(SEALED, .str (SecretBox.join [VERSION, spell ['1'], [],
    spell (Json.print (.obj [(SEALED, .str ['x'])])), spell (sealedContext RESET)]))]

theorem received_sealed : ∃ event, domainEvent worker (storedEvent sealedRow) = .ok event ∧
    (Json.obj [(SEALED, .str ['x'])]).Reordered event.payload := by
  have hdistinct : (Json.obj [(SEALED, .str ['x'])]).Distinct := by simp [Json.Distinct, DistinctFields]
  have hjsonb : ∀ p stored, (Json.obj p).Distinct → server.jsonb p = .ok stored →
      (Json.obj p).Reordered (.obj stored) := by
    rintro p _ - ⟨⟩
    exact .refl _
  have hpublished : outboxRow server RESET [(SEALED, .str ['x'])] { sensitive := true } = .ok sealedRow := rfl
  exact (@received_iff ℕ server worker _ _ _ _ toyCrypto_lawful rfl ⟨1, [], rfl⟩ (by decide) hjsonb hdistinct
    hpublished).2 (.inl rfl)

/-- A payload in the clear that has the shape of a sealed one is never handed to anybody. -/
theorem not_received : ∃ row, outboxRow server RESET [(SEALED, .str ['x'])] {} = .ok row ∧
    domainEvent worker (storedEvent row) = .error (SecretBoxError "Unsupported payload") := ⟨_, rfl, rfl⟩

end Emis.Messaging
