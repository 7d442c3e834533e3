/-
# LeaseLock.Proofs.LeaseTable -- the one lease table behind all backends

`Leases` is a lease table without a backend: a row for each key, and four operations on it at an
instant. The statements of every manager do what these operations say, whatever the shape of its
claim plan and the order of its placeholders. The rows of the real table are read through
`Table.row?`, and the two steps of a claim run one right after the other.

The exception is the table whose name shadows the proposed row of an upsert: one name then stands for
the row that is tested and for the row that is written, and a claim of SQLite writes nothing.
-/
import LeaseLock.Proofs.Shadowing
import LeaseLock.Manager

namespace LeaseLock

/-! ## The abstract table -/

/-- **Leases**: the row of each key. -/
abbrev Leases (δ : Type) := String → Option (Row δ)

namespace Leases

variable {δ : Type} [LinearOrder δ]

/-- A claim may have the place: there is no row, or an expired one, or one with the previous or the
unconfirmed token. -/
def isOpen (now : δ) (v : LeaseValues) (place : Option (Row δ)) : Bool :=
  place.all fun r => r.deadline ≤ now || (r.token = v.previousToken || r.token = v.unconfirmedToken)

/-- The place has a row with one of the two tokens of a handle. -/
def isOwned (v : LeaseValues) (place : Option (Row δ)) : Bool :=
  place.any fun r => r.token = v.token || r.token = v.unconfirmedToken

/-- The place has a row whose deadline is still to come. -/
def isLive (now : δ) (place : Option (Row δ)) : Bool := place.any fun r => now < r.deadline

/-- **Claim**: the claimed row takes an open place; any other place stays. -/
def claim (s : Leases δ) (now deadline : δ) (v : LeaseValues) : Bool × Leases δ :=
  if isOpen now v (s v.key) then
    (true, Function.update s v.key (some ⟨v.key, v.token, deadline⟩))
  else (false, s)

/-- **Extension**: a live row of the handle gets a new deadline. -/
def extend (s : Leases δ) (now deadline : δ) (v : LeaseValues) : Nat × Leases δ :=
  if isOwned v (s v.key) && isLive now (s v.key) then
    (1, Function.update s v.key ((s v.key).map fun r => { r with deadline }))
  else (0, s)

/-- **Release**: a row of the handle goes, whatever its deadline. -/
def release (s : Leases δ) (v : LeaseValues) : Nat × Leases δ :=
  if isOwned v (s v.key) then (1, Function.update s v.key none) else (0, s)

/-- **Purge**: the expired rows go, and no others. -/
def purge (s : Leases δ) (now : δ) : Leases δ := fun k => (s k).filter fun r => now < r.deadline

end Leases

section

variable {δ : Type} [LinearOrder δ]

/-! ## What it is to implement it -/

/-- **Answering** a request at a moment, in a table that nothing else touches. `cause` is what the
driver reports of a statement that failed. -/
def Table.answer (cause : Violation → Fault) (m : Moment δ) (t : Table δ) (r : Request) :
    Table δ × Reply :=
  match r.effect m t with
  | .ok (n, t') => (t', .answered (.ok n))
  | .error .duplicateKey => (t, .answered (.error (.duplicateKey (cause .duplicateKey))))
  | .error (.notNull column) => (t, .answered (.error (.database (cause (.notNull column)))))

section

variable {cause : Violation → Fault} {m : Moment δ} {t t' : Table δ} {r : Request}

theorem Table.answer_ok {n : Nat} (h : r.effect m t = .ok (n, t')) :
    Table.answer cause m t r = (t', .answered (.ok n)) := by
  rw [answer, h]

theorem Table.answer_duplicateKey (h : r.effect m t = .error .duplicateKey) :
    Table.answer cause m t r = (t, .answered (.error (.duplicateKey (cause .duplicateKey)))) := by
  rw [answer, h]

end

/-- A call goes on as another one, in a table with these rows. -/
def Call.Becomes {ω σ α : Type} (serve : ω → Request → ω × Reply) (view : ω → Leases δ) (w : ω)
    (c c' : Call σ α) (s : Leases δ) : Prop :=
  ∃ w', c.run serve w = c'.run serve w' ∧ view w' = s

namespace Call.Becomes

variable {ω σ α : Type} {serve : ω → Request → ω × Reply} {view : ω → Leases δ} {w w' : ω}
  {c c' : Call σ α} {s : Leases δ}

omit [LinearOrder δ] in
theorem refl : c.Becomes serve view w c (view w) := ⟨w, rfl, rfl⟩

omit [LinearOrder δ] in
/-- A call that waits goes on with the answer to its request. -/
theorem ask {request : Request} {reply : Reply} {held : σ} {resume : Reply → Call σ α}
    (hserve : serve w request = (w', reply)) (h : (resume reply).Becomes serve view w' c' s) :
    (Call.ask request held resume).Becomes serve view w c' s := by
  obtain ⟨w'', hrun, hview⟩ := h
  refine ⟨w'', ?_, hview⟩
  rw [Call.run, hserve]
  exact hrun

end Call.Becomes

/-- **Implementation** in one situation: a moment that reads `now` and from which the bound time to
live leads to `d`. The statements of the manager change the rows as the abstract operations do, and
tell as much. -/
structure Manager.Follows (M : Manager) (cause : Violation → Fault) (m : Moment δ) (now d : δ)
    (v : LeaseValues) (t : Table δ) : Prop where
  claim : ∀ {σ α : Type} (held : σ) (next : Except TransportError Bool → Call σ α),
    (M.claim v held next).Becomes (Table.answer cause m) Table.row? t
      (next (.ok (Leases.claim t.row? now d v).1)) (Leases.claim t.row? now d v).2
  extend : ∀ {σ α : Type} (held : σ) (next : Except TransportError Nat → Call σ α),
    (M.send M.extendStatement v held next).Becomes (Table.answer cause m) Table.row? t
      (next (.ok (Leases.extend t.row? now d v).1)) (Leases.extend t.row? now d v).2
  release : ∀ {σ α : Type} (held : σ) (next : Except TransportError Nat → Call σ α),
    (M.send M.releaseStatement v held next).Becomes (Table.answer cause m) Table.row? t
      (next (.ok (Leases.release t.row? v).1)) (Leases.release t.row? v).2
  purge : ∀ {σ α : Type} (held : σ) (next : Except TransportError Nat → Call σ α),
    (M.send M.purgeStatement v held next).Becomes (Table.answer cause m) Table.row? t
      (next (.ok (t.count fun r => r.deadline ≤ now))) (Leases.purge t.row? now)

/-- **Implementation** in every situation. -/
def Manager.ImplementsLeases (M : Manager) : Prop :=
  ∀ (δ : Type) [LinearOrder δ] (cause : Violation → Fault) (m : Moment δ) (now d : δ)
    (v : LeaseValues) (t : Table δ), m.now = some now →
    m.after (M.dialect.backend.boundTtl v.ttl) = some d → M.Follows cause m now d v t

/-! ## Rows at a moment that can be read -/

namespace Leases

variable {m : Moment δ} {now : δ} {v : LeaseValues} {r : Row δ}

theorem isExpired_eq (hnow : m.now = some now) : r.isExpired m = decide (r.deadline ≤ now) := by
  simp [Row.isExpired, hnow]

theorem isOpen_some (hnow : m.now = some now) : isOpen now v (some r) = r.isClaimable m v := by
  simp [isOpen, Row.isClaimable, isExpired_eq hnow, eq_comm]

omit [LinearOrder δ] in
theorem isOwned_some : isOwned v (some r) = r.isOwn v := by
  simp [isOwned, Row.isOwn, eq_comm]

theorem isLive_some (hnow : m.now = some now) : isLive now (some r) = r.isLive m := by
  simp [isLive, Row.isLive, hnow]

end Leases

/-! ## Statements that can be carried out -/

namespace Command

variable {m : Moment δ} {v : LeaseValues} {args : List Argument} {b : Int} {d : δ}
  {key token ttl : Slot}

omit [LinearOrder δ] in
/-- A row is put together as soon as its deadline can be computed. -/
theorem newRow_of_after (hk : Argument.textAt? args key = some v.key)
    (ht : Argument.textAt? args token = some v.token) (hb : Argument.intAt? args ttl = some b)
    (hd : m.after b = some d) : newRow m args key token ttl = .ok ⟨v.key, v.token, d⟩ := by
  simp only [newRow, tokenFor, deadlineFor, hk, ht, hb, hd, Option.bind_some]
  rfl

variable (t : Table δ) (hk : Argument.textAt? args key = some v.key)
  (ht : Argument.textAt? args token = some v.token) (hb : Argument.intAt? args ttl = some b)
  (hd : m.after b = some d)

include hk ht hb hd

/-- An upsert counts one at a free place. -/
theorem upsert_counts (c : Condition) :
    ∃ n t', (Command.upsert key token ttl c).effect m args t = .ok (n, t') ∧
      (t.row? v.key = none → n = 1) := by
  simp only [effect, newRow_of_after hk ht hb hd, bind, Except.bind]
  cases hold : t.row? v.key with
  | none => exact ⟨_, _, rfl, fun _ => rfl⟩
  | some old =>
      dsimp only
      split <;> exact ⟨_, _, rfl, fun h => absurd h (by simp)⟩

/-- A merge does what the upsert does, as long as its deadline can be computed. -/
theorem merge_eq_upsert (c : Condition) :
    (Command.merge key token ttl c).effect m args t = (Command.upsert key token ttl c).effect m args t := by
  simp only [effect, hk, Option.bind_some, newRow_of_after hk ht hb hd, bind, Except.bind]

theorem merge_counts (c : Condition) :
    ∃ n t', (Command.merge key token ttl c).effect m args t = .ok (n, t') ∧
      (t.row? v.key = none → n = 1) := by
  rw [merge_eq_upsert t hk ht hb hd c]
  exact upsert_counts t hk ht hb hd c

/-- An insertion counts one at a free place, and fails at any other. -/
theorem insert_counts :
    (t.row? v.key = none → ∃ t', (Command.insert key token ttl).effect m args t = .ok (1, t')) ∧
    ∀ r, t.row? v.key = some r →
      (Command.insert key token ttl).effect m args t = .error .duplicateKey := by
  simp only [effect, newRow_of_after hk ht hb hd, bind, Except.bind]
  constructor
  · intro free
    obtain ⟨t', ht'⟩ := Table.insert?_of_row?_eq_none (r := ⟨v.key, v.token, d⟩) free
    rw [ht']
    exact ⟨t', rfl⟩
  · intro r hr
    rw [Table.insert?_eq_none_iff.mpr ⟨r, hr⟩]
    rfl

omit hk in
/-- The update of a two-step claim counts nothing at a free place. -/
theorem takeOver_counts {c : Condition} (keyed : ∀ r : Row δ, c.holds m args r → r.key = v.key) :
    ∃ n t', (Command.takeOver token ttl c).effect m args t = .ok (n, t') ∧
      (t.row? v.key = none → n = 0) := by
  have count := Table.count_of_key (t := t) keyed
  simp only [effect, tokenFor, deadlineFor, ht, hb, hd, Option.bind_some]
  split
  · exact ⟨_, _, rfl, fun _ => rfl⟩
  · refine ⟨_, _, rfl, fun free => ?_⟩
    rw [free] at count
    exact count

omit hk ht in
theorem prolong_counts (c : Condition) :
    ∃ n t', (Command.prolong ttl c).effect m args t = .ok (n, t') := by
  simp only [effect, deadlineFor, hb, hd, Option.bind_some]
  split <;> exact ⟨_, _, rfl⟩

end Command

/-! ## From effects to operations -/

section

variable {b : Backend} {table : String} {op : Operation} {v : LeaseValues} {m : Moment δ}
  {now d : δ} {ttl : Int} {t t' : Table δ} {n : Nat}

/-- The rows afterwards, from the row of the key. -/
theorem Acts.row?_eq {shadowed : Bool} (h : Acts shadowed m ttl v op t n t') :
    t'.row? = Function.update t.row? v.key (t'.row? v.key) := by
  funext k
  by_cases hk : k = v.key
  · subst hk
    rw [Function.update_self]
  · rw [Function.update_of_ne hk, h.others k hk]

/-- A statement that counts nothing changes no row. -/
theorem Acts.row?_of_zero {shadowed : Bool} (h : Acts shadowed m ttl v op t 0 t') :
    t'.row? = t.row? := by
  rw [h.row?_eq, h.row.eq_of_zero, Function.update_eq_self]

/-- A claim that counts one at a free place is the abstract claim. -/
theorem Acts.claim_eq (h : Acts false m ttl v .acquire t n t') (hnow : m.now = some now)
    (hd : m.after ttl = some d) (hfree : t.row? v.key = none → n = 1) :
    Leases.claim t.row? now d v = (decide (0 < n), t'.row?) := by
  have rows := h.row?_eq
  have row := h.row
  generalize hold : t.row? v.key = old at row hfree
  generalize hnew : t'.row? v.key = new at row rows
  rw [Leases.claim, hold, rows]
  cases row with
  | refused hclaimable =>
      cases old with
      | none => exact absurd (hfree rfl) (by simp)
      | some r =>
          have shut : Leases.isOpen now v (some r) = false :=
            (Leases.isOpen_some hnow).trans (hclaimable r rfl)
          rw [if_neg (by simp [shut]), ← hold, Function.update_eq_self]
          rfl
  | taken hclaimable hd' =>
      obtain rfl := Option.some.inj (hd.symm.trans hd')
      have free : Leases.isOpen now v old = true := by
        cases old with
        | none => rfl
        | some r => exact (Leases.isOpen_some hnow).trans (hclaimable r rfl)
      rw [if_pos free]
      rfl
  | rewritten hshadowed _ => exact absurd hshadowed (by simp)

theorem Acts.extend_eq (h : Acts false m ttl v .extend t n t') (hnow : m.now = some now)
    (hd : m.after ttl = some d) : Leases.extend t.row? now d v = (n, t'.row?) := by
  have rows := h.row?_eq
  have row := h.row
  generalize hold : t.row? v.key = old at row
  generalize hnew : t'.row? v.key = new at row rows
  rw [Leases.extend, hold, rows]
  cases row with
  | unextended hother =>
      have skipped : (Leases.isOwned v old && Leases.isLive now old) = false := by
        cases old with
        | none => rfl
        | some r => rw [Leases.isOwned_some, Leases.isLive_some hnow, hother r rfl]
      rw [if_neg (by simp [skipped]), ← hold, Function.update_eq_self]
  | extended own live hd' =>
      obtain rfl := Option.some.inj (hd.symm.trans hd')
      rw [Leases.isOwned_some, Leases.isLive_some hnow, own, live]
      rfl

theorem Acts.release_eq (h : Acts false m ttl v .release t n t') :
    Leases.release t.row? v = (n, t'.row?) := by
  have rows := h.row?_eq
  have row := h.row
  generalize hold : t.row? v.key = old at row
  generalize hnew : t'.row? v.key = new at row rows
  rw [Leases.release, hold, rows]
  cases row with
  | unreleased hother =>
      have skipped : Leases.isOwned v old = false := by
        cases old with
        | none => rfl
        | some r => rw [Leases.isOwned_some, hother r rfl]
      rw [if_neg (by simp [skipped]), ← hold, Function.update_eq_self]
  | released own =>
      rw [Leases.isOwned_some, own]
      rfl

end

/-- What a purge leaves. -/
theorem Request.IsOf.purge_eq {b : Backend} {table : String} {v : LeaseValues} {r : Request}
    {m : Moment δ} {now : δ} {n : Nat} {t t' : Table δ} (h : Request.IsOf b table .purgeExpired v r)
    (heff : r.effect m t = .ok (n, t')) (hnow : m.now = some now) :
    Leases.purge t.row? now = t'.row? := by
  funext k
  rw [h.purge_row? heff, Leases.purge]
  congr 1
  funext r
  rw [Leases.isExpired_eq hnow, Bool.eq_iff_iff]
  simp

/-! ## The statements of each backend -/

section

variable {b : Backend} {table : String} {v : LeaseValues} {m : Moment δ} {d : δ}
  {s update insert : Statement} (limit : Option Duration) (t : Table δ)

/-- In a table that shadows nothing the commands mean what they mean everywhere. -/
theorem Statement.effect_eq (h : s.backend.shadows s.table = false) (args : List Argument) :
    s.effect m args t = s.command.effect m args t := by
  obtain ⟨backend, table, command, parameters⟩ := s
  cases backend with
  | sqlite =>
      have plain : Sqlite.Database.shadowsProposal table = false := by
        simpa [Backend.shadows] using h
      show Sqlite.Database.effectOn table m args t command = _
      unfold Sqlite.Database.effectOn
      rw [plain]
      cases command <;> rfl
  | mysql | postgres | mssql => rfl

/-- A claim by one statement is carried out, and takes a free place. -/
theorem Backend.single_counts (hplan : b.claim table = .single s) (hs : b.shadows table = false)
    (hd : m.after (b.boundTtl v.ttl) = some d) :
    ∃ n t', Request.effect ⟨s, s.bind v, limit⟩ m t = .ok (n, t') ∧ (t.row? v.key = none → n = 1) := by
  cases b with
  | sqlite =>
      obtain rfl := ClaimPlan.single.inj hplan
      rw [Request.effect, Statement.effect_eq t hs]
      exact Command.upsert_counts t rfl rfl rfl hd _
  | postgres =>
      obtain rfl := ClaimPlan.single.inj hplan
      exact Command.upsert_counts t rfl rfl rfl hd _
  | mssql =>
      obtain rfl := ClaimPlan.single.inj hplan
      exact Command.merge_counts t rfl rfl rfl hd _
  | mysql => exact absurd hplan (by simp [claim])

/-- The update of a two-step claim is carried out, and passes over a free place. -/
theorem Backend.update_counts (hplan : b.claim table = .updateThenInsert update insert)
    (hd : m.after (b.boundTtl v.ttl) = some d) :
    ∃ n t', Request.effect ⟨update, update.bind v, limit⟩ m t = .ok (n, t') ∧
      (t.row? v.key = none → n = 0) := by
  cases b with
  | mysql =>
      obtain ⟨rfl, rfl⟩ := ClaimPlan.updateThenInsert.inj hplan
      refine Command.takeOver_counts t rfl rfl hd fun r hr => ?_
      have key : (Condition.keyIs 3).holds m _ r = true := (Bool.and_eq_true_iff.mp hr).1
      exact (Option.some.inj (of_decide_eq_true key)).symm
  | sqlite | postgres | mssql => exact absurd hplan (by simp [claim])

/-- The insert of a two-step claim takes a free place, and fails at any other. -/
theorem Backend.insert_counts (hplan : b.claim table = .updateThenInsert update insert)
    (hd : m.after (b.boundTtl v.ttl) = some d) :
    (t.row? v.key = none → ∃ t', Request.effect ⟨insert, insert.bind v, limit⟩ m t = .ok (1, t')) ∧
    ∀ r, t.row? v.key = some r →
      Request.effect ⟨insert, insert.bind v, limit⟩ m t = .error .duplicateKey := by
  cases b with
  | mysql =>
      obtain ⟨rfl, rfl⟩ := ClaimPlan.updateThenInsert.inj hplan
      exact Command.insert_counts t rfl rfl rfl hd
  | sqlite | postgres | mssql => exact absurd hplan (by simp [claim])

/-- Some statement of a claim writes the row of a free key. -/
theorem Backend.exists_claim (hs : b.shadows table = false)
    (hd : m.after (b.boundTtl v.ttl) = some d) (hfree : t.row? v.key = none) :
    ∃ r t', Request.IsOf b table .acquire v r ∧ r.effect m t = .ok (1, t') ∧
      t'.row? v.key = some ⟨v.key, v.token, d⟩ := by
  obtain ⟨s, t', hmem, heff⟩ : ∃ s t', s ∈ (b.claim table).statements ∧
      Request.effect ⟨s, s.bind v, none⟩ m t = .ok (1, t') := by
    cases hplan : b.claim table with
    | single s =>
        obtain ⟨n, t', heff, hone⟩ := single_counts none t hplan hs hd
        obtain rfl := hone hfree
        exact ⟨s, t', List.mem_singleton_self s, heff⟩
    | updateThenInsert update insert =>
        obtain ⟨t', heff⟩ := (insert_counts none t hplan hd).1 hfree
        exact ⟨insert, t', by simp [ClaimPlan.statements], heff⟩
  have row := ((Request.IsOf.claim hmem).acts (by simp) heff).row
  rw [hs, hfree] at row
  refine ⟨_, t', .claim hmem, heff, ?_⟩
  generalize t'.row? v.key = new at row
  cases row with
  | taken _ hd' => rw [Option.some.inj (hd.symm.trans hd')]

/-- An extension is carried out. -/
theorem Backend.extend_counts (hd : m.after (b.boundTtl v.ttl) = some d) :
    ∃ n t', Request.effect ⟨b.extend table, (b.extend table).bind v, limit⟩ m t = .ok (n, t') := by
  cases b <;> exact Command.prolong_counts t rfl hd _

/-- A purge is carried out, and counts what has expired. -/
theorem Backend.purge_counts {now : δ} (hnow : m.now = some now) :
    ∃ t', Request.effect ⟨b.purge table, (b.purge table).bind v, limit⟩ m t =
      .ok (t.count fun r => r.deadline ≤ now, t') := by
  have expired : ∀ args : List Argument, (fun r : Row δ => Condition.expired.holds m args r) =
      fun r => decide (r.deadline ≤ now) := by
    intro args
    funext r
    simp [Condition.holds, hnow]
  cases b <;> exact ⟨_, by rw [← expired]; rfl⟩

end

/-! ## The calls of a manager -/

section

variable {M : Manager} {cause : Violation → Fault} {m : Moment δ} {now d : δ} {v : LeaseValues}
  {t t' : Table δ} {n : Nat} {s update insert : Statement} {σ α : Type} (held : σ)

/-- A statement that is carried out hands its count on. -/
theorem Manager.send_becomes (next : Except TransportError Nat → Call σ α)
    (heff : (M.request s v).effect m t = .ok (n, t')) :
    (M.send s v held next).Becomes (Table.answer cause m) Table.row? t (next (.ok n)) t'.row? :=
  .ask (Table.answer_ok heff) .refl

variable (hs : M.dialect.backend.shadows M.tableName = false) (hnow : m.now = some now)
  (hd : m.after (M.dialect.backend.boundTtl v.ttl) = some d)
  (next : Except TransportError Bool → Call σ α)

include hs hnow hd

theorem Manager.single_follows (hplan : M.claimPlan = .single s) :
    (M.claim v held next).Becomes (Table.answer cause m) Table.row? t
      (next (.ok (Leases.claim t.row? now d v).1)) (Leases.claim t.row? now d v).2 := by
  obtain ⟨n, t', heff, hfree⟩ :=
    Backend.single_counts M.timeout t hplan hs hd
  have isOf : Request.IsOf M.dialect.backend M.tableName .acquire v (M.request s v) :=
    .claim (by rw [← claimPlan, hplan]; exact List.mem_singleton_self s)
  have acts := isOf.acts (by simp) heff
  rw [hs] at acts
  rw [acts.claim_eq hnow hd hfree, claim, hplan]
  exact send_becomes held _ heff

theorem Manager.updateThenInsert_follows (hplan : M.claimPlan = .updateThenInsert update insert) :
    (M.claim v held next).Becomes (Table.answer cause m) Table.row? t
      (next (.ok (Leases.claim t.row? now d v).1)) (Leases.claim t.row? now d v).2 := by
  obtain ⟨n, t₁, heff, hfree⟩ := Backend.update_counts M.timeout t hplan hd
  have isOf : ∀ s ∈ [update, insert],
      Request.IsOf M.dialect.backend M.tableName .acquire v (M.request s v) := by
    intro s hmem
    exact .claim (by rw [← claimPlan, hplan]; exact hmem)
  have acts := (isOf update (by simp)).acts (by simp) heff
  rw [hs] at acts
  rw [claim, hplan]
  refine .ask (Table.answer_ok heff) ?_
  show (if 0 < n then next (.ok true) else _).Becomes _ _ _ _ _
  by_cases hn : 0 < n
  · -- the update has taken a row over
    rw [acts.claim_eq hnow hd fun free => absurd hn (by simp [hfree free]), if_pos hn]
    simpa [hn] using Call.Becomes.refl
  · -- the insert follows, in a table with the same rows
    obtain rfl : n = 0 := by omega
    have same : t₁.row? = t.row? := acts.row?_of_zero
    obtain ⟨takes, fails⟩ := Backend.insert_counts M.timeout t₁ hplan hd
    rw [if_neg hn]
    cases hold : t.row? v.key with
    | none =>
        obtain ⟨t₂, heff₂⟩ := takes (by rw [same, hold])
        have acts₂ := (isOf insert (by simp)).acts (by simp) heff₂
        rw [hs] at acts₂
        rw [← same, acts₂.claim_eq hnow hd fun _ => rfl]
        exact .ask (Table.answer_ok heff₂) .refl
    | some r =>
        rw [acts.claim_eq hnow hd fun free => absurd (hold.symm.trans free) (by simp)]
        exact .ask (Table.answer_duplicateKey (fails r (by rw [same, hold]))) .refl

/-- **A table that shadows nothing** is a lease table on every backend. -/
theorem Manager.follows : M.Follows cause m now d v t where
  claim held next := by
    cases hplan : M.claimPlan with
    | single s => exact single_follows held hs hnow hd next hplan
    | updateThenInsert update insert => exact updateThenInsert_follows held hs hnow hd next hplan
  extend held next := by
    obtain ⟨n, t', heff⟩ := Backend.extend_counts M.timeout t hd
    have isOf : Request.IsOf M.dialect.backend M.tableName .extend v
        (M.request M.extendStatement v) := .extend
    have acts := isOf.acts (by simp) heff
    rw [hs] at acts
    rw [acts.extend_eq hnow hd]
    exact send_becomes held next heff
  release held next := by
    have isOf : Request.IsOf M.dialect.backend M.tableName .release v
        (M.request M.releaseStatement v) := .release
    obtain ⟨n, t', heff⟩ := isOf.release_effect m t
    have acts := isOf.acts (by simp) heff
    rw [hs] at acts
    rw [acts.release_eq]
    exact send_becomes held next heff
  purge held next := by
    obtain ⟨t', heff⟩ := Backend.purge_counts M.timeout t hnow
    have isOf : Request.IsOf M.dialect.backend M.tableName .purgeExpired v
        (M.request M.purgeStatement v) := .purge
    rw [isOf.purge_eq heff hnow]
    exact send_becomes held next heff

end

end

/-! ## The table that shadows the proposed row -/

/-- An expired row of somebody else. -/
def leftover : Table Int := ⟨[⟨"job", "theirs", 0⟩], by simp⟩

/-- A claim on an expired row. -/
def secondClaim (ttl : Duration) : LeaseValues := ⟨"job", "ours", "", "ours", ttl⟩

/-- A claim in a table that shadows the proposed row counts the expired row and leaves it there. -/
theorem sqliteClaim_leftover {table : String} (h : Sqlite.Database.shadowsProposal table)
    (ttl : Duration) (limit : Option Duration) {m : Moment Int} (hnow : m.now = some 1) {d : Int}
    (hd : m.after (Backend.sqlite.boundTtl ttl) = some d) :
    Request.effect ⟨sqliteClaim table, (sqliteClaim table).bind (secondClaim ttl), limit⟩ m leftover =
      .ok (1, leftover) := by
  have row : leftover.row? (secondClaim ttl).key = some ⟨"job", "theirs", 0⟩ := rfl
  have expired : Row.isClaimable m (secondClaim ttl) ⟨"job", "theirs", 0⟩ = true := by
    simp [Row.isClaimable, Row.isExpired, hnow]
  rw [sqliteClaim_effect h (secondClaim ttl) limit m leftover hd, row]
  simp [expired]

/-- **Which tables are lease tables**: all of them on every backend, but for the one name that breaks
the claims of SQLite. -/
theorem Manager.implements_iff_not_shadows (M : Manager) :
    M.ImplementsLeases ↔ M.dialect.backend.shadows M.tableName = false := by
  constructor
  · intro h
    by_contra hs
    rw [Bool.not_eq_false] at hs
    obtain ⟨backend, shadowed⟩ := Bool.and_eq_true_iff.mp hs
    have sqlite : M.dialect.backend = .sqlite := of_decide_eq_true backend
    have hplan : M.claimPlan = .single (sqliteClaim M.tableName) := by
      rw [claimPlan, sqlite]
      rfl
    let m : Moment Int := ⟨some 1, fun ttl => some (1 + ttl)⟩
    let v : LeaseValues := secondClaim (.ofSeconds 1)
    have heff : (M.request (sqliteClaim M.tableName) v).effect m leftover = .ok (1, leftover) :=
      sqliteClaim_leftover shadowed _ M.timeout rfl rfl
    have follows := h Int (fun _ => .bare "") m 1 _ v leftover rfl rfl
    obtain ⟨t', hrun, hrows⟩ := follows.claim () fun r => .done () r []
    rw [claim, hplan] at hrun
    have same : t' = leftover := by
      simp only [send, Call.run, Table.answer_ok heff] at hrun
      exact (congrArg Prod.fst hrun).symm
    -- the abstract claim has put its own row at the key
    have taken := congrArg (Option.map Row.token) (congrFun hrows "job")
    rw [same] at taken
    simp [v, leftover, secondClaim, Leases.claim, Leases.isOpen, Table.row?] at taken
  · intro hs δ _ cause m now d v t hnow hd
    exact follows hs hnow hd

end LeaseLock
