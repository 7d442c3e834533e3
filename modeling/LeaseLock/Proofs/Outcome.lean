/-
# LeaseLock.Proofs.Outcome -- what each statement comes to

A deadline may lie beyond what a database can compute. Then a statement that would write it fails, and
a statement that writes nothing may fail as well, if its server computes the deadline before it looks
at the row. With these two cases added, the operations of the abstract lease table say what each
statement comes to at every moment that can be read: its count or its failure, and the rows it leaves.
-/
import LeaseLock.Proofs.Uninterrupted

namespace LeaseLock

variable {δ : Type} [LinearOrder δ]

/-! ## Operations that may lack their deadline -/

/-- The failure of a statement whose deadline is null. -/
def nullDeadline : Violation := .notNull "expires_at"

namespace Leases

/-- **Claim**, with a deadline or without one. An eager server misses the deadline even where the place
is not open. -/
def tryClaim (s : Leases δ) (eager : Bool) (now : δ) (deadline? : Option δ) (v : LeaseValues) :
    Except Violation Bool × Leases δ :=
  match deadline? with
  | some d => (.ok (s.claim now d v).1, (s.claim now d v).2)
  | none => (if eager || isOpen now v (s v.key) then .error nullDeadline else .ok false, s)

/-- **Extension**, with a deadline or without one. -/
def tryExtend (s : Leases δ) (now : δ) (deadline? : Option δ) (v : LeaseValues) :
    Except Violation Nat × Leases δ :=
  match deadline? with
  | some d => (.ok (s.extend now d v).1, (s.extend now d v).2)
  | none =>
    (if isOwned v (s v.key) && isLive now (s v.key) then .error nullDeadline else .ok 0, s)

end Leases

/-- Whether the claim of a backend computes its deadline first. -/
def Backend.eager : Backend → Bool
  | .mssql => false
  | _ => true

/-- **What a request comes to** in a table: its outcome, and the rows it leaves. -/
def Request.Does (r : Request) (m : Moment δ) (t : Table δ) (o : Except Violation Nat × Leases δ) :
    Prop :=
  (r.outcome m t).1 = o.1 ∧ (r.outcome m t).2.row? = o.2

section

variable {r : Request} {m : Moment δ} {t t' : Table δ}

theorem Request.does_of_ok {n : Nat} (h : r.effect m t = .ok (n, t')) :
    r.Does m t (.ok n, t'.row?) := by
  simp [Does, outcome, h]

theorem Request.does_of_error {e : Violation} (h : r.effect m t = .error e) :
    r.Does m t (.error e, t.row?) := by
  simp [Does, outcome, h]

end

/-- A statement of a handle counts one row at most. -/
theorem RowEffect.le_one {shadowed : Bool} {m : Moment δ} {ttl : Int} {v : LeaseValues}
    {op : Operation} {n : Nat} {old new : Option (Row δ)}
    (h : RowEffect shadowed m ttl v op old n new) : n ≤ 1 := by
  cases h <;> omega

/-- Only claims mind the name of the table. -/
theorem RowEffect.unshadowed {shadowed : Bool} {m : Moment δ} {ttl : Int} {v : LeaseValues}
    {op : Operation} {n : Nat} {old new : Option (Row δ)}
    (h : RowEffect shadowed m ttl v op old n new) (hop : op ≠ .acquire) :
    RowEffect false m ttl v op old n new := by
  cases h with
  | refused _ | taken _ _ | rewritten _ _ => exact absurd rfl hop
  | unextended hc => exact .unextended hc
  | extended own live hd => exact .extended own live hd
  | unreleased hc => exact .unreleased hc
  | released own => exact .released own

/-! ## Commands without a deadline -/

namespace Command

variable {m : Moment δ} {v : LeaseValues} {args : List Argument} {b : Int} {key token ttl p u : Slot}
  (t : Table δ)

section

variable (hb : Argument.intAt? args ttl = some b) (hd : m.after b = none)

include hb hd

omit [LinearOrder δ] in
theorem deadlineFor_null : deadlineFor m args ttl = .error nullDeadline := by
  rw [deadlineFor, hb, Option.bind_some, hd]
  rfl

variable (ht : Argument.textAt? args token = some v.token)

include ht

/-- The update of a two-step claim passes its row over, or fails. -/
theorem takeOver_null (c : Condition) :
    (takeOver token ttl c).effect m args t = .ok (0, t) ∨
      (takeOver token ttl c).effect m args t = .error nullDeadline := by
  simp only [effect, tokenFor, ht, deadlineFor_null hb hd]
  split
  · exact Or.inl rfl
  · exact Or.inr rfl

variable (hk : Argument.textAt? args key = some v.key)

include hk

omit [LinearOrder δ] in
theorem newRow_null : newRow m args key token ttl = .error nullDeadline := by
  simp only [newRow, tokenFor, hk, ht, deadlineFor_null hb hd]
  rfl

theorem upsert_null (c : Condition) :
    (upsert key token ttl c).effect m args t = .error nullDeadline := by
  simp only [effect, newRow_null hb hd ht hk]
  rfl

theorem insert_null : (insert key token ttl).effect m args t = .error nullDeadline := by
  simp only [effect, newRow_null hb hd ht hk]
  rfl

/-- A merge looks at the row first, and fails only where it would write. -/
theorem merge_null (hp : Argument.textAt? args p = some v.previousToken)
    (hu : Argument.textAt? args u = some v.unconfirmedToken) {now : δ} (hnow : m.now = some now) :
    (merge key token ttl (.claimable p u)).effect m args t =
      if Leases.isOpen now v (t.row? v.key) then .error nullDeadline else .ok (0, t) := by
  simp only [effect, hk, Option.bind_some, newRow_null hb hd ht hk]
  cases hrow : t.row? v.key with
  | none => rfl
  | some old =>
      rw [Leases.isOpen_some hnow, ← holds_claimable hp hu]
      rfl

end

/-- An extension fails only where it would write. -/
theorem prolong_null {k x y : Slot} (hb : Argument.intAt? args ttl = some b)
    (hd : m.after b = none) (hk : Argument.textAt? args k = some v.key)
    (hx : Argument.textAt? args x = some v.token)
    (hy : Argument.textAt? args y = some v.unconfirmedToken) {now : δ} (hnow : m.now = some now) :
    (prolong ttl (.and (.owned k x y) .live)).effect m args t =
      if Leases.isOwned v (t.row? v.key) && Leases.isLive now (t.row? v.key) then
        .error nullDeadline else .ok (0, t) := by
  cases hrow : t.row? v.key with
  | none =>
      exact prolong_unmatched hk hx hy fun r hr => absurd (hrow.symm.trans hr) (by simp)
  | some old =>
      rw [Leases.isOwned_some, Leases.isLive_some hnow]
      by_cases hc : (old.isOwn v && old.isLive m) = true
      · have picks : ∀ r : Row δ, (Condition.and (.owned k x y) .live).holds m args r =
            (decide (r.key = v.key) && (r.isOwn v && r.isLive m)) := by
          intro r
          rw [Condition.holds, holds_owned hk hx hy, Bool.and_assoc]
          rfl
        have one : t.count (fun r => decide (r.key = v.key) && (r.isOwn v && r.isLive m)) = 1 := by
          rw [Table.count_of_key fun _ => Row.key_of_picked, hrow]
          simp [Table.key_of_row? hrow, hc]
        simp only [effect, picks, one, deadlineFor_null hb hd]
        rw [if_pos hc]
        rfl
      · rw [if_neg hc]
        refine prolong_unmatched hk hx hy fun r hr => ?_
        obtain rfl := Option.some.inj (hrow.symm.trans hr)
        simpa using hc

end Command

/-! ## The statements of each backend -/

section

variable {b : Backend} {table : String} {v : LeaseValues} {m : Moment δ} {now : δ}
  {s update insert : Statement} (limit : Option Duration) (t : Table δ)

/-- **A claim by one statement** is the abstract claim. -/
theorem Backend.single_does (hplan : b.claim table = .single s) (hs : b.shadows table = false)
    (hnow : m.now = some now) :
    Request.Does ⟨s, s.bind v, limit⟩ m t
      ((Leases.tryClaim t.row? b.eager now (m.after (b.boundTtl v.ttl)) v).1.map Bool.toNat,
        (Leases.tryClaim t.row? b.eager now (m.after (b.boundTtl v.ttl)) v).2) := by
  have isOf : Request.IsOf b table .acquire v ⟨s, s.bind v, limit⟩ :=
    .claim (by rw [hplan]; exact List.mem_singleton_self s)
  cases hd : m.after (b.boundTtl v.ttl) with
  | some d =>
      obtain ⟨n, t', heff, hfree⟩ := single_counts limit t hplan hs hd
      have acts := isOf.acts (by simp) heff
      rw [hs] at acts
      have verdict : (decide (0 < n)).toNat = n := by
        have := acts.row.le_one
        rcases Nat.eq_zero_or_pos n with rfl | hn
        · rfl
        · rw [decide_eq_true hn]
          show 1 = n
          omega
      have does := Request.does_of_ok heff
      rw [← verdict] at does
      simp only [Leases.tryClaim, acts.claim_eq hnow hd hfree]
      exact does
  | none =>
      cases b with
      | sqlite =>
          obtain rfl := ClaimPlan.single.inj hplan
          refine Request.does_of_error ?_
          rw [Request.effect, Statement.effect_eq t hs]
          exact Command.upsert_null t rfl hd rfl rfl _
      | postgres =>
          obtain rfl := ClaimPlan.single.inj hplan
          exact Request.does_of_error (Command.upsert_null t rfl hd rfl rfl _)
      | mssql =>
          obtain rfl := ClaimPlan.single.inj hplan
          have heff : (Command.merge 1 2 3 (.claimable 4 5)).effect m
              (v.bind [.key, .token, .ttlMillis, .previousToken, .unconfirmedToken]) t =
                if Leases.isOpen now v (t.row? v.key) then .error nullDeadline else .ok (0, t) :=
            Command.merge_null t rfl hd rfl rfl rfl rfl hnow
          simp only [Leases.tryClaim, eager, Bool.false_or]
          split at heff
          · rename_i hopen
            rw [if_pos hopen]
            exact Request.does_of_error heff
          · rename_i hshut
            rw [if_neg hshut]
            exact Request.does_of_ok heff
      | mysql => exact absurd hplan (by simp [claim])

/-- **An extension** is the abstract extension. -/
theorem Backend.extend_does (b : Backend) (table : String) (hnow : m.now = some now) :
    Request.Does ⟨b.extend table, (b.extend table).bind v, limit⟩ m t
      (Leases.tryExtend t.row? now (m.after (b.boundTtl v.ttl)) v) := by
  have isOf : Request.IsOf b table .extend v ⟨b.extend table, (b.extend table).bind v, limit⟩ :=
    .extend
  cases hd : m.after (b.boundTtl v.ttl) with
  | some d =>
      obtain ⟨n, t', heff⟩ := extend_counts limit t hd
      have acts := isOf.acts (by simp) heff
      have unshadowed : Acts false m (b.boundTtl v.ttl) v .extend t n t' :=
        ⟨acts.row.unshadowed (by simp), acts.others⟩
      simp only [Leases.tryExtend, unshadowed.extend_eq hnow hd]
      exact Request.does_of_ok heff
  | none =>
      have heff : Request.effect ⟨b.extend table, (b.extend table).bind v, limit⟩ m t =
          if Leases.isOwned v (t.row? v.key) && Leases.isLive now (t.row? v.key) then
            .error nullDeadline else .ok (0, t) := by
        cases b <;> exact Command.prolong_null (v := v) t rfl hd rfl rfl rfl hnow
      simp only [Leases.tryExtend]
      split at heff
      · rename_i hmatched
        rw [if_pos hmatched]
        exact Request.does_of_error heff
      · rename_i hmissed
        rw [if_neg hmissed]
        exact Request.does_of_ok heff

/-- **A release** is the abstract release. -/
theorem Backend.release_does (b : Backend) (table : String) :
    Request.Does ⟨b.release table, (b.release table).bind v, limit⟩ m t
      (.ok (Leases.release t.row? v).1, (Leases.release t.row? v).2) := by
  have isOf : Request.IsOf b table .release v ⟨b.release table, (b.release table).bind v, limit⟩ :=
    .release
  obtain ⟨n, t', heff⟩ := isOf.release_effect m t
  have acts := isOf.acts (by simp) heff
  have unshadowed : Acts false m (b.boundTtl v.ttl) v .release t n t' :=
    ⟨acts.row.unshadowed (by simp), acts.others⟩
  rw [unshadowed.release_eq]
  exact Request.does_of_ok heff

/-- **A purge** is the abstract purge. -/
theorem Backend.purge_does (b : Backend) (table : String) (hnow : m.now = some now) :
    Request.Does ⟨b.purge table, (b.purge table).bind v, limit⟩ m t
      (.ok (t.count fun r => r.deadline ≤ now), Leases.purge t.row? now) := by
  have isOf : Request.IsOf b table .purgeExpired v ⟨b.purge table, (b.purge table).bind v, limit⟩ :=
    .purge
  obtain ⟨t', heff⟩ : ∃ t', Request.effect ⟨b.purge table, (b.purge table).bind v, limit⟩ m t =
      .ok (t.count fun r => r.deadline ≤ now, t') := purge_counts limit t hnow
  rw [isOf.purge_eq heff hnow]
  exact Request.does_of_ok heff

/-- What a driver reports of a statement that fails for want of a deadline. -/
theorem Table.answer_nullDeadline {cause : Violation → Fault} {r : Request}
    (h : r.effect m t = .error nullDeadline) :
    Table.answer cause m t r = (t, .answered (.error (.database (cause nullDeadline)))) := by
  rw [answer, h]
  rfl

/-- What is told of a claim that comes to this. -/
def verdict (cause : Violation → Fault) : Except Violation Bool → Except TransportError Bool
  | .ok won => .ok won
  | .error e => .error (.database (cause e))

/-- **A claim by two statements** is the abstract claim of an eager server. -/
theorem Manager.twoStep_becomes {M : Manager} (cause : Violation → Fault) {σ α : Type} (held : σ)
    (next : Except TransportError Bool → Call σ α)
    (hplan : M.claimPlan = .updateThenInsert update insert) (hnow : m.now = some now) :
    (M.claim v held next).Becomes (Table.answer cause m) Table.row? t
      (next (verdict cause (Leases.tryClaim t.row? true now
        (m.after (M.dialect.backend.boundTtl v.ttl)) v).1))
      (Leases.tryClaim t.row? true now (m.after (M.dialect.backend.boundTtl v.ttl)) v).2 := by
  have mysql : M.dialect.backend = .mysql := by
    cases hb : M.dialect.backend with
    | mysql => rfl
    | sqlite | postgres | mssql => exact absurd hplan (by simp [claimPlan, hb, Backend.claim])
  have hs : M.dialect.backend.shadows M.tableName = false := by rw [mysql]; rfl
  cases hd : m.after (M.dialect.backend.boundTtl v.ttl) with
  | some d => exact (Manager.follows hs hnow hd).claim held next
  | none =>
      rw [mysql] at hd
      have plan : Backend.mysql.claim M.tableName = .updateThenInsert update insert := by
        rw [← mysql]
        exact hplan
      obtain ⟨rfl, rfl⟩ := ClaimPlan.updateThenInsert.inj plan
      rw [Manager.claim, hplan]
      -- the update fails, or it passes the row over and then the insert fails
      have runs := Command.takeOver_null (v := v) t
        (show Argument.intAt? (v.bind [.token, .ttlMicros, .key, .previousToken, .unconfirmedToken]) 2 =
          some (Backend.mysql.boundTtl v.ttl) from rfl) hd
        (show Argument.textAt? _ 1 = some v.token from rfl) (.and (.keyIs 3) (.claimable 4 5))
      rcases runs with heff | heff
      · have fails : (Command.insert 1 2 3).effect m (v.bind [.key, .token, .ttlMicros]) t =
            .error nullDeadline := Command.insert_null (v := v) t rfl hd rfl rfl
        refine .ask (Table.answer_ok heff) ?_
        exact .ask (Table.answer_nullDeadline t fails) .refl
      · exact .ask (Table.answer_nullDeadline t heff) .refl

end

end LeaseLock
