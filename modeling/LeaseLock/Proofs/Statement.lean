/-
# LeaseLock.Proofs.Statement -- what the statements of every backend do to a row

Five statements in four spellings come down to a few changes of one row. `RowEffect` lists them: what
may stand at the key before a claim, an extension or a release, how many rows count as affected, and
what stands there afterwards. `Request.IsOf.acts` is the one place where the commands of the backends
are opened; everything about runs is derived from it.

The one backend that does not follow the rule is SQLite with a table whose name shadows the proposed
row of an upsert. There a claim that meets a row counts it and writes its old values back
(`RowEffect.rewritten`).
-/
import LeaseLock.Call
import LeaseLock.Proofs.Table
import LeaseLock.Sqlite.Database
import LeaseLock.Token

namespace LeaseLock

/-! ## Rows at a moment -/

section

variable {δ : Type} [LT δ] [DecidableLT δ]

namespace Row

/-- The deadline is not after now. -/
def isExpired (m : Moment δ) (r : Row δ) : Bool := m.now.any fun now => ¬ now < r.deadline

/-- The deadline is after now. -/
def isLive (m : Moment δ) (r : Row δ) : Bool := m.now.any fun now => now < r.deadline

/-- A claim with these values may overwrite the row. -/
def isClaimable (m : Moment δ) (v : LeaseValues) (r : Row δ) : Bool :=
  r.isExpired m || (v.previousToken = r.token || v.unconfirmedToken = r.token)

/-- The row carries one of the tokens by which an extension or a release finds its own row. -/
def isOwn (v : LeaseValues) (r : Row δ) : Bool := v.token = r.token || v.unconfirmedToken = r.token

end Row

/-! ## Effects on one row -/

/-- The number that a backend binds for a time to live. -/
def Backend.boundTtl : Backend → Duration → Int
  | .mssql, ttl => min ttl.millis maxTtlMillis
  | _, ttl => min ttl.micros maxTtlMicros

theorem Backend.boundTtl_nonneg (b : Backend) (ttl : Duration) : 0 ≤ b.boundTtl ttl := by
  cases b <;> simp only [boundTtl] <;> omega

/-- Whether claims on this table go wrong because its name shadows the proposed row. -/
def Backend.shadows (b : Backend) (table : String) : Bool :=
  b = .sqlite && Sqlite.Database.shadowsProposal table

/-- **What a server makes of a statement.** -/
def Statement.effect (s : Statement) (m : Moment δ) (args : List Argument) (t : Table δ) :
    Except Violation (Nat × Table δ) :=
  match s.backend with
  | .sqlite => Sqlite.Database.effectOn s.table m args t s.command
  | _ => s.command.effect m args t

/-- **Effect on the row of the key**: the row before, the affected rows, the row afterwards. -/
inductive RowEffect (shadowed : Bool) (m : Moment δ) (ttl : Int) (v : LeaseValues) :
    Operation → Option (Row δ) → Nat → Option (Row δ) → Prop
  /-- A claim meets a row that it may not overwrite, or its update finds no row at all. -/
  | refused {old : Option (Row δ)} :
      (∀ r, old = some r → r.isClaimable m v = false) → RowEffect shadowed m ttl v .acquire old 0 old
  /-- A claim writes its row. -/
  | taken {old : Option (Row δ)} {d : δ} :
      (∀ r, old = some r → r.isClaimable m v) → m.after ttl = some d →
      RowEffect shadowed m ttl v .acquire old 1 (some ⟨v.key, v.token, d⟩)
  /-- A claim in a shadowing table writes the old values back. -/
  | rewritten {r : Row δ} :
      shadowed → r.isClaimable m v → RowEffect shadowed m ttl v .acquire (some r) 1 (some r)
  | unextended {old : Option (Row δ)} :
      (∀ r, old = some r → (r.isOwn v && r.isLive m) = false) →
      RowEffect shadowed m ttl v .extend old 0 old
  | extended {r : Row δ} {d : δ} :
      r.isOwn v → r.isLive m → m.after ttl = some d →
      RowEffect shadowed m ttl v .extend (some r) 1 (some ⟨r.key, r.token, d⟩)
  | unreleased {old : Option (Row δ)} :
      (∀ r, old = some r → r.isOwn v = false) → RowEffect shadowed m ttl v .release old 0 old
  | released {r : Row δ} : r.isOwn v → RowEffect shadowed m ttl v .release (some r) 1 none

/-- **Effect on the table**: a statement of a handle changes the row of its key alone. -/
structure Acts (shadowed : Bool) (m : Moment δ) (ttl : Int) (v : LeaseValues) (op : Operation)
    (t : Table δ) (n : Nat) (t' : Table δ) : Prop where
  row : RowEffect shadowed m ttl v op (t.row? v.key) n (t'.row? v.key)
  others : ∀ k, k ≠ v.key → t'.row? k = t.row? k

/-! ## What an effect tells -/

/-- The values name a token: as the one to write, or as one of those to match. -/
def LeaseValues.Names (v : LeaseValues) (T : Token) : Prop :=
  v.token = T ∨ v.previousToken = T ∨ v.unconfirmedToken = T

theorem Row.isExpired_iff {m : Moment δ} {r : Row δ} :
    r.isExpired m = true ↔ ∃ now, m.now = some now ∧ ¬ now < r.deadline := by
  simp [isExpired, Option.any_eq_true]

/-- A row whose token is not named is claimable only because it has expired. -/
theorem Row.isExpired_of_isClaimable {m : Moment δ} {v : LeaseValues} {r : Row δ}
    (hv : ¬ v.Names r.token) (h : r.isClaimable m v) : r.isExpired m := by
  rw [isClaimable, Bool.or_eq_true, Bool.or_eq_true, decide_eq_true_eq, decide_eq_true_eq] at h
  rcases h with h | h | h
  · exact h
  · exact absurd (Or.inr (Or.inl h)) hv
  · exact absurd (Or.inr (Or.inr h)) hv

omit [LT δ] [DecidableLT δ] in
/-- A condition that asks for a key picks no row of another. -/
theorem Row.key_of_picked {r : Row δ} {key : String} {rest : Bool}
    (h : decide (r.key = key) && rest) : r.key = key :=
  of_decide_eq_true (Bool.and_eq_true_iff.mp h).1

omit [LT δ] [DecidableLT δ] in
theorem Row.names_of_isOwn {v : LeaseValues} {r : Row δ} (h : r.isOwn v) : v.Names r.token := by
  rw [isOwn, Bool.or_eq_true, decide_eq_true_eq, decide_eq_true_eq] at h
  rcases h with h | h
  · exact Or.inl h
  · exact Or.inr (Or.inr h)

namespace RowEffect

variable {shadowed : Bool} {m : Moment δ} {ttl : Int} {v : LeaseValues} {op : Operation} {n : Nat}
  {old new : Option (Row δ)} {r : Row δ}

/-- A statement that affected no row changed none. -/
theorem eq_of_zero (h : RowEffect shadowed m ttl v op old 0 new) : new = old := by
  cases h <;> rfl

/-- No statement writes a token but its own. -/
theorem token_after (h : RowEffect shadowed m ttl v op old n (some r)) :
    (∃ o, old = some o ∧ o.token = r.token) ∨ op = .acquire ∧ r.token = v.token := by
  generalize hnew : some r = new at h
  cases h with
  | refused _ => exact Or.inl ⟨r, hnew.symm, rfl⟩
  | taken _ _ =>
      obtain rfl := Option.some.inj hnew
      exact Or.inr ⟨rfl, rfl⟩
  | rewritten _ _ => exact Or.inl ⟨r, hnew.symm, rfl⟩
  | unextended _ => exact Or.inl ⟨r, hnew.symm, rfl⟩
  | extended _ _ _ =>
      obtain rfl := Option.some.inj hnew
      exact Or.inl ⟨_, rfl, rfl⟩
  | unreleased _ => exact Or.inl ⟨r, hnew.symm, rfl⟩
  | released _ => exact absurd hnew (by simp)

/-- Without naming a row's token a statement leaves the row alone, or claims it after its end. -/
theorem unnamed (h : RowEffect shadowed m ttl v op (some r) n new) (hv : ¬ v.Names r.token) :
    n = 0 ∧ new = some r ∨ op = .acquire ∧ r.isExpired m := by
  generalize hold : some r = old at h
  cases h with
  | refused _ => exact Or.inl ⟨rfl, rfl⟩
  | taken hc _ => exact Or.inr ⟨rfl, Row.isExpired_of_isClaimable hv (hc r hold.symm)⟩
  | rewritten _ hc =>
      obtain rfl := Option.some.inj hold
      exact Or.inr ⟨rfl, Row.isExpired_of_isClaimable hv hc⟩
  | unextended _ => exact Or.inl ⟨rfl, rfl⟩
  | extended own _ _ =>
      obtain rfl := Option.some.inj hold
      exact absurd (Row.names_of_isOwn own) hv
  | unreleased _ => exact Or.inl ⟨rfl, rfl⟩
  | released own =>
      obtain rfl := Option.some.inj hold
      exact absurd (Row.names_of_isOwn own) hv

/-- Without naming a row's token a statement deletes no row, and moves no deadline before its end. -/
theorem row_of_unnamed (h : RowEffect shadowed m ttl v op (some r) n new) (hv : ¬ v.Names r.token) :
    ∃ r', new = some r' ∧ (r' = r ∨ r.isExpired m ∧ m.after ttl = some r'.deadline) := by
  generalize hold : some r = old at h
  cases h with
  | refused _ | unextended _ | unreleased _ => exact ⟨r, hold.symm, Or.inl rfl⟩
  | taken hc hd =>
      have expired := Row.isExpired_of_isClaimable hv (hc r hold.symm)
      exact ⟨_, rfl, Or.inr ⟨expired, hd⟩⟩
  | rewritten _ _ => exact ⟨r, hold.symm, Or.inl rfl⟩
  | extended own _ _ | released own =>
      obtain rfl := Option.some.inj hold
      exact absurd (Row.names_of_isOwn own) hv

/-- What a claim or an extension leaves after it counted carries a named token, or has expired. -/
theorem counted (h : RowEffect shadowed m ttl v op old n (some r)) (hn : 0 < n) :
    v.Names r.token ∨ r.isExpired m := by
  generalize hnew : some r = new at h
  cases h with
  | refused _ => exact absurd hn (Nat.lt_irrefl 0)
  | taken _ _ =>
      obtain rfl := Option.some.inj hnew
      exact Or.inl (Or.inl rfl)
  | rewritten _ hc =>
      obtain rfl := Option.some.inj hnew
      by_cases hv : v.Names r.token
      · exact Or.inl hv
      · exact Or.inr (Row.isExpired_of_isClaimable hv hc)
  | unextended _ => exact absurd hn (Nat.lt_irrefl 0)
  | extended own _ _ =>
      obtain rfl := Option.some.inj hnew
      exact Or.inl (Row.names_of_isOwn own)
  | unreleased _ => exact absurd hn (Nat.lt_irrefl 0)
  | released _ => exact absurd hnew (by simp)

/-- A release that matches the row deletes it. -/
theorem released_of_isOwn (h : RowEffect shadowed m ttl v .release (some r) n new)
    (hown : r.isOwn v) : n = 1 ∧ new = none := by
  generalize hold : some r = old at h
  cases h with
  | unreleased hfree => exact absurd (hown.symm.trans (hfree r hold.symm)) (by simp)
  | released _ => exact ⟨rfl, rfl⟩

/-- A release that counts has met a row that it matches. -/
theorem exists_of_released (h : RowEffect shadowed m ttl v .release old n new) (hn : 0 < n) :
    ∃ r, old = some r ∧ r.isOwn v := by
  cases h with
  | unreleased _ => exact absurd hn (Nat.lt_irrefl 0)
  | released hown => exact ⟨_, rfl, hown⟩

end RowEffect

/-! ## Conditions -/

section

variable {m : Moment δ} {v : LeaseValues} {args : List Argument} {r : Row δ}

theorem holds_claimable {p u : Slot} (hp : Argument.textAt? args p = some v.previousToken)
    (hu : Argument.textAt? args u = some v.unconfirmedToken) :
    (Condition.claimable p u).holds m args r = r.isClaimable m v := by
  simp [Condition.claimable, Condition.holds, Row.isClaimable, Row.isExpired, hp, hu]

theorem holds_owned {k a b : Slot} (hk : Argument.textAt? args k = some v.key)
    (ha : Argument.textAt? args a = some v.token)
    (hb : Argument.textAt? args b = some v.unconfirmedToken) :
    (Condition.owned k a b).holds m args r = (decide (r.key = v.key) && r.isOwn v) := by
  simp [Condition.owned, Condition.holds, Row.isOwn, hk, ha, hb, eq_comm]

end

/-! ## Commands -/

namespace Command

section

omit [LT δ] [DecidableLT δ]

variable {m : Moment δ} {v : LeaseValues} {args : List Argument} {t : Table δ} {b : Int}
  {key token ttl : Slot}

/-- A row is put together only if its deadline can be computed. -/
theorem newRow_eq_ok (hk : Argument.textAt? args key = some v.key)
    (ht : Argument.textAt? args token = some v.token) (hb : Argument.intAt? args ttl = some b)
    {r : Row δ} (h : newRow m args key token ttl = .ok r) :
    ∃ d, m.after b = some d ∧ r = ⟨v.key, v.token, d⟩ := by
  simp only [newRow, tokenFor, deadlineFor, hk, ht, hb, Option.bind_some] at h
  cases hd : m.after b with
  | none =>
      rw [hd] at h
      simp [bind, Except.bind] at h
  | some d =>
      rw [hd] at h
      exact ⟨d, rfl, (Except.ok.inj h).symm⟩

theorem row?_overwrite {r old : Row δ} (h : t.row? r.key = some old) :
    (overwrite t r).row? r.key = some r ∧ ∀ k, k ≠ r.key → (overwrite t r).row? k = t.row? k := by
  constructor
  · rw [overwrite, Table.row?_modify, h]
    simp [Table.key_of_row? h]
  · intro k hk
    exact Table.row?_modify_of_ne (fun s hs => by simpa using hs) t _ _ hk

end

variable {m : Moment δ} {v : LeaseValues} {args : List Argument} {t t' : Table δ} {n : Nat}
  {b : Int} {key token ttl p u : Slot}

/-- A new row in the place of a claimable one, or in an empty place. -/
theorem acts_of_taken {shadowed : Bool} {d : δ} (hd : m.after b = some d)
    (before : ∀ r, t.row? v.key = some r → r.isClaimable m v)
    (after : t'.row? v.key = some ⟨v.key, v.token, d⟩)
    (others : ∀ k, k ≠ v.key → t'.row? k = t.row? k) :
    Acts shadowed m b v .acquire t 1 t' :=
  ⟨after ▸ .taken before hd, others⟩

theorem acts_of_insert? {shadowed : Bool} {d : δ} (hd : m.after b = some d)
    (h : t.insert? ⟨v.key, v.token, d⟩ = some t') : Acts shadowed m b v .acquire t 1 t' := by
  obtain ⟨absent, present, others⟩ := Table.row?_insert? h
  refine acts_of_taken hd (fun r hr => ?_) present others
  rw [absent] at hr
  exact absurd hr (by simp)

theorem acts_of_overwrite {shadowed : Bool} {d : δ} {old : Row δ} (hd : m.after b = some d)
    (hold : t.row? v.key = some old) (hc : old.isClaimable m v) :
    Acts shadowed m b v .acquire t 1 (overwrite t ⟨v.key, v.token, d⟩) := by
  obtain ⟨present, others⟩ := row?_overwrite (r := ⟨v.key, v.token, d⟩) hold
  refine acts_of_taken hd (fun r hr => ?_) present others
  obtain rfl := Option.some.inj (hold.symm.trans hr)
  exact hc

/-- A claim that leaves the row alone. -/
theorem acts_of_refused {shadowed : Bool}
    (h : ∀ r, t.row? v.key = some r → r.isClaimable m v = false) :
    Acts shadowed m b v .acquire t 0 t :=
  ⟨.refused h, fun _ _ => rfl⟩

theorem acts_of_not_claimable {shadowed : Bool} {old : Row δ} (hold : t.row? v.key = some old)
    (hc : ¬ old.isClaimable m v) : Acts shadowed m b v .acquire t 0 t := by
  refine acts_of_refused fun r hr => ?_
  obtain rfl := Option.some.inj (hold.symm.trans hr)
  simpa using hc

section

variable (hk : Argument.textAt? args key = some v.key)
  (ht : Argument.textAt? args token = some v.token) (hb : Argument.intAt? args ttl = some b)

include hk ht hb

/-- An insertion, as the last part of an upsert or a merge. -/
theorem acts_of_getD {shadowed : Bool} {r : Row δ} (hr : newRow m args key token ttl = .ok r)
    (absent : t.row? v.key = none) :
    Acts shadowed m b v .acquire t 1 ((t.insert? r).getD t) := by
  obtain ⟨d, hd, rfl⟩ := newRow_eq_ok hk ht hb hr
  obtain ⟨t', ht'⟩ := Table.insert?_of_row?_eq_none (r := ⟨v.key, v.token, d⟩) absent
  rw [ht', Option.getD_some]
  exact acts_of_insert? hd ht'

theorem upsert_acts (hp : Argument.textAt? args p = some v.previousToken)
    (hu : Argument.textAt? args u = some v.unconfirmedToken) {shadowed : Bool}
    (h : (Command.upsert key token ttl (.claimable p u)).effect m args t = .ok (n, t')) :
    Acts shadowed m b v .acquire t n t' := by
  simp only [effect] at h
  cases hr : newRow m args key token ttl with
  | error e => simp [hr, bind, Except.bind] at h
  | ok r =>
      obtain ⟨d, hd, rfl⟩ := newRow_eq_ok hk ht hb hr
      simp only [hr, bind, Except.bind] at h
      cases hold : t.row? v.key with
      | none =>
          simp only [hold, pure, Except.pure, Except.ok.injEq, Prod.mk.injEq] at h
          obtain ⟨rfl, rfl⟩ := h
          exact acts_of_getD hk ht hb hr hold
      | some old =>
          simp only [hold, holds_claimable hp hu] at h
          split at h <;> simp only [pure, Except.pure, Except.ok.injEq, Prod.mk.injEq] at h <;>
            obtain ⟨rfl, rfl⟩ := h
          · rename_i hc
            exact acts_of_overwrite hd hold hc
          · rename_i hc
            exact acts_of_not_claimable hold hc

/-- The upsert of a table that shadows the proposed row. -/
theorem upsertInPlace_acts (hp : Argument.textAt? args p = some v.previousToken)
    (hu : Argument.textAt? args u = some v.unconfirmedToken)
    (h : Sqlite.Database.upsertInPlace m args t key token ttl (.claimable p u) = .ok (n, t')) :
    Acts true m b v .acquire t n t' := by
  simp only [Sqlite.Database.upsertInPlace] at h
  cases hr : newRow m args key token ttl with
  | error e => simp [hr, bind, Except.bind] at h
  | ok r =>
      obtain ⟨d, hd, rfl⟩ := newRow_eq_ok hk ht hb hr
      simp only [hr, bind, Except.bind] at h
      cases hold : t.row? v.key with
      | none =>
          simp only [hold, pure, Except.pure, Except.ok.injEq, Prod.mk.injEq] at h
          obtain ⟨rfl, rfl⟩ := h
          exact acts_of_getD hk ht hb hr hold
      | some old =>
          simp only [hold, holds_claimable hp hu, pure, Except.pure, Except.ok.injEq,
            Prod.mk.injEq] at h
          obtain ⟨rfl, rfl⟩ := h
          split
          · rename_i hc
            exact ⟨hold ▸ .rewritten rfl hc, fun _ _ => rfl⟩
          · rename_i hc
            exact acts_of_not_claimable hold hc

theorem merge_acts (hp : Argument.textAt? args p = some v.previousToken)
    (hu : Argument.textAt? args u = some v.unconfirmedToken) {shadowed : Bool}
    (h : (Command.merge key token ttl (.claimable p u)).effect m args t = .ok (n, t')) :
    Acts shadowed m b v .acquire t n t' := by
  simp only [effect, hk, Option.bind_some] at h
  cases hold : t.row? v.key with
  | none =>
      simp only [hold] at h
      cases hr : newRow m args key token ttl with
      | error e => simp [hr, bind, Except.bind] at h
      | ok r =>
          simp only [hr, bind, Except.bind, pure, Except.pure, Except.ok.injEq, Prod.mk.injEq] at h
          obtain ⟨rfl, rfl⟩ := h
          exact acts_of_getD hk ht hb hr hold
  | some old =>
      simp only [hold, holds_claimable hp hu] at h
      split at h
      · rename_i hc
        cases hr : newRow m args key token ttl with
        | error e => simp [hr, bind, Except.bind] at h
        | ok r =>
            obtain ⟨d, hd, rfl⟩ := newRow_eq_ok hk ht hb hr
            simp only [hr, bind, Except.bind, pure, Except.pure, Except.ok.injEq,
              Prod.mk.injEq] at h
            obtain ⟨rfl, rfl⟩ := h
            exact acts_of_overwrite hd hold hc
      · rename_i hc
        simp only [pure, Except.pure, Except.ok.injEq, Prod.mk.injEq] at h
        obtain ⟨rfl, rfl⟩ := h
        exact acts_of_not_claimable hold hc

/-- Where the update of a two-step claim finds nothing to take over, the insert comes next. -/
theorem takeOver_acts (hp : Argument.textAt? args p = some v.previousToken)
    (hu : Argument.textAt? args u = some v.unconfirmedToken) {shadowed : Bool}
    (h : (Command.takeOver token ttl (.and (.keyIs key) (.claimable p u))).effect m args t =
      .ok (n, t')) :
    Acts shadowed m b v .acquire t n t' := by
  have picks : ∀ r : Row δ, (Condition.and (.keyIs key) (.claimable p u)).holds m args r =
      (decide (r.key = v.key) && r.isClaimable m v) := by
    intro r
    rw [Condition.holds, holds_claimable hp hu, Condition.holds, hk]
    simp [eq_comm]
  have keyed : ∀ r : Row δ, (decide (r.key = v.key) && r.isClaimable m v) = true → r.key = v.key :=
    fun _ => Row.key_of_picked
  simp only [effect, picks, tokenFor, deadlineFor, ht, hb, Option.bind_some,
    Table.count_of_key keyed] at h
  cases hold : t.row? v.key with
  | none =>
      simp only [hold, Option.any_none, Bool.false_eq_true, if_false, if_true, Except.ok.injEq,
        Prod.mk.injEq] at h
      obtain ⟨rfl, rfl⟩ := h
      exact acts_of_refused fun r hr => absurd (hold.symm.trans hr) (by simp)
  | some old =>
      have key : old.key = v.key := Table.key_of_row? hold
      by_cases hc : old.isClaimable m v
      · cases hd : m.after b with
        | none => simp [hold, key, hc, hd, bind, Except.bind] at h
        | some d =>
            simp only [hold, key, hc, hd, Option.any_some, decide_true, Bool.and_self, if_true,
              Nat.one_ne_zero, if_false, bind, Except.bind, pure, Except.pure, Except.ok.injEq,
              Prod.mk.injEq] at h
            obtain ⟨rfl, rfl⟩ := h
            refine acts_of_taken hd (fun r hr => ?_) ?_ fun k hne =>
              Table.row?_modify_of_ne keyed t _ _ hne
            · obtain rfl := Option.some.inj (hold.symm.trans hr)
              exact hc
            · rw [Table.row?_modify, hold]
              simp [key, hc]
      · simp only [hold, key, hc, Option.any_some, decide_true, Bool.and_false, Bool.false_eq_true,
          if_false, if_true, Except.ok.injEq, Prod.mk.injEq] at h
        obtain ⟨rfl, rfl⟩ := h
        exact acts_of_not_claimable hold hc

theorem insert_acts {shadowed : Bool}
    (h : (Command.insert key token ttl).effect m args t = .ok (n, t')) :
    Acts shadowed m b v .acquire t n t' := by
  simp only [effect] at h
  cases hr : newRow m args key token ttl with
  | error e => simp [hr, bind, Except.bind] at h
  | ok r =>
      obtain ⟨d, hd, rfl⟩ := newRow_eq_ok hk ht hb hr
      simp only [hr, bind, Except.bind] at h
      cases hins : t.insert? ⟨v.key, v.token, d⟩ with
      | none => simp [hins, throw, throwThe, MonadExceptOf.throw] at h
      | some t'' =>
          simp only [hins, pure, Except.pure, Except.ok.injEq, Prod.mk.injEq] at h
          obtain ⟨rfl, rfl⟩ := h
          exact acts_of_insert? hd hins

end

section

variable {k x y : Slot} (hk : Argument.textAt? args k = some v.key)
  (hx : Argument.textAt? args x = some v.token)
  (hy : Argument.textAt? args y = some v.unconfirmedToken)

include hk hx hy

theorem prolong_acts (hb : Argument.intAt? args ttl = some b) {shadowed : Bool}
    (h : (Command.prolong ttl (.and (.owned k x y) .live)).effect m args t = .ok (n, t')) :
    Acts shadowed m b v .extend t n t' := by
  have picks : ∀ r : Row δ, (Condition.and (.owned k x y) .live).holds m args r =
      (decide (r.key = v.key) && (r.isOwn v && r.isLive m)) := by
    intro r
    rw [Condition.holds, holds_owned hk hx hy, Bool.and_assoc]
    rfl
  have keyed : ∀ r : Row δ, (decide (r.key = v.key) && (r.isOwn v && r.isLive m)) = true →
      r.key = v.key := fun _ => Row.key_of_picked
  simp only [effect, picks, deadlineFor, hb, Option.bind_some, Table.count_of_key keyed] at h
  cases hold : t.row? v.key with
  | none =>
      simp only [hold, Option.any_none, Bool.false_eq_true, if_false, if_true, Except.ok.injEq,
        Prod.mk.injEq] at h
      obtain ⟨rfl, rfl⟩ := h
      exact ⟨.unextended fun r hr => absurd (hold.symm.trans hr) (by simp), fun _ _ => rfl⟩
  | some old =>
      have key : old.key = v.key := Table.key_of_row? hold
      by_cases hc : (old.isOwn v && old.isLive m) = true
      · obtain ⟨own, live⟩ := Bool.and_eq_true_iff.mp hc
        cases hd : m.after b with
        | none => simp [hold, key, hc, hd, bind, Except.bind] at h
        | some d =>
            simp only [hold, key, hc, hd, Option.any_some, decide_true, Bool.and_self, if_true,
              Nat.one_ne_zero, if_false, bind, Except.bind, pure, Except.pure, Except.ok.injEq,
              Prod.mk.injEq] at h
            obtain ⟨rfl, rfl⟩ := h
            refine ⟨?_, fun k' hne => Table.row?_modify_of_ne keyed t _ _ hne⟩
            rw [Table.row?_modify, hold]
            simpa [key, own, live] using RowEffect.extended own live hd
      · simp only [hold, key, hc, Option.any_some, decide_true, Bool.and_false, Bool.false_eq_true,
          if_false, if_true, Except.ok.injEq, Prod.mk.injEq] at h
        obtain ⟨rfl, rfl⟩ := h
        refine ⟨.unextended fun r hr => ?_, fun _ _ => rfl⟩
        obtain rfl := Option.some.inj (hold.symm.trans hr)
        simpa using hc

theorem delete_acts {shadowed : Bool}
    (h : (Command.delete (.owned k x y)).effect m args t = .ok (n, t')) :
    Acts shadowed m b v .release t n t' := by
  have keyed : ∀ r : Row δ, (decide (r.key = v.key) && r.isOwn v) = true → r.key = v.key :=
    fun _ => Row.key_of_picked
  simp only [effect, holds_owned hk hx hy, Table.count_of_key keyed, Except.ok.injEq,
    Prod.mk.injEq] at h
  obtain ⟨rfl, rfl⟩ := h
  refine ⟨?_, fun k' hne => Table.row?_erase_of_ne keyed t hne⟩
  rw [Table.row?_erase]
  cases hold : t.row? v.key with
  | none => simpa using RowEffect.unreleased (fun r hr => absurd hr (by simp))
  | some old =>
      have key : old.key = v.key := Table.key_of_row? hold
      cases own : old.isOwn v with
      | true => simpa [Option.filter, key, own] using RowEffect.released own
      | false =>
          have kept : ∀ r, some old = some r → r.isOwn v = false := by
            rintro r ⟨⟩
            exact own
          simpa [Option.filter, key, own] using RowEffect.unreleased kept

end

/-- A purge takes away exactly what has expired, key by key. -/
theorem purge_row? (h : (Command.delete .expired).effect m args t = .ok (n, t')) (k : String) :
    t'.row? k = (t.row? k).filter fun r => !r.isExpired m := by
  simp only [effect, Except.ok.injEq, Prod.mk.injEq] at h
  obtain ⟨-, rfl⟩ := h
  rw [Table.row?_erase]
  rfl

end Command

/-! ## Requests -/

/-- What the server makes of a request. -/
def Request.effect (r : Request) (m : Moment δ) (t : Table δ) : Except Violation (Nat × Table δ) :=
  r.statement.effect m r.arguments t

/-- **The requests of an operation**, with the values that they bind. -/
inductive Request.IsOf (b : Backend) (table : String) : Operation → LeaseValues → Request → Prop
  | claim {v : LeaseValues} {s : Statement} {limit : Option Duration} :
      s ∈ (b.claim table).statements → IsOf b table .acquire v ⟨s, s.bind v, limit⟩
  | extend {v : LeaseValues} {limit : Option Duration} :
      IsOf b table .extend v ⟨b.extend table, (b.extend table).bind v, limit⟩
  | release {v : LeaseValues} {limit : Option Duration} :
      IsOf b table .release v ⟨b.release table, (b.release table).bind v, limit⟩
  | purge {v : LeaseValues} {limit : Option Duration} :
      IsOf b table .purgeExpired v ⟨b.purge table, (b.purge table).bind v, limit⟩

section

variable {b : Backend} {table : String} {op : Operation} {v : LeaseValues} {r : Request}
  {m : Moment δ} {t t' : Table δ} {n : Nat}

/-- An upsert of SQLite, in a table of either kind. -/
theorem sqlite_upsert_acts {s : Statement} (hs : s ∈ (Backend.sqlite.claim table).statements)
    (h : s.effect m (s.bind v) t = .ok (n, t')) :
    Acts (Backend.sqlite.shadows table) m (Backend.sqlite.boundTtl v.ttl) v .acquire t n t' := by
  obtain rfl := List.mem_singleton.mp hs
  simp only [Statement.effect, Sqlite.Database.effectOn] at h
  cases hname : Sqlite.Database.shadowsProposal table with
  | true =>
      rw [hname] at h
      have acts := Command.upsertInPlace_acts (v := v) (b := Backend.sqlite.boundTtl v.ttl)
        rfl rfl rfl rfl rfl h
      simpa [Backend.shadows, hname] using acts
  | false =>
      rw [hname] at h
      exact Command.upsert_acts rfl rfl rfl rfl rfl h

/-- **One law for every statement of a handle**, whatever its backend. -/
theorem Request.IsOf.acts (h : Request.IsOf b table op v r) (hop : op ≠ .purgeExpired)
    (heff : r.effect m t = .ok (n, t')) :
    Acts (b.shadows table) m (b.boundTtl v.ttl) v op t n t' := by
  cases h with
  | claim hs =>
      cases b with
      | sqlite => exact sqlite_upsert_acts hs heff
      | postgres =>
          obtain rfl := List.mem_singleton.mp hs
          exact Command.upsert_acts rfl rfl rfl rfl rfl heff
      | mssql =>
          obtain rfl := List.mem_singleton.mp hs
          exact Command.merge_acts rfl rfl rfl rfl rfl heff
      | mysql =>
          rcases List.mem_cons.mp hs with rfl | hs
          · exact Command.takeOver_acts rfl rfl rfl rfl rfl heff
          · obtain rfl := List.mem_singleton.mp hs
            exact Command.insert_acts rfl rfl rfl heff
  | extend => cases b <;> exact Command.prolong_acts rfl rfl rfl rfl heff
  | release => cases b <;> exact Command.delete_acts rfl rfl rfl heff
  | purge => exact absurd rfl hop

/-- A release never fails. -/
theorem Request.IsOf.release_effect (h : Request.IsOf b table .release v r) (m : Moment δ)
    (t : Table δ) : ∃ n t', r.effect m t = .ok (n, t') := by
  cases h
  cases b <;> exact ⟨_, _, rfl⟩

/-- A purge on any backend. -/
theorem Request.IsOf.purge_row? (h : Request.IsOf b table .purgeExpired v r)
    (heff : r.effect m t = .ok (n, t')) (k : String) :
    t'.row? k = (t.row? k).filter fun r => !r.isExpired m := by
  cases h
  cases b <;> exact Command.purge_row? heff k

end

end

end LeaseLock
