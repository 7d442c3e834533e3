/-
# LeaseLock.Proofs.Tracking -- a handle keeps track of its own row

In an orderly run, where a statement takes effect before its call returns or never, a handle at rest
knows the token of its own row: it holds it, or it has not had it confirmed. So a release that is
executed and answered removes the row, whatever failed before.

The proof follows a call from request to request (`Call.Keeps`). What it carries along is a bound on
the tokens of the handle's own that the row may carry: others can only take the row away, a lost
answer leaves both outcomes open, and a refused claim has shown by its condition that the row carries
neither of the two tokens that the handle is about to forget.

A SQLite table whose name shadows the proposed row breaks this: there a claim that counts leaves the
old token in the row, and the handle believes in the new one.
-/
import LeaseLock.Proofs.Ownership
import LeaseLock.Proofs.Shadowing

namespace LeaseLock

/-! ## Tracked and carried tokens -/

/-- The handle knows the token: it holds it, or it has not had it confirmed. -/
def Handle.Tracks (h : Handle) (T : Token) : Prop := h.token = some T ∨ h.unconfirmed = some T

/-- The row of a key carries a token of one's own. -/
def Table.Carries {δ : Type} (t : Table δ) (key : String) (own : Token → Prop) (T : Token) : Prop :=
  ∃ r, t.row? key = some r ∧ r.token = T ∧ own T

section

variable {δ : Type} [LT δ] [DecidableLT δ] {b : Backend} {table : String} {v : LeaseValues}
  {m : Moment δ} {t t' : Table δ} {n : Nat} {own : Token → Prop} {T : Token} {request : Request}

namespace RowEffect

variable {ttl : Int} {old : Option (Row δ)} {r : Row δ}

/-- A claim that counts leaves its own token, unless the table shadows the proposed row. -/
theorem token_of_claimed (h : RowEffect false m ttl v .acquire old n (some r)) (hn : 0 < n) :
    r.token = v.token := by
  generalize hnew : some r = new at h
  cases h with
  | refused _ => exact absurd hn (Nat.lt_irrefl 0)
  | taken _ _ =>
      obtain rfl := Option.some.inj hnew
      rfl
  | rewritten hshadowed _ => exact absurd hshadowed (by simp)

/-- A claim that does not count meets a row with neither of the tokens that it matches. -/
theorem refused_iff {shadowed : Bool} (h : RowEffect shadowed m ttl v .acquire old 0 (some r)) :
    old = some r ∧ r.token ≠ v.previousToken ∧ r.token ≠ v.unconfirmedToken := by
  generalize hnew : some r = new at h
  cases h with
  | refused hc =>
      have hfree := hc r hnew.symm
      rw [Row.isClaimable, Bool.or_eq_false_iff, Bool.or_eq_false_iff, decide_eq_false_iff_not,
        decide_eq_false_iff_not] at hfree
      exact ⟨rfl, fun e => hfree.2.1 e.symm, fun e => hfree.2.2 e.symm⟩

/-- A release leaves no row that carries a token that it matches. -/
theorem not_isOwn_of_released {shadowed : Bool}
    (h : RowEffect shadowed m ttl v .release old n (some r)) :
    old = some r ∧ r.isOwn v = false := by
  generalize hnew : some r = new at h
  cases h with
  | unreleased hc => exact ⟨rfl, hc r hnew.symm⟩
  | released _ => exact absurd hnew (by simp)

end RowEffect

namespace Request.IsOf

/-- After a claim the row carries the claim's token or what it carried before. -/
theorem carries_of_claim (h : IsOf b table .acquire v request)
    (heff : request.effect m t = .ok (n, t')) (hT : t'.Carries v.key own T) :
    T = v.token ∨ t.Carries v.key own T := by
  obtain ⟨r, hr, rfl, hown⟩ := hT
  have row := (h.acts (by simp) heff).row
  rw [hr] at row
  rcases row.token_after with ⟨o, ho, htoken⟩ | ⟨-, htoken⟩
  · exact Or.inr ⟨o, ho, htoken, hown⟩
  · exact Or.inl htoken

/-- After a claim that counts the row carries the claim's token. -/
theorem carries_of_claimed (h : IsOf b table .acquire v request) (hb : b.shadows table = false)
    (heff : request.effect m t = .ok (n, t')) (hn : 0 < n) (hT : t'.Carries v.key own T) :
    T = v.token := by
  obtain ⟨r, hr, rfl, -⟩ := hT
  have row := (h.acts (by simp) heff).row
  rw [hb, hr] at row
  exact row.token_of_claimed hn

/-- After a claim that does not count the row carries what it did, and none of the claim's tokens. -/
theorem carries_of_refused (h : IsOf b table .acquire v request)
    (heff : request.effect m t = .ok (0, t')) (hT : t'.Carries v.key own T) :
    t.Carries v.key own T ∧ T ≠ v.previousToken ∧ T ≠ v.unconfirmedToken := by
  obtain ⟨r, hr, rfl, hown⟩ := hT
  have row := (h.acts (by simp) heff).row
  rw [hr] at row
  obtain ⟨hold, hp, hu⟩ := row.refused_iff
  exact ⟨⟨r, hold, rfl, hown⟩, hp, hu⟩

/-- An extension or a release gives the row no token. -/
theorem carries_of_other {op : Operation} (h : IsOf b table op v request)
    (hop : op ≠ .purgeExpired) (hclaim : op ≠ .acquire)
    (heff : request.effect m t = .ok (n, t')) (hT : t'.Carries v.key own T) :
    t.Carries v.key own T := by
  obtain ⟨r, hr, rfl, hown⟩ := hT
  have row := (h.acts hop heff).row
  rw [hr] at row
  rcases row.token_after with ⟨o, ho, htoken⟩ | ⟨hacq, -⟩
  · exact ⟨o, ho, htoken, hown⟩
  · exact absurd hacq hclaim

/-- After a release the row carries neither of its tokens. -/
theorem carries_of_release (h : IsOf b table .release v request)
    (heff : request.effect m t = .ok (n, t')) (hT : t'.Carries v.key own T) :
    v.token ≠ T ∧ v.unconfirmedToken ≠ T := by
  obtain ⟨r, hr, rfl, -⟩ := hT
  have row := (h.acts (by simp) heff).row
  rw [hr] at row
  obtain ⟨-, hown⟩ := row.not_isOwn_of_released
  rw [Row.isOwn, Bool.or_eq_false_iff, decide_eq_false_iff_not, decide_eq_false_iff_not] at hown
  exact hown

end Request.IsOf

end

/-! ## Calls that keep track -/

section

variable {δ : Type} [LT δ] [DecidableLT δ]

/-- **The call keeps track** of the row of its key when the row may carry no tokens of one's own but
those in `C`. It does so through every loss of an answer, and through every effect of its requests on
a table where others may have taken the row away. -/
def Call.Keeps {α : Type} (δ : Type) [LT δ] [DecidableLT δ] (key : String) (own : Token → Prop) :
    (Token → Prop) → Call Handle α → Prop
  | C, .done h _ _ => ∀ T, C T → h.Tracks T
  | C, .ask request _ resume =>
    (∀ reply, reply.Lost → (resume reply).Keeps δ key own C) ∧
    ∀ (m : Moment δ) (t : Table δ), (∀ T, t.Carries key own T → C T) →
      ∀ reply, (Fate.done (request.outcome m t).1).allows reply →
        (resume reply).Keeps δ key own ((request.outcome m t).2.Carries key own)

theorem Call.Keeps.mono {α : Type} {key : String} {own C C' : Token → Prop} {call : Call Handle α}
    (h : call.Keeps δ key own C) (hC : ∀ T, C' T → C T) : call.Keeps δ key own C' := by
  induction call generalizing C C' with
  | done state result events => exact fun T hT => h T (hC T hT)
  | ask request held resume ih =>
      refine ⟨fun reply hlost => ih reply (h.1 reply hlost) hC, fun m t ht => ?_⟩
      exact h.2 m t fun T hT => hC T (ht T hT)

/-- What an answered request may have done: it ran, or it met a row of its key. -/
theorem Request.outcome_cases (request : Request) (m : Moment δ) (t : Table δ) {reply : Reply}
    (h : (Fate.done (request.outcome m t).1).allows reply) :
    (∃ n t', request.effect m t = .ok (n, t') ∧ (request.outcome m t).2 = t' ∧
      (reply.Lost ∨ reply = .answered (.ok n))) ∨
    (request.outcome m t).2 = t ∧ (reply.Lost ∨ ∃ cause, reply = .answered (.error (.duplicateKey cause))) := by
  unfold outcome at h ⊢
  cases heff : request.effect m t with
  | ok p =>
      obtain ⟨n, t'⟩ := p
      rw [heff] at h
      refine Or.inl ⟨n, t', rfl, rfl, ?_⟩
      rcases Fate.allows_cases h with hlost | ⟨k, hk, hreply⟩ | ⟨cause, hk, -⟩
      · exact Or.inl hlost
      · obtain rfl := Except.ok.inj (Fate.done.inj hk)
        exact Or.inr hreply
      · exact absurd hk (by simp)
  | error e =>
      rw [heff] at h
      refine Or.inr ⟨rfl, ?_⟩
      rcases Fate.allows_cases h with hlost | ⟨k, hk, -⟩ | ⟨cause, -, hreply⟩
      · exact Or.inl hlost
      · exact absurd hk (by simp)
      · exact Or.inr ⟨cause, hreply⟩

variable {α : Type} {m : Manager} {v : LeaseValues} {held : Handle} {own C : Token → Prop}

/-- One statement of a claim: what may be in the row after each kind of answer. -/
theorem keeps_of_claim {b : Backend} {table : String} {request : Request}
    {resume : Reply → Call Handle α} (hof : Request.IsOf b table .acquire v request)
    (hb : b.shadows table = false)
    (hlost : ∀ reply C', reply.Lost → (∀ T, C' T → T = v.token ∨ C T) →
      (resume reply).Keeps δ v.key own C')
    (hwon : ∀ n C', (∀ T, C' T → T = v.token) →
      (resume (.answered (.ok (n + 1)))).Keeps δ v.key own C')
    (hheld : ∀ C', (∀ T, C' T → C T ∧ T ≠ v.previousToken ∧ T ≠ v.unconfirmedToken) →
      (resume (.answered (.ok 0))).Keeps δ v.key own C')
    (hduplicate : ∀ cause C', (∀ T, C' T → C T) →
      (resume (.answered (.error (.duplicateKey cause)))).Keeps δ v.key own C') :
    (Call.ask request held resume).Keeps δ v.key own C := by
  refine ⟨fun reply hreply => hlost reply C hreply fun T hT => Or.inr hT, ?_⟩
  intro moment t ht reply hreply
  rcases request.outcome_cases moment t hreply with
    ⟨n, t', heff, htable, hnone | rfl⟩ | ⟨htable, hnone | ⟨cause, rfl⟩⟩
  · -- it ran, and nobody knows
    rw [htable]
    exact hlost reply _ hnone fun T hT => (hof.carries_of_claim heff hT).imp_right (ht T)
  · rw [htable]
    cases n with
    | zero =>
        refine hheld _ fun T hT => ?_
        obtain ⟨hold, hfree⟩ := hof.carries_of_refused heff hT
        exact ⟨ht T hold, hfree⟩
    | succ n => exact hwon n _ fun T hT => hof.carries_of_claimed hb heff n.succ_pos hT
  · rw [htable]
    exact hlost reply _ hnone fun T hT => Or.inr (ht T hT)
  · rw [htable]
    exact hduplicate cause _ ht

/-- **A claim keeps track** if what follows it does: after a lost answer the row may carry the claim's
token or what it carried before, after a success only the claim's token, and after a refusal nothing
that the claim matches. -/
theorem Manager.claim_keeps (hm : m.dialect.backend.shadows m.tableName = false)
    {next : Except TransportError Bool → Call Handle α}
    (hlost : ∀ e C', (∀ T, C' T → T = v.token ∨ C T) → (next (.error e)).Keeps δ v.key own C')
    (hwon : ∀ C', (∀ T, C' T → T = v.token) → (next (.ok true)).Keeps δ v.key own C')
    (hheld : ∀ C', (∀ T, C' T → C T ∧ T ≠ v.previousToken ∧ T ≠ v.unconfirmedToken) →
      (next (.ok false)).Keeps δ v.key own C') :
    (m.claim v held next).Keeps δ v.key own C := by
  have isOf : ∀ s ∈ m.claimPlan.statements,
      Request.IsOf m.dialect.backend m.tableName .acquire v (m.request s v) := fun s hs => .claim hs
  unfold Manager.claim
  cases hplan : m.claimPlan with
  | single claim =>
      refine keeps_of_claim (isOf claim (by simp [hplan, ClaimPlan.statements])) hm ?_ ?_ ?_ ?_
      · intro reply C' hreply hC'
        obtain ⟨e, he⟩ := hreply.rows
        rw [he]
        exact hlost e C' hC'
      · exact fun n C' hC' => hwon C' hC'
      · exact fun C' hC' => hheld C' hC'
      · exact fun cause C' hC' => hlost _ C' fun T hT => Or.inr (hC' T hT)
  | updateThenInsert update insert =>
      refine keeps_of_claim (isOf update (by simp [hplan, ClaimPlan.statements])) hm ?_ ?_ ?_ ?_
      · intro reply C' hreply hC'
        obtain ⟨e, he⟩ := hreply.rows
        rw [he]
        exact hlost e C' hC'
      · exact fun n C' hC' => hwon C' hC'
      · -- the update found nothing to take over, so the insert starts with less that may be carried
        intro C' hC'
        refine keeps_of_claim (isOf insert (by simp [hplan, ClaimPlan.statements])) hm ?_ ?_ ?_ ?_
        · intro reply D hreply hD
          obtain ⟨e, he⟩ := hreply.insertedRows
          rw [he]
          exact hlost e D fun T hT => (hD T hT).imp_right fun h => (hC' T h).1
        · exact fun n D hD => hwon D hD
        · exact fun D hD => hheld D fun T hT => hC' T (hD T hT).1
        · exact fun cause D hD => hheld D fun T hT => hC' T (hD T hT)
      · exact fun cause C' hC' => hlost _ C' fun T hT => Or.inr (hC' T hT)

/-- One statement that claims nothing, if what follows its answer keeps track. -/
theorem keeps_of_other {b : Backend} {table : String} {op : Operation} {request : Request}
    {resume : Reply → Call Handle α} (hof : Request.IsOf b table op v request)
    (hop : op ≠ .purgeExpired) (hclaim : op ≠ .acquire)
    (hfailed : ∀ reply C', (∃ e, reply.rows = .error e) → (∀ T, C' T → C T) →
      (resume reply).Keeps δ v.key own C')
    (hran : ∀ n C' (moment : Moment δ) t t', request.effect moment t = .ok (n, t') →
      C' = t'.Carries v.key own → (∀ T, C' T → C T) →
      (resume (.answered (.ok n))).Keeps δ v.key own C') :
    (Call.ask request held resume).Keeps δ v.key own C := by
  refine ⟨fun reply hreply => hfailed reply C hreply.rows fun T hT => hT, ?_⟩
  intro moment t ht reply hreply
  rcases request.outcome_cases moment t hreply with
    ⟨n, t', heff, htable, hreply'⟩ | ⟨htable, hreply'⟩
  · have less : ∀ T, t'.Carries v.key own T → C T :=
      fun T hT => ht T (hof.carries_of_other hop hclaim heff hT)
    rw [htable]
    rcases hreply' with hnone | rfl
    · exact hfailed reply _ hnone.rows less
    · exact hran n _ moment t t' heff rfl less
  · rw [htable]
    rcases hreply' with hnone | ⟨cause, rfl⟩
    · exact hfailed reply _ hnone.rows ht
    · exact hfailed _ _ ⟨_, rfl⟩ ht

namespace Handle

variable {h : Handle} {ttl : Duration} {fresh : Token}

theorem acquire_keeps (hm : m.dialect.backend.shadows m.tableName = false)
    (hC : ∀ T, C T → h.Tracks T) : (h.acquire m fresh ttl).Keeps δ h.key own C := by
  unfold acquire
  split
  · exact hC
  show (m.claim (h.claimValues (h.nextToken fresh) ttl) _ _).Keeps δ
    (h.claimValues (h.nextToken fresh) ttl).key own C
  have retried : ∀ T, h.unconfirmed = some T → h.nextToken fresh = T := by
    intro T hT
    simp [nextToken, hT]
  refine Manager.claim_keeps hm ?_ ?_ ?_
  · -- the token of a lost claim stays unconfirmed
    intro e C' hC' T hT
    rcases hC' T hT with rfl | hold
    · exact Or.inr rfl
    rcases hC T hold with htoken | hunconfirmed
    · exact Or.inl htoken
    · exact Or.inr (congrArg some (retried T hunconfirmed))
  · intro C' hC' T hT
    obtain rfl := hC' T hT
    exact Or.inl rfl
  · -- a tracked token is one that the claim matches
    intro C' hC' T hT
    obtain ⟨hold, hprevious, hunconfirmed⟩ := hC' T hT
    rcases hC T hold with htoken | htoken
    · exact absurd (by simp [claimValues, htoken]) hprevious
    · exact absurd (retried T htoken).symm hunconfirmed

theorem extend_keeps (hC : ∀ T, C T → h.Tracks T) : (h.extend m ttl).Keeps δ h.key own C := by
  unfold extend
  split
  · exact hC
  split
  · exact hC
  refine keeps_of_other (v := h.ownValues ttl) .extend (by simp) (by simp) ?_ ?_
  · rintro reply C' ⟨e, he⟩ hC'
    rw [he]
    exact fun T hT => hC T (hC' T hT)
  · intro n C' moment t t' heff _ hC'
    cases n with
    | zero => exact fun T hT => hC T (hC' T hT)
    | succ n => exact fun T hT => hC T (hC' T hT)

/-- A token that the handle tracks is one that its release matches. -/
theorem Tracks.ownValues {T : Token} (hT : h.Tracks T) (ttl : Duration) :
    (h.ownValues ttl).token = T ∨ (h.ownValues ttl).unconfirmedToken = T := by
  rcases hT with hT | hT
  · exact Or.inl (by simp [Handle.ownValues, hT])
  · exact Or.inr (by simp [Handle.ownValues, hT])

theorem release_keeps (hC : ∀ T, C T → h.Tracks T) : (h.release m).Keeps δ h.key own C := by
  unfold release
  split
  · exact hC
  refine keeps_of_other (v := h.ownValues .zero) .release (by simp) (by simp) ?_ ?_
  · rintro reply C' ⟨e, he⟩ hC'
    rw [he]
    exact fun T hT => hC T (hC' T hT)
  · intro n C' moment t t' heff hafter hC'
    have gone : ∀ T, ¬ C' T := by
      intro T hT
      obtain ⟨htoken, hunconfirmed⟩ := Request.IsOf.carries_of_release .release heff (hafter ▸ hT)
      rcases (hC T (hC' T hT)).ownValues .zero with h | h
      · exact htoken h
      · exact hunconfirmed h
    cases n with
    | zero => exact fun T hT => absurd hT (gone T)
    | succ n => exact fun T hT => absurd hT (gone T)

end Handle

end

/-! ## Systems that keep track -/

namespace System

section

variable {ι δ : Type} [LinearOrder δ] {d : Deployment ι δ} {s s' : System ι δ} {i j : ι}

/-- The tokens of a handle's own that the row of its key carries. -/
def Carries (d : Deployment ι δ) (s : System ι δ) (i : ι) : Token → Prop :=
  s.table.Carries (d.key i) (s.Mints i)

/-- **The handle keeps track**: at rest it knows the token of its own row, and in a call it will know
it at the end, whatever answer it waits for. -/
def Tracked (d : Deployment ι δ) (s : System ι δ) (i : ι) : Prop :=
  match s.clients i with
  | .resting h _ => ∀ T, s.Carries d i T → h.Tracks T
  | .waiting _ n held resume => ∃ x, s.issued[n]? = some x ∧ x.owner = some i ∧
    match x.fate with
    | .inFlight =>
      (Call.ask x.request held resume).Keeps δ (d.key i) (s.Mints i) (s.Carries d i)
    | .done outcome => ∀ reply, (Fate.done outcome).allows reply →
      (resume reply).Keeps δ (d.key i) (s.Mints i) (s.Carries d i)

/-- What others do leaves a handle on track: they touch neither its call nor its statements, and can
only take its row away. -/
theorem Tracked.frame (h : Tracked d s i) (hclient : s'.clients i = s.clients i)
    (hissued : ∀ (n : Nat) (x : Issued ι), s.issued[n]? = some x → x.owner = some i →
      s'.issued[n]? = some x)
    (hmints : s'.Mints i = s.Mints i) (hcarries : ∀ T, s'.Carries d i T → s.Carries d i T) :
    Tracked d s' i := by
  unfold Tracked at h ⊢
  rw [hclient, hmints]
  cases hc : s.clients i with
  | resting handle last =>
      rw [hc] at h
      exact fun T hT => h T (hcarries T hT)
  | waiting op n held resume =>
      rw [hc] at h
      obtain ⟨x, hx, howner, hcall⟩ := h
      refine ⟨x, hissued n x hx howner, howner, ?_⟩
      cases hfate : x.fate with
      | inFlight =>
          rw [hfate] at hcall
          exact hcall.mono hcarries
      | done outcome =>
          rw [hfate] at hcall
          exact fun reply hreply => (hcall reply hreply).mono hcarries

/-- An effect of another handle, or of a purge, gives the row no token of this one. -/
theorem Effect.carries {x : Issued ι} {n : Nat} {t : Table δ} (h : Effect d s x n t)
    (hs : s.Sound d) (hx : x.owner ≠ some i) {T : Token}
    (hT : t.Carries (d.key i) (s.Mints i) T) : s.Carries d i T := by
  obtain ⟨r, hr, rfl, hown⟩ := hT
  rcases h.row_after hr with ⟨old, hold, htoken⟩ | ⟨j, hj, -, -, hminted⟩
  · exact ⟨old, hold, htoken, htoken ▸ hown⟩
  · obtain rfl := hs.single hown hminted
    exact absurd hj hx

/-- A statement that is no claim of the handle gives the row no token of its own. -/
theorem Sound.carries_execute (hs : s.Sound d) {n : Nat} {x : Issued ι} (hx : s.issued[n]? = some x)
    (hown : x.owner = some i → x.operation ≠ .acquire) {T : Token}
    (hT : (s.execute d n x).Carries d i T) : s.Carries d i T := by
  obtain ⟨k, t, outcome, heff, -, hexec⟩ := hs.effect_cases hx
  rw [hexec] at hT
  by_cases hi : x.owner = some i
  · obtain ⟨r, hr, rfl, hminted⟩ := hT
    rcases heff.row_after hr with ⟨old, hold, htoken⟩ | ⟨j, -, -, hop, -⟩
    · exact ⟨old, hold, htoken, hminted⟩
    · exact absurd hop (hown hi)
  · exact heff.carries hs hi hT

/-- A token that was just minted is not yet in any row. -/
theorem Sound.carries_mint (h : s.Sound d) {fresh : Token} (hfresh : ∀ p ∈ s.minted, p.2 ≠ fresh)
    {T : Token} (hT : Carries d { s with minted := (i, fresh) :: s.minted } j T) :
    s.Carries d j T := by
  obtain ⟨r, hr, rfl, hown⟩ := hT
  refine ⟨r, hr, rfl, ?_⟩
  rcases List.mem_cons.mp hown with hnew | hold
  · obtain ⟨k, -, hk⟩ := h.rows hr
    exact absurd (Prod.mk.inj hnew).2 (hfresh _ hk)
  · exact hold

/-- Its own effect brings a handle that waits for it to the answers of that effect. -/
theorem Tracked.execute (h : Tracked d s i) {n : Nat} {x : Issued ι} (hx : s.issued[n]? = some x)
    (hfate : x.fate = .inFlight) {op : Operation} {held : Handle}
    {resume : Reply → Call Handle (Except LockError Unit)}
    (hc : s.clients i = .waiting op n held resume) : Tracked d (s.execute d n x) i := by
  unfold Tracked at h ⊢
  rw [execute_clients, hc]
  rw [hc] at h
  obtain ⟨y, hy, howner, hcall⟩ := h
  obtain rfl := Option.some.inj (hx.symm.trans hy)
  rw [hfate] at hcall
  have hn : n < s.issued.length := List.getElem?_eq_some_iff.mp hx |>.1
  refine ⟨_, List.getElem?_set_self hn, howner, ?_⟩
  exact hcall.2 (d.clock.moment s.time) s.table fun T hT => hT

/-- A handle at rest that is on track knows the token of its own row. -/
theorem Tracked.resting (h : Tracked d s i) (hs : s.Sound d) {handle : Handle}
    {last : Option (Operation × Except LockError Unit)} (hc : s.clients i = .resting handle last) :
    handle.key = d.key i ∧ ∀ T, s.Carries d i T → handle.Tracks T := by
  rw [Tracked, hc] at h
  exact ⟨(hs.within hc).key_eq, h⟩

/-- A call that is on track goes on so with every answer that is true. -/
theorem Tracked.resume (h : Tracked d s i) {op : Operation} {n : Nat} {held : Handle}
    {resume : Reply → Call Handle (Except LockError Unit)}
    (hc : s.clients i = .waiting op n held resume) {r : Reply} (htrue : s.truthful n r) :
    (resume r).Keeps δ (d.key i) (s.Mints i) (s.Carries d i) := by
  rw [Tracked, hc] at h
  obtain ⟨x, hx, -, hcall⟩ := h
  have allowed : x.fate.allows r := by
    rw [truthful, hx] at htrue
    exact htrue
  cases hfate : x.fate with
  | inFlight =>
      -- nothing is known yet but that an answer may be lost
      rw [hfate] at hcall allowed
      rcases Fate.allows_cases allowed with hlost | ⟨m, hm, -⟩ | ⟨cause, hm, -⟩
      · exact hcall.1 r hlost
      · exact absurd hm (by simp)
      · exact absurd hm (by simp)
  | done outcome =>
      rw [hfate] at hcall allowed
      exact hcall r allowed

end

/-! ## Orderly runs keep track -/

section

variable {ι δ : Type} [DecidableEq ι] [LinearOrder δ] {d : Deployment ι δ} {s s' : System ι δ}
  {i j : ι}

/-- A call of one handle that goes on leaves the others on track. -/
theorem Tracked.proceed_other (h : Tracked d s j) (hij : j ≠ i) (op : Operation)
    (call : Call Handle (Except LockError Unit)) : Tracked d (s.proceed i op call) j := by
  cases call with
  | done handle result events =>
      exact h.frame (Function.update_of_ne hij _ _) (fun n x hx _ => hx) rfl fun T hT => hT
  | ask r held resume =>
      exact h.frame (Function.update_of_ne hij _ _) (fun n x hx _ => getElem?_issue s _ _ _ hx) rfl
        fun T hT => hT

/-- A call that keeps track and goes on leaves its own handle on track. -/
theorem tracked_proceed {op : Operation} {call : Call Handle (Except LockError Unit)}
    (h : call.Keeps δ (d.key i) (s.Mints i) (s.Carries d i)) : Tracked d (s.proceed i op call) i := by
  unfold Tracked
  cases call with
  | done handle result events =>
      rw [proceed_done_clients]
      exact h
  | ask r held resume =>
      rw [proceed_ask_clients]
      refine ⟨⟨some i, op, r, .inFlight⟩, ?_, rfl, h⟩
      show (s.issued ++ [_])[s.issued.length]? = _
      exact List.getElem?_concat_length

theorem Tracked.proceed (h : Tracked d s j) {op : Operation}
    {call : Call Handle (Except LockError Unit)}
    (hcall : Tracked d s i → call.Keeps δ (d.key i) (s.Mints i) (s.Carries d i)) :
    Tracked d (s.proceed i op call) j := by
  by_cases hij : j = i
  · subst hij
    exact tracked_proceed (hcall h)
  · exact h.proceed_other hij op call

/-- A claim that starts with a fresh token leaves a handle on track. -/
theorem Tracked.acquire (h : Tracked d s j) (hs : s.Sound d)
    (hb : (d.manager i).dialect.backend.shadows (d.manager i).tableName = false) {handle : Handle}
    {last : Option (Operation × Except LockError Unit)} (hc : s.clients i = .resting handle last)
    {fresh : Token} (hfresh : ∀ p ∈ s.minted, p.2 ≠ fresh) (ttl : Duration) :
    Tracked d (System.proceed { s with minted := (i, fresh) :: s.minted } i .acquire
      (handle.acquire (d.manager i) fresh ttl)) j := by
  let minting : System ι δ := { s with minted := (i, fresh) :: s.minted }
  have less : ∀ j T, minting.Carries d j T → s.Carries d j T :=
    fun j T hT => hs.carries_mint hfresh hT
  by_cases hij : j = i
  · subst hij
    obtain ⟨hkey, htracks⟩ := h.resting hs hc
    refine tracked_proceed (s := minting) (hkey ▸ Handle.acquire_keeps hb ?_)
    exact fun T hT => htracks T (less j T hT)
  · -- the fresh token belongs to another handle
    have same : minting.Mints j = s.Mints j := by
      funext T
      refine propext ⟨fun hT => ?_, fun hT => List.mem_cons_of_mem _ hT⟩
      rcases List.mem_cons.mp hT with hnew | hold
      · exact absurd (Prod.mk.inj hnew).1 hij
      · exact hold
    have before : Tracked d minting j := h.frame rfl (fun n x hx _ => hx) same (less j)
    exact before.proceed_other hij _ _

/-- An effect that its caller waits for, if it has one, leaves every handle on track. -/
theorem Tracked.effect (h : Tracked d s j) (hs : s.Sound d) {n : Nat} {x : Issued ι}
    (hx : s.issued[n]? = some x) (hfate : x.fate = .inFlight)
    (hready : x.owner = some j → s.awaits j n) : Tracked d (s.execute d n x) j := by
  by_cases howner : x.owner = some j
  · obtain ⟨op, held, resume, hc⟩ := awaits_iff.mp (hready howner)
    exact h.execute hx hfate hc
  · obtain ⟨k, t, outcome, heff, -, hexec⟩ := hs.effect_cases hx
    refine h.frame rfl (fun m y hy hmine => ?_) rfl fun T hT => ?_
    · rw [hexec]
      have hne : n ≠ m := by
        rintro rfl
        exact howner (Option.some.inj (hx.symm.trans hy) ▸ hmine)
      rw [List.getElem?_set_ne hne, hy]
    · rw [hexec] at hT
      exact heff.carries hs howner hT

omit [DecidableEq ι] [LinearOrder δ] in
/-- **A move is punctual** for a handle: the handle drops no call, and a statement of its own takes
effect while it waits for the answer. -/
def Punctual (s : System ι δ) (i : ι) : Move ι → Prop
  | .drop j => i ≠ j
  | .effect n => ∀ x, s.issued[n]? = some x → x.owner = some i → s.awaits i n
  | _ => True

/-- **A punctual step keeps a handle on track**, where replies are honest. -/
theorem Tracked.punctual_step {rules : Rules} (h : Tracked d s j) (hhonest : rules.honest = true)
    (hb : d.backend.shadows d.table = false) (hs : s.Sound d) {e : Move ι} (he : s.Punctual j e)
    (hstep : s.step d rules e = some s') : Tracked d s' j := by
  have plain : ∀ i, (d.manager i).dialect.backend.shadows (d.manager i).tableName = false := by
    intro i
    rw [d.backend_eq, d.table_eq, hb]
  cases step_cases hstep with
  | @acquire i fresh ttl handle last hc hne hfresh => exact h.acquire hs (plain i) hc hfresh ttl
  | @extend i ttl handle last hc =>
      refine h.proceed fun hi => ?_
      obtain ⟨hkey, htracks⟩ := hi.resting hs hc
      exact hkey ▸ Handle.extend_keeps htracks
  | @release i handle last hc =>
      refine h.proceed fun hi => ?_
      obtain ⟨hkey, htracks⟩ := hi.resting hs hc
      exact hkey ▸ Handle.release_keeps htracks
  | purge _ => exact h.frame rfl (fun n x hx _ => getElem?_issue s _ _ _ hx) rfl fun T hT => hT
  | effect hx hfate _ => exact h.effect hs hx hfate (he _ hx)
  | reply hc htrue => exact h.proceed fun hi => hi.resume hc (htrue hhonest)
  | @drop i op n held resume hc _ =>
      exact h.frame (Function.update_of_ne he _ _) (fun n x hx _ => hx) rfl fun T hT => hT
  | tick _ => exact h.frame rfl (fun n x hx _ => hx) rfl fun T hT => hT

/-- In an orderly run every move is punctual for every handle. -/
theorem punctual_of_orderly {e : Move ι} (hstep : s.step d .orderly e = some s') (j : ι) :
    s.Punctual j e := by
  cases step_cases hstep with
  | effect hx _ hready =>
      intro y hy howner
      obtain rfl := Option.some.inj (hx.symm.trans hy)
      rcases hready with hlate | hready
      · exact absurd hlate (by simp [Rules.orderly])
      · exact hready j howner
  | drop _ hdrop => exact absurd hdrop (by simp [Rules.orderly])
  | _ => trivial

/-- **A punctual history** of a handle. -/
inductive Punctually (d : Deployment ι δ) (rules : Rules) (i : ι) : System ι δ → Prop
  | start (time : Int) : Punctually d rules i (start d time)
  | step {s s' : System ι δ} {e : Move ι} :
      Punctually d rules i s → s.Punctual i e → s.step d rules e = some s' →
      Punctually d rules i s'

theorem Punctually.reachable {rules : Rules} (h : Punctually d rules i s) : Reachable d rules s := by
  induction h with
  | start time => exact .start time
  | step _ _ hs ih => exact ih.step hs

/-- A handle with a punctual history is on track. -/
theorem Punctually.tracked {rules : Rules} (h : Punctually d rules i s)
    (hhonest : rules.honest = true) (hb : d.backend.shadows d.table = false) : Tracked d s i := by
  induction h with
  | start time =>
      rintro T ⟨r, hr, -, -⟩
      exact absurd hr (by simp [System.start])
  | step hp he hs ih => exact ih.punctual_step hhonest hb hp.reachable.sound he hs

theorem Reachable.punctually (h : Reachable d .orderly s) (i : ι) : Punctually d .orderly i s := by
  induction h with
  | start time => exact .start time
  | step _ hs ih => exact ih.step (punctual_of_orderly hs i) hs

theorem Reachable.tracked (hb : d.backend.shadows d.table = false) (h : Reachable d .orderly s)
    (j : ι) : Tracked d s j :=
  (h.punctually j).tracked rfl hb

/-! ## A release that reaches the row -/

/-- The moves of a release that is executed and answered next. -/
def releaseNext (s : System ι δ) (i : ι) : List (Move ι) :=
  [.release i, .effect s.issued.length, .reply i (.answered (.ok 1))]

/-- **The handle reaches its row**: at rest it tracks the token of a row of its own, and a release that
is executed and answered next removes the row and succeeds. -/
def Reaches (d : Deployment ι δ) (s : System ι δ) (i : ι) : Prop :=
  ∀ h last r, s.clients i = .resting h last → s.table.row? (d.key i) = some r →
    s.Mints i r.token →
    h.Tracks r.token ∧
      ∃ s' h', s.run d .orderly (s.releaseNext i) = some s' ∧ s'.table.row? (d.key i) = none ∧
        s'.clients i = .resting h' (some (.release, .ok ())) ∧ h'.isIdle

theorem Tracked.reaches (h : Tracked d s i) (hs : s.Sound d) : s.Reaches d i := by
  intro handle last r hc hr hT
  have htracks : handle.Tracks r.token := by
    rw [Tracked, hc] at h
    exact h r.token ⟨r, hr, rfl, hT⟩
  refine ⟨htracks, ?_⟩
  have hidle : handle.isIdle = false := by
    rcases htracks with hT | hT <;> simp [Handle.isIdle, hT]
  obtain ⟨resume, hrelease, hdone, -⟩ := handle.exists_release hidle (d.manager i)
  have hkey : (handle.ownValues .zero).key = d.key i := (hs.within hc).key_eq
  have hof : Request.IsOf d.backend d.table .release (handle.ownValues .zero)
      ((d.manager i).request (d.manager i).releaseStatement (handle.ownValues .zero)) := by
    rw [← d.backend_eq i, ← d.table_eq i]
    exact .release
  obtain ⟨n, t, heff⟩ := hof.release_effect (d.clock.moment s.time) s.table
  -- the release matches the row, so it takes it away
  have row := (hof.acts (by simp) heff).row
  rw [hkey, hr] at row
  have hown : r.isOwn (handle.ownValues .zero) := by
    rw [Row.isOwn, Bool.or_eq_true, decide_eq_true_eq, decide_eq_true_eq]
    exact htracks.ownValues .zero
  obtain ⟨rfl, hgone⟩ := row.released_of_isOwn hown
  obtain ⟨s₁, hrun, htable, -⟩ := run_answered .orderly i .release handle resume heff
  have started : s.step d .orderly (.release i) =
      some (s.proceed i .release (handle.release (d.manager i))) := by
    simp only [step, hc]
  let idle : Handle := { handle with token := none, unconfirmed := none }
  refine ⟨s₁.proceed i .release (.done idle (.ok ()) [.released handle.key]), idle, ?_, ?_, ?_, rfl⟩
  · rw [releaseNext, run, started, Option.bind_some, hrelease, hrun, hdone 0]
  · rw [proceed_table, htable, hgone]
  · exact proceed_done_clients ..

theorem Reachable.reaches (hb : d.backend.shadows d.table = false) (h : Reachable d .orderly s)
    (i : ι) : s.Reaches d i :=
  (h.tracked hb i).reaches h.sound

end

/-! ## A table that shadows the proposed row -/

/-- The table after a first claim. -/
def claimedOnce : Table Int := ((∅ : Table Int).insert? ⟨"job", "A", 10⟩).getD ∅

/-- There a handle claims its key twice, and both claims count; then the row carries the first token,
and the handle believes in the second one. -/
theorem claimed_twice_of_shadows {table : String} (h : Sqlite.Database.shadowsProposal table) :
    ∃ s, Reachable (.duel .sqlite table) .orderly s ∧
      s.clients .holder = .resting { key := "job", token := some "B" } (some (.acquire, .ok ())) ∧
      s.table.row? "job" = some ⟨"job", "A", 10⟩ ∧ s.Mints .holder "A" := by
  have first : Request.effect
      ⟨sqliteClaim table, (sqliteClaim table).bind ⟨"job", "A", "", "A", ⟨10000⟩⟩, none⟩
      (Clock.integral.moment 0) ∅ = .ok (1, claimedOnce) :=
    (sqliteClaim_effect h _ _ _ _ rfl).trans rfl
  have second : Request.effect
      ⟨sqliteClaim table, (sqliteClaim table).bind ⟨"job", "B", "A", "B", ⟨10000⟩⟩, none⟩
      (Clock.integral.moment 0) claimedOnce = .ok (1, claimedOnce) :=
    (sqliteClaim_effect h _ _ _ _ rfl).trans rfl
  let d : Deployment Duellist Int := .duel .sqlite table
  have plan : (d.manager .holder).claimPlan = .single (sqliteClaim table) := rfl
  have lasting : Duration.isZero ⟨10000⟩ = false := rfl
  have unused : ∀ p ∈ (System.start d 0).minted, p.2 ≠ "A" := by simp [System.start]
  obtain ⟨s₁, hrun₁, hclient₁, htable₁, hminted₁, htime₁, -⟩ :=
    run_acquire .orderly (s := System.start d 0) rfl (by decide) unused lasting plan first
  have unused' : ∀ p ∈ s₁.minted, p.2 ≠ "B" := by
    rw [hminted₁]
    simp [System.start]
  have second' : ((d.manager .holder).request (sqliteClaim table) ⟨"job", "B", "A", "B", ⟨10000⟩⟩).effect
      (d.clock.moment s₁.time) s₁.table = .ok (1, claimedOnce) := by
    rw [htable₁, htime₁]
    exact second
  obtain ⟨s₂, hrun₂, hclient₂, htable₂, hminted₂, -⟩ :=
    run_acquire .orderly hclient₁ (by decide) unused' lasting plan second'
  have hr : Reachable d .orderly s₂ := reachable_run (reachable_run (.start 0) hrun₁) hrun₂
  refine ⟨s₂, hr, hclient₂, ?_, ?_⟩
  · rw [htable₂]
    rfl
  · rw [Mints, hminted₂, hminted₁]
    exact List.mem_cons_of_mem _ List.mem_cons_self

/-- **A handle keeps track of its own row**, and can release it, in every orderly run of every
deployment on a table, exactly if the table does not shadow the proposed row of a claim. -/
theorem reaches_iff_not_shadows (b : Backend) (table : String) :
    (∀ (ι δ : Type) [DecidableEq ι] [LinearOrder δ] (d : Deployment ι δ), d.backend = b →
      d.table = table → ∀ s, Reachable d .orderly s → ∀ i, s.Reaches d i) ↔
        b.shadows table = false := by
  constructor
  · -- two claims in a row of one handle are enough
    intro h
    by_contra hshadows
    obtain ⟨hb, hname⟩ : b = .sqlite ∧ Sqlite.Database.shadowsProposal table := by
      simpa [Backend.shadows] using hshadows
    obtain ⟨s, hr, hclient, hrow, hminted⟩ := claimed_twice_of_shadows hname
    have reaches := h Duellist Int (.duel .sqlite table) hb.symm rfl s hr .holder
    obtain ⟨htracks, -⟩ := reaches _ _ _ hclient hrow hminted
    rcases htracks with htoken | hunconfirmed
    · exact absurd htoken (by decide)
    · exact absurd hunconfirmed (by decide)
  · rintro h ι δ _ _ d rfl rfl s hr i
    exact hr.reaches h i

end System

end LeaseLock
