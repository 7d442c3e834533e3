/-
# LeaseLock.Proofs.TokenDiscipline -- which tokens a handle sends over its life

A deed is one call of a handle that ran to its end: what was asked of the handle, what it sent, and
what came out. The replies are arbitrary, so the life of a handle (`Handle.Story`) is any sequence of
deeds in which each begins where the one before ended, under any script of row counts, duplicate keys,
failures and timeouts.

What becomes of the two token fields is said once (`Deed.Course`). A claim is decided by an answer, or
it leaves its token unconfirmed; from then on nothing but a decided claim or an answered release
changes the handle. So in between only one new token is sent, beside the one that the handle held
before (`Deed.OneToken`). Over the whole life a minted token is first unconfirmed at most and then
acquired at most once (`Handle.Accounts`).
-/
import LeaseLock.Proofs.LateStatements
import LeaseLock.Proofs.Purging

namespace LeaseLock

/-! ## Bound values of a request -/

/-- The value that a request binds to a parameter, where its statement has a slot for it. -/
def Request.bound? (r : Request) (p : Parameter) : Option Argument :=
  (r.statement.parameters.zip r.arguments).lookup p

theorem Manager.bound?_request (m : Manager) (s : Statement) (v : LeaseValues) (p : Parameter) :
    (m.request s v).bound? p = if p ∈ s.parameters then some (v.argument p) else none := by
  show (s.parameters.zip (s.parameters.map v.argument)).lookup p = _
  induction s.parameters with
  | nil => rfl
  | cons q parameters ih =>
    by_cases here : p = q
    · subst here
      simp
    · have apart : (p == q) = false := beq_false_of_ne here
      simp [List.lookup_cons, apart, ih, here]

/-- Every statement of a claim writes a token. -/
theorem ClaimPlan.writes_token {b : Backend} {table : String} {s : Statement}
    (hs : s ∈ (b.claim table).statements) : Parameter.token ∈ s.parameters := by
  cases b <;> simp [Backend.claim, ClaimPlan.statements] at hs <;> rcases hs with rfl | rfl <;> simp

theorem ClaimPlan.statements_ne_nil (plan : ClaimPlan) : plan.statements ≠ [] := by
  cases plan <;> simp [ClaimPlan.statements]

/-- Neither an extension nor a release has a slot for the token held before. -/
theorem Backend.extend_previousToken (b : Backend) (table : String) :
    Parameter.previousToken ∉ (b.extend table).parameters := by
  cases b <;> simp [Backend.extend, Backend.ttlParameter]

theorem Backend.release_previousToken (b : Backend) (table : String) :
    Parameter.previousToken ∉ (b.release table).parameters := by
  simp [Backend.release]

/-! ## Deeds -/

/-- What is asked of a handle is a claim. -/
def Errand.IsClaim : Errand → Prop
  | .acquire _ _ => True
  | .extend _ | .release => False

/-- The token that is minted when this is asked of a handle. A claim that goes on with an unconfirmed
token needs none, and a rejected one comes to none. -/
def Errand.mints (h : Handle) : Errand → Option Token
  | .acquire fresh ttl => if ttl.isZero || h.unconfirmed.isSome then none else some fresh
  | .extend _ | .release => none

theorem Errand.mints_acquire {h : Handle} {ttl : Duration} (fresh : Token)
    (positive : ttl.isZero = false) (pending : h.unconfirmed = none) :
    (Errand.acquire fresh ttl).mints h = some fresh := by
  simp [mints, positive, pending]

/-- **Deed**: a call of a handle that was carried to its end. -/
structure Deed where
  before : Handle
  errand : Errand
  /-- What was sent, in order. -/
  requests : List Request
  after : Handle
  result : Except LockError Unit

namespace Deed

/-- The deed is one that the handle's code does under some replies. -/
def Happens (m : Manager) (x : Deed) : Prop :=
  ∃ events, (x.errand.call m x.before).Asks x.requests (some ⟨x.after, x.result, events⟩)

/-- The deed decides what the handle holds: a claim was won or refused, or a release was answered. -/
def Settles (x : Deed) : Prop :=
  match x.errand with
  | .acquire _ _ => x.result = .ok () ∨ x.result = .error (.contention x.before.key)
  | .extend _ => False
  | .release => x.requests ≠ [] ∧
      ∀ key operation e, x.result ≠ .error (.transport key operation e)

/-- The token that was minted for the deed. -/
def minted (x : Deed) : Option Token := x.errand.mints x.before

/-- The token that the handle has after a claim that was won. -/
def acquired (x : Deed) : Option Token :=
  match x.errand, x.result with
  | .acquire _ _, .ok () => x.after.token
  | _, _ => none

end Deed

/-! ## What a deed can do -/

/-- What a claim that is sent comes to: it is won, refused, or without an answer. -/
inductive Handle.Claimed (h : Handle) (sent : Token) : Handle → Except LockError Unit → Prop
  | won : Claimed h sent { h with token := some sent, unconfirmed := none } (.ok ())
  | refused : Claimed h sent { h with token := none, unconfirmed := none }
      (.error (.contention h.key))
  | unanswered (e : TransportError) : Claimed h sent { h with unconfirmed := some sent }
      (.error (.transport h.key .acquire e))

/-- **Course of a deed**: the ways in which a call of a handle comes to its end. -/
inductive Deed.Course (m : Manager) : Deed → Prop
  /-- A time to live of zero is rejected. -/
  | rejected {h : Handle} {errand : Errand} {ttl : Duration} (zero : ttl.isZero)
      (asked : (∃ fresh, errand = .acquire fresh ttl) ∨ errand = .extend ttl) :
      Course m ⟨h, errand, [], h, .error (.config (.invalidTtl ttl))⟩
  /-- A handle that knows of no row of its own asks for nothing. -/
  | idle {h : Handle} {errand : Errand}
      (asked : (∃ ttl, ttl.isZero = false ∧ errand = .extend ttl) ∨ errand = .release) :
      Course m ⟨h, errand, [], h, .error (.lostLease h.key)⟩
  | extended {h : Handle} {ttl : Duration} {result : Except LockError Unit}
      (positive : ttl.isZero = false) :
      Course m ⟨h, .extend ttl, [m.request m.extendStatement (h.ownValues ttl)], h, result⟩
  | released {h : Handle} {result : Except LockError Unit}
      (answered : ∀ key operation e, result ≠ .error (.transport key operation e)) :
      Course m ⟨h, .release, [m.request m.releaseStatement (h.ownValues .zero)],
        { h with token := none, unconfirmed := none }, result⟩
  | unreleased {h : Handle} (e : TransportError) :
      Course m ⟨h, .release, [m.request m.releaseStatement (h.ownValues .zero)], h,
        .error (.transport h.key .release e)⟩
  | claimed {h h' : Handle} {fresh : Token} {ttl : Duration} {n : Nat}
      {result : Except LockError Unit} (positive : ttl.isZero = false) (some_sent : 0 < n)
      (outcome : h.Claimed (h.nextToken fresh) h' result) :
      Course m ⟨h, .acquire fresh ttl,
        (m.claimPlan.statements.take n).map fun s =>
          m.request s (h.claimValues (h.nextToken fresh) ttl), h', result⟩

namespace Handle

variable {h h' : Handle} {m : Manager} {fresh : Token} {ttl : Duration}

theorem acquire_comes_to (h : Handle) (m : Manager) (fresh : Token) (httl : ttl.isZero = false) :
    (h.acquire m fresh ttl).Ends (h.Claimed (h.nextToken fresh)) := by
  unfold acquire
  rw [if_neg (by simp [httl])]
  apply Manager.claim_ends
  intro verdict
  rcases verdict with e | _ | _
  · exact .unanswered e
  · exact .refused
  · exact .won

/-- An extension leaves the handle as it is. -/
theorem extend_comes_to (h : Handle) (m : Manager) (ttl : Duration) :
    (h.extend m ttl).Ends fun state _ => state = h := by
  unfold extend
  split
  · exact rfl
  · split
    · exact rfl
    · intro reply
      dsimp only
      rcases reply.rows with e | _ | n <;> exact rfl

/-- A release that is answered makes the handle idle; one that is not leaves it as it is. -/
theorem release_comes_to (h : Handle) (m : Manager) (hidle : h.isIdle = false) :
    (h.release m).Ends fun state result =>
      (state = { h with token := none, unconfirmed := none } ∧
        ∀ key operation e, result ≠ .error (.transport key operation e)) ∨
      state = h ∧ ∃ e, result = .error (.transport h.key .release e) := by
  unfold release
  rw [if_neg (by simp [hidle])]
  intro reply
  dsimp only
  rcases reply.rows with e | _ | n
  · exact .inr ⟨rfl, e, rfl⟩
  · exact .inl ⟨rfl, fun _ _ _ => by simp⟩
  · exact .inl ⟨rfl, fun _ _ _ => by simp⟩

end Handle

/-- Noting nothing changes nothing. -/
theorem Call.logging_nothing {σ α : Type} (call : Call σ α) : call.logging (fun _ => []) = call := by
  induction call with
  | done state result events => rw [Call.logging, List.append_nil]
  | ask r held resume ih =>
    rw [Call.logging]
    exact congrArg _ (funext ih)

/-- Every deed takes one of these courses. -/
theorem Deed.Happens.course {m : Manager} {x : Deed} (happens : x.Happens m) : x.Course m := by
  rcases x with ⟨h, errand, requests, h', result⟩
  obtain ⟨events, asks⟩ := happens
  cases errand with
  | acquire fresh ttl =>
    replace asks : (h.acquire m fresh ttl).Asks requests (some ⟨h', result, events⟩) := asks
    cases zero : ttl.isZero with
    | true =>
      rw [h.acquire_of_isZero zero] at asks
      cases asks
      exact .rejected zero (.inl ⟨fresh, rfl⟩)
    | false =>
      have outcome : h.Claimed (h.nextToken fresh) h' result :=
        asks.ends (h.acquire_comes_to m fresh zero)
      obtain ⟨n, some_sent, rfl⟩ := Handle.acquire_asks zero asks
      exact .claimed zero some_sent outcome
  | extend ttl =>
    replace asks : (h.extend m ttl).Asks requests (some ⟨h', result, events⟩) := asks
    cases zero : ttl.isZero with
    | true =>
      rw [h.extend_of_isZero zero] at asks
      cases asks
      exact .rejected zero (.inr rfl)
    | false =>
      cases hidle : h.isIdle with
      | true =>
        rw [h.extend_of_isIdle zero hidle] at asks
        cases asks
        exact .idle (.inl ⟨ttl, zero, rfl⟩)
      | false =>
        obtain rfl : h' = h := asks.ends (h.extend_comes_to m ttl)
        rw [← Call.logging_nothing (Handle.extend _ _ _)] at asks
        obtain rfl := Handle.extend_asks zero hidle _ asks
        exact .extended zero
  | release =>
    replace asks : (h.release m).Asks requests (some ⟨h', result, events⟩) := asks
    cases hidle : h.isIdle with
    | true =>
      rw [h.release_of_isIdle hidle] at asks
      cases asks
      exact .idle (.inr rfl)
    | false =>
      have outcome := asks.ends (h.release_comes_to m hidle)
      obtain rfl := Handle.release_asks hidle asks
      rcases outcome with ⟨idle, answered⟩ | ⟨same, e, failed⟩
      · obtain rfl : h' = _ := idle
        exact .released answered
      · obtain rfl : h' = h := same
        obtain rfl : result = _ := failed
        exact .unreleased e

/-! ## What a deed does to the handle -/

namespace Deed

variable {m : Manager} {x : Deed}

/-- **Failures that are spared the tokens.** A rejected time to live sends nothing and changes
nothing; an extension never changes the handle, nor does a release without an answer. A claim without
an answer leaves the token as it was and records the one that it has sent. -/
structure SparesTokens (x : Deed) : Prop where
  rejected : ∀ ttl, ((∃ fresh, x.errand = .acquire fresh ttl) ∨ x.errand = .extend ttl) →
    ttl.isZero → x.result = .error (.config (.invalidTtl ttl)) ∧ x.requests = [] ∧ x.after = x.before
  extend : ∀ ttl, x.errand = .extend ttl → x.after = x.before
  release : x.errand = .release → ∀ key operation e, x.result = .error (.transport key operation e) →
    x.after = x.before
  acquire : ∀ fresh ttl, x.errand = .acquire fresh ttl → ∀ key operation e,
    x.result = .error (.transport key operation e) → x.after.token = x.before.token ∧
      ∃ sent, x.after.unconfirmed = some sent ∧ x.requests ≠ [] ∧
        ∀ r ∈ x.requests, r.bound? .token = some (.text sent)

/-- What is sent for a claim binds the claim's token. -/
theorem bound?_claim {h : Handle} {sent : Token} {ttl : Duration} {n : Nat} {r : Request}
    (hr : r ∈ (m.claimPlan.statements.take n).map fun s => m.request s (h.claimValues sent ttl)) :
    r.bound? .token = some (.text sent) ∧
      (∀ a, r.bound? .unconfirmedToken = some a → a = .text sent) ∧
      ∀ a, r.bound? .previousToken = some a → a = .text (h.token.getD "") := by
  obtain ⟨s, hs, rfl⟩ := List.mem_map.mp hr
  have writes : Parameter.token ∈ s.parameters := ClaimPlan.writes_token (List.mem_of_mem_take hs)
  refine ⟨?_, ?_, ?_⟩
  · rw [Manager.bound?_request, if_pos writes]
    rfl
  · intro a ha
    rw [Manager.bound?_request] at ha
    split at ha
    · exact (Option.some.inj ha).symm
    · exact absurd ha (by simp)
  · intro a ha
    rw [Manager.bound?_request] at ha
    split at ha
    · exact (Option.some.inj ha).symm
    · exact absurd ha (by simp)

theorem Course.sparesTokens (course : x.Course m) : x.SparesTokens := by
  constructor
  · intro ttl asked zero
    cases course with
    | rejected zero' asked' =>
      rcases asked with ⟨fresh, rfl⟩ | rfl <;> rcases asked' with ⟨fresh', same⟩ | same <;> cases same
      · exact ⟨rfl, rfl, rfl⟩
      · exact ⟨rfl, rfl, rfl⟩
    | idle asked' =>
      rcases asked with ⟨fresh, rfl⟩ | rfl <;> rcases asked' with ⟨_, positive, same⟩ | same <;>
        cases same
      exact absurd zero (by simp [positive])
    | extended positive =>
      rcases asked with ⟨_, same⟩ | same <;> cases same
      exact absurd zero (by simp [positive])
    | released answered => rcases asked with ⟨_, same⟩ | same <;> cases same
    | unreleased e => rcases asked with ⟨_, same⟩ | same <;> cases same
    | claimed positive some_sent outcome =>
      rcases asked with ⟨_, same⟩ | same <;> cases same
      exact absurd zero (by simp [positive])
  · intro ttl asked
    cases course with
    | released answered => cases asked
    | claimed positive some_sent outcome => cases asked
    | _ => rfl
  · intro asked key operation e failed
    cases course with
    | released answered => exact absurd failed (answered key operation e)
    | claimed positive some_sent outcome => cases asked
    | _ => rfl
  · intro fresh ttl asked key operation e failed
    cases course with
    | rejected => cases failed
    | idle => cases failed
    | extended => cases asked
    | released => cases asked
    | unreleased => cases asked
    | claimed positive some_sent outcome =>
      cases outcome with
      | won => cases failed
      | refused => cases failed
      | unanswered e' =>
        refine ⟨rfl, _, rfl, ?_, fun r hr => (bound?_claim hr).1⟩
        rw [Ne, List.map_eq_nil_iff, List.take_eq_nil_iff, not_or]
        exact ⟨Nat.ne_of_gt some_sent, m.claimPlan.statements_ne_nil⟩

end Deed

/-! ## The life of a handle -/

/-- **Story** of a handle: deeds in order, each from where the one before it ended. -/
inductive Handle.Story (m : Manager) : Handle → List Deed → Handle → Prop
  | rest (h : Handle) : Story m h [] h
  | cons {x : Deed} {deeds : List Deed} {last : Handle} :
      x.Happens m → Story m x.after deeds last → Story m x.before (x :: deeds) last

namespace Handle

variable {m : Manager} {h last : Handle} {deeds : List Deed}

/-- A story can be cut between any two deeds. -/
theorem Story.cut {earlier later : List Deed} (story : h.Story m (earlier ++ later) last) :
    ∃ between : Handle, h.Story m earlier between ∧ between.Story m later last := by
  induction earlier generalizing h with
  | nil => exact ⟨h, .rest h, story⟩
  | cons x earlier ih =>
    cases story with
    | cons happens rest =>
      obtain ⟨between, first, second⟩ := ih rest
      exact ⟨between, .cons happens first, second⟩

/-! ## Stretches without a settlement -/

/-- How a deed of a stretch finds the handle, when the stretch began with `h`: it holds what it held
then, and what is unconfirmed, or about to be sent, is the new token of the stretch. -/
structure Meets (h : Handle) (new : Token) (x : Deed) : Prop where
  token : x.before.token = h.token
  unconfirmed : x.before.unconfirmed = none ∨ x.before.unconfirmed = some new
  next : ∀ fresh ttl, x.errand = .acquire fresh ttl → ttl.isZero = false →
    x.before.nextToken fresh = new

/-- A deed that settles nothing leaves the handle as it is, unless it is a claim: that leaves its
token unconfirmed. -/
theorem after_of_not_settles {x : Deed} (course : x.Course m) (open_ : ¬ x.Settles) :
    (x.after = x.before ∧ ∀ fresh ttl, x.errand = .acquire fresh ttl → ttl.isZero) ∨
      ∃ fresh ttl, x.errand = .acquire fresh ttl ∧
        x.after = { x.before with unconfirmed := some (x.before.nextToken fresh) } := by
  cases course with
  | rejected zero asked =>
    refine .inl ⟨rfl, ?_⟩
    rintro fresh ttl rfl
    rcases asked with ⟨_, same⟩ | same <;> cases same
    exact zero
  | idle asked =>
    refine .inl ⟨rfl, ?_⟩
    rintro fresh ttl rfl
    rcases asked with ⟨_, _, same⟩ | same <;> cases same
  | extended positive => exact .inl ⟨rfl, fun _ _ same => by cases same⟩
  | released answered => exact absurd ⟨List.cons_ne_nil _ _, answered⟩ open_
  | unreleased e => exact .inl ⟨rfl, fun _ _ same => by cases same⟩
  | claimed positive some_sent outcome =>
    cases outcome with
    | won => exact absurd (.inl rfl) open_
    | refused => exact absurd (.inr rfl) open_
    | unanswered e => exact .inr ⟨_, _, rfl, rfl⟩

/-- Once a token is unconfirmed, the handle stays as it is until something is settled. -/
theorem Story.fixed (story : h.Story m deeds last) {sent : Token} (hsent : h.unconfirmed = some sent)
    (open_ : ∀ x ∈ deeds, ¬ x.Settles) : ∀ x ∈ deeds, x.before = h := by
  induction story with
  | rest h => exact fun x hx => absurd hx List.not_mem_nil
  | @cons x deeds last happens rest ih =>
    have same : x.after = x.before := by
      rcases after_of_not_settles happens.course (open_ x List.mem_cons_self) with
        ⟨same, _⟩ | ⟨fresh, ttl, _, after⟩
      · exact same
      · rw [after, nextToken, hsent, Option.getD_some, ← hsent]
    intro y hy
    rcases List.mem_cons.mp hy with rfl | hy
    · rfl
    · rw [← same]
      apply ih (same ▸ hsent) _ y hy
      intro z hz
      exact open_ z (List.mem_cons_of_mem x hz)

/-- **One new token per stretch.** -/
theorem Story.meets (story : h.Story m deeds last) (open_ : ∀ x ∈ deeds, ¬ x.Settles) :
    ∃ new, ∀ x ∈ deeds, h.Meets new x := by
  cases pending : h.unconfirmed with
  | some sent =>
    refine ⟨sent, fun x hx => ?_⟩
    have same := story.fixed pending open_ x hx
    refine ⟨by rw [same], .inr (by rw [same, pending]), ?_⟩
    intro fresh ttl _ _
    rw [nextToken, same, pending, Option.getD_some]
  | none =>
    induction story with
    | rest h => exact ⟨"", fun x hx => absurd hx List.not_mem_nil⟩
    | @cons x deeds last happens rest ih =>
      have rest_open : ∀ y ∈ deeds, ¬ y.Settles := fun y hy => open_ y (List.mem_cons_of_mem x hy)
      rcases after_of_not_settles happens.course (open_ x List.mem_cons_self) with
        ⟨same, zero⟩ | ⟨fresh, ttl, asked, after⟩
      · obtain ⟨new, meets⟩ := ih rest_open (by rw [same, pending])
        refine ⟨new, fun y hy => ?_⟩
        rcases List.mem_cons.mp hy with rfl | hy
        · refine ⟨rfl, .inl pending, ?_⟩
          intro fresh ttl asked positive
          exact absurd (zero fresh ttl asked) (by simp [positive])
        · rw [← same]
          exact meets y hy
      · -- the first claim of the stretch leaves its token unconfirmed
        have sent : x.after.unconfirmed = some (x.before.nextToken fresh) := by rw [after]
        refine ⟨x.before.nextToken fresh, fun y hy => ?_⟩
        rcases List.mem_cons.mp hy with rfl | hy
        · refine ⟨rfl, .inl pending, ?_⟩
          intro fresh' ttl' asked' _
          obtain ⟨rfl, rfl⟩ := Errand.acquire.inj (asked.symm.trans asked')
          rfl
        · have same := rest.fixed sent rest_open y hy
          refine ⟨by rw [same, after], .inr (by rw [same, sent]), ?_⟩
          intro fresh' ttl' _ _
          rw [nextToken, same, sent, Option.getD_some]

/-! ## The accounts of a handle -/

/-- **Accounts**: of the tokens minted so far, the one that is held was acquired and the one that is
unconfirmed was not, and no token was acquired twice. -/
structure Accounts (minted acquired : List Token) (h : Handle) : Prop where
  token : ∀ T, h.token = some T → T ∈ acquired
  unconfirmed : ∀ T, h.unconfirmed = some T → T ∈ minted ∧ T ∉ acquired
  minted : ∀ T ∈ acquired, T ∈ minted
  nodup : acquired.Nodup

/-- The two fields never hold the same token. -/
def Distinct (h : Handle) : Prop := ∀ T, h.token = some T → h.unconfirmed ≠ some T

variable {minted acquired : List Token} {fresh : Token} {x : Deed}

theorem Accounts.distinct (accounts : h.Accounts minted acquired) : h.Distinct := by
  intro T held pending
  exact (accounts.unconfirmed T pending).2 (accounts.token T held)

/-- Minting more does no harm. -/
theorem Accounts.mint (accounts : h.Accounts minted acquired) (more : List Token) :
    h.Accounts (minted ++ more) acquired where
  token := accounts.token
  unconfirmed := by
    intro T pending
    obtain ⟨mem, fresh⟩ := accounts.unconfirmed T pending
    exact ⟨List.mem_append_left _ mem, fresh⟩
  minted := fun T hT => List.mem_append_left _ (accounts.minted T hT)
  nodup := accounts.nodup

/-- What a claim sends has been minted, for it or for an earlier one, and was never acquired. -/
theorem Accounts.next (accounts : h.Accounts minted acquired)
    (unminted : h.unconfirmed = none → fresh ∉ minted) :
    h.nextToken fresh ∉ acquired ∧ (h.unconfirmed = none ∧ h.nextToken fresh = fresh ∨
      h.unconfirmed = some (h.nextToken fresh) ∧ h.nextToken fresh ∈ minted) := by
  cases pending : h.unconfirmed with
  | none =>
    have same : h.nextToken fresh = fresh := by rw [nextToken, pending, Option.getD_none]
    rw [same]
    exact ⟨fun mem => unminted pending (accounts.minted fresh mem), .inl ⟨rfl, rfl⟩⟩
  | some sent =>
    have same : h.nextToken fresh = sent := by rw [nextToken, pending, Option.getD_some]
    rw [same]
    obtain ⟨mem, new⟩ := accounts.unconfirmed sent pending
    exact ⟨new, .inr ⟨rfl, mem⟩⟩

/-- The step of the accounts. -/
theorem Accounts.step (accounts : x.before.Accounts minted acquired) (course : x.Course m)
    (unminted : ∀ T, x.minted = some T → T ∉ minted) :
    x.after.Accounts (minted ++ x.minted.toList) (acquired ++ x.acquired.toList) := by
  cases course with
  | rejected zero asked =>
    rcases asked with ⟨fresh, rfl⟩ | rfl
    · simpa [Deed.acquired] using accounts.mint _
    · simpa [Deed.acquired] using accounts.mint _
  | idle asked =>
    rcases asked with ⟨ttl, _, rfl⟩ | rfl
    · simpa [Deed.acquired] using accounts.mint _
    · simpa [Deed.acquired] using accounts.mint _
  | extended positive => simpa [Deed.acquired] using accounts.mint _
  | unreleased e => simpa [Deed.acquired] using accounts.mint _
  | released answered =>
    simp only [Deed.acquired, Option.toList_none, List.append_nil]
    exact ⟨nofun, nofun, (accounts.mint _).minted, accounts.nodup⟩
  | @claimed before after fresh ttl n result positive some_sent outcome =>
    obtain ⟨new, source⟩ := accounts.next fun pending =>
      unminted fresh (Errand.mints_acquire fresh positive pending)
    have known := accounts.mint ((Errand.acquire fresh ttl).mints before).toList
    have mem : before.nextToken fresh ∈ minted ++ ((Errand.acquire fresh ttl).mints before).toList := by
      rcases source with ⟨pending, same⟩ | ⟨_, mem⟩
      · apply List.mem_append_right
        rw [Errand.mints_acquire fresh positive pending, same]
        exact List.mem_singleton_self fresh
      · exact List.mem_append_left _ mem
    cases outcome with
    | won =>
      refine ⟨?_, nofun, ?_, ?_⟩
      · rintro T ⟨⟩
        exact List.mem_append_right _ List.mem_cons_self
      · intro T hT
        rcases List.mem_append.mp hT with hT | hT
        · exact known.minted T hT
        · obtain rfl : T = _ := List.mem_singleton.mp hT
          exact mem
      · exact known.nodup.append (List.nodup_singleton _) (List.disjoint_singleton.mpr new)
    | refused =>
      simp only [Deed.acquired, Option.toList_none, List.append_nil]
      exact ⟨nofun, nofun, known.minted, known.nodup⟩
    | unanswered e =>
      simp only [Deed.acquired, Option.toList_none, List.append_nil]
      refine ⟨known.token, ?_, known.minted, known.nodup⟩
      rintro T ⟨⟩
      exact ⟨mem, new⟩

theorem filterMap_deeds (f : Deed → Option Token) (x : Deed) (deeds : List Deed) :
    (x :: deeds).filterMap f = (f x).toList ++ deeds.filterMap f := by
  cases hx : f x with
  | none => rw [List.filterMap_cons_none hx, Option.toList_none, List.nil_append]
  | some T => rw [List.filterMap_cons_some hx, Option.toList_some, List.singleton_append]

/-- A story keeps the accounts. -/
theorem Story.accounts (story : h.Story m deeds last) (accounts : h.Accounts minted acquired)
    (unique : (minted ++ deeds.filterMap Deed.minted).Nodup) :
    last.Accounts (minted ++ deeds.filterMap Deed.minted)
      (acquired ++ deeds.filterMap Deed.acquired) := by
  induction story generalizing minted acquired with
  | rest h =>
    rw [List.filterMap_nil, List.filterMap_nil, List.append_nil, List.append_nil]
    exact accounts
  | @cons x deeds last happens rest ih =>
    rw [filterMap_deeds, ← List.append_assoc] at unique
    rw [filterMap_deeds, filterMap_deeds, ← List.append_assoc, ← List.append_assoc]
    apply ih _ unique
    apply accounts.step happens.course
    intro T hT mem
    have apart := List.disjoint_of_nodup_append (List.nodup_append.mp unique).1
    exact apart mem (by rw [hT]; exact List.mem_cons_self)

/-- An idle handle has nothing on its accounts. -/
theorem idle_accounts (key : String) : ({ key } : Handle).Accounts [] [] :=
  ⟨nofun, nofun, nofun, List.nodup_nil⟩

/-- At every deed of a story that began idle the accounts are in order, and what is minted for the
deed was not minted before. -/
theorem Story.accounts_at {key : String} (story : ({ key } : Handle).Story m deeds last)
    (unique : (deeds.filterMap Deed.minted).Nodup) (hx : x ∈ deeds) :
    ∃ minted acquired, x.before.Accounts minted acquired ∧ (∀ T, x.minted = some T → T ∉ minted) ∧
      ∀ T ∈ minted, T ∈ deeds.filterMap Deed.minted := by
  obtain ⟨earlier, later, rfl⟩ := List.append_of_mem hx
  obtain ⟨between, first, second⟩ := story.cut
  rw [List.filterMap_append, filterMap_deeds] at unique
  cases second with
  | cons happens rest =>
    refine ⟨_, _, first.accounts (idle_accounts key) (List.nodup_append.mp unique).1, ?_, ?_⟩
    · intro T hT mem
      apply List.disjoint_of_nodup_append unique mem
      rw [hT]
      exact List.mem_cons_self
    · intro T hT
      rw [List.filterMap_append]
      exact List.mem_append_left _ hT

/-! ## Token discipline -/

/-- **One new and one previous token** are all that a list of deeds sends. Every claim binds the new
one, and the previous one where its statement has a slot for it. -/
def OneToken (stretch : List Deed) : Prop :=
  ∃ new previous : Token, ∀ x ∈ stretch, ∀ r ∈ x.requests,
    (∀ T ∈ r.tokens, T = "" ∨ T = new ∨ T = previous) ∧
    (x.errand.IsClaim → new ≠ "" ∧ new ≠ previous ∧ r.bound? .token = some (.text new) ∧
      (∀ a, r.bound? .unconfirmedToken = some a → a = .text new) ∧
      ∀ a, r.bound? .previousToken = some a → a = .text previous)

/-- What a deed sends when it finds the handle as its stretch does. -/
theorem Meets.tokens {new : Token} (meets : h.Meets new x) (course : x.Course m) :
    ∀ r ∈ x.requests, ∀ T ∈ r.tokens, T = "" ∨ T = new ∨ T = h.token.getD "" := by
  have own {r : Request} {s : Statement} {ttl : Duration}
      (unslotted : Parameter.previousToken ∉ s.parameters)
      (hr : r ∈ [m.request s (x.before.ownValues ttl)]) :
      ∀ T ∈ r.tokens, T = "" ∨ T = new ∨ T = h.token.getD "" := by
    obtain rfl := List.mem_singleton.mp hr
    intro T hT
    rcases LeaseValues.mem_tokens.mp hT with ⟨_, rfl⟩ | ⟨slot, _⟩ | ⟨_, rfl⟩
    · exact .inr (.inr (congrArg (Option.getD · "") meets.token))
    · exact absurd slot unslotted
    · rcases meets.unconfirmed with none | some
      · exact .inl (congrArg (Option.getD · "") none)
      · exact .inr (.inl (congrArg (Option.getD · "") some))
  intro r hr
  cases course with
  | rejected => exact absurd hr List.not_mem_nil
  | idle => exact absurd hr List.not_mem_nil
  | extended => exact own (Backend.extend_previousToken _ _) hr
  | released => exact own (Backend.release_previousToken _ _) hr
  | unreleased => exact own (Backend.release_previousToken _ _) hr
  | @claimed before after fresh ttl n result positive some_sent outcome =>
    obtain ⟨s, _, rfl⟩ := List.mem_map.mp hr
    have sent : before.nextToken fresh = new := meets.next fresh ttl rfl positive
    intro T hT
    rcases LeaseValues.mem_tokens.mp hT with ⟨_, rfl⟩ | ⟨_, rfl⟩ | ⟨_, rfl⟩
    · exact .inr (.inl sent)
    · exact .inr (.inr (congrArg (Option.getD · "") meets.token))
    · exact .inr (.inl sent)

/-- The token of a claim is not empty, and it is not the one held before. -/
theorem Accounts.next_ne (accounts : h.Accounts minted acquired)
    (unminted : h.unconfirmed = none → fresh ∉ minted ∧ fresh ≠ "") (proper : "" ∉ minted) :
    h.nextToken fresh ≠ "" ∧ h.nextToken fresh ≠ h.token.getD "" := by
  obtain ⟨new, source⟩ := accounts.next fun pending => (unminted pending).1
  have nonempty : h.nextToken fresh ≠ "" := by
    rcases source with ⟨pending, same⟩ | ⟨_, mem⟩
    · rw [same]
      exact (unminted pending).2
    · exact fun empty => proper (empty ▸ mem)
  refine ⟨nonempty, ?_⟩
  cases held : h.token with
  | none => exact nonempty
  | some T => exact fun same => new (same ▸ accounts.token T held)

/-- What a claim sends when it finds the handle as its stretch does. -/
theorem Meets.claim {new : Token} (meets : h.Meets new x) (course : x.Course m)
    (claim : x.errand.IsClaim) (accounts : x.before.Accounts minted acquired)
    (unminted : ∀ T, x.minted = some T → T ∉ minted ∧ T ≠ "") (proper : "" ∉ minted) :
    ∀ r ∈ x.requests, new ≠ "" ∧ new ≠ h.token.getD "" ∧ r.bound? .token = some (.text new) ∧
      (∀ a, r.bound? .unconfirmedToken = some a → a = .text new) ∧
      ∀ a, r.bound? .previousToken = some a → a = .text (h.token.getD "") := by
  intro r hr
  cases course with
  | rejected => exact absurd hr List.not_mem_nil
  | idle => exact absurd hr List.not_mem_nil
  | extended => exact absurd claim id
  | released => exact absurd claim id
  | unreleased => exact absurd claim id
  | @claimed before after fresh ttl n result positive some_sent outcome =>
    have sent : before.nextToken fresh = new := meets.next fresh ttl rfl positive
    have held : before.token = h.token := meets.token
    have next := accounts.next_ne
      (fun pending => unminted fresh (Errand.mints_acquire fresh positive pending)) proper
    have binds := Deed.bound?_claim hr
    rw [← sent, ← held]
    exact ⟨next.1, next.2, binds⟩

/-- **Token discipline.** Over the whole life of a handle, under any replies: between settlements all
claims send one and the same new token and one and the same previous one, and everything else sends
only these; a failed call that settles nothing leaves the tokens as they were, but for a claim without
an answer, which records the token that it has sent; the two fields never agree; and no token is
acquired twice. -/
theorem Story.token_discipline {key : String} (story : ({ key } : Handle).Story m deeds last)
    (unique : (deeds.filterMap Deed.minted).Nodup) (proper : "" ∉ deeds.filterMap Deed.minted) :
    (∀ earlier stretch later, deeds = earlier ++ stretch ++ later → (∀ x ∈ stretch, ¬ x.Settles) →
      OneToken stretch) ∧
    (∀ x ∈ deeds, x.SparesTokens) ∧
    (∀ x ∈ deeds, x.before.Distinct ∧ x.after.Distinct) ∧
    (deeds.filterMap Deed.acquired).Nodup := by
  have course : ∀ x ∈ deeds, x.Course m := by
    intro x hx
    obtain ⟨earlier, later, rfl⟩ := List.append_of_mem hx
    obtain ⟨between, _, second⟩ := story.cut
    cases second with
    | cons happens _ => exact happens.course
  refine ⟨?_, ?_, ?_, ?_⟩
  · rintro earlier stretch later rfl open_
    obtain ⟨_, first, _⟩ := story.cut
    obtain ⟨start, _, middle⟩ := first.cut
    obtain ⟨new, meets⟩ := middle.meets open_
    refine ⟨new, start.token.getD "", ?_⟩
    intro x hx r hr
    have hmem : x ∈ earlier ++ stretch ++ later := by simp [hx]
    refine ⟨(meets x hx).tokens (course x hmem) r hr, ?_⟩
    intro claim
    obtain ⟨minted, acquired, accounts, new_here, known⟩ := story.accounts_at unique hmem
    refine (meets x hx).claim (course x hmem) claim accounts ?_ (fun empty => proper (known "" empty))
      r hr
    intro T hT
    refine ⟨new_here T hT, ?_⟩
    rintro rfl
    exact proper (List.mem_filterMap.mpr ⟨x, hmem, hT⟩)
  · exact fun x hx => (course x hx).sparesTokens
  · intro x hx
    obtain ⟨minted, acquired, accounts, new_here, _⟩ := story.accounts_at unique hx
    exact ⟨accounts.distinct, (accounts.step (course x hx) new_here).distinct⟩
  · exact (story.accounts (idle_accounts key) unique).nodup

/-- A claim whose insert gets no answer, a release that gets none, and a claim that goes on with the
token of the first. -/
theorem token_discipline_of_lost_answers :
    let m : Manager := ⟨.mysql, "locks", some ⟨10⟩⟩
    let idle : Handle := { key := "job" }
    let unsure : Handle := { idle with unconfirmed := some "A" }
    let claims := m.claimPlan.statements.map (m.request · (idle.claimValues "A" ⟨1⟩))
    let lost : Deed := ⟨idle, .acquire "A" ⟨1⟩, claims, unsure,
      .error (.transport "job" .acquire (.timeout ⟨10⟩))⟩
    let unheard : Deed := ⟨unsure, .release, [m.request m.releaseStatement (unsure.ownValues .zero)],
      unsure, .error (.transport "job" .release (.timeout ⟨10⟩))⟩
    let won : Deed := ⟨unsure, .acquire "B" ⟨1⟩, claims.take 1, { idle with token := some "A" }, .ok ()⟩
    idle.Story m [lost, unheard, won] { idle with token := some "A" } ∧
      [lost, unheard, won].filterMap Deed.minted = ["A"] ∧
      [lost, unheard, won].filterMap Deed.acquired = ["A"] ∧ OneToken [lost, unheard] := by
  intro m idle unsure claims lost unheard won
  have story : idle.Story m [lost, unheard, won] { idle with token := some "A" } := by
    apply Story.cons (x := lost)
    · exact ⟨[], .answered (.answered (.ok 0)) (.answered (.overran ⟨10⟩) (.done _ _ _))⟩
    apply Story.cons (x := unheard)
    · exact ⟨[], .answered (.overran ⟨10⟩) (.done _ _ _)⟩
    apply Story.cons (x := won)
    · exact ⟨[.acquired "job" ⟨1⟩], .answered (.answered (.ok 1)) (.done _ _ _)⟩
    exact .rest _
  have minted : [lost, unheard, won].filterMap Deed.minted = ["A"] := rfl
  refine ⟨story, minted, rfl, ?_⟩
  have discipline := story.token_discipline (minted ▸ by decide) (minted ▸ by decide)
  apply discipline.1 [] [lost, unheard] [won] rfl
  intro x hx settles
  rcases List.mem_cons.mp hx with rfl | hx
  · rcases settles with won | refused
    · cases won
    · cases refused
  · obtain rfl := List.mem_singleton.mp hx
    exact settles.2 _ _ _ rfl

end Handle

end LeaseLock
