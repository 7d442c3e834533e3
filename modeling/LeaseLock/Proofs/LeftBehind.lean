/-
# LeaseLock.Proofs.LeftBehind -- rows that exclusive runs leave behind

An exclusive run that has acquired its key releases it, whatever comes of its task: at its end either
its token is gone from the row, or its release has got no answer. A run that was refused has claimed
nothing. But a run whose acquisition got no answer is over at once, and its claim may have counted, or
may still count: then the row is left behind, and the token that would match it is forgotten with the
run. There is no other way to leave a row behind, however the answers get lost and whenever the
statements of the run and of all others take effect.

What carries the proof through a run is that the row carries the token of the run only since a claim of
the run has counted (`System.Watched`), and that no claim is under way any more when the release is
sent.
-/
import LeaseLock.Proofs.ExclusiveRun
import LeaseLock.Proofs.Transcript
import LeaseLock.Proofs.Uninterrupted
import LeaseLock.Retry.Registry

namespace LeaseLock

/-! ## The lock operations of a run -/

namespace Exclusive

/-- **The outcomes** of a run's lock operations in their order, but for its extensions. -/
def outcomes {ω α : Type} (stage : Stage ω α) (d : Dialect) (key : String) (o : ExclusiveOptions)
    (fresh : Token) (w : ω) : List (Operation × Except LockError Unit) :=
  match prepare d key o with
  | .error _ => []
  | .ok (m, idle) =>
    let claimed := stage.perform w (idle.acquire m fresh o.lockTtl)
    match claimed.2.result with
    | .error e => [(.acquire, .error e)]
    | .ok () =>
      if schedulable (stage.clock claimed.1) o.extendEvery then
        let worked := stage.work claimed.1 <| o.extendEvery.map fun interval =>
          ⟨interval, extension m claimed.2.state o.lockTtl⟩
        let released := stage.performWithin worked.1 o.releaseTimeout (claimed.2.state.release m)
        [(.acquire, .ok ()), (.release, (releaseOutcome key o.releaseTimeout released.2).1)]
      else [(.acquire, .ok ())]

/-- **How a run can go** that does not break down: it fails its checks, it fails to acquire the key, or
it works and releases. -/
inductive Went {ω α : Type} (stage : Stage ω α) (m : Manager) (key : String) (o : ExclusiveOptions)
    (fresh : Token) (w : ω) : ω → ExclusiveResult α → List (Operation × Except LockError Unit) → Prop
  | unprepared (e : ConfigError) : Went stage m key o fresh w w (.error (.lock (.config e))) []
  | unclaimed {w₁ : ω} {claimed : Call.Finished Handle (Except LockError Unit)} {e : LockError} :
      stage.perform w (({ key } : Handle).acquire m fresh o.lockTtl) = (w₁, claimed) →
      claimed.result = .error e →
      Went stage m key o fresh w w₁ (.error (.lock e)) [(.acquire, .error e)]
  | released {w₁ w₂ w₃ : ω} {claimed : Call.Finished Handle (Except LockError Unit)} {stop : Stop α}
      {noted : List Event} {answer : Option (Call.Finished Handle (Except LockError Unit))} :
      stage.perform w (({ key } : Handle).acquire m fresh o.lockTtl) = (w₁, claimed) →
      claimed.result = .ok () →
      (stage.work w₁ <| o.extendEvery.map fun interval =>
        ⟨interval, extension m claimed.state o.lockTtl⟩) = (w₂, stop, noted) →
      stage.performWithin w₂ o.releaseTimeout (claimed.state.release m) = (w₃, answer) →
      Went stage m key o fresh w w₃
        (conclude key stop (releaseOutcome key o.releaseTimeout answer).1).1
        [(.acquire, .ok ()), (.release, (releaseOutcome key o.releaseTimeout answer).1)]

theorem went_of_run {ω α : Type} {stage : Stage ω α} {d : Dialect} {key : String}
    {o : ExclusiveOptions} {fresh : Token} {w w' : ω} {result : ExclusiveResult α}
    {events : List Event} (h : run stage d key o fresh w = (w', result, events))
    (hreturned : ∀ text, result ≠ .crashed text) :
    Went stage ⟨d, o.config.tableName, o.config.timeout?⟩ key o fresh w w' result
      (outcomes stage d key o fresh w) := by
  unfold outcomes
  cases hprepare : prepare d key o with
  | error e =>
      rw [run_unprepared hprepare] at h
      cases h
      exact .unprepared e
  | ok p =>
      obtain ⟨m, idle⟩ := p
      obtain ⟨rfl, rfl⟩ := prepare_eq_ok hprepare
      dsimp only
      cases hclaimed : (stage.perform w (({ key } : Handle).acquire _ fresh o.lockTtl)).2.result with
      | error e =>
          rw [run_refused hprepare rfl hclaimed] at h
          cases h
          exact .unclaimed rfl hclaimed
      | ok _ =>
          dsimp only
          split
          · rename_i hdue
            rw [run_concluded hprepare rfl hclaimed hdue rfl rfl] at h
            cases h
            exact .released rfl hclaimed rfl rfl
          · rename_i hdue
            rw [run_beyondClock hprepare rfl hclaimed (Bool.not_eq_true _ ▸ hdue)] at h
            cases h
            exact absurd rfl (hreturned _)

/-- **Past the claim**: the result is no failure of an acquisition in transport. -/
def PastClaim (result : Except LockError Unit) : Prop :=
  ∀ e, result = .error e → e.operation? ≠ some .acquire

theorem PastClaim.of_ok : PastClaim (.ok ()) := fun e he => absurd he (by simp)

theorem PastClaim.of_error {e : LockError} (h : e.operation? ≠ some .acquire) :
    PastClaim (.error e) := by
  rintro e' ⟨⟩
  exact h

/-- The failures of an extension. -/
theorem extension_ends (m : Manager) (h : Handle) (ttl : Duration) :
    (extension m h ttl).Ends fun _ result => PastClaim result := by
  unfold extension Handle.extend
  split
  · exact .of_error (by simp [LockError.operation?])
  split
  · exact .of_error (by simp [LockError.operation?])
  intro reply
  dsimp only
  split
  · exact .of_error (by simp [LockError.operation?])
  · exact .of_error (by simp [LockError.operation?])
  · exact .of_ok

/-- What a run fails with is the failure that stopped its task, or that of its release. -/
theorem conclude_eq_error {α : Type} {key : String} {stop : Stop α} {released : Except LockError Unit}
    {e : LockError} (h : (conclude key stop released).1 = .error (.lock e)) :
    stop = .leaseLost e ∨ released = .error e := by
  unfold conclude at h
  split at h <;> simp_all

end Exclusive

namespace System

section

variable {ι δ : Type} [LinearOrder δ] {d : Deployment ι δ} {s s' : System ι δ} {i : ι} {T : Token}

/-- **The run has tried to release** its row: it has issued a release with its token, and was told
nothing of the outcome. -/
structure TriedToRelease (d : Deployment ι δ) (s : System ι δ) (i : ι) (T : Token)
    (outcomes : List (Operation × Except LockError Unit)) : Prop where
  issued : ∃ x ∈ s.issued, x.owner = some i ∧ x.operation = .release ∧
    ∃ v : LeaseValues, v.token = T ∧ Request.IsOf d.backend d.table .release v x.request
  failed : ∃ e, (.release, .error (.transport (d.key i) .release e)) ∈ outcomes

/-- **A row is left behind**: it carries the run's token, and not because a release of the run has got
no answer. -/
def LeftBehind (d : Deployment ι δ) (s : System ι δ) (i : ι) (T : Token)
    (outcomes : List (Operation × Except LockError Unit)) : Prop :=
  s.Carries d i T ∧ ¬ s.TriedToRelease d i T outcomes

/-! ## What a run's own claims have come to -/

/-- A statement that affected nothing. -/
abbrev Idle (outcome : Except Violation Nat) : Prop := affectedRows outcome = 0

/-- Every claim that the handle has sent is done, with an outcome of this kind. -/
def ClaimsDone (s : System ι δ) (i : ι) (P : Except Violation Nat → Prop) : Prop :=
  ∀ (m : Nat) (x : Issued ι), s.issued[m]? = some x → x.owner = some i → x.operation = .acquire →
    ∃ outcome, x.fate = .done outcome ∧ P outcome

omit [LinearOrder δ] in
theorem ClaimsDone.not_claiming {P : Except Violation Nat → Prop} (h : s.ClaimsDone i P) :
    ¬ s.Claiming i := by
  rintro ⟨n, x, hx, howner, hop, hfate⟩
  obtain ⟨outcome, hdone, -⟩ := h n x hx howner hop
  exact absurd (hfate.symm.trans hdone) (by simp)

omit [LinearOrder δ] in
/-- Claims that affected nothing have not won the key. -/
theorem ClaimsDone.not_won (h : s.ClaimsDone i Idle) (hlog : s.Logged) : ¬ s.Won i := by
  rintro ⟨c, hc, hclaimed⟩
  obtain ⟨x, outcome, hx, howner, hop, hfate, haffected⟩ := hlog.entry c hc
  obtain ⟨outcome', hfate', hzero⟩ := h _ x hx (howner.trans hclaimed.owner)
    (hop.trans hclaimed.operation)
  obtain rfl := Fate.done.inj (hfate.symm.trans hfate')
  have := hclaimed.counted
  omega

omit [LinearOrder δ] in
/-- A request that is no claim leaves no claim under way where there was none. -/
theorem not_claiming_issue (h : ¬ s.Claiming i) {op : Operation} (hop : op ≠ .acquire) (r : Request) :
    ¬ (s.issue (some i) op r).Claiming i := by
  rintro ⟨m, x, hx, howner, hxop, hfate⟩
  rcases issue_cases hx with hold | ⟨-, rfl⟩
  · exact h ⟨m, x, hold, howner, hxop, hfate⟩
  · exact hop hxop

/-- **What holds throughout a run** with the token `T`: the row carries it only since a claim of the
run has counted. -/
structure Watched (d : Deployment ι δ) (i : ι) (T : Token) (s : System ι δ) : Prop where
  sound : s.Sound d
  logged : s.Logged
  resting : ∃ h last, s.clients i = .resting h last
  own : s.Mints i T
  won : s.Carries d i T → s.Won i

/-- A statement that takes effect puts the token into the row only as a claim of the run that counts. -/
theorem Watched.won_execute (h : Watched d i T s) {n : Nat} {x : Issued ι}
    (hx : s.issued[n]? = some x) (hT : (s.execute d n x).Carries d i T) :
    (s.execute d n x).Won i := by
  obtain ⟨k, t, outcome, heff, -, hexec⟩ := h.sound.effect_cases hx
  have before : s.Carries d i T → (s.execute d n x).Won i := by
    intro hbefore
    obtain ⟨c, hc, hclaimed⟩ := h.won hbefore
    rw [hexec]
    exact ⟨c, List.mem_cons_of_mem _ hc, hclaimed⟩
  rw [hexec] at hT
  by_cases howner : x.owner = some i
  · obtain ⟨r, hr, rfl, hown⟩ := hT
    rcases heff.row_after hr with ⟨old, hold, htoken⟩ | ⟨j, -, -, hop, -⟩
    · exact before ⟨old, hold, htoken, hown⟩
    · rcases Nat.eq_zero_or_pos k with rfl | hk
      · rw [heff.row_of_zero howner] at hr
        exact before ⟨r, hr, rfl, hown⟩
      · rw [hexec]
        exact ⟨_, List.mem_cons_self, howner, hop, hk⟩
  · exact before (heff.carries h.sound howner hT)

end

section

variable {ι δ : Type} [DecidableEq ι] [LinearOrder δ] {d : Deployment ι δ} {s s' : System ι δ} {i : ι}
  {T : Token}

/-! ## Moves of the others and requests of the run -/

theorem Watched.step (h : Watched d i T s) {rules : Rules} {e : Move ι} (he : ¬ e.starts i)
    (hs : s.step d rules e = some s') : Watched d i T s' := by
  obtain ⟨handle, last, hrest⟩ := h.resting
  have haside : Aside i s s' := aside_step hrest he hs
  have hgrows : s.Grows s' := grows_step hs
  refine ⟨h.sound.step hs, h.logged.step hs, ⟨_, _, haside.client.trans hrest⟩,
    hgrows.minted i T h.own, fun hT => ?_⟩
  rcases effect_or_quiet hs with ⟨n, x, hx, -, rfl⟩ | ⟨htable, -, -⟩
  · exact h.won_execute hx hT
  · obtain ⟨r, hr, htoken, hown⟩ := hT
    exact (h.won ⟨r, htable ▸ hr, htoken, haside.mints T hown⟩).mono hgrows

/-- **A stretch of a run** in which it sends nothing: the others move, and what was sent may take
effect. -/
structure Stretch (d : Deployment ι δ) (i : ι) (T : Token) (s s' : System ι δ) : Prop where
  watched : Watched d i T s'
  grows : s.Grows s'
  aside : Aside i s s'

omit [DecidableEq ι] in
theorem Stretch.refl (h : Watched d i T s) : Stretch d i T s s := ⟨h, .refl s, .refl i s⟩

theorem Stretch.follow (h : Stretch d i T s s') (e : Move ι) :
    Stretch d i T s (s'.follow d i e) := by
  rcases follow_cases d i s' e with hsame | ⟨he, hs⟩
  · rw [hsame]
    exact h
  · obtain ⟨handle, last, hrest⟩ := h.watched.resting
    exact ⟨h.watched.step he hs, h.grows.trans (grows_step hs), h.aside.trans (aside_step hrest he hs)⟩

omit [DecidableEq ι] in
theorem Watched.issue (h : Watched d i T s) {op : Operation} {r : Request}
    (hr : d.Sends s.Mints (some i) op r) : Watched d i T (s.issue (some i) op r) :=
  ⟨h.sound.issue hr, h.logged.issue _ _ _, h.resting, h.own, h.won⟩

/-- **A request of the run, served**: its statement is the only one that the run has issued, and the
reply that it got is true of it. -/
structure Asked (d : Deployment ι δ) (i : ι) (T : Token) (op : Operation) (r : Request)
    (s s' : System ι δ) (reply : Option Reply) : Prop where
  stretch : Stretch d i T (s.issue (some i) op r) s'
  answered : ∀ answer, reply = some answer → answer.Lost ∨
    ∃ x, s'.issued[s.issued.length]? = some x ∧ x.fate.allows answer

theorem Watched.asked (h : Watched d i T s) {op : Operation} {r : Request}
    (hr : d.Sends s.Mints (some i) op r) (cues : List (Cue ι)) :
    let w := serve d i op (s, cues) r
    Asked d i T op r s w.1.1 w.2 := by
  intro w
  have stretch : Stretch d i T (s.issue (some i) op r) w.1.1 :=
    await_keeps (fun _ e hstretch => hstretch.follow e) _ _ (.refl (h.issue hr))
  refine ⟨stretch, fun answer hanswer => ?_⟩
  rcases await_truthful d i _ _ _ hanswer with hlost | htrue
  · exact Or.inl hlost
  · obtain ⟨x, hx, -⟩ := stretch.grows.issued s.issued.length _ List.getElem?_concat_length
    have htrue : (w.1.1.truthful s.issued.length answer) = true := htrue
    rw [truthful, hx] at htrue
    exact Or.inr ⟨x, hx, htrue⟩

/-- A request that is not given up gets some reply. -/
theorem Watched.askedFully (h : Watched d i T s) {op : Operation} {r : Request}
    (hr : d.Sends s.Mints (some i) op r) (cues : List (Cue ι)) :
    let w := serveFully d i op (s, cues) r
    Asked d i T op r s w.1.1 (some w.2) := by
  intro w
  have asked := h.asked hr cues
  refine ⟨asked.stretch, fun answer hanswer => ?_⟩
  obtain rfl := Option.some.inj hanswer
  show ((serve d i op (s, cues) r).2.getD (.overran .zero)).Lost ∨ _
  cases hreply : (serve d i op (s, cues) r).2 with
  | none => exact Or.inl (.overran .zero)
  | some reply =>
      have same : w.2 = reply := by simp only [w, serveFully, hreply, Option.getD_some]
      rw [same]
      exact asked.answered reply hreply

omit [DecidableEq ι] in
/-- The claims of a run after one more of them: those before, and the one that was sent last. -/
theorem Asked.claimsDone {r : Request} {reply : Option Reply} {P : Except Violation Nat → Prop}
    (h : Asked d i T .acquire r s s' reply) (before : s.ClaimsDone i P)
    {x : Issued ι} (hx : s'.issued[s.issued.length]? = some x) {outcome : Except Violation Nat}
    (hfate : x.fate = .done outcome) (hP : P outcome) : s'.ClaimsDone i P := by
  intro m x' hx' howner hop
  obtain ⟨y, hy, hlater⟩ := h.stretch.aside.issued m x' hx' howner
  rcases issue_cases hy with hold | ⟨rfl, -⟩
  · obtain ⟨result, hdone, hresult⟩ := before m y hold (hlater.owner ▸ howner)
      (hlater.operation ▸ hop)
    exact ⟨result, hlater.done hdone, hresult⟩
  · obtain rfl := Option.some.inj (hx.symm.trans hx')
    exact ⟨outcome, hfate, hP⟩

/-! ## The claim -/

omit [DecidableEq ι] in
/-- What an answered statement of a claim tells. -/
theorem Asked.claim_cases {r : Request} {reply : Reply}
    (h : Asked d i T .acquire r s s' (some reply)) (before : s.ClaimsDone i Idle) :
    reply.Lost ∨
      (∃ n, reply = .answered (.ok n) ∧ s'.ClaimsDone i (fun _ => True) ∧
        (n = 0 → s'.ClaimsDone i Idle)) ∨
      ∃ cause, reply = .answered (.error (.duplicateKey cause)) ∧ s'.ClaimsDone i Idle := by
  rcases h.answered reply rfl with hlost | ⟨x, hx, hallows⟩
  · exact Or.inl hlost
  have any : s.ClaimsDone i fun _ => True := by
    intro m y hy howner hop
    obtain ⟨outcome, hdone, -⟩ := before m y hy howner hop
    exact ⟨outcome, hdone, trivial⟩
  rcases Fate.allows_cases hallows with hlost | ⟨n, hfate, hreply⟩ | ⟨cause, hfate, hreply⟩
  · exact Or.inl hlost
  · refine Or.inr (Or.inl ⟨n, hreply, h.claimsDone any hx hfate trivial, ?_⟩)
    rintro rfl
    exact h.claimsDone before hx hfate rfl
  · exact Or.inr (Or.inr ⟨cause, hreply, h.claimsDone before hx hfate rfl⟩)

/-- The end of a claim: the run is told that the key is won only when its claims are done, and that it
is held only when they have affected nothing. -/
structure Judged (d : Deployment ι δ) (i : ι) (T : Token) (s : System ι δ)
    (verdict : Except TransportError Bool) : Prop where
  watched : Watched d i T s
  won : verdict = .ok true → s.ClaimsDone i fun _ => True
  held : verdict = .ok false → s.ClaimsDone i Idle

omit [DecidableEq ι] in
theorem Judged.failed (h : Watched d i T s) (e : TransportError) : Judged d i T s (.error e) where
  watched := h
  won hverdict := absurd hverdict (by simp)
  held hverdict := absurd hverdict (by simp)

omit [DecidableEq ι] in
/-- One statement of a claim whose answer is the verdict. -/
theorem Asked.judged {r : Request} {reply : Reply} (h : Asked d i T .acquire r s s' (some reply))
    (before : s.ClaimsDone i Idle) {rows : Except TransportError Nat}
    (hrows : rows = reply.rows ∨ rows = reply.insertedRows) :
    Judged d i T s' (rows.map fun n => decide (0 < n)) := by
  rcases h.claim_cases before with hlost | ⟨n, rfl, hdone, hzero⟩ | ⟨cause, rfl, hidle⟩
  · obtain ⟨e, he⟩ : ∃ e, rows = .error e := by
      rcases hrows with rfl | rfl
      · exact hlost.rows
      · exact hlost.insertedRows
    rw [he]
    exact .failed h.stretch.watched e
  · obtain rfl : rows = .ok n := by rcases hrows with rfl | rfl <;> rfl
    refine ⟨h.stretch.watched, fun _ => hdone, fun hverdict => hzero ?_⟩
    have hn : decide (0 < n) = false := Except.ok.inj hverdict
    have := of_decide_eq_false hn
    omega
  · refine ⟨h.stretch.watched, fun hverdict => ?_, fun _ => hidle⟩
    rcases hrows with rfl | rfl
    · exact absurd hverdict (by simp [Except.map, Reply.rows])
    · exact absurd hverdict (by simp [Except.map, Reply.insertedRows])

/-- **A claim plan** comes down to a verdict that is true of the claims of the run. -/
theorem Watched.claim (h : Watched d i T s) (before : s.ClaimsDone i Idle) {m : Manager}
    {v : LeaseValues}
    (hsends : ∀ c ∈ m.claimPlan.statements, d.Sends s.Mints (some i) .acquire (m.request c v))
    {β : Type} (held : Handle) (next : Except TransportError Bool → Call Handle β)
    (cues : List (Cue ι)) :
    ∃ (w : System ι δ × List (Cue ι)) (verdict : Except TransportError Bool),
      (m.claim v held next).run (serveFully d i .acquire) (s, cues) =
        (next verdict).run (serveFully d i .acquire) w ∧ Judged d i T w.1 verdict := by
  unfold Manager.claim
  cases hplan : m.claimPlan with
  | single claim =>
      have asked := h.askedFully (hsends claim (by simp [hplan, ClaimPlan.statements])) cues
      exact ⟨_, _, rfl, asked.judged before (Or.inl rfl)⟩
  | updateThenInsert update insert =>
      have asked := h.askedFully (hsends update (by simp [hplan, ClaimPlan.statements])) cues
      let w := serveFully d i .acquire (s, cues) (m.request update v)
      simp only [Manager.send, Call.run]
      rcases asked.claim_cases before with hlost | ⟨n, hreply, hdone, hzero⟩ | ⟨cause, hreply, -⟩
      · obtain ⟨e, he⟩ := hlost.rows
        refine ⟨w.1, .error e, ?_, .failed asked.stretch.watched e⟩
        rw [he]
      · cases n with
        | succ n =>
            refine ⟨w.1, .ok true, ?_, asked.stretch.watched, fun _ => hdone, ?_⟩
            · rw [hreply]
              rfl
            · intro hverdict
              exact absurd hverdict (by simp)
        | zero =>
            -- the update has passed the row over, and the insert has the last word
            have grows : s.Grows w.1.1 := (grows_issue s _ _ _).trans asked.stretch.grows
            have sends := (hsends insert (by simp [hplan, ClaimPlan.statements])).mono grows.minted
            have asked' := asked.stretch.watched.askedFully sends w.1.2
            refine ⟨_, _, ?_, asked'.judged (hzero rfl) (Or.inr rfl)⟩
            rw [hreply]
            rfl
      · let e : TransportError := .ofStatement (.duplicateKey cause)
        refine ⟨w.1, .error e, ?_, .failed asked.stretch.watched e⟩
        rw [hreply]
        rfl

/-- **The claim of a run**: if the key is acquired, its claims are over; and if it is not, the row
carries the token of the run only where the acquisition has failed in transport. -/
theorem Watched.acquire {α : Type} (h : Watched d i T s) (hnone : ∀ x ∈ s.issued, x.owner ≠ some i)
    {script : Script ι α} {ttl : Duration} {finished : Call.Finished Handle (Except LockError Unit)}
    (hperform : (stage d i script).perform s
      (({ key := d.key i } : Handle).acquire (d.manager i) T ttl) = (s', finished)) :
    Watched d i T s' ∧
      (finished.result = .ok () →
        ¬ s'.Claiming i ∧ finished.state = { key := d.key i, token := some T }) ∧
      ∀ e, finished.result = .error e → s'.Carries d i T →
        ∃ cause, e = .transport (d.key i) .acquire cause := by
  let idle : Handle := { key := d.key i }
  obtain ⟨w, hrun, rfl⟩ : ∃ w, (idle.acquire (d.manager i) T ttl).run (serveFully d i .acquire)
      (s, script.claim) = (w, finished) ∧ w.1 = s' :=
    ⟨_, Prod.ext rfl (Prod.mk.inj hperform).2, (Prod.mk.inj hperform).1⟩
  have hidle : idle.Within (d.key i) (s.Mints i) := Handle.idle_within (d.key i) (s.Mints i)
  have before : ∀ P, s.ClaimsDone i P :=
    fun P m x hx howner => absurd howner (hnone x (List.mem_of_getElem? hx))
  have unwon : ∀ {s' : System ι δ}, Watched d i T s' → s'.ClaimsDone i Idle → ¬ s'.Carries d i T :=
    fun hwatched hdone hT => hdone.not_won hwatched.logged (hwatched.won hT)
  cases hlasting : ttl.isZero with
  | true =>
      -- a lease of no time is refused before anything is sent
      rw [idle.acquire_of_isZero hlasting] at hrun
      cases hrun
      refine ⟨h, fun hok => absurd hok (by simp), fun e _ hT => ?_⟩
      exact absurd hT (unwon h (before Idle))
  | false =>
      obtain ⟨next, hacquire, hwon, hheld, hfailed⟩ :=
        idle.exists_acquire_verdicts hlasting (d.manager i) T
      obtain ⟨w', verdict, heq, judged⟩ := h.claim (before Idle) (m := d.manager i)
        (v := idle.claimValues T ttl) (Handle.sends_claim hidle h.own) idle next script.claim
      rw [hacquire] at hrun
      have hrun := heq.symm.trans hrun
      rcases verdict with e | _ | _
      · rw [hfailed] at hrun
        cases hrun
        refine ⟨judged.watched, fun hok => absurd hok (by simp), fun e' he' _ => ?_⟩
        exact ⟨e, (Except.error.inj he').symm⟩
      · rw [hheld] at hrun
        cases hrun
        refine ⟨judged.watched, fun hok => absurd hok (by simp), fun e' _ hT => ?_⟩
        exact absurd hT (unwon judged.watched (judged.held rfl))
      · rw [hwon] at hrun
        cases hrun
        refine ⟨judged.watched, fun _ => ⟨(judged.won rfl).not_claiming, rfl⟩, fun e' he' => ?_⟩
        exact absurd he' (by simp)

/-! ## The work -/

/-- **The work of a run** issues no claims. -/
theorem Watched.work {α : Type} (h : Watched d i T s) (hfree : ¬ s.Claiming i) (script : Script ι α)
    {held : Handle} (hheld : held.Within (d.key i) (s.Mints i)) (ttl : Duration)
    (every : Option Duration) :
    let out := (stage d i script).work s
      (every.map fun interval => ⟨interval, Exclusive.extension (d.manager i) held ttl⟩)
    Watched d i T out.1 ∧ ¬ out.1.Claiming i := by
  let J : System ι δ → Prop := fun s' => Watched d i T s' ∧ s.Grows s' ∧ ¬ s'.Claiming i
  have hJ : ∀ s' e, J s' → J (s'.follow d i e) := by
    intro s' e ⟨hwatched, hgrows, hfree'⟩
    have stretch := (Stretch.refl hwatched).follow e
    exact ⟨stretch.watched, hgrows.trans stretch.grows, fun hc => hfree' (hc.before stretch.aside)⟩
  have hP : ∀ s' r, d.Sends s.Mints (some i) .extend r → J s' → J (s'.issue (some i) .extend r) := by
    intro s' r hr ⟨hwatched, hgrows, hfree'⟩
    exact ⟨hwatched.issue (hr.mono hgrows.minted), hgrows.trans (grows_issue s' _ _ _),
      not_claiming_issue hfree' (by simp) r⟩
  have extends_ : (Exclusive.extension (d.manager i) held ttl).Within
      (d.Sends s.Mints (some i) .extend) (Handle.Within (d.key i) (s.Mints i)) :=
    (Handle.extend_lawful hheld).logging _
  have start : J s := ⟨h, .refl s, hfree⟩
  intro out
  have worked : J out.1 := work_keeps hJ hP script extends_ every start
  exact ⟨worked.1, worked.2.2⟩

/-! ## The release -/

/-- Once statement `n` has taken effect, the row does not carry the token. -/
def Cleared (d : Deployment ι δ) (s : System ι δ) (i : ι) (T : Token) (n : Nat) : Prop :=
  ∀ e ∈ s.log, e.statement = n → ¬ s.Carries d i T

/-- **A release under way**: since its statement took effect, the token is gone. -/
structure Releasing (d : Deployment ι δ) (i : ι) (T : Token) (r : Request) (s s' : System ι δ) :
    Prop where
  stretch : Stretch d i T (s.issue (some i) .release r) s'
  free : ¬ s'.Claiming i
  cleared : s'.Cleared d i T s.issued.length

theorem Releasing.follow {r : Request} {v : LeaseValues} (h : Releasing d i T r s s')
    (hof : Request.IsOf d.backend d.table .release v r) (hkey : v.key = d.key i) (hv : v.token = T)
    (e : Move ι) : Releasing d i T r s (s'.follow d i e) := by
  have stretch := h.stretch.follow e
  have beside : Stretch d i T s' (s'.follow d i e) := (Stretch.refl h.stretch.watched).follow e
  refine ⟨stretch, fun hc => h.free (hc.before beside.aside), ?_⟩
  rcases follow_cases d i s' e with hsame | ⟨-, hs⟩
  · rw [hsame]
    exact h.cleared
  rcases effect_or_quiet hs with ⟨n, x, hx, hfate, hexec⟩ | ⟨htable, hlog, -⟩
  · rw [hexec]
    intro entry hentry hstatement hT
    -- no claim of the run takes effect now
    have other : x.owner = some i → x.operation ≠ .acquire :=
      fun howner hop => h.free ⟨n, x, hx, howner, hop, hfate⟩
    rcases List.mem_cons.mp hentry with rfl | hold
    · -- the release itself takes effect
      obtain rfl : n = s.issued.length := hstatement
      obtain ⟨y, hy, hlater⟩ := h.stretch.grows.issued s.issued.length _ List.getElem?_concat_length
      obtain rfl := Option.some.inj (hx.symm.trans hy)
      have request : x.request = r := hlater.request
      obtain ⟨k, t, heff⟩ := hof.release_effect (d.clock.moment s'.time) s'.table
      have after : (s'.execute d s.issued.length x).table = t := by
        simp only [execute, Request.outcome, request, heff]
      have hT : t.Carries v.key (s'.Mints i) T := by
        rw [hkey, ← after]
        exact hT
      exact (hof.carries_of_release heff hT).1 hv
    · exact h.cleared entry hold hstatement (h.stretch.watched.sound.carries_execute hx other hT)
  · intro entry hentry hstatement hT
    obtain ⟨row, hr, htoken, hown⟩ := hT
    refine h.cleared entry (hlog ▸ hentry) hstatement ⟨row, htable ▸ hr, htoken, ?_⟩
    exact beside.aside.mints T hown

/-- A release that is served and whose statement is answered has taken the token away. -/
theorem Watched.releasing {r : Request} {v : LeaseValues} (h : Watched d i T s)
    (hfree : ¬ s.Claiming i) (hsends : d.Sends s.Mints (some i) .release r)
    (hof : Request.IsOf d.backend d.table .release v r) (hkey : v.key = d.key i) (hv : v.token = T)
    (cues : List (Cue ι)) :
    let out := serve d i .release (s, cues) r
    Releasing d i T r s out.1.1 ∧ ∀ reply n, out.2 = some reply → reply.rows = .ok n →
      ¬ out.1.1.Carries d i T := by
  intro out
  have start : Releasing d i T r s (s.issue (some i) .release r) := by
    refine ⟨.refl (h.issue hsends), not_claiming_issue hfree (by simp) r, fun e he hstatement => ?_⟩
    -- the log knows no statement that is yet to be issued
    obtain ⟨x, outcome, hx, -⟩ := h.logged.entry e he
    have := (List.getElem?_eq_some_iff.mp hx).1
    omega
  have releasing : Releasing d i T r s out.1.1 :=
    await_keeps (fun s' e hreleasing => hreleasing.follow hof hkey hv e) _ _ start
  refine ⟨releasing, fun reply n hreply hrows => ?_⟩
  have unlost : ¬ reply.Lost := by
    intro hlost
    obtain ⟨e, he⟩ := hlost.rows
    exact absurd (hrows.symm.trans he) (by simp)
  obtain hlost | ⟨x, hx, hallows⟩ := (h.asked hsends cues).answered reply hreply
  · exact absurd hlost unlost
  obtain ⟨outcome, hfate⟩ : ∃ outcome, x.fate = .done outcome := by
    rcases Fate.allows_cases hallows with hlost | ⟨k, hfate, -⟩ | ⟨cause, hfate, -⟩
    · exact absurd hlost unlost
    · exact ⟨_, hfate⟩
    · exact ⟨_, hfate⟩
  obtain ⟨e, he, hstatement, -⟩ := releasing.stretch.watched.logged.settled _ x outcome hx hfate
  exact releasing.cleared e he hstatement

/-- **The release of a run**: it gets no answer, or the row does not carry the token of the run. -/
theorem Watched.release {α : Type} (h : Watched d i T s) (hfree : ¬ s.Claiming i)
    {script : Script ι α} {budget : Duration}
    {answer : Option (Call.Finished Handle (Except LockError Unit))}
    (hperform : (stage d i script).performWithin s budget
      (({ key := d.key i, token := some T } : Handle).release (d.manager i)) = (s', answer)) :
    (∃ x ∈ s'.issued, x.owner = some i ∧ x.operation = .release ∧
      ∃ v : LeaseValues, v.token = T ∧ Request.IsOf d.backend d.table .release v x.request) ∧
    ((∃ e, (Exclusive.releaseOutcome (d.key i) budget answer).1 =
        .error (.transport (d.key i) .release e)) ∨ ¬ s'.Carries d i T) := by
  let holder : Handle := { key := d.key i, token := some T }
  obtain ⟨w, hrun, rfl⟩ : ∃ w, (holder.release (d.manager i)).runWhile (serve d i .release)
      (s, script.release) = (w, answer) ∧ w.1 = s' :=
    ⟨_, Prod.ext rfl (Prod.mk.inj hperform).2, (Prod.mk.inj hperform).1⟩
  let m : Manager := d.manager i
  let v : LeaseValues := holder.ownValues .zero
  let r : Request := m.request m.releaseStatement v
  have hof : Request.IsOf d.backend d.table .release v r := by
    rw [← d.backend_eq i, ← d.table_eq i]
    exact .release
  have hholder : holder.Within (d.key i) (s.Mints i) := Handle.holder_within (d.key i) h.own
  let out := serve d i .release (s, script.release) r
  obtain ⟨releasing, answered⟩ :=
    h.releasing hfree (Handle.release_lawful hholder).1 hof rfl rfl script.release
  have issued : ∃ x ∈ out.1.1.issued, x.owner = some i ∧ x.operation = .release ∧
      ∃ v : LeaseValues, v.token = T ∧ Request.IsOf d.backend d.table .release v x.request := by
    obtain ⟨x, hx, hlater⟩ :=
      releasing.stretch.grows.issued s.issued.length _ List.getElem?_concat_length
    exact ⟨x, List.mem_of_getElem? hx, hlater.owner, hlater.operation, v, rfl, hlater.request ▸ hof⟩
  obtain ⟨next, hsend, hmissed, hfound, hfailed⟩ := holder.exists_release_answers rfl m
  rw [hsend, Manager.send, Call.runWhile] at hrun
  cases hreply : out.2 with
  | none =>
      -- the run has stopped waiting
      have served : serve d i .release (s, script.release) r = (out.1, none) := Prod.ext rfl hreply
      rw [served] at hrun
      cases hrun
      exact ⟨issued, Or.inl ⟨_, rfl⟩⟩
  | some reply =>
      have served : serve d i .release (s, script.release) r = (out.1, some reply) :=
        Prod.ext rfl hreply
      rw [served] at hrun
      dsimp only at hrun
      cases hrows : reply.rows with
      | error e =>
          rw [hrows, hfailed] at hrun
          cases hrun
          exact ⟨issued, Or.inl ⟨e, rfl⟩⟩
      | ok n =>
          -- the release has taken effect, whatever it has counted
          have hw : out.1 = w := by
            rw [hrows] at hrun
            cases n with
            | zero =>
                rw [hmissed] at hrun
                exact (Prod.mk.inj hrun).1
            | succ n =>
                rw [hfound] at hrun
                exact (Prod.mk.inj hrun).1
          rw [← hw]
          exact ⟨issued, Or.inr (answered reply n hreply hrows)⟩

/-! ## The run as a whole -/

/-- The end of a call that may be given up is an end of the call. -/
theorem runWhile_ends {ω σ α : Type} {serve : ω → Request → ω × Option Reply} {call : Call σ α}
    {Q : σ → α → Prop} (hends : call.Ends Q) {w w' : ω} {finished : Call.Finished σ α}
    (h : call.runWhile serve w = (w', some finished)) : Q finished.state finished.result := by
  induction call generalizing w with
  | done state result events =>
      cases h
      exact hends
  | ask r held resume ih =>
      unfold Call.runWhile at h
      split at h
      · exact ih _ (hends _) h
      · exact absurd h (by simp)

/-- What stops the extensions of a run is a failure of one of them. -/
theorem extendOn_ends {extension : Call Handle (Except LockError Unit)}
    {Q : Except LockError Unit → Prop} (hends : extension.Ends fun _ result => Q result)
    (rounds : List (List (Move ι) × List (Cue ι))) {e : LockError} {events : List Event}
    (h : extendOn d i extension rounds s = (s', some e, events)) : Q (.error e) := by
  induction rounds generalizing s events with
  | nil => exact absurd h (by simp [extendOn])
  | cons round rounds ih =>
      unfold extendOn at h
      split at h
      · exact absurd h (by simp)
      · rename_i w state failure noted hrun
        cases h
        exact runWhile_ends hends hrun
      · rename_i w state noted hrun
        obtain ⟨hs, hrest⟩ := Prod.mk.inj h
        obtain ⟨hlost, -⟩ := Prod.mk.inj hrest
        exact ih (Prod.ext hs (Prod.ext hlost rfl))

theorem work_ends {α : Type} {script : Script ι α} {every : Option Duration} {held : Handle}
    {m : Manager} {ttl : Duration} {e : LockError} {noted : List Event}
    (h : (stage d i script).work s (every.map fun interval =>
      ⟨interval, Exclusive.extension m held ttl⟩) = (s', .leaseLost e, noted)) :
    Exclusive.PastClaim (.error e) := by
  unfold stage at h
  cases every with
  | none => exact absurd h (by simp)
  | some interval =>
      dsimp only [Option.map_some] at h
      split at h
      · rename_i lost hlost
        cases h
        exact extendOn_ends (Exclusive.extension_ends m held ttl) script.rounds
          (Prod.ext rfl (Prod.ext hlost rfl))
      · exact absurd h (by simp)

omit [DecidableEq ι] in
/-- A run starts with a token that no row carries. -/
theorem Unused.watched (hu : s.Unused i) (hs : s.Sound d) (hlog : s.Logged) (hne : T ≠ "")
    (hfresh : ∀ p ∈ s.minted, p.2 ≠ T) :
    let minting : System ι δ := { s with minted := (i, T) :: s.minted }
    Watched d i T minting ∧ ¬ minting.Carries d i T := by
  intro minting
  have unseen : ¬ minting.Carries d i T := by
    intro hT
    obtain ⟨r, -, -, hown⟩ := hs.carries_mint hfresh hT
    exact hu.minted T hown
  exact ⟨⟨hs.mint hne hfresh, ⟨hlog.entry, hlog.settled⟩, hu.resting, List.mem_cons_self,
    fun hT => absurd hT unseen⟩, unseen⟩

/-- **A run leaves its row behind** exactly if it has failed to acquire the key in transport, and its
claim has counted for all that. -/
theorem left_behind_iff {α : Type} (hr : Reachable d .anything s) (hu : s.Unused i) {fresh : Token}
    (hne : fresh ≠ "") (hfresh : ∀ p ∈ s.minted, p.2 ≠ fresh) {dialect : Dialect}
    {o : ExclusiveOptions} (hm : d.manager i = ⟨dialect, o.config.tableName, o.config.timeout?⟩)
    {script : Script ι α} {result : ExclusiveResult α} {events : List Event}
    (hrun : Exclusive.run (stage d i script) dialect (d.key i) o fresh
      { s with minted := (i, fresh) :: s.minted } = (s', result, events))
    (hreturned : ∀ text, result ≠ .crashed text) :
    s'.LeftBehind d i fresh (Exclusive.outcomes (stage d i script) dialect (d.key i) o fresh
        { s with minted := (i, fresh) :: s.minted }) ↔
      s'.Carries d i fresh ∧ ∃ e, result = .error (.lock e) ∧ e.operation? = some .acquire := by
  obtain ⟨hw, unseen⟩ := hu.watched hr.sound hr.logged hne hfresh
  have went := Exclusive.went_of_run hrun hreturned
  rw [← hm] at went
  refine and_congr_right fun hcarries => ?_
  generalize Exclusive.outcomes (stage d i script) dialect (d.key i) o fresh
    { s with minted := (i, fresh) :: s.minted } = outcomes at went
  cases went with
  | unprepared e => exact absurd hcarries unseen
  | @unclaimed _ claimed e hperform hfailed =>
      -- no release is tried, and the row tells that the claim has failed in transport
      obtain ⟨-, -, transport⟩ := hw.acquire hu.issued hperform
      obtain ⟨cause, rfl⟩ := transport e hfailed hcarries
      constructor
      · exact fun _ => ⟨_, rfl, rfl⟩
      · rintro - ⟨-, e, he⟩
        exact absurd he (by simp)
  | @released s₁ s₂ _ claimed stop noted answer hperform hclaimed hwork hrelease =>
      obtain ⟨hw₁, won, -⟩ := hw.acquire hu.issued hperform
      obtain ⟨hfree, hstate⟩ := won hclaimed
      have holder : claimed.state.Within (d.key i) (s₁.Mints i) := by
        rw [hstate]
        exact Handle.holder_within (d.key i) hw₁.own
      have worked := hw₁.work hfree script holder o.lockTtl o.extendEvery
      rw [hwork] at worked
      obtain ⟨hw₂, hfree'⟩ := worked
      rw [hstate] at hrelease
      obtain ⟨issued, hunanswered | hgone⟩ := hw₂.release hfree' hrelease
      · -- the release has been tried, and the run has failed after its claim
        obtain ⟨cause, hcause⟩ := hunanswered
        constructor
        · intro hnone
          refine absurd ⟨issued, cause, ?_⟩ hnone
          rw [hcause]
          simp
        · rintro ⟨e, hresult, hop⟩
          rcases Exclusive.conclude_eq_error hresult with rfl | hreleased
          · exact absurd hop (work_ends hwork e rfl)
          · obtain rfl := Except.error.inj (hreleased.symm.trans hcause)
            exact absurd hop (by simp [LockError.operation?])
      · exact absurd hcarries hgone

end

/-! ## A claim that runs over its time -/

/-- The claim takes effect, and the run is told nothing within its time. -/
def unanswered : Script Duellist Unit where
  claim := [.move (.effect 0), .reply (.overran ⟨10000⟩)]
  ending := .returned ()
  release := []

/-- The run is made once more, and its claim is answered. -/
def madeAgain : Script Duellist Unit where
  claim := [.move (.effect 1), .reply (.answered (.ok 0))]
  ending := .returned ()
  release := []

/-- A run whose claim runs over its time leaves its row behind. Its failure counts as worth a retry,
and the retry is refused by that row. -/
theorem retry_refused_by_own_leftover :
    let d : Deployment Duellist Int := .duel .postgres "locks"
    let s : System Duellist Int := { System.start d 0 with minted := [(.holder, "A")] }
    let first := Exclusive.run (stage d .holder unanswered) .postgres "job" (briefly "locks") "A" s
    let s' : System Duellist Int := { first.1 with minted := (.rival, "B") :: first.1.minted }
    let again := Exclusive.run (stage d .rival madeAgain) .postgres "job" (briefly "locks") "B" s'
    let e : LockError := .transport "job" .acquire (.timeout ⟨10000⟩)
    first.2.1 = .error (.lock e) ∧
      first.1.LeftBehind d .holder "A"
        (Exclusive.outcomes (stage d .holder unanswered) .postgres "job" (briefly "locks") "A" s) ∧
      (Registry.defaults.checkLock .postgres e).retryable ∧
      again.2.1 = .error (.lock (.contention "job")) := by
  intro d s first s' again e
  have ran : Exclusive.run (stage d .holder unanswered) .postgres "job" (briefly "locks") "A" s =
      (first.1, .error (.lock e), first.2.2) := rfl
  have unused : (System.start d 0).Unused .holder :=
    ⟨⟨_, _, rfl⟩, fun T hT => absurd hT List.not_mem_nil, fun x hx => absurd hx List.not_mem_nil⟩
  have fresh : ∀ p ∈ (System.start d 0).minted, p.2 ≠ "A" := fun p hp => absurd hp List.not_mem_nil
  have carries : first.1.Carries d .holder "A" := ⟨⟨"job", "A", 10⟩, rfl, rfl, List.mem_cons_self⟩
  refine ⟨rfl, ?_, rfl, rfl⟩
  apply (left_behind_iff (.start 0) unused (by decide) fresh rfl ran (by simp)).mpr
  exact ⟨carries, e, rfl, rfl⟩

end System

end LeaseLock
