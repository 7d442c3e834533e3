/-
# LeaseLock.Proofs.Transcript -- what a call asks, and when

A call asks requests one after the other, and every reply decides what comes next. A transcript lists
the requests that were asked in one course of events (`Call.Asks`); it says nothing about who answers,
so what holds of all transcripts holds for every database. A lock operation has few of them: a claim
asks its plan up to the statement that decides it, an extension and a release ask one statement.

In a rehearsal a call is carried through on a timeline, to its end or up to a deadline. Either way the
timeline grows by the exchanges of a transcript, in order and one not before the other
(`Rehearsal.Timeline.Sends`).
-/
import LeaseLock.Exclusive
import LeaseLock.Proofs.System
import LeaseLock.Rehearsal.Timeline

namespace LeaseLock

/-! ## Transcripts -/

/-- **Transcript** of a call: the requests asked, in their order, and how it ended. A call that is
dropped while it waits has no end. -/
inductive Call.Asks {σ α : Type} : Call σ α → List Request → Option (Call.Finished σ α) → Prop
  | done (state : σ) (result : α) (events : List Event) :
      Asks (.done state result events) [] (some ⟨state, result, events⟩)
  | dropped (r : Request) (held : σ) (resume : Reply → Call σ α) :
      Asks (.ask r held resume) [r] none
  | answered {r : Request} {held : σ} {resume : Reply → Call σ α} (reply : Reply) {rs : List Request}
      {out : Option (Call.Finished σ α)} :
      Asks (resume reply) rs out → Asks (.ask r held resume) (r :: rs) out

/-- A call that is done. -/
def Call.IsDone {σ α : Type} : Call σ α → Prop
  | .done _ _ _ => True
  | .ask _ _ _ => False

/-- Every end of a call has a property. -/
def Call.Ends {σ α : Type} (Q : σ → α → Prop) : Call σ α → Prop
  | .done state result _ => Q state result
  | .ask _ _ resume => ∀ reply, (resume reply).Ends Q

section

variable {σ α : Type} {call : Call σ α} {r : Request} {held : σ} {resume : Reply → Call σ α}
  {rs : List Request} {out : Option (Call.Finished σ α)}

/-- A call that is done leaves the world as it is. -/
theorem Call.IsDone.run_fst (h : call.IsDone) {ω : Type} (serve : ω → Request → ω × Reply) (w : ω) :
    (call.run serve w).1 = w := by
  cases call with
  | done state result events => rfl
  | ask r held resume => exact absurd h id

/-- A call that is done asks nothing more. -/
theorem Call.Asks.of_isDone (h : call.Asks rs out) (hdone : call.IsDone) : rs = [] := by
  cases h with
  | done state result events => rfl
  | dropped r held resume => exact absurd hdone id
  | answered reply _ => exact absurd hdone id

/-- A call that needs one answer asks one request. -/
theorem Call.Asks.once (h : (Call.ask r held resume).Asks rs out)
    (hdone : ∀ reply, (resume reply).IsDone) : rs = [r] := by
  cases h with
  | dropped => rfl
  | answered reply hrest => rw [hrest.of_isDone (hdone reply)]

theorem Call.Asks.ends {Q : σ → α → Prop} {finished : Call.Finished σ α}
    (h : call.Asks rs (some finished)) (hends : call.Ends Q) : Q finished.state finished.result := by
  generalize hout : some finished = out at h
  induction h with
  | done state result events =>
      obtain rfl := Option.some.inj hout
      exact hends
  | dropped r held resume => exact absurd hout (by simp)
  | answered reply _ ih => exact ih (hends reply) hout

theorem Manager.claim_ends {m : Manager} {v : LeaseValues} {Q : σ → α → Prop}
    {next : Except TransportError Bool → Call σ α} (hnext : ∀ verdict, (next verdict).Ends Q) :
    (m.claim v held next).Ends Q := by
  unfold Manager.claim
  cases m.claimPlan with
  | single claim => exact fun reply => hnext _
  | updateThenInsert update insert =>
      intro reply
      dsimp only
      cases reply.rows with
      | error e => exact hnext _
      | ok n =>
          dsimp only
          split
          · exact hnext _
          · exact fun reply => hnext _

/-- **A claim asks its plan**, up to the statement that decides it. -/
theorem Manager.claim_asks {m : Manager} {v : LeaseValues}
    {next : Except TransportError Bool → Call σ α} (hnext : ∀ verdict, (next verdict).IsDone)
    (h : (m.claim v held next).Asks rs out) :
    ∃ n, 0 < n ∧ rs = (m.claimPlan.statements.take n).map fun st => m.request st v := by
  unfold Manager.claim at h
  cases hplan : m.claimPlan with
  | single claim =>
      rw [hplan] at h
      refine ⟨1, Nat.one_pos, ?_⟩
      exact h.once fun reply => hnext _
  | updateThenInsert update insert =>
      rw [hplan] at h
      cases h with
      | dropped => exact ⟨1, Nat.one_pos, rfl⟩
      | @answered _ _ _ reply rest _ hrest =>
          dsimp only at hrest
          cases hrows : reply.rows with
          | error e =>
              rw [hrows] at hrest
              rw [hrest.of_isDone (hnext _)]
              exact ⟨1, Nat.one_pos, rfl⟩
          | ok n =>
              rw [hrows] at hrest
              dsimp only at hrest
              split at hrest
              · rw [hrest.of_isDone (hnext _)]
                exact ⟨1, Nat.one_pos, rfl⟩
              · -- no row was there, so the insert comes next
                rw [hrest.once fun reply => hnext _]
                exact ⟨2, Nat.two_pos, rfl⟩

end

namespace Handle

variable {h : Handle} {m : Manager} {fresh : Token} {ttl : Duration} {rs : List Request}
  {out : Option (Call.Finished Handle (Except LockError Unit))}

/-- No verdict leaves a handle anything more to send. -/
theorem exists_acquire_isDone (h : Handle) (httl : ttl.isZero = false) (m : Manager) (fresh : Token) :
    ∃ next, h.acquire m fresh ttl =
        m.claim (h.claimValues (h.nextToken fresh) ttl) { h with unconfirmed := none } next ∧
      ∀ verdict, (next verdict).IsDone := by
  obtain ⟨next, hclaim, hwon, hheld, hfailed⟩ := h.exists_acquire_verdicts httl m fresh
  refine ⟨next, hclaim, fun verdict => ?_⟩
  rcases verdict with e | _ | _
  · rw [hfailed]
    trivial
  · rw [hheld]
    trivial
  · rw [hwon]
    trivial

/-- An acquisition asks the claim plan of its manager. -/
theorem acquire_asks (httl : ttl.isZero = false) (ha : (h.acquire m fresh ttl).Asks rs out) :
    ∃ n, 0 < n ∧ rs = (m.claimPlan.statements.take n).map fun st =>
      m.request st (h.claimValues (h.nextToken fresh) ttl) := by
  obtain ⟨next, hnext, hdone⟩ := h.exists_acquire_isDone httl m fresh
  rw [hnext] at ha
  exact Manager.claim_asks hdone ha

/-- An acquisition that succeeds leaves the handle with the token that it has sent. -/
theorem acquire_ends (h : Handle) (m : Manager) (fresh : Token) (ttl : Duration) :
    (h.acquire m fresh ttl).Ends fun state result => result = .ok () →
      state = { h with token := some (h.nextToken fresh), unconfirmed := none } := by
  unfold acquire
  split
  · intro hok
    exact absurd hok (by simp)
  · apply Manager.claim_ends
    intro verdict
    rcases verdict with e | _ | _
    · intro hok
      exact absurd hok (by simp)
    · intro hok
      exact absurd hok (by simp)
    · intro _
      rfl

/-- An extension of a lease that is held asks one statement. -/
theorem extend_asks (httl : ttl.isZero = false) (hidle : h.isIdle = false) (note : _ → List Event)
    (ha : ((h.extend m ttl).logging note).Asks rs out) :
    rs = [m.request m.extendStatement (h.ownValues ttl)] := by
  unfold extend at ha
  rw [if_neg (by simp [httl]), if_neg (by simp [hidle])] at ha
  apply ha.once
  intro reply
  dsimp only
  rcases reply.rows with e | _ | n <;> trivial

/-- A release of a lease that is held asks one statement. -/
theorem release_asks (hidle : h.isIdle = false) (ha : (h.release m).Asks rs out) :
    rs = [m.request m.releaseStatement (h.ownValues .zero)] := by
  unfold release at ha
  rw [if_neg (by simp [hidle])] at ha
  apply ha.once
  intro reply
  dsimp only
  rcases reply.rows with e | _ | n <;> trivial

end Handle

/-! ## What a reply comes to -/

/-- What a reply to the statement of an extension or a release comes to. -/
def Reply.outcome (key : String) (operation : Operation) (reply : Reply) : Except LockError Unit :=
  match reply.rows with
  | .error e => .error (.transport key operation e)
  | .ok 0 => .error (.lostLease key)
  | .ok (_ + 1) => .ok ()

namespace Handle

variable {h : Handle} {m : Manager} {ttl : Duration}

theorem exists_release_outcome (hidle : h.isIdle = false) :
    ∃ resume, h.release m = .ask (m.request m.releaseStatement (h.ownValues .zero)) h resume ∧
      ∀ reply, ∃ state events, resume reply = .done state (reply.outcome h.key .release) events := by
  obtain ⟨next, hsend, hmissed, hfound, hfailed⟩ := h.exists_release_answers hidle m
  refine ⟨fun reply => next reply.rows, hsend, fun reply => ?_⟩
  unfold Reply.outcome
  dsimp only
  rcases reply.rows with e | _ | n
  · exact ⟨_, _, hfailed e⟩
  · exact ⟨_, _, hmissed⟩
  · exact ⟨_, _, hfound n⟩

theorem exists_extension_outcome (httl : ttl.isZero = false) (hidle : h.isIdle = false) :
    ∃ resume, Exclusive.extension m h ttl =
        .ask (m.request m.extendStatement (h.ownValues ttl)) h resume ∧
      ∀ reply, ∃ state events, resume reply = .done state (reply.outcome h.key .extend) events := by
  obtain ⟨next, hsend, hmissed, hfound, hfailed⟩ := h.exists_extend_answers httl hidle m
  unfold Exclusive.extension
  rw [hsend]
  refine ⟨_, rfl, fun reply => ?_⟩
  unfold Reply.outcome
  dsimp only
  rcases reply.rows with e | _ | n
  · rw [hfailed e]
    exact ⟨_, _, rfl⟩
  · rw [hmissed]
    exact ⟨_, _, rfl⟩
  · rw [hfound n]
    exact ⟨_, _, rfl⟩

end Handle

/-! ## Timelines -/

namespace Rehearsal

/-- **What is sent** from one point of a timeline to a later one, in order. -/
structure Timeline.Sends (t : Timeline) (xs : List Exchange) (t' : Timeline) : Prop where
  sent : t'.sent = xs.reverse ++ t.sent
  forward : t.now ≤ t'.now
  between : ∀ x ∈ xs, t.now ≤ x.time ∧ x.time ≤ t'.now

namespace Timeline

variable {t t' t'' : Timeline} {xs ys : List Exchange}

/-- Nothing is sent while time passes. -/
theorem Sends.wait {now : Nat} (h : t.now ≤ now) : t.Sends [] { t with now := now } :=
  ⟨rfl, h, by simp⟩

theorem Sends.trans (h : t.Sends xs t') (h' : t'.Sends ys t'') : t.Sends (xs ++ ys) t'' := by
  have hforward := h.forward
  have hforward' := h'.forward
  refine ⟨?_, by omega, ?_⟩
  · rw [h'.sent, h.sent, List.reverse_append, List.append_assoc]
  · intro x hx
    rcases List.mem_append.mp hx with hx | hx
    · have := h.between x hx
      omega
    · have := h'.between x hx
      omega

theorem Sends.exchanges (h : t.Sends xs t') : t'.exchanges = t.exchanges ++ xs := by
  show t'.sent.reverse = t.sent.reverse ++ xs
  rw [h.sent, List.reverse_append, List.reverse_reverse]

/-- A request is sent at once. -/
theorem serve_sends (t : Timeline) (r : Request) : t.Sends [⟨t.now, r⟩] (t.serve r).1 := by
  have later : t.now ≤ (t.serve r).1.now := Nat.le_add_right _ _
  refine ⟨rfl, later, ?_⟩
  intro x hx
  obtain rfl := List.mem_singleton.mp hx
  exact ⟨le_refl _, later⟩

end Timeline

end Rehearsal

section

open Rehearsal

variable {σ α : Type}

/-- **Running a call to its end** adds a transcript of it. -/
theorem Call.run_sends (call : Call σ α) (t : Timeline) :
    ∃ xs, t.Sends xs (call.run Timeline.serve t).1 ∧
      call.Asks (xs.map (·.request)) (some (call.run Timeline.serve t).2) := by
  induction call generalizing t with
  | done state result events =>
      exact ⟨[], ⟨rfl, le_refl _, by simp⟩, .done state result events⟩
  | ask r held resume ih =>
      obtain ⟨xs, hsends, hasks⟩ := ih (t.serve r).2 (t.serve r).1
      exact ⟨_, (t.serve_sends r).trans hsends, .answered (t.serve r).2 hasks⟩

/-- **Running a call up to a deadline** adds a transcript of it, too, and does not go beyond. -/
theorem Call.runUntil_sends (call : Call σ α) {deadline : Nat} {t : Timeline} (h : t.now ≤ deadline) :
    ∃ xs, t.Sends xs (call.runUntil deadline t).1 ∧
      call.Asks (xs.map (·.request)) (call.runUntil deadline t).2.toOption ∧
      (call.runUntil deadline t).1.now ≤ deadline ∧
      ∀ held, (call.runUntil deadline t).2 = .error held →
        (call.runUntil deadline t).1.now = deadline := by
  induction call generalizing t with
  | done state result events =>
      refine ⟨[], ⟨rfl, le_refl _, by simp⟩, .done state result events, h, ?_⟩
      intro held hheld
      exact absurd hheld (by simp [runUntil])
  | ask r held resume ih =>
      have asked := t.serve_sends r
      by_cases hlate : (t.serve r).1.now ≤ deadline
      · have goes : (Call.ask r held resume).runUntil deadline t =
            (resume (t.serve r).2).runUntil deadline (t.serve r).1 := if_pos hlate
        obtain ⟨xs, hsends, hasks, htime, hdropped⟩ := ih (t.serve r).2 hlate
        rw [goes]
        exact ⟨_, asked.trans hsends, .answered (t.serve r).2 hasks, htime, hdropped⟩
      · -- the answer comes too late: the call is dropped at the deadline
        have stops : (Call.ask r held resume).runUntil deadline t =
            (⟨deadline, (t.serve r).1.script, (t.serve r).1.sent⟩, .error held) := if_neg hlate
        rw [stops]
        refine ⟨[⟨t.now, r⟩], ⟨asked.sent, h, ?_⟩, .dropped r held resume, le_refl _, fun _ _ => rfl⟩
        intro x hx
        obtain rfl := List.mem_singleton.mp hx
        exact ⟨le_refl _, h⟩

end

end LeaseLock
