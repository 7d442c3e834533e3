/-
# LeaseLock.Proofs.AcquireOutcome -- how an acquisition sorts what its statements meet

A statement may count a row, count none, fail, or overrun its time limit. A claim goes through its
plan as long as no row is counted, and the first reply that says anything else decides it
(`ClaimPlan.Course`). What the acquisition reports, and what its handle holds afterwards, is read off
that one reply: a counted row is the only success, and contention means that the whole plan was
carried out for nothing. One error means contention as well, the duplicate key at an insert that
follows an update; no other failure and no overrun ever does (`Handle.Classified`).
-/
import LeaseLock.Proofs.TokenDiscipline

namespace LeaseLock

/-! ## Conversations -/

/-- **Conversation** of a call: the requests that it asked and the replies to them, up to its end. -/
inductive Call.Hears {σ α : Type} : Call σ α → List (Request × Reply) → Call.Finished σ α → Prop
  | done (state : σ) (result : α) (events : List Event) :
      Hears (.done state result events) [] ⟨state, result, events⟩
  | answered {r : Request} {held : σ} {resume : Reply → Call σ α} (reply : Reply)
      {xs : List (Request × Reply)} {finished : Call.Finished σ α} :
      Hears (resume reply) xs finished → Hears (.ask r held resume) ((r, reply) :: xs) finished

namespace Rehearsal.Timeline

/-- The answer that waits for the `i`-th statement from now. -/
def answer (t : Timeline) (i : Nat) : Answer := t.script[i]?.getD .exhausted

/-- **What comes back** on a timeline: each request is sent in its turn, and its reply is what the
answer waiting for it makes of the request's limit. -/
structure Replies (t : Timeline) (xs : List (Request × Reply)) (t' : Timeline) : Prop where
  sent : t'.exchanges.map (·.request) = t.exchanges.map (·.request) ++ xs.map Prod.fst
  replies : ∀ i x, xs[i]? = some x → x.2 = (settle (t.answer i) x.1.limit).2

variable {t t' : Timeline} {r : Request} {xs : List (Request × Reply)}

theorem answer_serve (t : Timeline) (r : Request) (i : Nat) :
    (t.serve r).1.answer i = t.answer (i + 1) := by
  have behind : (t.serve r).1.script = t.next.2 := rfl
  unfold answer
  rw [behind, next]
  cases t.script with
  | nil => rfl
  | cons a rest => rfl

theorem reply_serve (t : Timeline) (r : Request) :
    (t.serve r).2 = (settle (t.answer 0) r.limit).2 := by
  have first : t.next.1 = t.answer 0 := by
    unfold answer next
    cases t.script with
    | nil => rfl
    | cons a rest => rfl
  rw [← first]
  rfl

theorem Replies.cons (h : (t.serve r).1.Replies xs t') :
    t.Replies ((r, (t.serve r).2) :: xs) t' := by
  constructor
  · have now : (t.serve r).1.exchanges = t.exchanges ++ [⟨t.now, r⟩] := (t.serve_sends r).exchanges
    rw [h.sent, now, List.map_append, List.append_assoc]
    rfl
  · intro i x hx
    cases i with
    | zero =>
        obtain rfl := Option.some.inj hx
        exact t.reply_serve r
    | succ i =>
        rw [← t.answer_serve r i]
        exact h.replies i x hx

/-- A statement that overran its limit overran the limit that it was given. -/
theorem overran_limit {a : Answer} {limit : Option Duration} {l : Duration}
    (h : (settle a limit).2 = .overran l) : limit = some l ∧ l.millisUp < a.delay := by
  cases limit with
  | none => exact absurd h (by simp [settle])
  | some l' =>
      unfold settle at h
      dsimp only at h
      split at h
      · exact absurd h (by simp)
      · rename_i late
        obtain rfl := Reply.overran.inj h
        exact ⟨rfl, Nat.lt_of_not_le late⟩

end Rehearsal.Timeline

open Rehearsal in
/-- Running a call on a timeline is a conversation with it. -/
theorem Call.run_hears {σ α : Type} (call : Call σ α) (t : Timeline) :
    ∃ xs, call.Hears xs (call.run Timeline.serve t).2 ∧
      t.Replies xs (call.run Timeline.serve t).1 := by
  induction call generalizing t with
  | done state result events =>
      exact ⟨[], .done state result events, by simp [run], by simp⟩
  | ask r held resume ih =>
      obtain ⟨xs, hears, replies⟩ := ih (t.serve r).2 (t.serve r).1
      exact ⟨_, .answered (t.serve r).2 hears, replies.cons⟩

/-! ## The course of a claim -/

/-- The insert of a claim that updates first. -/
def ClaimPlan.insert? : ClaimPlan → Option Statement
  | .single _ => none
  | .updateThenInsert _ insert => some insert

/-- The error means that the key is held: it is a duplicate key, met by the insert of a claim that
updates first. -/
def ClaimPlan.Tolerates (plan : ClaimPlan) (s : Statement) (e : StatementError) : Prop :=
  plan.insert? = some s ∧ e.isDuplicateKey

/-- **The reply that decides a claim**, with the statement that it answers and those still to come. -/
inductive ClaimPlan.Decides (plan : ClaimPlan) (s : Statement) (rest : List Statement) :
    Reply → Except TransportError Bool → Prop
  | counted (n : Nat) : Decides plan s rest (.answered (.ok (n + 1))) (.ok true)
  | passed (last : rest = []) : Decides plan s rest (.answered (.ok 0)) (.ok false)
  | occupied {e : StatementError} (last : rest = []) (tolerated : plan.Tolerates s e) :
      Decides plan s rest (.answered (.error e)) (.ok false)
  | failed {e : StatementError} (final : ¬ plan.Tolerates s e) :
      Decides plan s rest (.answered (.error e)) (.error (.ofStatement e))
  | overran (limit : Duration) : Decides plan s rest (.overran limit) (.error (.timeout limit))

/-- **Course of a claim**: its statements count no row up to one whose reply decides it. -/
inductive ClaimPlan.Course (plan : ClaimPlan) :
    List (Statement × Reply) → Except TransportError Bool → Prop
  | intro {before rest : List Statement} {s : Statement} {reply : Reply}
      {verdict : Except TransportError Bool} (order : plan.statements = before ++ s :: rest)
      (decides : plan.Decides s rest reply verdict) :
      Course plan (before.map (·, .answered (.ok 0)) ++ [(s, reply)]) verdict

namespace ClaimPlan

variable {plan : ClaimPlan} {s : Statement} {reply : Reply}

theorem not_tolerates (h : plan.insert? ≠ some s) (e : StatementError) : ¬ plan.Tolerates s e :=
  fun tolerated => h tolerated.1

/-- The last statement of a claim decides it by its rows. -/
theorem decides_rows (h : plan.insert? ≠ some s) :
    plan.Decides s [] reply (reply.rows.map (0 < ·)) := by
  rcases reply with (e | _ | n) | limit
  · exact .failed (not_tolerates h e)
  · exact .passed rfl
  · exact .counted n
  · exact .overran limit

/-- The insert of a claim that updates first decides it by its rows, too, a duplicate key for none. -/
theorem decides_insertedRows (h : plan.insert? = some s) :
    plan.Decides s [] reply (reply.insertedRows.map (0 < ·)) := by
  rcases reply with ((cause | cause) | _ | n) | limit
  · exact .occupied rfl ⟨h, rfl⟩
  · exact .failed fun tolerated => absurd tolerated.2 (by simp [StatementError.isDuplicateKey])
  · exact .passed rfl
  · exact .counted n
  · exact .overran limit

end ClaimPlan

/-- The insert of a claim is not the update before it. -/
theorem Manager.update_ne_insert {m : Manager} {update insert : Statement}
    (plan : m.claimPlan = .updateThenInsert update insert) : update ≠ insert := by
  unfold Manager.claimPlan at plan
  cases hb : m.dialect.backend with
  | mysql =>
      rw [hb] at plan
      obtain ⟨rfl, rfl⟩ := ClaimPlan.updateThenInsert.inj plan
      simp
  | sqlite | postgres | mssql =>
      rw [hb] at plan
      exact absurd plan (by simp [Backend.claim])

namespace ClaimPlan.Course

variable {plan : ClaimPlan} {first s : Statement} {rest : List Statement} {reply : Reply}
  {verdict : Except TransportError Bool}

/-- The first statement decides. -/
theorem of_first (order : plan.statements = s :: rest) (decides : plan.Decides s rest reply verdict) :
    plan.Course [(s, reply)] verdict :=
  @intro plan [] rest s reply verdict order decides

/-- The first statement counts no row, and the second one decides. -/
theorem of_second (order : plan.statements = first :: s :: rest)
    (decides : plan.Decides s rest reply verdict) :
    plan.Course [(first, .answered (.ok 0)), (s, reply)] verdict :=
  @intro plan [first] rest s reply verdict order decides

end ClaimPlan.Course

section

variable {σ α : Type} {m : Manager} {v : LeaseValues} {held : σ} {call : Call σ α}
  {next : Except TransportError Bool → Call σ α} {xs : List (Request × Reply)}
  {finished : Call.Finished σ α}

/-- A call that is done hears nothing more. -/
theorem Call.Hears.of_isDone (h : call.Hears xs finished) (hdone : call.IsDone) : xs = [] := by
  cases h with
  | done state result events => rfl
  | answered reply _ => exact absurd hdone id

/-- **Every claim takes one of these courses.** -/
theorem Manager.claim_course (h : (m.claim v held next).Hears xs finished)
    (hdone : ∀ verdict, (next verdict).IsDone) :
    ∃ issued verdict, m.claimPlan.Course issued verdict ∧
      xs = issued.map (fun x => (m.request x.1 v, x.2)) ∧ (next verdict).Hears [] finished := by
  unfold Manager.claim at h
  cases plan : m.claimPlan with
  | single s =>
      rw [plan] at h
      obtain _ | @⟨_, _, _, reply, xs, _, h⟩ := h
      obtain rfl := h.of_isDone (hdone _)
      refine ⟨[(s, reply)], _, .of_first rfl (ClaimPlan.decides_rows ?_), rfl, h⟩
      simp [ClaimPlan.insert?]
  | updateThenInsert update insert =>
      have distinct := Manager.update_ne_insert plan
      rw [plan] at h
      obtain _ | @⟨_, _, _, reply, xs, _, h⟩ := h
      have first {verdict} (decides : (ClaimPlan.updateThenInsert update insert).Decides update
          [insert] reply verdict) (h : (next verdict).Hears xs finished) :
          ∃ issued verdict, (ClaimPlan.updateThenInsert update insert).Course issued verdict ∧
            (m.request update v, reply) :: xs = issued.map (fun x => (m.request x.1 v, x.2)) ∧
              (next verdict).Hears [] finished := by
        obtain rfl := h.of_isDone (hdone _)
        exact ⟨[(update, reply)], verdict, .of_first rfl decides, rfl, h⟩
      rcases reply with (e | _ | n) | limit
      · apply first (.failed (ClaimPlan.not_tolerates ?_ e)) h
        simpa [ClaimPlan.insert?] using distinct.symm
      · -- no row was there, so the insert decides
        obtain _ | @⟨_, _, _, reply, xs, _, h⟩ := h
        obtain rfl := h.of_isDone (hdone _)
        exact ⟨[(update, _), (insert, reply)], _,
          .of_second rfl (ClaimPlan.decides_insertedRows rfl), rfl, h⟩
      · exact first (.counted n) h
      · exact first (.overran limit) h

end

/-! ## What the course of a claim says -/

namespace ClaimPlan.Course

variable {plan : ClaimPlan} {issued : List (Statement × Reply)}
  {verdict : Except TransportError Bool} {s : Statement} {reply : Reply}

theorem ne_nil (course : plan.Course issued verdict) : issued ≠ [] := by
  cases course
  simp

theorem isPrefix (course : plan.Course issued verdict) :
    issued.map Prod.fst <+: plan.statements := by
  obtain @⟨before, rest, s, reply, _, order, -⟩ := course
  have names : before.map (Prod.fst ∘ fun s => (s, Reply.answered (.ok 0))) = before :=
    List.map_id' before
  refine ⟨rest, ?_⟩
  rw [order, List.map_append, List.map_map, names, List.append_assoc]
  rfl

/-- **Nothing is sent behind a row, an error or an overrun.** -/
theorem goes_on (course : plan.Course issued verdict) {before after : List (Statement × Reply)}
    {x : Statement × Reply} (split : issued = before ++ x :: after) (more : after ≠ []) :
    x.2 = .answered (.ok 0) := by
  obtain @⟨passed, rest, s, reply, _, order, -⟩ := course
  rcases List.eq_nil_or_concat after with rfl | ⟨after, last, rfl⟩
  · exact absurd rfl more
  · have init : passed.map (·, Reply.answered (.ok 0)) = before ++ x :: after := by
      have appended : passed.map (·, Reply.answered (.ok 0)) ++ [(s, reply)] =
          (before ++ x :: after) ++ [last] := by simpa using split
      exact (List.append_inj' appended rfl).1
    have mem : x ∈ passed.map (·, Reply.answered (.ok 0)) := by simp [init]
    obtain ⟨s, -, rfl⟩ := List.mem_map.mp mem
    rfl

/-- A reply other than that no row was there is the one that decides. -/
theorem decides_of_mem (course : plan.Course issued verdict) (mem : (s, reply) ∈ issued)
    (telling : reply ≠ .answered (.ok 0)) : ∃ rest, plan.Decides s rest reply verdict := by
  obtain @⟨passed, rest, s, reply, _, -, decides⟩ := course
  rcases List.mem_append.mp mem with early | late
  · obtain ⟨s', -, same⟩ := List.mem_map.mp early
    exact absurd (congrArg Prod.snd same).symm telling
  · obtain ⟨rfl, rfl⟩ := Prod.mk.inj (List.mem_singleton.mp late)
    exact ⟨rest, decides⟩

theorem counted_iff (course : plan.Course issued verdict) :
    verdict = .ok true ↔ ∃ s n, (s, .answered (.ok (n + 1))) ∈ issued := by
  constructor
  · rintro rfl
    obtain @⟨passed, rest, s, reply, _, -, decides⟩ := course
    cases decides with
    | counted n => exact ⟨s, n, by simp⟩
  · rintro ⟨s, n, mem⟩
    obtain ⟨rest, decides⟩ := course.decides_of_mem mem (by simp)
    cases decides
    rfl

theorem overran_iff (course : plan.Course issued verdict) {limit : Duration} :
    verdict = .error (.timeout limit) ↔ ∃ s, (s, .overran limit) ∈ issued := by
  constructor
  · rintro rfl
    obtain @⟨passed, rest, s, reply, _, -, decides⟩ := course
    cases decides with
    | overran => exact ⟨s, by simp⟩
  · rintro ⟨s, mem⟩
    obtain ⟨rest, decides⟩ := course.decides_of_mem mem (by simp)
    cases decides
    rfl

theorem failed_iff (course : plan.Course issued verdict) {cause : Fault} :
    verdict = .error (.database cause) ↔
      ∃ s e, (s, .answered (.error e)) ∈ issued ∧ e.cause = cause ∧ ¬ plan.Tolerates s e := by
  constructor
  · rintro rfl
    obtain @⟨passed, rest, s, reply, _, -, decides⟩ := course
    cases decides with
    | @failed e final => exact ⟨s, e, by simp, rfl, final⟩
  · rintro ⟨s, e, mem, rfl, final⟩
    obtain ⟨rest, decides⟩ := course.decides_of_mem mem (by simp)
    cases decides with
    | occupied _ tolerated => exact absurd tolerated final
    | failed => rfl

/-- No overrun and no other failure refuses a claim. -/
theorem not_refused (course : plan.Course issued verdict) (mem : (s, reply) ∈ issued)
    (failure : (∃ limit, reply = .overran limit) ∨
      ∃ e, reply = .answered (.error e) ∧ ¬ plan.Tolerates s e) : verdict ≠ .ok false := by
  rcases failure with ⟨limit, rfl⟩ | ⟨e, rfl, final⟩
  · rw [course.overran_iff.mpr ⟨s, mem⟩]
    simp
  · rw [course.failed_iff.mpr ⟨s, e, mem, rfl, final⟩]
    simp

/-- **A claim is refused** if its whole plan was carried out in time and the last statement counted no
row, or met the key at the insert. -/
theorem refused_iff (course : plan.Course issued verdict) :
    verdict = .ok false ↔ issued.map Prod.fst = plan.statements ∧
      (∀ x ∈ issued, ∃ result, x.2 = .answered result) ∧
      ∃ s result, issued.getLast? = some (s, .answered result) ∧
        (result = .ok 0 ∨ ∃ e, result = .error e ∧ plan.Tolerates s e) := by
  obtain @⟨before, rest, s, reply, _, order, decides⟩ := course
  have names : (before.map (·, Reply.answered (.ok 0)) ++ [(s, reply)]).map Prod.fst =
      before ++ [s] := by
    simp [Function.comp_def]
  have final : (before.map (·, Reply.answered (.ok 0)) ++ [(s, reply)]).getLast? =
      some (s, reply) := List.getLast?_concat
  have whole : before ++ [s] = plan.statements ↔ rest = [] := by
    rw [order, List.append_cancel_left_eq, List.cons.injEq]
    simp [eq_comm]
  rw [names, final, whole]
  constructor
  · rintro rfl
    have answered : rest = [] ∧ ∃ result, reply = .answered result ∧
        (result = .ok 0 ∨ ∃ e, result = .error e ∧ plan.Tolerates s e) := by
      cases decides with
      | passed last => exact ⟨last, _, rfl, .inl rfl⟩
      | @occupied e last tolerated => exact ⟨last, _, rfl, .inr ⟨e, rfl, tolerated⟩⟩
    obtain ⟨last, result, rfl, means⟩ := answered
    refine ⟨last, ?_, s, result, rfl, means⟩
    intro x mem
    rcases List.mem_append.mp mem with early | late
    · obtain ⟨s', -, rfl⟩ := List.mem_map.mp early
      exact ⟨_, rfl⟩
    · obtain rfl := List.mem_singleton.mp late
      exact ⟨result, rfl⟩
  · rintro ⟨-, -, s', result, same, means⟩
    obtain ⟨rfl, rfl⟩ := Prod.mk.inj (Option.some.inj same)
    rcases means with rfl | ⟨e, rfl, tolerated⟩
    · cases decides
      rfl
    · cases decides with
      | occupied => rfl
      | failed final => exact absurd tolerated final

/-- **The insert is sent** just if the update has counted no row. -/
theorem insert_iff (course : plan.Course issued verdict) {update insert : Statement}
    (two : plan = .updateThenInsert update insert) (distinct : update ≠ insert) :
    insert ∈ issued.map Prod.fst ↔ (update, .answered (.ok 0)) ∈ issued := by
  obtain @⟨before, rest, s, reply, _, order, decides⟩ := course
  rw [two] at order
  obtain _ | ⟨first, before⟩ := before
  · -- the update decides, so it has not been passed
    obtain ⟨rfl, rfl⟩ := List.cons.inj order
    have decided : reply ≠ .answered (.ok 0) := by
      rintro rfl
      cases decides with
      | passed last => exact absurd last (by simp)
    simp [distinct.symm, decided.symm]
  · obtain ⟨rfl, after⟩ := List.cons.inj order
    obtain _ | ⟨second, before⟩ := before
    · obtain ⟨rfl, -⟩ := List.cons.inj after
      simp
    · exact absurd (List.cons.inj after).2 (by simp)

end ClaimPlan.Course

/-! ## What an acquisition comes to -/

namespace Handle

open Rehearsal

/-- What a handle makes of the verdict on its claim. -/
def concludes (h : Handle) (sent : Token) :
    Except TransportError Bool → Handle × Except LockError Unit
  | .ok true => ({ h with token := some sent, unconfirmed := none }, .ok ())
  | .ok false => ({ h with token := none, unconfirmed := none }, .error (.contention h.key))
  | .error e => ({ h with unconfirmed := some sent }, .error (.transport h.key .acquire e))

variable {h : Handle} {m : Manager} {fresh sent : Token} {ttl : Duration}
  {verdict : Except TransportError Bool}

theorem exists_acquire_concludes (h : Handle) (m : Manager) (fresh : Token)
    (httl : ttl.isZero = false) :
    ∃ next, h.acquire m fresh ttl =
        m.claim (h.claimValues (h.nextToken fresh) ttl) { h with unconfirmed := none } next ∧
      ∀ verdict, ∃ events, next verdict = .done (h.concludes (h.nextToken fresh) verdict).1
        (h.concludes (h.nextToken fresh) verdict).2 events := by
  obtain ⟨next, claims, won, refused, failed⟩ := h.exists_acquire_verdicts httl m fresh
  refine ⟨next, claims, ?_⟩
  rintro (e | _ | _)
  · exact ⟨_, failed e⟩
  · exact ⟨_, refused⟩
  · exact ⟨_, won⟩

theorem concludes_ok_iff : (h.concludes sent verdict).2 = .ok () ↔ verdict = .ok true := by
  rcases verdict with e | _ | _ <;> simp [concludes]

theorem concludes_contention_iff {key : String} :
    (h.concludes sent verdict).2 = .error (.contention key) ↔ key = h.key ∧ verdict = .ok false := by
  rcases verdict with e | _ | _ <;> simp [concludes, eq_comm]

theorem concludes_transport_iff {key : String} {operation : Operation} {e : TransportError} :
    (h.concludes sent verdict).2 = .error (.transport key operation e) ↔
      key = h.key ∧ operation = .acquire ∧ verdict = .error e := by
  rcases verdict with e | _ | _ <;> simp [concludes, eq_comm]

/-- Only a claim that was won leaves the handle with a token that it did not hold before. -/
theorem concludes_token_iff (new : h.token ≠ some sent) :
    (h.concludes sent verdict).1.token = some sent ↔ verdict = .ok true := by
  rcases verdict with e | _ | _ <;> simp [concludes, new]

theorem concludes_distinct (new : h.token ≠ some sent) : (h.concludes sent verdict).1.Distinct := by
  intro T held
  rcases verdict with e | _ | _
  · show some sent ≠ some T
    exact fun same => new (held.trans same.symm)
  · exact absurd held (by simp [concludes])
  · show none ≠ some T
    simp

/-- The token that is sent is not the one held, if the handle's two tokens differ and what is minted
is new. -/
theorem Distinct.nextToken_new (distinct : h.Distinct) (minted : h.token ≠ some fresh) :
    h.token ≠ some (h.nextToken fresh) := by
  unfold nextToken
  cases pending : h.unconfirmed with
  | none => exact minted
  | some T => exact fun held => distinct T held pending

/-- **How an acquisition is classified**, by the statements that it issued and the replies that came. -/
structure Classified (h : Handle) (m : Manager) (fresh : Token) (issued : List (Statement × Reply))
    (state : Handle) (result : Except LockError Unit) : Prop where
  /-- It succeeds if some statement counted a row in time. -/
  ok : result = .ok () ↔ ∃ s n, (s, .answered (.ok (n + 1))) ∈ issued
  /-- It meets contention if its whole plan was carried out in time and the last statement counted no
  row, or was the insert behind an update and met the key. -/
  contention : ∀ key, result = .error (.contention key) ↔ key = h.key ∧
    issued.map Prod.fst = m.claimPlan.statements ∧
    (∀ x ∈ issued, ∃ answer, x.2 = .answered answer) ∧
    ∃ s answer, issued.getLast? = some (s, .answered answer) ∧ (answer = .ok 0 ∨
      m.claimPlan.insert? = some s ∧ ∃ cause, answer = .error (.duplicateKey cause))
  /-- Otherwise it is a transport error of this operation, on this key. -/
  otherwise : result ≠ .ok () → result ≠ .error (.contention h.key) →
    ∃ e, result = .error (.transport h.key .acquire e)
  transport : ∀ key operation e, result = .error (.transport key operation e) →
    key = h.key ∧ operation = .acquire
  /-- It is a timeout if a statement overran, and carries the limit that is configured. -/
  timeout : ∀ limit, result = .error (.transport h.key .acquire (.timeout limit)) ↔
    m.timeout = some limit ∧ ∃ s, (s, .overran limit) ∈ issued
  /-- It is the driver's own error if that was an answer which does not mean contention. -/
  driver : ∀ cause, result = .error (.transport h.key .acquire (.database cause)) ↔
    ∃ s e, (s, .answered (.error e)) ∈ issued ∧ e.cause = cause ∧ ¬ m.claimPlan.Tolerates s e
  /-- A duplicate key means contention at the insert of a claim that updates first, nowhere else. -/
  duplicateKey : ∀ s cause, (s, .answered (.error (.duplicateKey cause))) ∈ issued →
    m.claimPlan.insert? ≠ some s → result = .error (.transport h.key .acquire (.database cause))
  /-- No overrun and no other failure is taken for contention. -/
  failure : ∀ s reply, (s, reply) ∈ issued → ((∃ limit, reply = .overran limit) ∨
    ∃ e, reply = .answered (.error e) ∧ ¬ m.claimPlan.Tolerates s e) →
      ∀ key, result ≠ .error (.contention key)
  /-- The insert of a claim that updates first is sent if the update counted no row. -/
  insert : ∀ update insert, m.claimPlan = .updateThenInsert update insert →
    (insert ∈ issued.map Prod.fst ↔ (update, .answered (.ok 0)) ∈ issued)
  /-- Nothing is sent behind a row, an error or an overrun. -/
  stops : ∀ before x after, issued = before ++ x :: after → after ≠ [] → x.2 = .answered (.ok 0)
  /-- The handle holds the token that was sent just if it has succeeded, where its two tokens differ, as
  they do in every history of calls (`Accounts.distinct`), and what is minted is new. -/
  holds : h.Distinct → h.token ≠ some fresh →
    (state.token = some (h.nextToken fresh) ↔ result = .ok ())
  distinct : h.Distinct → h.token ≠ some fresh → state.Distinct

theorem classified_of_course {issued : List (Statement × Reply)}
    (course : m.claimPlan.Course issued verdict)
    (limits : ∀ s l, (s, .overran l) ∈ issued → m.timeout = some l) :
    h.Classified m fresh issued (h.concludes (h.nextToken fresh) verdict).1
      (h.concludes (h.nextToken fresh) verdict).2 := by
  have failed (cause : Fault) : (h.concludes (h.nextToken fresh) verdict).2 =
      .error (.transport h.key .acquire (.database cause)) ↔
        ∃ s e, (s, .answered (.error e)) ∈ issued ∧ e.cause = cause ∧ ¬ m.claimPlan.Tolerates s e := by
    rw [concludes_transport_iff, course.failed_iff]
    simp only [true_and]
  constructor
  · exact concludes_ok_iff.trans course.counted_iff
  · intro key
    rw [concludes_contention_iff, course.refused_iff]
    have tolerated (s : Statement) (answer : Except StatementError Nat) :
        (∃ e, answer = .error e ∧ m.claimPlan.Tolerates s e) ↔
          m.claimPlan.insert? = some s ∧ ∃ cause, answer = .error (.duplicateKey cause) := by
      constructor
      · rintro ⟨cause | cause, rfl, behind, duplicate⟩
        · exact ⟨behind, cause, rfl⟩
        · exact absurd duplicate (by simp [StatementError.isDuplicateKey])
      · rintro ⟨behind, cause, rfl⟩
        exact ⟨_, rfl, behind, rfl⟩
    simp only [tolerated]
  · rcases verdict with e | _ | _
    · exact fun _ _ => ⟨e, rfl⟩
    · exact fun _ apart => absurd rfl apart
    · exact fun apart _ => absurd rfl apart
  · intro key operation e h
    exact ⟨(concludes_transport_iff.mp h).1, (concludes_transport_iff.mp h).2.1⟩
  · intro limit
    rw [concludes_transport_iff, course.overran_iff]
    constructor
    · rintro ⟨-, -, s, mem⟩
      exact ⟨limits s limit mem, s, mem⟩
    · rintro ⟨-, s, mem⟩
      exact ⟨rfl, rfl, s, mem⟩
  · exact failed
  · intro s cause mem apart
    exact (failed cause).mpr ⟨s, _, mem, rfl, ClaimPlan.not_tolerates apart _⟩
  · intro s reply mem failure key
    have refused := course.not_refused mem failure
    exact fun h => refused (concludes_contention_iff.mp h).2
  · intro update insert two
    exact course.insert_iff two (Manager.update_ne_insert two)
  · intro before x after
    exact course.goes_on
  · intro distinct minted
    rw [concludes_token_iff (distinct.nextToken_new minted), concludes_ok_iff]
  · intro distinct minted
    exact concludes_distinct (distinct.nextToken_new minted)

/-- **An acquisition classifies what happens to it.** Whatever answers wait on the timeline, whatever
time limit is set and whatever the handle has behind it, the acquisition issues statements of its
claim plan from the first one on, each takes the answer that waits for it, and the result and the
handle afterwards are classified by the replies. -/
theorem acquire_classified (h : Handle) (m : Manager) (fresh : Token) (t : Timeline)
    (httl : ttl.isZero = false) :
    let ran := (h.acquire m fresh ttl).run Timeline.serve t
    ∃ issued, issued ≠ [] ∧ issued.map Prod.fst <+: m.claimPlan.statements ∧
      (∀ i x, issued[i]? = some x → x.2 = (Timeline.settle (t.answer i) m.timeout).2) ∧
      ran.1.exchanges.map (·.request) = t.exchanges.map (·.request) ++
        issued.map (fun x => m.request x.1 (h.claimValues (h.nextToken fresh) ttl)) ∧
      h.Classified m fresh issued ran.2.state ran.2.result := by
  obtain ⟨next, claims, concludes⟩ := h.exists_acquire_concludes m fresh httl
  obtain ⟨xs, hears, replies⟩ := (h.acquire m fresh ttl).run_hears t
  dsimp only
  generalize (h.acquire m fresh ttl).run Timeline.serve t = ran at hears replies ⊢
  obtain ⟨after, finished⟩ := ran
  rw [claims] at hears
  obtain ⟨issued, verdict, course, rfl, ends⟩ := Manager.claim_course hears fun verdict => by
    obtain ⟨events, done⟩ := concludes verdict
    rw [done]
    trivial
  have answers : ∀ i x, issued[i]? = some x → x.2 = (Timeline.settle (t.answer i) m.timeout).2 := by
    intro i x hx
    apply replies.replies i (m.request x.1 _, x.2)
    rw [List.getElem?_map, hx]
    rfl
  refine ⟨issued, course.ne_nil, course.isPrefix, answers, ?_, ?_⟩
  · rw [replies.sent, List.map_map]
    rfl
  · have limits : ∀ s l, (s, .overran l) ∈ issued → m.timeout = some l := by
      intro s l mem
      obtain ⟨i, here⟩ := List.getElem?_of_mem mem
      exact (Timeline.overran_limit (answers i _ here).symm).1
    obtain ⟨events, done⟩ := concludes verdict
    rw [done] at ends
    cases ends
    exact classified_of_course course limits

/-- A claim on MySQL whose update counts no row and whose insert overruns the limit of ten
milliseconds is a timeout, though the insert would have met the key. -/
theorem acquire_classified_overrun :
    let m : Manager := ⟨.mysql, "locks", some ⟨10000000⟩⟩
    let h : Handle := { key := "job" }
    let t : Timeline :=
      { script := [⟨0, .ok 0⟩, ⟨20, .error (.duplicateKey (.bare "Duplicate entry"))⟩] }
    let ran := (h.acquire m "A" ⟨1000⟩).run Timeline.serve t
    (Duration.mk 1000).isZero = false ∧
      ran.2.result = .error (.transport "job" .acquire (.timeout ⟨10000000⟩)) ∧
      ∃ issued, issued ≠ [] ∧ h.Classified m "A" issued ran.2.state ran.2.result := by
  intro m h t ran
  obtain ⟨issued, started, -, -, -, classified⟩ :=
    h.acquire_classified m "A" t (show (Duration.mk 1000).isZero = false from rfl)
  exact ⟨rfl, rfl, issued, started, classified⟩

end Handle

end LeaseLock
