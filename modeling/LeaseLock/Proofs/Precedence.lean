/-
# LeaseLock.Proofs.Precedence -- whose word counts in an exclusive run

Four things can go wrong in an exclusive run: its options, its claim, its work, and its release. They
are masked in this order. A run with faulty options reports the first fault and does nothing else; a
run whose claim fails reports just that; a run whose task fails, crashes, or loses its lease reports
this whatever becomes of the release; and only where the task returned does the release decide
(`Rehearsal.Performance.Decides`).

One run reports none of these. An extension interval that leads beyond the last instant of the clock
is no fault of the options, and the run breaks down on it after its claim
(`Rehearsal.Performance.result_precedence`).
-/
import LeaseLock.Proofs.ReleaseOnExit

namespace LeaseLock

/-! ## Faulty options -/

namespace Exclusive

/-- What is wrong with the options and the key of a run: time to live, interval, table, key. -/
def faults (key : String) (o : ExclusiveOptions) : List ConfigError :=
  (if o.lockTtl.isZero then [.invalidTtl o.lockTtl] else []) ++
    (o.extendEvery.toList.filter Duration.isZero).map .invalidExtendInterval ++
    (if TableName.isPlain o.config.tableName then [] else [.invalidTableName o.config.tableName]) ++
    (if key.isEmpty then [.emptyKey] else []) ++
    if maxKeyLength < key.utf8ByteSize then [.keyTooLong key.utf8ByteSize maxKeyLength] else []

/-- The checks of a run report the first fault. -/
theorem prepare_eq (d : Dialect) (key : String) (o : ExclusiveOptions) :
    prepare d key o = match (faults key o).head? with
      | some e => .error e
      | none => .ok (⟨d, o.config.tableName, o.config.timeout?⟩, { key }) := by
  have key_check : Handle.ofKey key = if key.isEmpty then .error .emptyKey
      else if maxKeyLength < key.utf8ByteSize then .error (.keyTooLong key.utf8ByteSize maxKeyLength)
      else .ok { key } := by
    unfold Handle.ofKey checkKey
    by_cases long : maxKeyLength < key.utf8ByteSize
    · rw [if_pos long, if_neg (Nat.not_le_of_gt long)]
      split <;> rfl
    · rw [if_neg long, if_pos (Nat.le_of_not_gt long)]
      split <;> rfl
  have table_check : Manager.ofConfig d o.config =
      if TableName.isPlain o.config.tableName then .ok ⟨d, o.config.tableName, o.config.timeout?⟩
      else .error (.invalidTableName o.config.tableName) := by
    unfold Manager.ofConfig TableName.check
    split <;> rfl
  unfold prepare faults
  rw [key_check, table_check]
  cases ttl : o.lockTtl.isZero with
  | true => rfl
  | false =>
    cases TableName.isPlain o.config.tableName <;> cases key.isEmpty <;>
      by_cases long : maxKeyLength < key.utf8ByteSize <;> cases o.extendEvery with
      | none => simp [long, bind, Except.bind, pure, Except.pure]
      | some interval =>
        cases zero : interval.isZero <;>
          simp [long, zero, bind, Except.bind, pure, Except.pure, throw, throwThe,
            MonadExceptOf.throw]

theorem prepare_of_faultless (d : Dialect) {key : String} {o : ExclusiveOptions}
    (faultless : faults key o = []) :
    prepare d key o = .ok (⟨d, o.config.tableName, o.config.timeout?⟩, { key }) := by
  rw [prepare_eq, faultless]
  rfl

theorem isZero_of_faultless {key : String} {o : ExclusiveOptions} (faultless : faults key o = []) :
    o.lockTtl.isZero = false := by
  cases zero : o.lockTtl.isZero with
  | false => rfl
  | true => exact absurd faultless (by simp [faults, zero])

theorem pos_of_faultless {key : String} {o : ExclusiveOptions} (faultless : faults key o = [])
    {interval : Duration} (hevery : o.extendEvery = some interval) : 0 < interval.nanos := by
  by_contra hzero
  have zero : interval.isZero = true := by
    rw [Duration.isZero, beq_iff_eq]
    omega
  exact absurd faultless (by simp [faults, hevery, zero])

theorem faultless_of_prepared {d : Dialect} {key : String} {o : ExclusiveOptions}
    {p : Manager × Handle} (h : prepare d key o = .ok p) : faults key o = [] := by
  rw [prepare_eq] at h
  cases hfault : (faults key o).head? with
  | none => exact List.head?_eq_none_iff.mp hfault
  | some e =>
      rw [hfault] at h
      exact absurd h (by simp)

end Exclusive

namespace Rehearsal

/-! ## The answer to the release -/

/-- The answer comes within the time limit of statements and within the budget. -/
def Answer.InTime (a : Answer) (limit : Option Duration) (budget : Duration) : Prop :=
  (∀ l, limit = some l → a.delay ≤ l.millisUp) ∧ a.delay ≤ budget.millisUp

namespace Timeline

variable {t : Timeline} {limit : Option Duration} {a : Answer}

theorem settle_of_le (h : ∀ l, limit = some l → a.delay ≤ l.millisUp) :
    settle a limit = (a.delay, .answered a.result) := by
  cases limit with
  | none => rfl
  | some l => exact if_pos (h l rfl)

/-- An answer that does not come within the limit is none. -/
theorem settle_of_not_le (h : ¬ ∀ l, limit = some l → a.delay ≤ l.millisUp) :
    ∃ l, settle a limit = (l.millisUp, .overran l) := by
  cases limit with
  | none => exact absurd nofun h
  | some l =>
    refine ⟨l, if_neg ?_⟩
    intro intime
    apply h
    rintro _ ⟨⟩
    exact intime

end Timeline

/-- A call that asks one request is over if the reply comes by the deadline, and is dropped if not. -/
theorem runUntil_once {σ β : Type} {r : Request} {h : σ} {resume : Reply → Call σ β} {deadline : Nat}
    {t : Timeline} {outcome : Reply → β}
    (hdone : ∀ reply, ∃ state events, resume reply = .done state (outcome reply) events) :
    (t.serve r).1.now ≤ deadline ∧ (∃ state events, (Call.ask r h resume).runUntil deadline t =
        ((t.serve r).1, .ok ⟨state, outcome (t.serve r).2, events⟩)) ∨
      deadline < (t.serve r).1.now ∧
        ((Call.ask r h resume).runUntil deadline t).2 = .error h := by
  unfold Call.runUntil
  by_cases intime : (t.serve r).1.now ≤ deadline
  · obtain ⟨state, events, ends⟩ := hdone (t.serve r).2
    refine .inl ⟨intime, state, events, ?_⟩
    dsimp only
    rw [if_pos intime, ends]
    rfl
  · refine .inr ⟨Nat.lt_of_not_le intime, ?_⟩
    dsimp only
    rw [if_neg intime]

namespace Performance

variable {α : Type} {m : Manager} {held : Handle} {p : Performance} {budget : Duration}

/-- The release of a run is over with its reply, or with its budget. -/
theorem released_of_settle (task : Task α) (p : Performance) (m : Manager) (budget : Duration)
    (hheld : held.isIdle = false) :
    let settled := Timeline.settle p.timeline.next.1 m.timeout
    let released := (Exclusive.releaseOutcome held.key budget
      ((stage task).performWithin p budget (held.release m)).2).1
    settled.1 ≤ budget.millisUp ∧ released = settled.2.outcome held.key .release ∨
      budget.millisUp < settled.1 ∧
        released = .error (.transport held.key .release (.timeout budget)) := by
  intro settled released
  obtain ⟨resume, asks, outcome⟩ := Handle.exists_release_outcome (m := m) hheld
  have served : (p.timeline.serve (m.request m.releaseStatement (held.ownValues .zero))).1.now =
      p.timeline.now + settled.1 := rfl
  have performed : ((stage task).performWithin p budget (held.release m)).2 =
      ((held.release m).runUntil (p.timeline.now + budget.millisUp) p.timeline).2.toOption := by
    dsimp only [stage]
    rcases (held.release m).runUntil (p.timeline.now + budget.millisUp) p.timeline with
      ⟨t, dropped | finished⟩ <;> rfl
  have same : released = (Exclusive.releaseOutcome held.key budget
      ((held.release m).runUntil (p.timeline.now + budget.millisUp) p.timeline).2.toOption).1 :=
    congrArg (fun answer => (Exclusive.releaseOutcome held.key budget answer).1) performed
  rw [same, asks]
  rcases runUntil_once outcome with ⟨intime, state, events, run⟩ | ⟨late, run⟩
  · rw [served] at intime
    rw [run]
    exact .inl ⟨Nat.le_of_add_le_add_left intime, rfl⟩
  · rw [served] at late
    rw [run]
    exact .inr ⟨Nat.lt_of_add_lt_add_left late, rfl⟩

/-- **The release of a run**: what comes of it is what the answer says, if that comes in time, and is a
timeout otherwise. -/
theorem released_of_answer (task : Task α) (p : Performance) (m : Manager) (budget : Duration)
    (hheld : held.isIdle = false) :
    let a := p.timeline.next.1
    let released := (Exclusive.releaseOutcome held.key budget
      ((stage task).performWithin p budget (held.release m)).2).1
    (a.InTime m.timeout budget → released = (Reply.answered a.result).outcome held.key .release) ∧
      (¬ a.InTime m.timeout budget →
        ∃ e, released = .error (.transport held.key .release e)) := by
  intro a released
  have settled := released_of_settle task p m budget hheld
  constructor
  · rintro ⟨within_limit, within_budget⟩
    rw [Timeline.settle_of_le within_limit] at settled
    rcases settled with ⟨_, answered⟩ | ⟨late, _⟩
    · exact answered
    · exact absurd within_budget (Nat.not_le_of_gt late)
  · intro late
    by_cases within_limit : ∀ l, m.timeout = some l → a.delay ≤ l.millisUp
    · rw [Timeline.settle_of_le within_limit] at settled
      rcases settled with ⟨within_budget, _⟩ | ⟨_, timeout⟩
      · exact absurd ⟨within_limit, within_budget⟩ late
      · exact ⟨_, timeout⟩
    · obtain ⟨l, overran⟩ := Timeline.settle_of_not_le within_limit
      rw [overran] at settled
      rcases settled with ⟨_, timeout⟩ | ⟨_, timeout⟩
      · exact ⟨_, timeout⟩
      · exact ⟨_, timeout⟩

/-! ## The failure of an extension -/

/-- **A lease that is lost**: the last statement sent was an extension, and the error is what its reply
comes to. -/
def LostBy (m : Manager) (held : Handle) (ttl : Duration) (e : LockError) (t : Timeline) : Prop :=
  ∃ t₀ : Timeline, t = (t₀.serve (m.request m.extendStatement (held.ownValues ttl))).1 ∧
    (t₀.serve (m.request m.extendStatement (held.ownValues ttl))).2.outcome held.key .extend = .error e

/-- Extending ends in an error only by the extension that has it. -/
theorem extending_fails {ttl every : Duration} (httl : ttl.isZero = false)
    (hheld : held.isIdle = false) {start stop left k : Nat} {t t' : Timeline} {e : LockError}
    {events : List Event}
    (h : t.extending ⟨every, Exclusive.extension m held ttl⟩ start stop left k = (t', some e, events)) :
    LostBy m held ttl e t' := by
  obtain ⟨resume, asks, outcome⟩ := Handle.exists_extension_outcome (m := m) httl hheld
  induction left generalizing k t events with
  | zero => cases h
  | succ left ih =>
    unfold Timeline.extending at h
    dsimp only at h
    split at h
    · cases h
    split at h
    · cases h
    · rename_i hrun
      cases h
      rw [asks] at hrun
      rcases runUntil_once outcome with ⟨_, state, events, run⟩ | ⟨_, run⟩
      · rw [run] at hrun
        obtain ⟨rfl, finished⟩ := Prod.mk.inj hrun
        have failed := congrArg Call.Finished.result (Except.ok.inj finished)
        exact ⟨_, rfl, failed⟩
      · rw [hrun] at run
        cases run
    · rename_i hrun
      obtain ⟨rfl, rest⟩ := Prod.mk.inj h
      obtain ⟨failure, rfl⟩ := Prod.mk.inj rest
      exact ih (Prod.ext rfl (Prod.ext failure rfl))

/-- The work under a lease loses it only by the extension that fails. -/
theorem work_loses {ttl : Duration} (httl : ttl.isZero = false) (hheld : held.isIdle = false)
    {task : Task α} {every : Option Duration} {e : LockError} :
    let worked := work task p <| every.map fun interval =>
      ⟨interval, Exclusive.extension m held ttl⟩
    worked.2.1 = .leaseLost e → LostBy m held ttl e worked.1.timeline := by
  intro worked lost
  cases crash : task.crashAtStart with
  | some text =>
    have stopped : worked.2.1 = .ended (.crashed text) := by
      show (work task p _).2.1 = _
      unfold work
      rw [crash]
    exact absurd (stopped.symm.trans lost) (by simp)
  | none =>
    cases every with
    | none =>
      have stopped : worked.2.1 = .ended task.ending := by
        show (work task p none).2.1 = _
        unfold work
        rw [crash]
      exact absurd (stopped.symm.trans lost) (by simp)
    | some interval =>
      let extension : Extension := ⟨interval, Exclusive.extension m held ttl⟩
      obtain ⟨ticks, extended⟩ : ∃ ticks, worked =
          workExtended task { p with started := p.started + 1 } extension ticks :=
        ⟨_, work_extended crash p extension⟩
      rw [extended] at lost ⊢
      unfold workExtended at lost ⊢
      dsimp only at lost ⊢
      split at lost
      · rename_i failed
        obtain rfl := Stop.leaseLost.inj lost
        exact extending_fails httl hheld failed
      · exact absurd lost (by simp)

/-! ## Precedence -/

/-- **Whose word counts**, when the work stopped like this and the script answers so to the release. -/
structure Decides (key : String) (limit : Option Duration) (budget : Duration) (a : Answer)
    (stop : Stop α) (result : ExclusiveResult α) : Prop where
  failed : ∀ text, stop = .ended (.failed text) → result = .error (.task text)
  crashed : ∀ text, stop = .ended (.crashed text) → result = .crashed text
  leaseLost : ∀ e, stop = .leaseLost e → result = .error (.lock e)
  value : ∀ v, stop = .ended (.returned v) →
    (result = .value v ↔ a.InTime limit budget ∧ ∃ n, a.result = .ok (n + 1))
  lostLease : ∀ v, stop = .ended (.returned v) →
    (result = .error (.lock (.lostLease key)) ↔ a.InTime limit budget ∧ a.result = .ok 0)
  transport : ∀ v, stop = .ended (.returned v) →
    ((∃ e, result = .error (.lock (.transport key .release e))) ↔
      ¬ (a.InTime limit budget ∧ ∃ n, a.result = .ok n))

/-- The precedence of the run is that of its answers. -/
theorem conclude_decides {key : String} {limit : Option Duration} {budget : Duration} {a : Answer}
    {stop : Stop α} {released : Except LockError Unit}
    (intime : a.InTime limit budget → released = (Reply.answered a.result).outcome key .release)
    (late : ¬ a.InTime limit budget → ∃ e, released = .error (.transport key .release e)) :
    Decides key limit budget a stop (Exclusive.conclude key stop released).1 := by
  have answered : (∃ e, released = .error (.transport key .release e) ∧
        ¬ (a.InTime limit budget ∧ ∃ n, a.result = .ok n)) ∨
      (released = .error (.lostLease key) ∧ a.InTime limit budget ∧ a.result = .ok 0) ∨
      ∃ n, released = .ok () ∧ a.InTime limit budget ∧ a.result = .ok (n + 1) := by
    by_cases within : a.InTime limit budget
    · have same := intime within
      rcases result : a.result with e | _ | n
      · rw [result] at same
        exact .inl ⟨_, same, by simp⟩
      · rw [result] at same
        exact .inr (.inl ⟨same, within, rfl⟩)
      · rw [result] at same
        exact .inr (.inr ⟨n, same, within, rfl⟩)
    · obtain ⟨e, same⟩ := late within
      exact .inl ⟨e, same, fun h => within h.1⟩
  constructor
  · rintro text rfl
    rcases released with e | _ <;> rfl
  · rintro text rfl
    rfl
  · rintro e rfl
    rfl
  · rintro v rfl
    rcases answered with ⟨e, rfl, unheard⟩ | ⟨rfl, within, zero⟩ | ⟨n, rfl, within, found⟩
    · have never : ¬ (a.InTime limit budget ∧ ∃ n, a.result = .ok (n + 1)) := by
        rintro ⟨within, n, found⟩
        exact unheard ⟨within, n + 1, found⟩
      simp [Exclusive.conclude, never]
    · simp [Exclusive.conclude, zero]
    · simp [Exclusive.conclude, within, found]
  · rintro v rfl
    rcases answered with ⟨e, rfl, unheard⟩ | ⟨rfl, within, zero⟩ | ⟨n, rfl, within, found⟩
    · have never : ¬ (a.InTime limit budget ∧ a.result = .ok 0) := by
        rintro ⟨within, zero⟩
        exact unheard ⟨within, 0, zero⟩
      simp [Exclusive.conclude, never]
    · simp [Exclusive.conclude, within, zero]
    · simp [Exclusive.conclude, found]
  · rintro v rfl
    rcases answered with ⟨e, rfl, unheard⟩ | ⟨rfl, within, zero⟩ | ⟨n, rfl, within, found⟩
    · simp [Exclusive.conclude, unheard]
    · simp [Exclusive.conclude, within, zero]
    · simp [Exclusive.conclude, within, found]

/-- What sets a claim apart from the statements of a lease that is held. -/
theorem extend_not_mem_claim (b : Backend) (table : String) :
    b.extend table ∉ (b.claim table).statements := by
  cases b <;> simp [Backend.extend, Backend.claim, ClaimPlan.statements]

section

variable (task : Task α) (d : Dialect) {key : String} {o : ExclusiveOptions} (fresh : Token)
  (p : Performance)

/-- A run whose claim fails has sent statements of the claim only, and its task was not started. -/
theorem run_unclaimed (faultless : Exclusive.faults key o = []) {e : LockError} :
    let ended := Exclusive.run (stage task) d key o fresh p
    let m : Manager := ⟨d, o.config.tableName, o.config.timeout?⟩
    ((stage task).perform p (({ key } : Handle).acquire m fresh o.lockTtl)).2.result = .error e →
      ended.2.1 = .error (.lock e) ∧ ended.1.started = p.started ∧
        ∃ claims, p.timeline.Sends claims ended.1.timeline ∧ ∀ x ∈ claims,
          x.request.statement ≠ m.extendStatement ∧ x.request.statement ≠ m.releaseStatement := by
  intro ended m failed
  let claimed := (stage task).perform p (({ key } : Handle).acquire m fresh o.lockTtl)
  have run : ended = (claimed.1, .error (.lock e), claimed.2.events) :=
    Exclusive.run_refused (Exclusive.prepare_of_faultless d faultless) rfl failed
  obtain ⟨claims, sends, asks⟩ :=
    (({ key } : Handle).acquire m fresh o.lockTtl).run_sends p.timeline
  obtain ⟨n, _, planned⟩ := Handle.acquire_asks (Exclusive.isZero_of_faultless faultless) asks
  rw [run]
  refine ⟨rfl, rfl, claims, sends, ?_⟩
  intro x hx
  refine ⟨?_, not_release_of_planned planned x hx⟩
  have sent : x.request ∈ _ := planned ▸ List.mem_map_of_mem hx
  obtain ⟨s, hs, same⟩ := List.mem_map.mp sent
  rw [← same]
  rintro rfl
  exact extend_not_mem_claim m.dialect.backend m.tableName (List.mem_of_mem_take hs)

/-- A run whose claim succeeded works, sends its release, and reports what the two of them decide. -/
theorem run_scheduled (faultless : Exclusive.faults key o = []) :
    let ended := Exclusive.run (stage task) d key o fresh p
    let m : Manager := ⟨d, o.config.tableName, o.config.timeout?⟩
    let claimed := (stage task).perform p (({ key } : Handle).acquire m fresh o.lockTtl)
    claimed.2.result = .ok () →
    Exclusive.schedulable ((stage task).clock claimed.1) o.extendEvery = true →
      ∃ worked stop release, TaskOver task claimed.1 worked stop ∧
        (∀ e, stop = .leaseLost e →
          LostBy m { key, token := some fresh } o.lockTtl e worked.timeline) ∧
        worked.timeline.Sends [release] ended.1.timeline ∧
        release.request.statement = m.releaseStatement ∧
        Decides key m.timeout o.releaseTimeout worked.timeline.next.1 stop ended.2.1 := by
  intro ended m claimed acquired scheduled
  have unconfirmed : ({ key } : Handle).unconfirmed = none := rfl
  obtain ⟨httl, hstate, _⟩ := perform_acquire unconfirmed acquired
  let held : Handle := { key, token := some fresh }
  have hheld : held.isIdle = false := rfl
  let extension := o.extendEvery.map fun interval =>
    (⟨interval, Exclusive.extension m held o.lockTtl⟩ : Extension)
  let worked := work task claimed.1 extension
  let answer := (stage task).performWithin worked.1 o.releaseTimeout (held.release m)
  have run : ended.1 = answer.1 ∧ ended.2.1 = (Exclusive.conclude key worked.2.1
      (Exclusive.releaseOutcome key o.releaseTimeout answer.2).1).1 := by
    have ran := Exclusive.run_concluded (Exclusive.prepare_of_faultless d faultless) rfl acquired
      scheduled rfl rfl
    rw [hstate] at ran
    exact ⟨congrArg Prod.fst ran, congrArg (fun out => out.2.1) ran⟩
  obtain ⟨_, _, _, _, _, hover⟩ :=
    work_sends task claimed.1 fun _ he _ _ asks => extension_asks httl hheld he asks
  obtain ⟨⟨release, hreleased, hreleasing⟩, _⟩ :=
    performWithin_release task m worked.1 o.releaseTimeout hheld
  obtain ⟨intime, late⟩ := released_of_answer task worked.1 m o.releaseTimeout hheld
  rw [run.1, run.2]
  refine ⟨worked.1, worked.2.1, release, hover, ?_, hreleased, congrArg Request.statement hreleasing,
    conclude_decides intime late⟩
  intro e lost
  exact work_loses httl hheld lost

/-- A run whose schedule lies beyond the clock breaks down after its claim. -/
theorem run_unscheduled (faultless : Exclusive.faults key o = []) :
    let m : Manager := ⟨d, o.config.tableName, o.config.timeout?⟩
    let claimed := (stage task).perform p (({ key } : Handle).acquire m fresh o.lockTtl)
    claimed.2.result = .ok () →
    Exclusive.schedulable ((stage task).clock claimed.1) o.extendEvery = false →
      (Exclusive.run (stage task) d key o fresh p).2.1 = .crashed Exclusive.beyondClock := by
  intro m claimed acquired unscheduled
  rw [Exclusive.run_beyondClock (Exclusive.prepare_of_faultless d faultless) rfl acquired unscheduled]

end

/-- **Precedence.** A run with faulty options reports the first fault, and nothing has happened. A run
whose claim fails reports its error; it has sent statements of the claim only, and its task was not
started. After a claim that succeeded and with a schedule on the clock, the work stops in one way or
the other, one release is sent, and the two of them decide the result. With a schedule beyond the clock
the run breaks down while its task waits, at the latest, whatever the task comes to. -/
theorem result_precedence (task : Task α) (d : Dialect) (key : String) (o : ExclusiveOptions)
    (fresh : Token) (p : Performance) :
    let ended := Exclusive.run (stage task) d key o fresh p
    let m : Manager := ⟨d, o.config.tableName, o.config.timeout?⟩
    let claimed := (stage task).perform p (({ key } : Handle).acquire m fresh o.lockTtl)
    (∀ e, (Exclusive.faults key o).head? = some e → ended = (p, .error (.lock (.config e)), [])) ∧
    (Exclusive.faults key o = [] → ∀ e, claimed.2.result = .error e →
      ended.2.1 = .error (.lock e) ∧ ended.1.started = p.started ∧
        ∃ claims, p.timeline.Sends claims ended.1.timeline ∧ ∀ x ∈ claims,
          x.request.statement ≠ m.extendStatement ∧ x.request.statement ≠ m.releaseStatement) ∧
    (Exclusive.faults key o = [] → claimed.2.result = .ok () →
      Exclusive.schedulable ((stage task).clock claimed.1) o.extendEvery = true →
      ∃ worked stop release, TaskOver task claimed.1 worked stop ∧
        (∀ e, stop = .leaseLost e →
          LostBy m { key, token := some fresh } o.lockTtl e worked.timeline) ∧
        worked.timeline.Sends [release] ended.1.timeline ∧
        release.request.statement = m.releaseStatement ∧
        Decides key m.timeout o.releaseTimeout worked.timeline.next.1 stop ended.2.1) ∧
    (Exclusive.faults key o = [] → claimed.2.result = .ok () →
      Exclusive.schedulable ((stage task).clock claimed.1) o.extendEvery = false →
      task.crashAtStart = none → 0 < task.sleep → ended.2.1 = .crashed Exclusive.beyondClock) := by
  intro ended m claimed
  refine ⟨?_, ?_, ?_, ?_⟩
  · intro e fault
    have prepared : Exclusive.prepare d key o = .error e := by
      rw [Exclusive.prepare_eq, fault]
    exact Exclusive.run_unprepared prepared
  · intro faultless e failed
    exact run_unclaimed task d fresh p faultless failed
  · intro faultless acquired scheduled
    exact run_scheduled task d fresh p faultless acquired scheduled
  · intro faultless acquired unscheduled _ _
    exact run_unscheduled task d fresh p faultless acquired unscheduled

/-- A task that would return, under options without a fault and a claim that succeeds, but with an
interval of `2 ^ 63` seconds. -/
theorem crashes_instead_of_value :
    let m : Manager := ⟨.postgres, defaultTableName, none⟩
    let far : ExclusiveOptions := { extendEvery := some (.ofSeconds (Nat.pow 2 63)) }
    Exclusive.faults "job" far = [] ∧ nap.ending = .returned () ∧
      ((stage nap).perform answered (({ key := "job" } : Handle).acquire m "A" far.lockTtl)).2.result =
        .ok () ∧
      (Exclusive.run (stage nap) .postgres "job" far "A" answered).2.1 =
        .crashed Exclusive.beyondClock := by
  intro m far
  have faultless : Exclusive.faults "job" far = [] := by decide +kernel
  have acquired : ((stage nap).perform answered
      (({ key := "job" } : Handle).acquire m "A" far.lockTtl)).2.result = .ok () := rfl
  have unscheduled := (result_precedence nap .postgres "job" far "A" answered).2.2.2
  exact ⟨faultless, rfl, acquired, unscheduled faultless acquired (by decide +kernel) rfl (by decide)⟩

end Performance

end Rehearsal

end LeaseLock
