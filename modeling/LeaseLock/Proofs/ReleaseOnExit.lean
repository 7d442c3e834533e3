/-
# LeaseLock.Proofs.ReleaseOnExit -- ways out of an exclusive run

Once its key is acquired, an exclusive run sends one release and sends it last, however its task ends:
it returns, fails, crashes at once or later, or is dropped because an extension failed; and whatever
the database answers, late or not at all (`Rehearsal.Performance.Orderly`).

One way out does not pass the release. The schedule of the extensions is set up after the claim, and a
clock does not reach every interval: if the first extension would be due beyond its last second, the
run breaks down with its row in the table (`Rehearsal.Performance.release_on_exit`).
-/
import LeaseLock.Proofs.ExclusiveRun
import LeaseLock.Proofs.Transcript
import LeaseLock.Rehearsal.Performance

namespace LeaseLock

/-! ## Statements that are no release -/

theorem Backend.release_not_mem_claim (b : Backend) (table : String) :
    b.release table ∉ (b.claim table).statements := by
  cases b <;> simp [release, claim, ClaimPlan.statements]

theorem Backend.extend_ne_release (b : Backend) (table : String) : b.extend table ≠ b.release table := by
  cases b <;> simp [release, extend]

namespace Rehearsal

/-- How many releases have been sent. -/
def Timeline.releases (m : Manager) (t : Timeline) : Nat :=
  t.sent.countP fun x => x.request.statement = m.releaseStatement

namespace Timeline

variable {t t' : Timeline} {xs : List Exchange} {m : Manager}

/-- Where nothing is a release, none is counted. -/
theorem countP_releases (hxs : ∀ x ∈ xs, x.request.statement ≠ m.releaseStatement) :
    xs.countP (fun x => x.request.statement = m.releaseStatement) = 0 := by
  rw [List.countP_eq_zero]
  intro x hx
  simpa using hxs x hx

/-- What is sent adds its releases. -/
theorem Sends.releases_add (h : t.Sends xs t') :
    t'.releases m =
      t.releases m + xs.countP fun x => x.request.statement = m.releaseStatement := by
  show t'.sent.countP _ = t.sent.countP _ + _
  rw [h.sent, List.countP_append, List.countP_reverse, Nat.add_comm]

/-! ## Extensions -/

variable {e : Extension} {r : Request} {stop : Nat}

/-- **Extending a lease** sends one request after the other and is over by the end of the task; unless
an extension failed, it is over just then. -/
theorem extending_sends (hr : ∀ rs out, e.call.Asks rs out → rs = [r]) (start left k : Nat)
    (ht : t.now ≤ stop) :
    ∃ xs, t.Sends xs (extending e start stop left k t).1 ∧ (∀ x ∈ xs, x.request = r) ∧
      (extending e start stop left k t).1.now ≤ stop ∧
      ((extending e start stop left k t).2.1 = none → (extending e start stop left k t).1.now = stop) := by
  induction left generalizing k t with
  | zero => exact ⟨[], .wait ht, by simp, le_refl _, fun _ => rfl⟩
  | succ left ih =>
      let begins := max t.now (due start e.every k)
      by_cases hover : stop ≤ begins
      · have idle : extending e start stop (left + 1) k t = ({ t with now := stop }, none, []) :=
          if_pos hover
        rw [idle]
        exact ⟨[], .wait ht, by simp, le_refl _, fun _ => rfl⟩
      have hbegins : begins ≤ stop := by omega
      have waited : t.Sends [] { t with now := begins } := .wait (le_max_left _ _)
      obtain ⟨xs, hsends, hasks, htime, hdropped⟩ :=
        e.call.runUntil_sends (t := { t with now := begins }) hbegins
      have sent : t.Sends xs (e.call.runUntil stop { t with now := begins }).1 := waited.trans hsends
      have requests : ∀ x ∈ xs, x.request = r := by
        intro x hx
        have hone := hr _ _ hasks
        exact List.mem_singleton.mp (hone ▸ List.mem_map_of_mem hx)
      unfold extending
      rw [if_neg hover]
      split
      · -- the task ends while the extension is under way
        rename_i t₁ held hrun
        rw [hrun] at sent hdropped
        have hstop : t₁.now = stop := hdropped held rfl
        exact ⟨xs, sent, requests, hstop.le, fun _ => hstop⟩
      · rename_i t₁ state err events hrun
        rw [hrun] at sent htime
        exact ⟨xs, sent, requests, htime, fun hnone => absurd hnone (by simp)⟩
      · rename_i t₁ state events hrun
        rw [hrun] at sent htime
        obtain ⟨ys, hlater, hrequests, hby, hat⟩ := ih (k + 1) htime
        refine ⟨xs ++ ys, sent.trans hlater, ?_, hby, hat⟩
        intro x hx
        rcases List.mem_append.mp hx with hx | hx
        · exact requests x hx
        · exact hrequests x hx

end Timeline

namespace Performance

variable {α : Type}

/-! ## The task -/

/-- **The end of a task** that was started at `p`: at `q` it has slept to its end, or it has crashed
when it was started, or it was dropped on the way because the lease was lost. -/
inductive TaskOver (task : Task α) (p q : Performance) : Stop α → Prop
  | slept (finished : q.finished = p.finished + 1)
      (time : q.timeline.now = p.timeline.now + task.sleep) : TaskOver task p q (.ended task.ending)
  | crashed {text : String} (crash : task.crashAtStart = some text)
      (finished : q.finished = p.finished) (time : q.timeline.now = p.timeline.now) :
      TaskOver task p q (.ended (.crashed text))
  | dropped {e : LockError} (finished : q.finished = p.finished)
      (time : q.timeline.now ≤ p.timeline.now + task.sleep) : TaskOver task p q (.leaseLost e)

/-- How often the task was started does not matter to its end. -/
theorem TaskOver.of_started {task : Task α} {p q : Performance} {n : Nat} {stop : Stop α}
    (h : TaskOver task { p with started := n } q stop) : TaskOver task p q stop := by
  cases h with
  | slept finished time => exact .slept finished time
  | crashed crash finished time => exact .crashed crash finished time
  | dropped finished time => exact .dropped finished time

/-- With extensions the task is over when they are. -/
theorem workExtended_sends (task : Task α) (p : Performance) {e : Extension} {r : Request}
    (hr : ∀ rs out, e.call.Asks rs out → rs = [r]) (ticks : Nat) :
    ∃ xs, p.timeline.Sends xs (workExtended task p e ticks).1.timeline ∧ (∀ x ∈ xs, x.request = r) ∧
      (workExtended task p e ticks).1.started = p.started ∧
      TaskOver task p (workExtended task p e ticks).1 (workExtended task p e ticks).2.1 := by
  obtain ⟨xs, hsends, hrequests, hby, hat⟩ := Timeline.extending_sends hr
    p.timeline.now ticks 1 (Nat.le_add_right p.timeline.now task.sleep)
  unfold workExtended
  dsimp only
  split
  · rename_i t err events hextending
    rw [hextending] at hsends hby
    exact ⟨xs, hsends, hrequests, rfl, .dropped rfl hby⟩
  · rename_i t events hextending
    rw [hextending] at hsends hat
    exact ⟨xs, hsends, hrequests, rfl, .slept rfl (hat rfl)⟩

theorem work_extended {task : Task α} (hcrash : task.crashAtStart = none) (p : Performance)
    (e : Extension) :
    work task p (some e) = workExtended task { p with started := p.started + 1 } e
      (Timeline.ticks p.timeline.now (p.timeline.now + task.sleep) e.every) := by
  unfold work
  rw [hcrash]

/-- **The work under a lease**: the task is started once and is over at the end, and nothing is sent
but extensions. -/
theorem work_sends (task : Task α) (p : Performance) {extension : Option Extension} {r : Request}
    (hr : ∀ e, extension = some e → ∀ rs out, e.call.Asks rs out → rs = [r]) :
    ∃ xs, p.timeline.Sends xs (work task p extension).1.timeline ∧ (∀ x ∈ xs, x.request = r) ∧
      (extension = none → xs = []) ∧ (work task p extension).1.started = p.started + 1 ∧
      TaskOver task p (work task p extension).1 (work task p extension).2.1 := by
  have still : p.timeline.Sends [] p.timeline := .wait (le_refl _)
  cases hcrash : task.crashAtStart with
  | some text =>
      unfold work
      rw [hcrash]
      exact ⟨[], still, by simp, fun _ => rfl, rfl, .crashed hcrash rfl rfl⟩
  | none =>
      cases extension with
      | none =>
          unfold work
          rw [hcrash]
          exact ⟨[], .wait (Nat.le_add_right _ _), by simp, fun _ => rfl, rfl, .slept rfl rfl⟩
      | some e =>
          rw [work_extended hcrash]
          obtain ⟨xs, hsends, hrequests, hstarted, hover⟩ :=
            workExtended_sends task { p with started := p.started + 1 } (hr e rfl)
              (Timeline.ticks p.timeline.now (p.timeline.now + task.sleep) e.every)
          exact ⟨xs, hsends, hrequests, by simp, hstarted, hover.of_started⟩

/-! ## The run -/

/-- **The course of a run** from `p` to `p'` whose claim succeeded: the claim until `begun`, the task
and its extensions until `worked`, and the release. -/
structure Course (m : Manager) (idle held : Handle) (fresh : Token) (o : ExclusiveOptions)
    (task : Task α) (p begun worked p' : Performance) (claims extensions : List Exchange)
    (release : Exchange) (stop : Stop α) : Prop where
  claimed : p.timeline.Sends claims begun.timeline
  planned : ∃ n, 0 < n ∧ claims.map (·.request) = (m.claimPlan.statements.take n).map fun st =>
    m.request st (idle.claimValues fresh o.lockTtl)
  unstarted : begun.started = p.started ∧ begun.finished = p.finished
  extended : begun.timeline.Sends extensions worked.timeline
  extending : ∀ x ∈ extensions, x.request = m.request m.extendStatement (held.ownValues o.lockTtl)
  unextended : o.extendEvery = none → extensions = []
  started : worked.started ≤ begun.started + 1
  startedOnce : o.extendEvery = none → worked.started = begun.started + 1
  taskOver : TaskOver task begun worked stop
  released : worked.timeline.Sends [release] p'.timeline
  releasing : release.request = m.request m.releaseStatement (held.ownValues .zero)
  still : p'.started = worked.started ∧ p'.finished = worked.finished

/-- **An orderly run** of an idle handle: its statements are those of the claim, then extensions, if
there is an interval, and then one release, when the task is over. -/
def Orderly (m : Manager) (idle : Handle) (fresh : Token) (o : ExclusiveOptions) (task : Task α)
    (p p' : Performance) : Prop :=
  ∃ begun worked claims extensions release stop,
    Course m idle { idle with token := some fresh } fresh o task p begun worked p' claims extensions
      release stop

section

variable {m : Manager} {idle held : Handle} {fresh : Token} {o : ExclusiveOptions} {task : Task α}
  {p p' begun worked : Performance} {claims extensions : List Exchange} {release : Exchange} {stop : Stop α}

/-- The statements of a claim are no releases. -/
theorem not_release_of_planned {v : LeaseValues} {n : Nat}
    (h : claims.map (·.request) = (m.claimPlan.statements.take n).map fun st => m.request st v) :
    ∀ x ∈ claims, x.request.statement ≠ m.releaseStatement := by
  intro x hx hrelease
  have planned : x.request ∈ (m.claimPlan.statements.take n).map fun st => m.request st v :=
    h ▸ List.mem_map_of_mem hx
  obtain ⟨st, hst, heq⟩ := List.mem_map.mp planned
  have hstatement : st = m.releaseStatement := (congrArg Request.statement heq).trans hrelease
  rw [hstatement] at hst
  exact m.dialect.backend.release_not_mem_claim m.tableName (List.mem_of_mem_take hst)

/-- In the course of a run all that is sent is the claim, then extensions, then the release. -/
theorem Course.sends
    (h : Course m idle held fresh o task p begun worked p' claims extensions release stop) :
    p.timeline.Sends (claims ++ extensions ++ [release]) p'.timeline :=
  (h.claimed.trans h.extended).trans h.released

/-- In the course of a run one release is sent. -/
theorem Course.releases_eq
    (h : Course m idle held fresh o task p begun worked p' claims extensions release stop) :
    p'.timeline.releases m = p.timeline.releases m + 1 := by
  obtain ⟨n, -, hplanned⟩ := h.planned
  have extending : ∀ x ∈ extensions, x.request.statement ≠ m.releaseStatement := by
    intro x hx
    rw [h.extending x hx]
    exact m.dialect.backend.extend_ne_release m.tableName
  have last : release.request.statement = m.releaseStatement := congrArg Request.statement h.releasing
  rw [h.sends.releases_add, List.countP_append, List.countP_append,
    Timeline.countP_releases (not_release_of_planned hplanned), Timeline.countP_releases extending]
  simp [last]

end

variable {task : Task α} {d : Dialect} {key : String} {o : ExclusiveOptions} {fresh : Token}
  {p : Performance} {m : Manager} {idle : Handle}

/-- A claim that succeeds has asked statements of its plan, and the handle has its token. -/
theorem perform_acquire (hidle : idle.unconfirmed = none)
    (hacquired : ((stage task).perform p (idle.acquire m fresh o.lockTtl)).2.result = .ok ()) :
    let claimed := (stage task).perform p (idle.acquire m fresh o.lockTtl)
    o.lockTtl.isZero = false ∧ claimed.2.state = { idle with token := some fresh } ∧
      ∃ claims n, 0 < n ∧ p.timeline.Sends claims claimed.1.timeline ∧
        claims.map (·.request) = (m.claimPlan.statements.take n).map fun st =>
          m.request st (idle.claimValues fresh o.lockTtl) := by
  intro claimed
  have token : idle.nextToken fresh = fresh := by simp [Handle.nextToken, hidle]
  have httl : o.lockTtl.isZero = false := by
    by_contra hzero
    rw [idle.acquire_of_isZero (by simpa using hzero)] at hacquired
    exact absurd hacquired (by simp [stage, Call.run])
  obtain ⟨claims, hsends, hasks⟩ := (idle.acquire m fresh o.lockTtl).run_sends p.timeline
  obtain ⟨n, hn, hplanned⟩ := Handle.acquire_asks httl hasks
  have state := hasks.ends (idle.acquire_ends m fresh o.lockTtl) hacquired
  refine ⟨httl, ?_, claims, n, hn, hsends, ?_⟩
  · show (Call.run _ _ _).2.state = _
    rw [state, token, ← hidle]
  · rw [hplanned, token]

/-- Every extension of a run is one and the same request. -/
theorem extension_asks {held : Handle} {ttl : Duration} (httl : ttl.isZero = false)
    (hheld : held.isIdle = false) {every : Option Duration} {e : Extension}
    (he : (every.map fun interval => (⟨interval, Exclusive.extension m held ttl⟩ : Extension)) = some e)
    {rs : List Request} {out : Option (Call.Finished Handle (Except LockError Unit))}
    (h : e.call.Asks rs out) :
    rs = [m.request m.extendStatement (held.ownValues ttl)] := by
  obtain ⟨interval, -, rfl⟩ := Option.map_eq_some_iff.mp he
  exact Handle.extend_asks httl hheld _ h

/-- A release of a held lease sends one statement, and is no work of the task's. -/
theorem performWithin_release (task : Task α) (m : Manager) (p : Performance) (budget : Duration)
    {held : Handle} (hheld : held.isIdle = false) :
    let released := ((stage task).performWithin p budget (held.release m)).1
    (∃ x, p.timeline.Sends [x] released.timeline ∧
        x.request = m.request m.releaseStatement (held.ownValues .zero)) ∧
      released.started = p.started ∧ released.finished = p.finished := by
  intro released
  let deadline := p.timeline.now + budget.millisUp
  obtain ⟨xs, hsends, hasks, -, -⟩ := (held.release m).runUntil_sends (t := p.timeline)
    (Nat.le_add_right p.timeline.now budget.millisUp)
  obtain ⟨x, rfl, hx⟩ := List.map_eq_singleton_iff.mp (Handle.release_asks hheld hasks)
  have outcome : released = { p with timeline := ((held.release m).runUntil deadline p.timeline).1 } := by
    show ((stage task).performWithin p budget (held.release m)).1 = _
    dsimp only [stage]
    rcases (held.release m).runUntil deadline p.timeline with ⟨t, dropped | finished⟩ <;> rfl
  rw [outcome]
  exact ⟨⟨x, hsends, hx⟩, rfl, rfl⟩

/-- **Release on the way out.** A run whose claim succeeded is orderly and has sent one release, if its
first extension has a due time. Otherwise it breaks down while its task waits, at the latest, and has
sent none. (Whether a task that never waits is over before the breakdown is left open.) -/
theorem release_on_exit (hprepare : Exclusive.prepare d key o = .ok (m, idle))
    (hacquired : ((stage task).perform p (idle.acquire m fresh o.lockTtl)).2.result = .ok ()) :
    let begun := ((stage task).perform p (idle.acquire m fresh o.lockTtl)).1
    let ended := Exclusive.run (stage task) d key o fresh p
    (Exclusive.schedulable ((stage task).clock begun) o.extendEvery = true →
      Orderly m idle fresh o task p ended.1 ∧
        ended.1.timeline.releases m = p.timeline.releases m + 1) ∧
    (Exclusive.schedulable ((stage task).clock begun) o.extendEvery = false →
      task.crashAtStart = none → 0 < task.sleep →
        ended.2.1 = .crashed Exclusive.beyondClock ∧
          ended.1.timeline.releases m = p.timeline.releases m) := by
  intro begun ended
  obtain ⟨-, hidle⟩ := Exclusive.prepare_eq_ok hprepare
  obtain ⟨httl, hstate, claims, n, hn, hclaimed, hplanned⟩ :=
    perform_acquire (congrArg Handle.unconfirmed hidle) hacquired
  let held : Handle := { idle with token := some fresh }
  have hheld : held.isIdle = false := rfl
  let extension := o.extendEvery.map fun interval =>
    (⟨interval, Exclusive.extension m held o.lockTtl⟩ : Extension)
  let worked := (work task begun extension).1
  constructor
  · intro hscheduled
    have hrun : ended.1 = ((stage task).performWithin worked o.releaseTimeout (held.release m)).1 := by
      have ran := Exclusive.run_concluded hprepare rfl hacquired hscheduled rfl rfl
      rw [hstate] at ran
      exact congrArg Prod.fst ran
    obtain ⟨extensions, hextended, hextending, hnone, hstarted, hover⟩ :=
      work_sends task begun fun _ he _ _ asks => extension_asks httl hheld he asks
    obtain ⟨⟨release, hreleased, hreleasing⟩, hstill⟩ :=
      performWithin_release task m worked o.releaseTimeout hheld
    rw [← hrun] at hreleased hstill
    have course : Course m idle held fresh o task p begun worked ended.1 claims extensions release
        (work task begun extension).2.1 :=
      { claimed := hclaimed
        planned := ⟨n, hn, hplanned⟩
        unstarted := ⟨rfl, rfl⟩
        extended := hextended
        extending := hextending
        unextended := fun honce => hnone (by simp [honce])
        started := hstarted.le
        startedOnce := fun _ => hstarted
        taskOver := hover
        released := hreleased
        releasing := hreleasing
        still := hstill }
    exact ⟨⟨_, _, _, _, _, _, course⟩, course.releases_eq⟩
  · intro hunscheduled _ _
    have hrun : ended = (begun, .crashed Exclusive.beyondClock,
        ((stage task).perform p (idle.acquire m fresh o.lockTtl)).2.events) :=
      Exclusive.run_beyondClock hprepare rfl hacquired hunscheduled
    rw [hrun]
    refine ⟨rfl, ?_⟩
    rw [hclaimed.releases_add, Timeline.countP_releases (not_release_of_planned hplanned), Nat.add_zero]

/-- A task that sleeps for five milliseconds, with two statements that will be answered at once. -/
def nap : Task Unit := { sleep := 5, ending := .returned () }

def answered : Performance := { timeline := { script := [⟨0, .ok 1⟩, ⟨0, .ok 1⟩] } }

theorem prepare_every {interval : Duration} (h : interval.isZero = false) :
    Exclusive.prepare .postgres "job" { extendEvery := some interval } =
      .ok (⟨.postgres, defaultTableName, none⟩, { key := "job" }) := by
  have htable : TableName.check defaultTableName = .ok () := rfl
  have hkey : checkKey "job" = .ok () := rfl
  have httl : (Duration.ofSeconds 60).isZero = false := rfl
  simp [Exclusive.prepare, Manager.ofConfig, Handle.ofKey, htable, hkey, httl, h, Config.timeout?, bind,
    Except.bind, pure, Except.pure]

/-- With an interval of ten milliseconds a lease is released after the nap; with one of `2 ^ 63` seconds
it is not. -/
theorem released_unless_beyondClock :
    let m : Manager := ⟨.postgres, defaultTableName, none⟩
    let o : ExclusiveOptions := { extendEvery := some (.ofMillis 10) }
    let far : ExclusiveOptions := { extendEvery := some (.ofSeconds (Nat.pow 2 63)) }
    Exclusive.prepare .postgres "job" o = .ok (m, { key := "job" }) ∧
      Exclusive.prepare .postgres "job" far = .ok (m, { key := "job" }) ∧
      ((stage nap).perform answered (({ key := "job" } : Handle).acquire m "A" o.lockTtl)).2.result =
        .ok () ∧
      (Exclusive.run (stage nap) .postgres "job" o "A" answered).1.timeline.releases m = 1 ∧
      (Exclusive.run (stage nap) .postgres "job" far "A" answered).1.timeline.releases m = 0 := by
  intro m o far
  have hprepare : Exclusive.prepare .postgres "job" o = .ok (m, { key := "job" }) :=
    prepare_every (by decide)
  have hfar : Exclusive.prepare .postgres "job" far = .ok (m, { key := "job" }) :=
    prepare_every (by decide)
  have hacquired : ((stage nap).perform answered
      (({ key := "job" } : Handle).acquire m "A" o.lockTtl)).2.result = .ok () := rfl
  refine ⟨hprepare, hfar, hacquired, ?_, ?_⟩
  · exact ((release_on_exit hprepare hacquired).1 (by decide +kernel)).2
  · exact ((release_on_exit hfar hacquired).2 (by decide +kernel) rfl (by decide)).2

end Performance

end Rehearsal

end LeaseLock
