/-
# LeaseLock.Proofs.ExclusiveRun -- a run that succeeded was alone

When an exclusive run returns the value of its task, no other handle's claim counted on the key
between the effect of the run's own claim and the effect of its release. Deadlines do not carry this:
the task may have outlived the lease by far. It rests on tokens. Once another claim has counted, the
row carries another token, and nothing that the run still sends can bring its own back, so its
release affects no row and the run does not succeed (`System.Guards`).
-/
import LeaseLock.Proofs.MutualExclusion
import LeaseLock.Proofs.Stage
import LeaseLock.Proofs.Tracking

namespace LeaseLock

/-! ## Runs that return a value -/

namespace Exclusive

/-- What passes the checks is the manager of the options and an idle handle for the key. -/
theorem prepare_eq_ok {d : Dialect} {key : String} {o : ExclusiveOptions} {m : Manager} {h : Handle}
    (hprepare : prepare d key o = .ok (m, h)) :
    m = ⟨d, o.config.tableName, o.config.timeout?⟩ ∧ h = { key } := by
  unfold prepare Manager.ofConfig Handle.ofKey at hprepare
  simp only [bind, Except.bind, pure, Except.pure, throw, throwThe, MonadExceptOf.throw] at hprepare
  cases htable : TableName.check o.config.tableName with
  | error e =>
      simp only [htable] at hprepare
      repeat' split at hprepare
      all_goals exact absurd hprepare (by simp_all)
  | ok _ =>
      cases hkey : checkKey key with
      | error e =>
          simp only [htable, hkey] at hprepare
          repeat' split at hprepare
          all_goals exact absurd hprepare (by simp_all)
      | ok _ =>
          simp only [htable, hkey] at hprepare
          repeat' split at hprepare
          all_goals simp_all

/-- Only a release that succeeded lets a run return a value. -/
theorem conclude_eq_value {α : Type} {key : String} {stop : Stop α} {released : Except LockError Unit}
    {a : α} {remark : List Event} (h : conclude key stop released = (.value a, remark)) :
    released = .ok () := by
  unfold conclude at h
  split at h <;> simp_all

theorem releaseOutcome_eq_ok {key : String} {budget : Duration}
    {answer : Option (Call.Finished Handle (Except LockError Unit))} {events : List Event}
    (h : releaseOutcome key budget answer = (.ok (), events)) :
    ∃ finished, answer = some finished ∧ finished.result = .ok () := by
  cases answer with
  | none => exact absurd h (by simp [releaseOutcome])
  | some finished => exact ⟨finished, rfl, (Prod.mk.inj h).1⟩

section

variable {ω α : Type} {stage : Stage ω α} {d : Dialect} {key : String} {o : ExclusiveOptions}
  {fresh : Token} {w w₁ w₂ w₃ : ω} {m : Manager} {idle : Handle}
  {claimed : Call.Finished Handle (Except LockError Unit)}

/-! What a run comes to, by how far it gets: callers need nothing else of it. -/

theorem run_unprepared {e : ConfigError} (hprepare : prepare d key o = .error e) :
    run stage d key o fresh w = (w, .error (.lock (.config e)), []) := by
  simp only [run, hprepare]

theorem run_refused {e : LockError} (hprepare : prepare d key o = .ok (m, idle))
    (hclaim : stage.perform w (idle.acquire m fresh o.lockTtl) = (w₁, claimed))
    (hrefused : claimed.result = .error e) :
    run stage d key o fresh w = (w₁, .error (.lock e), claimed.events) := by
  simp only [run, hprepare, hclaim, hrefused]

theorem run_beyondClock (hprepare : prepare d key o = .ok (m, idle))
    (hclaim : stage.perform w (idle.acquire m fresh o.lockTtl) = (w₁, claimed))
    (hacquired : claimed.result = .ok ())
    (hbeyond : schedulable (stage.clock w₁) o.extendEvery = false) :
    run stage d key o fresh w = (w₁, .crashed beyondClock, claimed.events) := by
  simp only [run, hprepare, hclaim, hacquired, hbeyond, Bool.false_eq_true, if_false]

theorem run_concluded {stop : Stop α} {noted : List Event}
    {answer : Option (Call.Finished Handle (Except LockError Unit))}
    (hprepare : prepare d key o = .ok (m, idle))
    (hclaim : stage.perform w (idle.acquire m fresh o.lockTtl) = (w₁, claimed))
    (hacquired : claimed.result = .ok ())
    (hscheduled : schedulable (stage.clock w₁) o.extendEvery = true)
    (hwork : (stage.work w₁ <| o.extendEvery.map fun interval =>
      ⟨interval, extension m claimed.state o.lockTtl⟩) = (w₂, stop, noted))
    (hrelease : stage.performWithin w₂ o.releaseTimeout (claimed.state.release m) = (w₃, answer)) :
    let released := releaseOutcome key o.releaseTimeout answer
    let concluded := conclude key stop released.1
    run stage d key o fresh w =
      (w₃, concluded.1, claimed.events ++ noted ++ released.2 ++ concluded.2) := by
  simp only [run, hprepare, hclaim, hacquired, hscheduled, if_true, hwork, hrelease]

/-- **A run that returns a value** has gone through a claim, its work and a release. -/
theorem run_eq_value {w' : ω} {a : α} {events : List Event}
    (h : run stage d key o fresh w = (w', .value a, events)) :
    let m : Manager := ⟨d, o.config.tableName, o.config.timeout?⟩
    let claimed := stage.perform w (({ key } : Handle).acquire m fresh o.lockTtl)
    let worked := stage.work claimed.1
      (o.extendEvery.map fun interval => ⟨interval, extension m claimed.2.state o.lockTtl⟩)
    claimed.2.result = .ok () ∧ ∃ finished,
      stage.performWithin worked.1 o.releaseTimeout (claimed.2.state.release m) = (w', some finished) ∧
      finished.result = .ok () := by
  intro m claimed worked
  cases hprepare : prepare d key o with
  | error e => exact absurd ((run_unprepared hprepare).symm.trans h) (by simp)
  | ok p =>
      obtain ⟨m', idle⟩ := p
      obtain ⟨rfl, rfl⟩ := prepare_eq_ok hprepare
      cases hclaimed : claimed.2.result with
      | error e => exact absurd ((run_refused hprepare rfl hclaimed).symm.trans h) (by simp)
      | ok _ =>
          cases hscheduled : schedulable (stage.clock claimed.1) o.extendEvery with
          | false =>
              exact absurd ((run_beyondClock hprepare rfl hclaimed hscheduled).symm.trans h) (by simp)
          | true =>
              obtain ⟨hworld, hrest⟩ := Prod.mk.inj
                ((run_concluded hprepare rfl hclaimed hscheduled rfl rfl).symm.trans h)
              have hreleased := conclude_eq_value (Prod.ext (Prod.mk.inj hrest).1 rfl)
              obtain ⟨finished, hanswer, hok⟩ := releaseOutcome_eq_ok (Prod.ext hreleased rfl)
              exact ⟨rfl, finished, Prod.ext hworld hanswer, hok⟩

/-- A run without extensions whose claim, task and release all succeed. -/
theorem run_succeeds {h h' : Handle} {a : α} {acquired noted released : List Event}
    (hprepare : prepare d key o = .ok (m, idle)) (honce : o.extendEvery = none)
    (hclaim : stage.perform w (idle.acquire m fresh o.lockTtl) = (w₁, ⟨h, .ok (), acquired⟩))
    (hwork : stage.work w₁ none = (w₂, .ended (.returned a), noted))
    (hrelease : stage.performWithin w₂ o.releaseTimeout (h.release m) =
      (w₃, some ⟨h', .ok (), released⟩)) :
    run stage d key o fresh w = (w₃, .value a, acquired ++ noted ++ released) := by
  have scheduled : schedulable (stage.clock w₁) o.extendEvery = true := by rw [honce]; rfl
  rw [run_concluded hprepare hclaim rfl scheduled (by rw [honce]; exact hwork) hrelease]
  simp [releaseOutcome, conclude]

end

end Exclusive

/-! ## Entries of the log -/

namespace Entry

variable {ι δ : Type} [LinearOrder δ]

/-- A release of a handle deleted the row of its key. -/
structure Released (e : Entry ι δ) (i : ι) : Prop where
  owner : e.owner = some i
  operation : e.operation = .release
  counted : 0 < e.affected

/-- A claim of another handle inserted or updated the row of the key. -/
def Foreign (d : Deployment ι δ) (i : ι) (e : Entry ι δ) : Prop :=
  ∃ j, j ≠ i ∧ d.key j = d.key i ∧ e.Claimed j

end Entry

namespace System

section

variable {ι δ : Type} [LinearOrder δ] {d : Deployment ι δ} {s s' : System ι δ} {i : ι} {T : Token}

/-- A claim of the handle is under way. -/
def Claiming (s : System ι δ) (i : ι) : Prop := ∃ n, s.UnderWay i .acquire n

/-- Every claim that the handle has sent so far ran and did not count. -/
def Refused (s : System ι δ) (i : ι) : Prop :=
  ∀ (m : Nat) (x : Issued ι), s.issued[m]? = some x → x.owner = some i → x.operation = .acquire →
    x.fate = .done (.ok 0)

/-- Since the handle's claim has counted, no other claim of its own is under way; and nobody else has
claimed the key since, or the token `T` of its own is not in the row. -/
def Held (d : Deployment ι δ) (s : System ι δ) (i : ι) (T : Token) : Prop :=
  ∀ (later : List (Entry ι δ)) (c : Entry ι δ) (earlier : List (Entry ι δ)),
    s.log = later ++ c :: earlier → c.Claimed i →
      ¬ s.Claiming i ∧ ((∀ e ∈ later, ¬ e.Foreign d i) ∨ ¬ s.Carries d i T)

/-- Between a claim and a later release of the handle that have counted, no other handle's claim on the
key has. -/
def Undisturbed (d : Deployment ι δ) (s : System ι δ) (i : ι) : Prop :=
  ∀ (later : List (Entry ι δ)) (r : Entry ι δ) (mid : List (Entry ι δ)) (c : Entry ι δ)
    (earlier : List (Entry ι δ)), s.log = later ++ r :: (mid ++ c :: earlier) → r.Released i →
      c.Claimed i → ∀ e ∈ mid, ¬ e.Foreign d i

/-- **The guard of a run** that has the token `T` and no other: from the effect of its own claim on,
either nobody else has claimed the key, or its token is gone from the row for good. -/
structure Guards (d : Deployment ι δ) (i : ι) (T : Token) (s : System ι δ) : Prop where
  sound : s.Sound d
  logged : s.Logged
  resting : ∃ h last, s.clients i = .resting h last
  token : ∀ U, s.Mints i U ↔ U = T
  single : ∀ m n, s.UnderWay i .acquire m → s.UnderWay i .acquire n → m = n
  claimed : s.Held d i T
  released : s.Undisturbed d i

/-! ## One effect -/

section

variable {n : Nat} {x : Issued ι} {k : Nat} {t : Table δ}

/-- Without a claim of its own under way, the run's token does not come back. -/
theorem not_carries_effect (hg : Guards d i T s) (hx : s.issued[n]? = some x)
    (hfate : x.fate = .inFlight) (heff : Effect d s x k t) (hclaim : ¬ s.Claiming i)
    (hgone : ¬ s.Carries d i T) : ¬ t.Carries (d.key i) (s.Mints i) T := by
  rintro ⟨r, hr, rfl, hown⟩
  rcases heff.row_after hr with ⟨old, hold, htoken⟩ | ⟨j, hj, -, hop, hminted⟩
  · exact hgone ⟨old, hold, htoken, hown⟩
  · obtain rfl := hg.sound.single hown hminted
    exact hclaim ⟨n, x, hx, hj, hop, hfate⟩

/-- After a claim of another handle the run's token is gone. -/
theorem not_carries_of_foreign (hb : d.backend.shadows d.table = false) (hg : Guards d i T s)
    (heff : Effect d s x k t) (hk : 0 < k) (hop : x.operation = .acquire) {j : ι}
    (hj : x.owner = some j) (hij : j ≠ i) (hkey : d.key j = d.key i) :
    ¬ t.Carries (d.key i) (s.Mints i) T := by
  rintro ⟨r, hr, rfl, hown⟩
  cases heff with
  | failed => exact absurd hk (Nat.lt_irrefl 0)
  | purged hnone _ _ => exact absurd (hnone.symm.trans hj) (by simp)
  | acted hi _ hvkey _ hclaim acts =>
      obtain rfl := Option.some.inj (hj.symm.trans hi)
      have row := acts.row
      rw [hb, hop, hvkey, hkey, hr] at row
      have htoken := row.token_of_claimed hk
      exact hij (hg.sound.single (htoken ▸ (hclaim hop).1) hown)

/-- A release of the run that counts has met the run's token. -/
theorem carries_of_released (hg : Guards d i T s) (heff : Effect d s x k t) (hk : 0 < k)
    (hop : x.operation = .release) (hi : x.owner = some i) : s.Carries d i T := by
  cases heff with
  | failed => exact absurd hk (Nat.lt_irrefl 0)
  | purged hnone _ _ => exact absurd (hnone.symm.trans hi) (by simp)
  | acted hj _ hvkey hv _ acts =>
      obtain rfl := Option.some.inj (hi.symm.trans hj)
      have row := acts.row
      rw [hop, hvkey] at row
      obtain ⟨r, hr, hown⟩ := row.exists_of_released hk
      have hminted := hg.sound.mints_of_names hv hr (Row.names_of_isOwn hown)
      have htoken : r.token = T := (hg.token _).mp hminted
      exact ⟨r, hr, htoken, htoken ▸ hminted⟩

end

omit [LinearOrder δ] in
/-- A claim under way after a move of the others was under way before. -/
theorem Claiming.before (h : s'.Claiming i) (haside : Aside i s s') : s.Claiming i := by
  obtain ⟨n, hn⟩ := h
  exact ⟨n, haside.underWay hn⟩

section

variable {n : Nat} {x : Issued ι}

/-- When the run's claim takes effect, no other claim of its own is under way. -/
theorem Guards.not_claiming_execute (hg : Guards d i T s) (hx : s.issued[n]? = some x)
    (haside : Aside i s (s.execute d n x)) (hown : s.UnderWay i .acquire n) :
    ¬ (s.execute d n x).Claiming i := by
  rintro ⟨m, hm⟩
  have hmn : m = n := hg.single m n (haside.underWay hm) hown
  subst hmn
  obtain ⟨y, hy, -, -, hflight⟩ := hm
  obtain ⟨outcome, hafter⟩ := getElem?_execute (d := d) hx
  obtain rfl := Option.some.inj (hafter.symm.trans hy)
  exact absurd hflight (by simp)

/-- An effect keeps what holds since the run's claim has counted. -/
theorem Guards.held_execute (hb : d.backend.shadows d.table = false) (hg : Guards d i T s)
    (hx : s.issued[n]? = some x) (hfate : x.fate = .inFlight)
    (haside : Aside i s (s.execute d n x)) : (s.execute d n x).Held d i T := by
  obtain ⟨k, t, outcome, heff, -, hexec⟩ := hg.sound.effect_cases hx
  have hcarries : (s.execute d n x).Carries d i T ↔ t.Carries (d.key i) (s.Mints i) T := by
    rw [hexec]
    rfl
  let entry : Entry ι δ :=
    ⟨x.owner, x.operation, n, s.time, k, x.owner.bind fun i => t.row? (d.key i)⟩
  have hlog : (s.execute d n x).log = entry :: s.log := by rw [hexec]
  intro later c earlier hsplit hc
  rw [hlog] at hsplit
  rw [hcarries]
  rcases List.cons_eq_append_iff.mp hsplit with ⟨rfl, hnew⟩ | ⟨later, rfl, hold⟩
  · -- the run's own claim has just counted, and nothing has come after it
    obtain ⟨rfl, -⟩ := List.cons.inj hnew
    exact ⟨hg.not_claiming_execute hx haside ⟨x, hx, hc.owner, hc.operation, hfate⟩, Or.inl (by simp)⟩
  · obtain ⟨hclaim, hstate⟩ := hg.claimed later c earlier hold hc
    refine ⟨fun h => hclaim (h.before haside), ?_⟩
    rcases hstate with halone | hgone
    · by_cases hforeign : entry.Foreign d i
      · obtain ⟨j, hij, hkey, hj⟩ := hforeign
        exact Or.inr (not_carries_of_foreign hb hg heff hj.counted hj.operation hj.owner hij hkey)
      · refine Or.inl fun e he => ?_
        rcases List.mem_cons.mp he with rfl | he
        · exact hforeign
        · exact halone e he
    · exact Or.inr (not_carries_effect hg hx hfate heff hclaim hgone)

/-- A release of the run counts only while nobody else has claimed the key. -/
theorem Guards.undisturbed_execute (hg : Guards d i T s) (hx : s.issued[n]? = some x) :
    (s.execute d n x).Undisturbed d i := by
  obtain ⟨k, t, outcome, heff, -, hexec⟩ := hg.sound.effect_cases hx
  intro later r mid c earlier hsplit hr hc
  rw [hexec] at hsplit
  rcases List.cons_eq_append_iff.mp hsplit with ⟨rfl, hnew⟩ | ⟨later, rfl, hold⟩
  · -- the run's own release has just counted, so the run's token was still there
    obtain ⟨rfl, hold⟩ := List.cons.inj hnew
    rcases (hg.claimed mid c earlier hold.symm hc).2 with halone | hgone
    · exact halone
    · exact absurd (carries_of_released hg heff hr.counted hr.operation hr.owner) hgone
  · exact hg.released later r mid c earlier hold hr hc

end

end

/-! ## Moves of the others and requests of the run -/

section

variable {ι δ : Type} [DecidableEq ι] [LinearOrder δ] {d : Deployment ι δ} {s s' : System ι δ} {i : ι}
  {T : Token}

/-- **Every move of the others keeps the guard.** -/
theorem Guards.step (hb : d.backend.shadows d.table = false) (hg : Guards d i T s) {rules : Rules}
    {e : Move ι} (he : ¬ e.starts i) (hs : s.step d rules e = some s') : Guards d i T s' := by
  obtain ⟨h, last, hrest⟩ := hg.resting
  have haside : Aside i s s' := aside_step hrest he hs
  have hgrows : s.Grows s' := grows_step hs
  have htoken : ∀ U, s'.Mints i U ↔ s.Mints i U :=
    fun U => ⟨haside.mints U, hgrows.minted i U⟩
  have hentries : s'.Held d i T ∧ s'.Undisturbed d i := by
    rcases effect_or_quiet hs with ⟨n, x, hx, hfate, rfl⟩ | ⟨htable, hlog, -⟩
    · exact ⟨hg.held_execute hb hx hfate haside, hg.undisturbed_execute hx⟩
    · rw [Held, Undisturbed, hlog]
      refine ⟨fun later c earlier hsplit hc => ?_, hg.released⟩
      obtain ⟨hclaim, hstate⟩ := hg.claimed later c earlier hsplit hc
      refine ⟨fun h => hclaim (h.before haside), hstate.imp_right fun hgone => ?_⟩
      rintro ⟨r, hr, hT, hown⟩
      exact hgone ⟨r, htable ▸ hr, hT, haside.mints T hown⟩
  exact ⟨hg.sound.step hs, hg.logged.step hs, ⟨_, _, haside.client.trans hrest⟩,
    fun U => (htoken U).trans (hg.token U),
    fun m n hm hn => hg.single m n (haside.underWay hm) (haside.underWay hn), hentries.1, hentries.2⟩

theorem Guards.follow (hb : d.backend.shadows d.table = false) (hg : Guards d i T s) (e : Move ι) :
    Guards d i T (s.follow d i e) ∧ s.Grows (s.follow d i e) ∧ Aside i s (s.follow d i e) := by
  rcases follow_cases d i s e with hsame | ⟨he, hs⟩
  · rw [hsame]
    exact ⟨hg, .refl s, .refl i s⟩
  · obtain ⟨h, last, hrest⟩ := hg.resting
    exact ⟨hg.step hb he hs, grows_step hs, aside_step hrest he hs⟩

omit [DecidableEq ι] in
/-- **Every request of the run keeps the guard**, provided that a claim is sent only while no other
claim of the run is under way or has counted. -/
theorem Guards.issue (hg : Guards d i T s) {op : Operation} {r : Request}
    (hr : d.Sends s.Mints (some i) op r) (hclaim : op = .acquire → s.Refused i) :
    Guards d i T (s.issue (some i) op r) := by
  have before : ∀ {m : Nat}, (s.issue (some i) op r).UnderWay i .acquire m →
      s.UnderWay i .acquire m ∨ m = s.issued.length ∧ op = .acquire := by
    rintro m ⟨x, hx, howner, hop, hfate⟩
    rcases issue_cases hx with hold | ⟨hm, rfl⟩
    · exact Or.inl ⟨x, hold, howner, hop, hfate⟩
    · exact Or.inr ⟨hm, hop⟩
  have idle : op = .acquire → ∀ {m : Nat}, ¬ s.UnderWay i .acquire m := by
    rintro hop m ⟨x, hx, howner, hxop, hfate⟩
    exact absurd (hfate.symm.trans (hclaim hop m x hx howner hxop)) (by simp)
  refine ⟨hg.sound.issue hr, hg.logged.issue _ _ _, hg.resting, hg.token, ?_, ?_, hg.released⟩
  · intro m n hm hn
    -- a claim that is sent now is the only one, since those before it have been refused
    rcases before hm with hm | ⟨rfl, hop⟩ <;> rcases before hn with hn | ⟨rfl, hop'⟩
    · exact hg.single m n hm hn
    · exact absurd hm (idle hop')
    · exact absurd hn (idle hop)
    · rfl
  · intro later c earlier hsplit hc
    obtain ⟨hfree, hstate⟩ := hg.claimed later c earlier hsplit hc
    refine ⟨?_, hstate⟩
    rintro ⟨m, hm⟩
    rcases before hm with hm | ⟨-, hnew⟩
    · exact hfree ⟨m, hm⟩
    · -- the claim that counted belongs to a statement that did not
      have hmem : c ∈ s.log := by
        rw [show s.log = later ++ c :: earlier from hsplit]
        simp
      obtain ⟨y, outcome, hy, hyowner, hyop, hyfate, haffected⟩ := hg.logged.entry c hmem
      have hzero := hclaim hnew _ y hy (hyowner.trans hc.owner) (hyop.trans hc.operation)
      obtain rfl := Fate.done.inj (hyfate.symm.trans hzero)
      exact absurd hc.counted (haffected ▸ Nat.lt_irrefl 0)

/-- **A request of the run, served**: the guard is kept, the run has issued nothing else, and an
answer with affected rows has its entry in the log. -/
structure Served (d : Deployment ι δ) (i : ι) (T : Token) (op : Operation) (s s' : System ι δ)
    (reply : Reply) : Prop where
  guards : Guards d i T s'
  grows : s.Grows s'
  issued : ∀ (m : Nat) (x' : Issued ι), s'.issued[m]? = some x' → x'.owner = some i →
    (∃ x, s.issued[m]? = some x ∧ x.Later x') ∨ m = s.issued.length
  answered : ∀ k, reply = .answered (.ok k) →
    (∃ x, s'.issued[s.issued.length]? = some x ∧ x.fate = .done (.ok k)) ∧
    ∃ e ∈ s'.log, e.statement = s.issued.length ∧ e.owner = some i ∧ e.operation = op ∧
      e.affected = k

theorem Guards.serve (hb : d.backend.shadows d.table = false) (hg : Guards d i T s) {op : Operation}
    {r : Request} (hr : d.Sends s.Mints (some i) op r) (hclaim : op = .acquire → s.Refused i)
    (cues : List (Cue ι)) :
    let w := serve d i op (s, cues) r
    Served d i T op s w.1.1 (w.2.getD (.overran .zero)) := by
  intro w
  let asked : System ι δ := s.issue (some i) op r
  have kept : Guards d i T w.1.1 ∧ asked.Grows w.1.1 ∧ Aside i asked w.1.1 := by
    refine await_keeps (J := fun s => Guards d i T s ∧ asked.Grows s ∧ Aside i asked s) ?_ _ _
      ⟨hg.issue hr hclaim, .refl asked, .refl i asked⟩
    intro s e ⟨hguard, hgrows, haside⟩
    obtain ⟨hguard', hgrows', haside'⟩ := hguard.follow hb e
    exact ⟨hguard', hgrows.trans hgrows', haside.trans haside'⟩
  obtain ⟨hguard, hgrows, haside⟩ := kept
  refine ⟨hguard, (grows_issue s (some i) op r).trans hgrows, fun m x' hx' howner => ?_, ?_⟩
  · obtain ⟨x, hx, hlater⟩ := haside.issued m x' hx' howner
    rcases issue_cases hx with hold | ⟨hm, -⟩
    · exact Or.inl ⟨x, hold, hlater⟩
    · exact Or.inr hm
  · intro k hreply
    have hanswer : w.2 = some (.answered (.ok k)) := by
      cases hw : w.2 with
      | none => exact absurd (hw ▸ hreply) (by simp)
      | some reply => exact congrArg some (by rw [hw] at hreply; exact hreply)
    -- the answer is true of the statement that was issued, so the log knows it
    obtain ⟨x, hx, hlater⟩ := hgrows.issued s.issued.length _ List.getElem?_concat_length
    have hfate : x.fate = .done (.ok k) := by
      rcases await_truthful d i _ _ _ hanswer with hlost | htrue
      · exact nomatch hlost
      · have htrue : (w.1.1.truthful s.issued.length (.answered (.ok k))) = true := htrue
        rw [truthful, hx] at htrue
        rcases Fate.allows_cases htrue with hlost | ⟨n, hn, hk⟩ | ⟨cause, -, hk⟩
        · exact nomatch hlost
        · obtain rfl := Except.ok.inj (Reply.answered.inj hk)
          exact hn
        · exact absurd hk (by simp)
    obtain ⟨e, he, hstatement, howner, hop, haffected⟩ := hguard.logged.settled _ x _ hx hfate
    exact ⟨⟨x, hx, hfate⟩, e, he, hstatement, howner.trans hlater.owner, hop.trans hlater.operation,
      haffected⟩

/-! ## The phases of a run -/

/-- The run's own claim has counted. -/
def Won (s : System ι δ) (i : ι) : Prop := ∃ c ∈ s.log, c.Claimed i

omit [DecidableEq ι] [LinearOrder δ] in
theorem Won.mono (h : s.Won i) (hgrows : s.Grows s') : s'.Won i := by
  obtain ⟨c, hc, hclaimed⟩ := h
  obtain ⟨newer, hnewer⟩ := hgrows.log
  exact ⟨c, hnewer ▸ List.mem_append_right newer hc, hclaimed⟩

/-- One statement of the run's claim, and what its answers mean for the guard. -/
theorem Guards.claim_statement (hb : d.backend.shadows d.table = false) (hg : Guards d i T s)
    {r : Request} (hr : d.Sends s.Mints (some i) .acquire r) (hnone : s.Refused i)
    (cues : List (Cue ι)) :
    let w := serveFully d i .acquire (s, cues) r
    Guards d i T w.1.1 ∧ s.Grows w.1.1 ∧ (∀ n, w.2 = .answered (.ok (n + 1)) → w.1.1.Won i) ∧
      (w.2 = .answered (.ok 0) → w.1.1.Refused i) := by
  intro w
  have served : Served d i T .acquire s w.1.1 w.2 := hg.serve hb hr (fun _ => hnone) cues
  refine ⟨served.guards, served.grows, fun n hn => ?_, fun hzero m x' hx' howner hop => ?_⟩
  · obtain ⟨-, e, he, -, howner, hop, haffected⟩ := served.answered _ hn
    exact ⟨e, he, howner, hop, haffected ▸ n.succ_pos⟩
  · obtain ⟨⟨y, hy, hfate⟩, -⟩ := served.answered 0 hzero
    rcases served.issued m x' hx' howner with ⟨x, hx, hlater⟩ | rfl
    · exact hlater.done (hnone m x hx (hlater.owner ▸ howner) (hlater.operation ▸ hop))
    · obtain rfl := Option.some.inj (hy.symm.trans hx')
      exact hfate

/-- A claim plan comes down to a verdict, and a good one means that the run's claim has counted. -/
theorem Guards.claim (hb : d.backend.shadows d.table = false) (hg : Guards d i T s)
    (hnone : s.Refused i) (m : Manager) (v : LeaseValues)
    (hsends : ∀ c ∈ m.claimPlan.statements, d.Sends s.Mints (some i) .acquire (m.request c v))
    {β : Type} (held : Handle) (next : Except TransportError Bool → Call Handle β)
    (cues : List (Cue ι)) :
    ∃ (w : System ι δ × List (Cue ι)) (verdict : Except TransportError Bool),
      (m.claim v held next).run (serveFully d i .acquire) (s, cues) =
        (next verdict).run (serveFully d i .acquire) w ∧
      Guards d i T w.1 ∧ (verdict = .ok true → w.1.Won i) := by
  unfold Manager.claim
  cases hplan : m.claimPlan with
  | single claim =>
      have hr := hsends claim (by simp [hplan, ClaimPlan.statements])
      obtain ⟨hguard, -, hwon, -⟩ := hg.claim_statement hb hr hnone cues
      refine ⟨_, _, rfl, hguard, fun hverdict => ?_⟩
      obtain ⟨n, hn⟩ := Reply.affected_of_rows hverdict
      exact hwon n hn
  | updateThenInsert update insert =>
      have hr := hsends update (by simp [hplan, ClaimPlan.statements])
      have hr' := hsends insert (by simp [hplan, ClaimPlan.statements])
      obtain ⟨hguard, hgrows, hwon, hzero⟩ := hg.claim_statement hb hr hnone cues
      let w := serveFully d i .acquire (s, cues) (m.request update v)
      simp only [Manager.send, Call.run]
      cases hrows : w.2.rows with
      | error e => exact ⟨w.1, .error e, rfl, hguard, fun hverdict => absurd hverdict (by simp)⟩
      | ok n =>
          have hreply : w.2 = .answered (.ok n) := Reply.rows_eq_ok hrows
          cases n with
          | succ n => exact ⟨w.1, .ok true, rfl, hguard, fun _ => hwon n hreply⟩
          | zero =>
              -- the update has found no row, so the run's insert is its only claim left
              obtain ⟨hguard', -, hwon', -⟩ := hguard.claim_statement hb
                (hr'.mono fun i T hT => hgrows.minted i T hT) (hzero hreply) w.1.2
              refine ⟨_, _, rfl, hguard', fun hverdict => ?_⟩
              obtain ⟨n, hn⟩ := Reply.affected_of_insertedRows hverdict
              exact hwon' n hn

/-- **The claim of a run**: if the key is acquired, the run's claim has counted. -/
theorem Guards.acquire (hb : d.backend.shadows d.table = false) (hg : Guards d i T s)
    (hnone : ∀ x ∈ s.issued, x.owner ≠ some i) {cues : List (Cue ι)} {ttl : Duration}
    {w : System ι δ × List (Cue ι)} {finished : Call.Finished Handle (Except LockError Unit)}
    (hrun : (({ key := d.key i } : Handle).acquire (d.manager i) T ttl).run
      (serveFully d i .acquire) (s, cues) = (w, finished))
    (hok : finished.result = .ok ()) :
    Guards d i T w.1 ∧ w.1.Won i ∧ finished.state = { key := d.key i, token := some T } := by
  let idle : Handle := { key := d.key i }
  have hidle : idle.Within (d.key i) (s.Mints i) := Handle.idle_within (d.key i) (s.Mints i)
  have none : s.Refused i :=
    fun m x hx howner => absurd howner (hnone x (List.mem_of_getElem? hx))
  cases hlasting : ttl.isZero with
  | true =>
      -- a lease of no time is refused before anything is sent
      rw [Handle.acquire, if_pos hlasting] at hrun
      obtain ⟨-, rfl⟩ := Prod.mk.inj hrun
      exact absurd hok (by simp)
  | false =>
      obtain ⟨next, hacquire, hwin, hfail⟩ := idle.exists_acquire hlasting (d.manager i) T
      obtain ⟨w', verdict, heq, hguard, hwon⟩ := hg.claim hb none (d.manager i)
        (idle.claimValues T ttl) (Handle.sends_claim hidle ((hg.token T).mpr rfl)) idle next cues
      rw [hacquire] at hrun
      have hrun := heq.symm.trans hrun
      by_cases hverdict : verdict = .ok true
      · rw [hverdict, hwin] at hrun
        obtain ⟨rfl, rfl⟩ := Prod.mk.inj hrun
        exact ⟨hguard, hwon hverdict, rfl⟩
      · obtain ⟨state, e, hnext⟩ := hfail verdict hverdict
        rw [hnext] at hrun
        obtain ⟨-, rfl⟩ := Prod.mk.inj hrun
        exact absurd hok (by simp)

/-- **The work of a run** keeps the guard, with any extensions. -/
theorem Guards.work {α : Type} (hb : d.backend.shadows d.table = false) (hg : Guards d i T s)
    (script : Script ι α) {h : Handle} (hh : h.Within (d.key i) (s.Mints i)) (ttl : Duration)
    (every : Option Duration) :
    let out := (stage d i script).work s
      (every.map fun interval => ⟨interval, Exclusive.extension (d.manager i) h ttl⟩)
    Guards d i T out.1 ∧ s.Grows out.1 := by
  -- the guard goes along with every cue of the script, and with every extension that is sent
  let J : System ι δ → Prop := fun s' => Guards d i T s' ∧ s.Grows s'
  have hJ : ∀ s' e, J s' → J (s'.follow d i e) := by
    intro s' e ⟨hguard, hgrows⟩
    obtain ⟨hguard', hgrows', -⟩ := hguard.follow hb e
    exact ⟨hguard', hgrows.trans hgrows'⟩
  have hP : ∀ s' r, d.Sends s.Mints (some i) .extend r → J s' → J (s'.issue (some i) .extend r) := by
    intro s' r hr ⟨hguard, hgrows⟩
    have hr' : d.Sends s'.Mints (some i) .extend r := hr.mono hgrows.minted
    exact ⟨hguard.issue hr' (by simp), hgrows.trans (grows_issue s' _ _ _)⟩
  have extends_ : (Exclusive.extension (d.manager i) h ttl).Within
      (d.Sends s.Mints (some i) .extend) (Handle.Within (d.key i) (s.Mints i)) :=
    (Handle.extend_lawful hh).logging _
  have start : J s := ⟨hg, .refl s⟩
  exact work_keeps hJ hP script extends_ every start

/-- **The release of a run**: if it succeeds, a release statement has counted that was sent after all
that had happened. -/
theorem Guards.release (hb : d.backend.shadows d.table = false) (hg : Guards d i T s) {h : Handle}
    (hh : h.Within (d.key i) (s.Mints i)) (hidle : h.isIdle = false) {cues : List (Cue ι)}
    {w : System ι δ × List (Cue ι)} {finished : Call.Finished Handle (Except LockError Unit)}
    (hrun : (h.release (d.manager i)).runWhile (System.serve d i .release) (s, cues) =
      (w, some finished))
    (hok : finished.result = .ok ()) :
    Guards d i T w.1 ∧ s.Grows w.1 ∧
      ∃ r ∈ w.1.log, r.Released i ∧ r.statement = s.issued.length := by
  obtain ⟨resume, hrelease, hdone, hfail⟩ := h.exists_release hidle (d.manager i)
  have lawful := Handle.release_lawful hh
  rw [hrelease] at hrun lawful
  have served := hg.serve hb lawful.1 (by simp) cues
  unfold Call.runWhile at hrun
  split at hrun
  · rename_i w' reply hserve
    rw [hserve] at served
    by_cases hcounted : ∃ n, reply = .answered (.ok (n + 1))
    · obtain ⟨n, hn⟩ := hcounted
      obtain ⟨-, r, hr, hstatement, howner, hop, haffected⟩ := served.answered _ hn
      rw [hn, hdone] at hrun
      obtain ⟨rfl, -⟩ := Prod.mk.inj hrun
      exact ⟨served.guards, served.grows, r, hr, ⟨howner, hop, haffected ▸ n.succ_pos⟩, hstatement⟩
    · -- any other answer makes the release fail
      obtain ⟨state, e, events, hnext⟩ := hfail reply fun n hn => hcounted ⟨n, hn⟩
      rw [hnext] at hrun
      obtain ⟨-, hrun⟩ := Prod.mk.inj hrun
      obtain rfl := Option.some.inj hrun
      exact absurd hok (by simp)
  · exact absurd hrun (by simp)

/-! ## The run as a whole -/

/-- The handle is kept for a run: it is at rest, and has minted and issued nothing. -/
structure Unused (s : System ι δ) (i : ι) : Prop where
  resting : ∃ h last, s.clients i = .resting h last
  minted : ∀ T, ¬ s.Mints i T
  issued : ∀ x ∈ s.issued, x.owner ≠ some i

/-- **Nobody else in between**: the run's claim and then its release have counted, and between any two
such effects no other handle's claim on the key has. -/
def Alone (d : Deployment ι δ) (s : System ι δ) (i : ι) : Prop :=
  (∃ (later : List (Entry ι δ)) (r : Entry ι δ) (mid : List (Entry ι δ)) (c : Entry ι δ)
    (earlier : List (Entry ι δ)),
    s.log = later ++ r :: (mid ++ c :: earlier) ∧ r.Released i ∧ c.Claimed i) ∧
  s.Undisturbed d i

omit [DecidableEq ι] in
theorem Unused.guards (hu : s.Unused i) (hs : s.Sound d) (hlog : s.Logged) (hne : T ≠ "")
    (hfresh : ∀ p ∈ s.minted, p.2 ≠ T) :
    Guards d i T { s with minted := (i, T) :: s.minted } := by
  have unclaimed : ∀ c ∈ s.log, ¬ c.Claimed i := by
    intro c hc hclaimed
    obtain ⟨x, outcome, hx, howner, -⟩ := hlog.entry c hc
    exact hu.issued x (List.mem_of_getElem? hx) (howner.trans hclaimed.owner)
  refine ⟨hs.mint hne hfresh, ⟨hlog.entry, hlog.settled⟩, hu.resting, fun U => ?_, ?_, ?_, ?_⟩
  · constructor
    · intro hU
      rcases List.mem_cons.mp hU with hnew | hold
      · exact (Prod.mk.inj hnew).2
      · exact absurd hold (hu.minted U)
    · rintro rfl
      exact List.mem_cons_self
  · rintro m n ⟨x, hx, howner, -⟩
    exact absurd howner (hu.issued x (List.mem_of_getElem? hx))
  · intro later c earlier hsplit hc
    have hsplit : s.log = later ++ c :: earlier := hsplit
    exact absurd hc (unclaimed c (by simp [hsplit]))
  · intro later r mid c earlier hsplit _ hc
    have hsplit : s.log = later ++ r :: (mid ++ c :: earlier) := hsplit
    exact absurd hc (unclaimed c (by simp [hsplit]))

omit [DecidableEq ι] in
/-- A release that was sent after the claim had counted makes a whole run of the two. -/
theorem Guards.alone (hg : Guards d i T s') (hs : s.Logged) (hwon : s.Won i) (hgrows : s.Grows s')
    {r : Entry ι δ} (hr : r ∈ s'.log) (hreleased : r.Released i)
    (hlate : r.statement = s.issued.length) : s'.Alone d i := by
  refine ⟨?_, hg.released⟩
  obtain ⟨newer, hnewer⟩ := hgrows.log
  obtain ⟨c, hc, hclaimed⟩ := hwon
  -- its statement is newer than everything that was issued when the claim had counted
  have hnew : r ∈ newer := by
    rcases List.mem_append.mp (hnewer ▸ hr) with hnew | hold
    · exact hnew
    · obtain ⟨x, outcome, hx, -⟩ := hs.entry r hold
      have := (List.getElem?_eq_some_iff.mp hx).1
      omega
  obtain ⟨later, mid, rfl⟩ := List.append_of_mem hnew
  obtain ⟨mid', earlier, hlog⟩ := List.append_of_mem hc
  refine ⟨later, r, mid ++ mid', c, earlier, ?_, hreleased, hclaimed⟩
  rw [hnewer, hlog]
  simp

theorem Unused.alone {α : Type} (hu : s.Unused i) (hs : s.Sound d) (hlog : s.Logged)
    (hb : d.backend.shadows d.table = false) {fresh : Token} (hne : fresh ≠ "")
    (hfresh : ∀ p ∈ s.minted, p.2 ≠ fresh) {dialect : Dialect} {o : ExclusiveOptions}
    (hm : d.manager i = ⟨dialect, o.config.tableName, o.config.timeout?⟩) {script : Script ι α}
    {a : α} {events : List Event}
    (hrun : Exclusive.run (stage d i script) dialect (d.key i) o fresh
      { s with minted := (i, fresh) :: s.minted } = (s', .value a, events)) :
    s'.Alone d i := by
  have hg := hu.guards hs hlog hne hfresh
  obtain ⟨hclaimed, finished, hreleased, hok⟩ := Exclusive.run_eq_value hrun
  rw [← hm] at hclaimed hreleased
  let idle : Handle := { key := d.key i }
  let claimed := (idle.acquire (d.manager i) fresh o.lockTtl).run (serveFully d i .acquire)
    ({ s with minted := (i, fresh) :: s.minted }, script.claim)
  -- first the claim
  obtain ⟨hg₁, hwon, hstate⟩ := hg.acquire hb hu.issued (w := claimed.1) rfl hclaimed
  have hown : claimed.1.1.Mints i fresh := (hg₁.token fresh).mpr rfl
  have hholder : claimed.2.state.Within (d.key i) (claimed.1.1.Mints i) := by
    rw [hstate]
    exact Handle.holder_within (d.key i) hown
  -- then the work
  obtain ⟨hg₂, hgrows⟩ := hg₁.work hb script hholder o.lockTtl o.extendEvery
  let worked := ((stage d i script).work claimed.1.1 (o.extendEvery.map fun interval =>
    ⟨interval, Exclusive.extension (d.manager i) claimed.2.state o.lockTtl⟩)).1
  have hholder' : claimed.2.state.Within (d.key i) (worked.Mints i) :=
    hholder.mono fun T hT => hgrows.minted i T hT
  -- and last the release
  let released := (claimed.2.state.release (d.manager i)).runWhile (System.serve d i .release)
    (worked, script.release)
  obtain ⟨hend, hanswer⟩ := Prod.mk.inj hreleased
  have hrelease : released = (released.1, some finished) := Prod.ext rfl hanswer
  have hidle : claimed.2.state.isIdle = false := by
    rw [hstate]
    rfl
  obtain ⟨hg₃, hgrows', r, hr, hcounted, hlate⟩ := hg₂.release hb hholder' hidle hrelease hok
  have hend : released.1.1 = s' := hend
  subst hend
  exact hg₃.alone hg₂.logged (hwon.mono hgrows) hgrows' hr hcounted hlate

end

/-! ## A table that shadows the proposed row -/

/-- The task outlives its lease, and another handle claims the key; then the release is answered. -/
def outlived : Script Duellist Unit where
  claim := [.move (.effect 0), .reply (.answered (.ok 1))]
  last := [.tick 10, .acquire .rival "B" ⟨10000⟩, .effect 1, .reply .rival (.answered (.ok 1))]
  ending := .returned ()
  release := [.move (.effect 2), .reply (.answered (.ok 1))]

/-- Options of a run that takes the key for ten ticks. -/
def briefly (table : String) : ExclusiveOptions :=
  { lockTtl := ⟨10000⟩, config := { tableName := table } }

theorem prepare_briefly {table : String} (h : Sqlite.Database.shadowsProposal table) :
    Exclusive.prepare .sqlite "job" (briefly table) =
      .ok (⟨.sqlite, table, none⟩, { key := "job" }) := by
  have hkey : checkKey "job" = .ok () := rfl
  simp [Exclusive.prepare, briefly, Manager.ofConfig, TableName.check_of_shadows h, Handle.ofKey, hkey,
    Duration.isZero, bind, Except.bind, pure, Except.pure, Config.timeout?]

/-- In such a table that run returns its value, although another claim has counted. -/
theorem not_alone_of_shadows {table : String} (h : Sqlite.Database.shadowsProposal table) :
    ∃ s' events, Exclusive.run (stage (.duel .sqlite table) .holder outlived) .sqlite "job" (briefly table)
        "A" { System.start (.duel .sqlite table) 0 with minted := [(.holder, "A")] } =
          (s', .value (), events) ∧
      ¬ s'.Alone (.duel .sqlite table) .holder := by
  let d : Deployment Duellist Int := .duel .sqlite table
  let m : Manager := ⟨.sqlite, table, none⟩
  let s₀ : System Duellist Int := { System.start d 0 with minted := [(.holder, "A")] }
  let idle : Handle := { key := "job" }
  let holder : Handle := { key := "job", token := some "A" }
  have plan : m.claimPlan = .single (sqliteClaim table) := rfl
  have lasting : Duration.isZero ⟨10000⟩ = false := rfl
  -- the run claims the key
  have first : (m.request (sqliteClaim table) ⟨"job", "A", "", "A", ⟨10000⟩⟩).effect
      (d.clock.moment s₀.time) s₀.table = .ok (1, claimedOnce) :=
    (sqliteClaim_effect h _ _ _ _ rfl).trans rfl
  obtain ⟨resume, hacquire, hwon⟩ := idle.exists_acquire_single lasting plan "A"
  obtain ⟨s₁, hserve₁, htable₁, hclients₁, hminted₁, htime₁, hissued₁, hlog₁⟩ :=
    serve_answered (i := .holder) .acquire first
  have claimed : (stage d .holder outlived).perform s₀ (idle.acquire m "A" ⟨10000⟩) =
      (s₁, ⟨holder, .ok (), [.acquired "job" ⟨10000⟩]⟩) := by
    rw [hacquire]
    exact perform_of_serve hserve₁ (hwon 0)
  -- the lease ends, and the other handle claims the key
  let s₁' : System Duellist Int := { s₁ with time := 10 }
  have unused : ∀ p ∈ s₁'.minted, p.2 ≠ "B" := by
    show ∀ p ∈ s₁.minted, p.2 ≠ "B"
    rw [hminted₁]
    simp [s₀]
  have second : ((d.manager .rival).request (sqliteClaim table) ⟨"job", "B", "", "B", ⟨10000⟩⟩).effect
      (d.clock.moment s₁'.time) s₁'.table = .ok (1, claimedOnce) := by
    show Request.effect _ _ s₁.table = _
    rw [htable₁]
    exact (sqliteClaim_effect h _ _ _ _ rfl).trans rfl
  have other : s₁'.clients .rival = .resting { key := "job" } none := congrFun hclients₁ .rival
  obtain ⟨s₂, hrun₂, -, htable₂, -, htime₂, hissued₂, hlog₂⟩ :=
    run_acquire .anything other (by decide) unused lasting plan second
  have later : s₁.step d .anything (.tick 10) = some s₁' :=
    if_pos (show s₁.time ≤ 10 from htime₁ ▸ (by decide : (0 : Int) ≤ 10))
  have worked : outlived.last.foldl (follow d .holder) s₁ = s₂ := by
    refine foldl_follow_of_run (by simp [outlived, Move.starts]) ?_
    show (s₁.step d .anything (.tick 10)).bind _ = _
    rw [later, Option.bind_some, ← hrun₂, show s₁'.issued.length = 1 from hissued₁]
  -- the release meets the row of the claim
  obtain ⟨answer, hrelease, hreleased, -⟩ := holder.exists_release rfl m
  have third : (m.request m.releaseStatement (holder.ownValues .zero)).effect
      (d.clock.moment s₂.time) s₂.table = .ok (1, ∅) := by
    rw [htable₂, htime₂]
    rfl
  obtain ⟨s₃, hserve₃, -, -, -, -, -, hlog₃⟩ := serve_answered (i := .holder) .release third
  have issued : s₂.issued.length = 2 := by
    rw [hissued₂]
    exact congrArg (· + 1) hissued₁
  rw [issued] at hserve₃
  have released : (stage d .holder outlived).performWithin s₂ (briefly table).releaseTimeout
      (holder.release m) = (s₃, some ⟨idle, .ok (), [.released "job"]⟩) := by
    rw [hrelease]
    exact performWithin_of_serve _ hserve₃ (hreleased 0)
  refine ⟨s₃, _, Exclusive.run_succeeds (prepare_briefly h) rfl claimed
    (congrArg (fun s => (s, _, [])) worked) released, ?_⟩
  -- the claim of the other handle stands between the two effects of the run
  rintro ⟨-, hforeign⟩
  have hlog₁' : s₁'.log = _ := hlog₁
  rw [hlog₂, hlog₁'] at hlog₃
  refine hforeign [] _ [_] _ [] hlog₃ ?_ ?_ _ List.mem_cons_self ?_
  · exact ⟨rfl, rfl, Nat.one_pos⟩
  · exact ⟨rfl, rfl, Nat.one_pos⟩
  · exact ⟨.rival, by decide, rfl, rfl, rfl, Nat.one_pos⟩

/-- **A run that succeeds was exclusive**, in every deployment on a table and however the statements
of the others fall, exactly if the table does not shadow the proposed row of a claim. -/
theorem alone_iff_not_shadows (dialect : Dialect) (table : String) :
    (∀ (ι δ α : Type) [DecidableEq ι] [LinearOrder δ] (d : Deployment ι δ) (s s' : System ι δ) (i : ι)
      (fresh : Token) (o : ExclusiveOptions) (script : Script ι α) (a : α) (events : List Event),
      Reachable d .anything s → s.Unused i → fresh ≠ "" → (∀ p ∈ s.minted, p.2 ≠ fresh) →
      o.config.tableName = table → d.manager i = ⟨dialect, table, o.config.timeout?⟩ →
      Exclusive.run (stage d i script) dialect (d.key i) o fresh
        { s with minted := (i, fresh) :: s.minted } = (s', .value a, events) →
      s'.Alone d i) ↔ dialect.backend.shadows table = false := by
  constructor
  · -- a run that outlives its lease is enough
    intro h
    by_contra hshadows
    obtain ⟨hb, hname⟩ : dialect.backend = .sqlite ∧ Sqlite.Database.shadowsProposal table := by
      simpa [Backend.shadows] using hshadows
    have hd : dialect = .sqlite := by
      cases dialect <;> first | rfl | exact absurd hb (by decide)
    subst hd
    obtain ⟨s', events, hrun, hforeign⟩ := not_alone_of_shadows hname
    refine hforeign (h Duellist Int Unit _ _ s' .holder "A" (briefly table) outlived () events (.start 0)
      ⟨⟨_, _, rfl⟩, ?_, ?_⟩ (by decide) ?_ rfl rfl hrun)
    · intro T hT
      exact absurd hT List.not_mem_nil
    · intro x hx
      exact absurd hx List.not_mem_nil
    · intro p hp
      exact absurd hp List.not_mem_nil
  · rintro h ι δ α _ _ d s s' i fresh o script a events hr hu hne hfresh rfl hm hrun
    have hb : d.backend.shadows d.table = false := by
      rw [← d.backend_eq i, ← d.table_eq i, hm]
      exact h
    exact hu.alone hr.sound hr.logged hb hne hfresh hm hrun

/-- A run may outlive its lease and succeed, as long as nobody claims the key. -/
example : (Exclusive.run (stage (.duel .postgres "locks") .holder { outlived with
      last := [.tick 20], release := [.move (.effect 1), .reply (.answered (.ok 1))] })
    .postgres "job" (briefly "locks") "A"
    { System.start (.duel .postgres "locks") 0 with minted := [(.holder, "A")] }).2.1 = .value () := rfl

/-- If somebody does, its release affects no row. -/
example : (Exclusive.run (stage (.duel .postgres "locks") .holder { outlived with
      release := [.move (.effect 2), .reply (.answered (.ok 0))] })
    .postgres "job" (briefly "locks") "A"
    { System.start (.duel .postgres "locks") 0 with minted := [(.holder, "A")] }).2.1 =
      .error (.lock (.lostLease "job")) := rfl

end System

end LeaseLock
