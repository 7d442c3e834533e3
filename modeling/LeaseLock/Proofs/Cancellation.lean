/-
# LeaseLock.Proofs.Cancellation -- calls that their caller drops

A caller may drop a call while it waits for the database, before or after its statement has run. An
extension and a release survive this: while they wait, the handle left behind tracks every token that
it tracked before (`Call.Retains`), and what they send gives the row no token. So after any number of
such drops a handle at rest still tracks the token of its own row, and its next call matches the row.

An acquisition does not. While it waits, the token that it sends is in neither field of the handle, and
so is an unconfirmed token that it sends again. Dropped there, after its statement has run, it leaves a
row behind that no later call of the handle matches.
-/
import LeaseLock.Proofs.LateStatements
import LeaseLock.Proofs.Uninterrupted

namespace LeaseLock

/-! ## What a dropped call leaves behind -/

/-- **A call retains tokens** if a handle that is left behind at any of its requests tracks them. -/
def Call.Retains {α : Type} (C : Token → Prop) : Call Handle α → Prop
  | .done _ _ _ => True
  | .ask _ held resume => (∀ T, C T → held.Tracks T) ∧ ∀ reply, (resume reply).Retains C

theorem Call.Retains.mono {α : Type} {C C' : Token → Prop} {call : Call Handle α}
    (h : call.Retains C) (hC : ∀ T, C' T → C T) : call.Retains C' := by
  induction call with
  | done state result events => trivial
  | ask request held resume ih => exact ⟨fun T hT => h.1 T (hC T hT), fun reply => ih reply (h.2 reply)⟩

namespace Handle

variable {h : Handle} {C : Token → Prop}

theorem extend_retains (hC : ∀ T, C T → h.Tracks T) (m : Manager) (ttl : Duration) :
    (h.extend m ttl).Retains C := by
  unfold extend
  split
  · trivial
  split
  · trivial
  · refine ⟨hC, fun reply => ?_⟩
    dsimp only
    split <;> trivial

theorem release_retains (hC : ∀ T, C T → h.Tracks T) (m : Manager) : (h.release m).Retains C := by
  unfold release
  split
  · trivial
  · refine ⟨hC, fun reply => ?_⟩
    dsimp only
    split <;> trivial

end Handle

namespace System

section

variable {ι δ : Type} [LinearOrder δ] {d : Deployment ι δ} {s s' : System ι δ} {i : ι}

/-- **The handle can be cut off** from any call but an acquisition: whatever token of its own the row
carries, the handle left behind tracks it. -/
def Severable (d : Deployment ι δ) (s : System ι δ) (i : ι) : Prop :=
  match s.clients i with
  | .resting _ _ => True
  | .waiting op n held resume => op ≠ .acquire →
    (∀ T, s.Carries d i T → held.Tracks T) ∧ (∀ reply, (resume reply).Retains (s.Carries d i)) ∧
      ∃ x, s.issued[n]? = some x ∧ x.operation = op

theorem severable_of_resting {h : Handle} {last : Option (Operation × Except LockError Unit)}
    (hc : s.clients i = .resting h last) : Severable d s i := by
  rw [Severable, hc]
  trivial

/-- What gives the row no token of the handle's own leaves its call severable. -/
theorem Severable.frame (h : Severable d s i) (hclient : s'.clients i = s.clients i)
    (hgrows : s.Grows s') (hcarries : ∀ T, s'.Carries d i T → s.Carries d i T) :
    Severable d s' i := by
  unfold Severable at h ⊢
  rw [hclient]
  cases hc : s.clients i with
  | resting handle last => trivial
  | waiting op n held resume =>
      rw [hc] at h
      intro hop
      obtain ⟨hheld, hresume, x, hx, hxop⟩ := h hop
      obtain ⟨x', hx', hlater⟩ := hgrows.issued n x hx
      exact ⟨fun T hT => hheld T (hcarries T hT), fun reply => (hresume reply).mono hcarries, x', hx',
        hlater.operation.trans hxop⟩

/-- While an operation other than an acquisition waits, the statement that it waits for is its own. -/
theorem Severable.operation (h : Severable d s i) {op : Operation} {n : Nat} {held : Handle}
    {resume : Reply → Call Handle (Except LockError Unit)}
    (hc : s.clients i = .waiting op n held resume) (hop : op ≠ .acquire) {x : Issued ι}
    (hx : s.issued[n]? = some x) : x.operation ≠ .acquire := by
  rw [Severable, hc] at h
  obtain ⟨-, -, y, hy, hyop⟩ := h hop
  obtain rfl := Option.some.inj (hx.symm.trans hy)
  exact hyop ▸ hop

/-- A late statement that is no claim leaves its handle on track. -/
theorem Tracked.execute_late (h : Tracked d s i) (hs : s.Sound d) {n : Nat} {x : Issued ι}
    (hx : s.issued[n]? = some x) (hop : x.operation ≠ .acquire) (hlate : ¬ s.awaits i n) :
    Tracked d (s.execute d n x) i := by
  have less : ∀ T, (s.execute d n x).Carries d i T → s.Carries d i T :=
    fun T hT => hs.carries_execute hx (fun _ => hop) hT
  unfold Tracked at h ⊢
  rw [execute_clients]
  cases hc : s.clients i with
  | resting handle last =>
      rw [hc] at h
      exact fun T hT => h T (less T hT)
  | waiting op m held resume =>
      rw [hc] at h
      obtain ⟨y, hy, howner, hcall⟩ := h
      have hne : n ≠ m := by
        rintro rfl
        exact hlate (awaits_iff.mpr ⟨op, held, resume, hc⟩)
      refine ⟨y, (getElem?_execute_of_ne hne).trans hy, howner, ?_⟩
      cases hfate : y.fate with
      | inFlight =>
          rw [hfate] at hcall
          exact Call.Keeps.mono hcall less
      | done outcome =>
          rw [hfate] at hcall
          exact fun reply hreply => (hcall reply hreply).mono less

end

/-! ## Histories with dropped calls -/

variable {ι δ : Type} [DecidableEq ι] [LinearOrder δ] {d : Deployment ι δ} {rules : Rules}
  {ops : Operation → Prop} {s s' : System ι δ} {i : ι}

omit [DecidableEq ι] [LinearOrder δ] in
/-- **A move cancels only** some operations of a handle. Its claims take effect while they are waited
for or never; its other statements may take effect at any time. -/
def CancelsOnly (ops : Operation → Prop) (s : System ι δ) (i : ι) : Move ι → Prop
  | .drop j => i = j → ∀ op n held resume, s.clients i = .waiting op n held resume → ops op
  | .effect n => ∀ x, s.issued[n]? = some x → x.owner = some i → x.operation = .acquire →
    s.awaits i n
  | _ => True

/-- **A history** in which a handle has only some of its operations cancelled. -/
inductive Cancelling (d : Deployment ι δ) (ops : Operation → Prop) (i : ι) : System ι δ → Prop
  | start (time : Int) : Cancelling d ops i (start d time)
  | step {s s' : System ι δ} {e : Move ι} :
      Cancelling d ops i s → s.CancelsOnly ops i e → s.step d .truthful e = some s' →
      Cancelling d ops i s'

theorem Cancelling.reachable (h : Cancelling d ops i s) : Reachable d .truthful s := by
  induction h with
  | start time => exact .start time
  | step _ _ hs ih => exact ih.step hs

theorem Cancelling.drop (h : Cancelling d ops i s) {op : Operation} {n : Nat} {held : Handle}
    {resume : Reply → Call Handle (Except LockError Unit)}
    (hc : s.clients i = .waiting op n held resume) (hop : ops op) :
    Cancelling d ops i
      { s with clients := Function.update s.clients i (.resting held none) } := by
  refine h.step (e := .drop i) ?_ (step_drop hc rfl)
  intro _ op' m held' resume' hc'
  exact (Client.waiting.inj (hc.symm.trans hc')).1 ▸ hop

/-- What is possible in an orderly run is possible where more may go on. -/
theorem step_truthful_of_orderly {e : Move ι} (h : s.step d .orderly e = some s') :
    s.step d .truthful e = some s' := by
  cases e with
  | effect n =>
      cases step_cases h with
      | effect hx hfate _ => exact step_effect hx hfate (Or.inl rfl)
  | drop j =>
      cases step_cases h with
      | drop _ hdrops => exact absurd hdrops (by simp [Rules.orderly])
  | _ => exact h

/-- An orderly run cancels nothing. -/
theorem Reachable.cancelling (h : Reachable d .orderly s) (ops : Operation → Prop) (i : ι) :
    Cancelling d ops i s := by
  induction h with
  | start time => exact .start time
  | @step s s' e _ hs ih =>
      refine ih.step ?_ (step_truthful_of_orderly hs)
      have punctual := punctual_of_orderly hs i
      cases e with
      | drop j => exact fun hij => absurd hij punctual
      | effect n => exact fun x hx howner _ => punctual x hx howner
      | _ => trivial

/-! ## One step -/

theorem severable_proceed {op : Operation} {call : Call Handle (Except LockError Unit)}
    (h : op ≠ .acquire → call.Retains (s.Carries d i)) : Severable d (s.proceed i op call) i := by
  unfold Severable
  cases call with
  | done handle result events =>
      rw [proceed_done_clients]
      trivial
  | ask r held resume =>
      rw [proceed_ask_clients]
      intro hop
      exact ⟨(h hop).1, (h hop).2, ⟨some i, op, r, .inFlight⟩, List.getElem?_concat_length, rfl⟩

theorem Severable.proceed {j : ι} (h : Severable d s i) {op : Operation}
    {call : Call Handle (Except LockError Unit)}
    (hcall : i = j → op ≠ .acquire → call.Retains (s.Carries d i)) :
    Severable d (s.proceed j op call) i := by
  by_cases hij : i = j
  · subst hij
    exact severable_proceed (hcall rfl)
  · refine h.frame (aside_proceed hij s op call).client (grows_proceed s j op call) fun T hT => ?_
    cases call <;> exact hT

/-- **A step keeps the handle severable.** -/
theorem Severable.step (h : Severable d s i) (htracked : Tracked d s i) (hs : s.Sound d) {e : Move ι}
    (he : s.CancelsOnly ops i e) (hstep : s.step d rules e = some s') : Severable d s' i := by
  have grows := grows_step hstep
  cases step_cases hstep with
  | @acquire j fresh ttl handle last hc hne hfresh =>
      by_cases hij : i = j
      · subst hij
        exact severable_proceed fun hop => absurd rfl hop
      · refine h.frame (aside_proceed hij _ _ _).client grows fun T hT => ?_
        refine hs.carries_mint hfresh (i := j) ?_
        unfold Carries Mints at hT ⊢
        rw [proceed_table, proceed_minted] at hT
        exact hT
  | @extend j ttl handle last hc =>
      refine h.proceed fun hij _ => ?_
      subst hij
      exact Handle.extend_retains (htracked.resting hs hc).2 _ _
  | @release j handle last hc =>
      refine h.proceed fun hij _ => ?_
      subst hij
      exact Handle.release_retains (htracked.resting hs hc).2 _
  | purge _ => exact h.frame rfl grows fun T hT => hT
  | @effect n x hx hfate hready =>
      -- a claim of the handle runs only while an acquisition waits for it
      cases hc : s.clients i with
      | resting handle last => exact severable_of_resting hc
      | waiting op m held resume =>
          by_cases hop : op = .acquire
          · rw [Severable, execute_clients, hc]
            exact fun hne => absurd hop hne
          · refine h.frame rfl grows fun T hT => hs.carries_execute hx (fun howner hclaim => ?_) hT
            obtain ⟨_, _, _, hc'⟩ := awaits_iff.mp (he x hx howner hclaim)
            obtain ⟨rfl, rfl, -, -⟩ := Client.waiting.inj (hc.symm.trans hc')
            exact h.operation hc hop hx hclaim
  | @reply j r op n held resume hc htrue =>
      refine h.proceed fun hij hop => ?_
      subst hij
      rw [Severable, hc] at h
      exact (h hop).2.1 r
  | @drop j op n held resume hc hdrops =>
      by_cases hij : i = j
      · subst hij
        exact severable_of_resting (Function.update_self ..)
      · exact h.frame (Function.update_of_ne hij _ _) grows fun T hT => hT
  | tick _ => exact h.frame rfl grows fun T hT => hT

/-- **A step keeps the handle on track**, also one that cancels a call, unless it is an acquisition. -/
theorem Tracked.cancelling_step (h : Tracked d s i) (hsev : Severable d s i)
    (hhonest : rules.honest = true) (hb : d.backend.shadows d.table = false) (hops : ¬ ops .acquire)
    (hs : s.Sound d) {e : Move ι} (he : s.CancelsOnly ops i e)
    (hstep : s.step d rules e = some s') : Tracked d s' i := by
  cases e with
  | drop j =>
      by_cases hij : i = j
      · subst hij
        cases step_cases hstep with
        | @drop _ op n held resume hc hdrops =>
            have hop : op ≠ .acquire := fun hacq => hops (hacq ▸ he rfl _ _ _ _ hc)
            have left : (Function.update s.clients i (.resting held none)) i = .resting held none :=
              Function.update_self ..
            rw [Severable, hc] at hsev
            simp only [Tracked, left]
            exact (hsev hop).1
      · have punctual : s.Punctual i (.drop j) := hij
        exact h.punctual_step hhonest hb hs punctual hstep
  | effect n =>
      by_cases hlate : ∃ x, s.issued[n]? = some x ∧ x.owner = some i ∧ ¬ s.awaits i n
      · obtain ⟨x, hx, howner, hlate⟩ := hlate
        cases step_cases hstep with
        | effect hx' hfate hready =>
            obtain rfl := Option.some.inj (hx.symm.trans hx')
            exact h.execute_late hs hx (fun hclaim => hlate (he x hx howner hclaim)) hlate
      · refine h.punctual_step hhonest hb hs (fun x hx howner => ?_) hstep
        by_contra hnot
        exact hlate ⟨x, hx, howner, hnot⟩
  | _ => exact h.punctual_step hhonest hb hs (by trivial) hstep

/-- **A handle without cancelled acquisitions is on track** and severable, in every history. -/
theorem Cancelling.tracked (h : Cancelling d ops i s) (hb : d.backend.shadows d.table = false)
    (hops : ¬ ops .acquire) : Tracked d s i ∧ Severable d s i := by
  induction h with
  | start time =>
      refine ⟨?_, trivial⟩
      rintro T ⟨r, hr, -, -⟩
      exact absurd hr (by simp [System.start])
  | step hp he hs ih =>
      have sound := hp.reachable.sound
      exact ⟨ih.1.cancelling_step ih.2 rfl hb hops sound he hs, ih.2.step ih.1 sound he hs⟩

/-! ## The next call -/

/-- **The handle recovers**: at rest it tracks the token of a row of its own, and its next call, with
the table to itself at any moments, is not refused by that row: a release and an acquisition succeed,
and so does an extension while the row is live. -/
def Recovers (d : Deployment ι δ) (s : System ι δ) (i : ι) : Prop :=
  ∀ h last r, s.clients i = .resting h last → s.table.row? (d.key i) = some r →
    s.Mints i r.token → h.Tracks r.token ∧
      ∀ (cause : Violation → Fault) (moments : Stream' (Moment δ)),
        let w : Solo δ := ⟨moments, s.table⟩
        ((h.release (d.manager i)).run (Solo.serve cause) w).2.result = .ok () ∧
        ∀ ttl : Duration, ttl.isZero = false → w.Computes (d.backend.boundTtl ttl) →
          (r.isLive moments.head →
            ((h.extend (d.manager i) ttl).run (Solo.serve cause) w).2.result = .ok ()) ∧
          ∀ fresh, fresh ≠ r.token →
            ((h.acquire (d.manager i) fresh ttl).run (Solo.serve cause) w).2.result = .ok ()

omit [DecidableEq ι] in
theorem Tracked.recovers (h : Tracked d s i) (hs : s.Sound d) : s.Recovers d i := by
  intro handle last r hc hr hT
  obtain ⟨hkey, htracks⟩ := h.resting hs hc
  have tracks : handle.Tracks r.token := htracks _ ⟨r, hr, rfl, hT⟩
  have hne : r.token ≠ "" := fun hempty => hs.nonempty i (hempty ▸ hT)
  refine ⟨tracks, fun cause moments => ?_⟩
  intro w
  have hrow : w.rows handle.key = some r := hkey ▸ hr
  refine ⟨(handle.release_meets hrow hne).1 tracks, fun ttl httl hd => ?_⟩
  rw [← d.backend_eq i] at hd
  exact ⟨fun hlive => (handle.extend_meets hrow hne httl).1 tracks hlive hd,
    fun fresh hfresh => (handle.acquire_meets hrow hne hfresh httl hd).1 (Or.inr tracks)⟩

/-! ## An acquisition that is dropped -/

/-- Its claim by one statement has run, and the acquisition still waits for the answer. -/
theorem unanswered_single {dialect : Dialect} {table : String} {claim : Statement}
    (hplan : dialect.backend.claim table = .single claim)
    (hb : dialect.backend.shadows table = false) :
    ∃ s n resume r, Reachable (.duel dialect table) .orderly s ∧
      s.clients .holder = .waiting .acquire n { key := "job" } resume ∧
      s.table.row? "job" = some r ∧ s.Mints .holder r.token := by
  let d : Deployment Duellist Int := .duel dialect table
  let idle : Handle := { key := "job" }
  let minting : System Duellist Int := { System.start d 0 with minted := [(.holder, "A")] }
  let ttl : Duration := ⟨10000⟩
  let request : Request := (d.manager .holder).request claim (idle.claimValues "A" ttl)
  have lasting : ttl.isZero = false := rfl
  obtain ⟨resume, hacquire, -⟩ :=
    idle.exists_acquire_single lasting (m := d.manager .holder) hplan "A"
  let asked : System Duellist Int := minting.proceed .holder .acquire (.ask request idle resume)
  let x : Issued Duellist := ⟨some .holder, .acquire, request, .inFlight⟩
  have waits : asked.clients .holder = .waiting .acquire 0 idle resume :=
    minting.proceed_ask_clients ..
  have started : (System.start d 0).step d .orderly (.acquire .holder "A" ttl) = some asked := by
    rw [step_acquire rfl (by decide) (fun p hp => absurd hp List.not_mem_nil)]
    exact congrArg (fun call => some (minting.proceed .holder .acquire call)) hacquire
  have ran : asked.step d .orderly (.effect 0) = some (asked.execute d 0 x) := by
    refine step_effect rfl rfl (Or.inr ?_)
    rintro j hj
    obtain rfl := Option.some.inj hj
    exact awaits_iff.mpr ⟨_, _, _, waits⟩
  -- the claim has met a free key
  obtain ⟨n, t, heff, hone⟩ := Backend.single_counts none (v := idle.claimValues "A" ttl)
    (m := d.clock.moment 0) (∅ : Table Int) hplan hb rfl
  obtain rfl := hone rfl
  have issued : asked.issued[minting.issued.length]? = some x := rfl
  obtain ⟨-, htable, -⟩ := execute_issued (d := d) issued rfl rfl rfl heff
  have isOf : Request.IsOf dialect.backend table .acquire (idle.claimValues "A" ttl) request :=
    .claim (by rw [hplan]; exact List.mem_singleton_self claim)
  have row := (isOf.acts (by simp) heff).row
  rw [hb] at row
  generalize hnew : t.row? (idle.claimValues "A" ttl).key = new at row
  cases row with
  | @taken _ deadline _ _ =>
      refine ⟨asked.execute d 0 x, 0, resume, ⟨"job", "A", deadline⟩,
        ((Reachable.start 0).step started).step ran, waits, ?_, ?_⟩
      · exact (congrArg (fun t => t.row? "job") htable).trans hnew
      · exact List.mem_singleton_self (Duellist.holder, "A")

/-- The call that a handle waits in, and the handle that it would leave behind. -/
def calling? {ι δ : Type} (s : System ι δ) (i : ι) : Option (Operation × Handle) :=
  match s.clients i with
  | .waiting op _ held _ => some (op, held)
  | .resting _ _ => none

/-- Its two statements have run, and the acquisition still waits for the second answer. -/
theorem unanswered_insert (table : String) :
    ∃ s n resume r, Reachable (.duel .mysql table) .orderly s ∧
      s.clients .holder = .waiting .acquire n { key := "job" } resume ∧
      s.table.row? "job" = some r ∧ s.Mints .holder r.token := by
  let moves : List (Move Duellist) :=
    [.acquire .holder "A" ⟨10000⟩, .effect 0, .reply .holder (.answered (.ok 0)), .effect 1]
  have ends : (play (.duel .mysql table) .orderly moves).map (fun s =>
      (s.calling? .holder, (s.table.row? "job").map Row.token, s.minted)) =
      some (some (.acquire, { key := "job" }), some "A", [(.holder, "A")]) := by rfl
  obtain ⟨s, hrun, hends⟩ := Option.map_eq_some_iff.mp ends
  obtain ⟨hclient, hrow⟩ := Prod.mk.inj hends
  obtain ⟨hrow, hminted⟩ := Prod.mk.inj hrow
  obtain ⟨r, hrow, htoken⟩ := Option.map_eq_some_iff.mp hrow
  cases hc : s.clients .holder with
  | resting h last => simp [calling?, hc] at hclient
  | waiting op n held resume =>
      obtain ⟨rfl, rfl⟩ : op = .acquire ∧ held = { key := "job" } := by
        simpa [calling?, hc] using hclient
      refine ⟨s, n, resume, r, reachable_play hrun, hc, hrow, ?_⟩
      rw [Mints, hminted, htoken]
      exact List.mem_singleton_self _

/-- On every backend an acquisition may have won its key and not know it yet. -/
theorem unanswered_claim {dialect : Dialect} {table : String}
    (hb : dialect.backend.shadows table = false) :
    ∃ s n resume r, Reachable (.duel dialect table) .orderly s ∧
      s.clients .holder = .waiting .acquire n { key := "job" } resume ∧
      s.table.row? "job" = some r ∧ s.Mints .holder r.token := by
  cases dialect with
  | mysql => exact unanswered_insert table
  | sqlite | postgres | pgx | mssql => exact unanswered_single rfl hb

/-- A dialect of each backend. -/
theorem exists_dialect (b : Backend) : ∃ dialect : Dialect, dialect.backend = b := by
  cases b with
  | sqlite => exact ⟨.sqlite, rfl⟩
  | mysql => exact ⟨.mysql, rfl⟩
  | postgres => exact ⟨.postgres, rfl⟩
  | mssql => exact ⟨.mssql, rfl⟩

/-- **Which calls may be dropped**: whichever calls of a handle its callers drop, at whatever request,
and whatever answers get lost, the handle recovers in every deployment on a table exactly if no
acquisition is among them and the table does not shadow the proposed row of a claim. -/
theorem recovers_iff_not_acquire (b : Backend) (table : String) (ops : Operation → Prop) :
    (∀ (ι δ : Type) [DecidableEq ι] [LinearOrder δ] (d : Deployment ι δ), d.backend = b →
      d.table = table → ∀ i s, Cancelling d ops i s → s.Recovers d i) ↔
        ¬ ops .acquire ∧ b.shadows table = false := by
  constructor
  · intro h
    have hb : b.shadows table = false := by
      -- without any drop, two claims in a row of one handle are enough
      by_contra hshadows
      obtain ⟨hsqlite, hname⟩ : b = .sqlite ∧ Sqlite.Database.shadowsProposal table := by
        simpa [Backend.shadows] using hshadows
      obtain ⟨s, hr, hclient, hrow, hminted⟩ := claimed_twice_of_shadows hname
      have recovers := h Duellist Int (.duel .sqlite table) hsqlite.symm rfl .holder s
        (hr.cancelling ops .holder)
      obtain ⟨htracks, -⟩ := recovers _ _ _ hclient hrow hminted
      rcases htracks with htoken | hunconfirmed
      · exact absurd htoken (by decide)
      · exact absurd hunconfirmed (by decide)
    refine ⟨fun hacquire => ?_, hb⟩
    -- a claim that has run is dropped before its answer has come
    obtain ⟨dialect, rfl⟩ := exists_dialect b
    obtain ⟨s, n, resume, r, hr, hclient, hrow, hminted⟩ := unanswered_claim hb
    let dropped : System Duellist Int :=
      { s with clients := Function.update s.clients .holder (.resting { key := "job" } none) }
    have history : Cancelling (.duel dialect table) ops .holder dropped :=
      (hr.cancelling ops .holder).drop hclient hacquire
    have left : dropped.clients .holder = .resting { key := "job" } none :=
      Function.update_self Duellist.holder (.resting { key := "job" } none) s.clients
    obtain ⟨htracks, -⟩ := h Duellist Int (.duel dialect table) rfl rfl .holder dropped history
      _ _ _ left hrow hminted
    rcases htracks with htoken | hunconfirmed
    · exact absurd htoken (by simp)
    · exact absurd hunconfirmed (by simp)
  · rintro ⟨hops, hb⟩ ι δ _ _ d rfl rfl i s history
    exact (history.tracked hb hops).1.recovers history.reachable.sound

end System

end LeaseLock
