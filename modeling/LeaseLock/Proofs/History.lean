/-
# LeaseLock.Proofs.History -- what every step keeps

Statements are only ever added, and one under way is settled at most once; then the log has an entry
for it (`System.Logged`). As long as a handle is at rest and starts no call, all moves leave it aside
(`System.Aside`): it mints no token and issues no statement, and what may still happen to it is that
an old statement of its own takes effect.
-/
import LeaseLock.Proofs.Ownership

namespace LeaseLock

/-! ## Statements stay what they are -/

/-- The same statement at a later time. -/
structure Issued.Later {ι : Type} (x x' : Issued ι) : Prop where
  owner : x'.owner = x.owner
  operation : x'.operation = x.operation
  request : x'.request = x.request
  fate : x'.fate = x.fate ∨ x.fate = .inFlight

theorem Issued.Later.refl {ι : Type} (x : Issued ι) : x.Later x := ⟨rfl, rfl, rfl, Or.inl rfl⟩

theorem Issued.Later.trans {ι : Type} {x y z : Issued ι} (h : x.Later y) (h' : y.Later z) :
    x.Later z := by
  refine ⟨h'.owner.trans h.owner, h'.operation.trans h.operation, h'.request.trans h.request, ?_⟩
  rcases h.fate with hfate | hfate
  · rw [← hfate]
    exact h'.fate
  · exact Or.inr hfate

/-- A statement that is under way was under way before. -/
theorem Issued.Later.inFlight {ι : Type} {x x' : Issued ι} (h : x.Later x')
    (hfate : x'.fate = .inFlight) : x.fate = .inFlight := by
  rcases h.fate with hsame | hfresh
  · exact hsame ▸ hfate
  · exact hfresh

/-- A statement that was done has kept its outcome. -/
theorem Issued.Later.done {ι : Type} {x x' : Issued ι} (h : x.Later x')
    {outcome : Except Violation Nat} (hfate : x.fate = .done outcome) : x'.fate = .done outcome := by
  rcases h.fate with hsame | hfresh
  · exact hsame.trans hfate
  · exact absurd (hfresh.symm.trans hfate) (by simp)

/-- Whether a move starts a call of a handle, carries it on or drops it. -/
def Move.calls {ι : Type} (i : ι) : Move ι → Prop
  | .acquire j _ _ | .extend j _ | .release j | .reply j _ | .drop j => i = j
  | _ => False

namespace System

section

variable {ι δ : Type} {s s' s'' : System ι δ}

/-- **What lies between two systems of one run**: statements, tokens and entries are kept. -/
structure Grows (s s' : System ι δ) : Prop where
  issued : ∀ (m : Nat) (x : Issued ι), s.issued[m]? = some x → ∃ x', s'.issued[m]? = some x' ∧ x.Later x'
  minted : ∀ (i : ι) (T : Token), s.Mints i T → s'.Mints i T
  log : ∃ newer, s'.log = newer ++ s.log

theorem Grows.refl (s : System ι δ) : s.Grows s :=
  ⟨fun _ x hx => ⟨x, hx, .refl x⟩, fun _ _ hT => hT, [], rfl⟩

theorem Grows.trans (h : s.Grows s') (h' : s'.Grows s'') : s.Grows s'' := by
  refine ⟨fun m x hx => ?_, fun i T hT => h'.minted i T (h.minted i T hT), ?_⟩
  · obtain ⟨y, hy, hxy⟩ := h.issued m x hx
    obtain ⟨z, hz, hyz⟩ := h'.issued m y hy
    exact ⟨z, hz, hxy.trans hyz⟩
  · obtain ⟨newer, hnewer⟩ := h.log
    obtain ⟨newest, hnewest⟩ := h'.log
    exact ⟨newest ++ newer, by rw [hnewest, hnewer, List.append_assoc]⟩

theorem grows_issue (s : System ι δ) (owner : Option ι) (op : Operation) (r : Request) :
    s.Grows (s.issue owner op r) :=
  ⟨fun _ x hx => ⟨x, getElem?_issue s owner op r hx, .refl x⟩, fun _ _ hT => hT, [], rfl⟩

end

section

variable {ι δ : Type} [LinearOrder δ] {d : Deployment ι δ} {s : System ι δ} {i : ι} {n m : Nat}
  {x y : Issued ι}

theorem getElem?_execute_self (hx : s.issued[n]? = some x) :
    (s.execute d n x).issued[n]? =
      some { x with fate := .done (x.request.outcome (d.clock.moment s.time) s.table).1 } := by
  have hn : n < s.issued.length := (List.getElem?_eq_some_iff.mp hx).1
  exact List.getElem?_set_self hn

theorem getElem?_execute (hx : s.issued[n]? = some x) :
    ∃ outcome, (s.execute d n x).issued[n]? = some { x with fate := .done outcome } :=
  ⟨_, getElem?_execute_self hx⟩

theorem getElem?_execute_of_ne (h : n ≠ m) : (s.execute d n x).issued[m]? = s.issued[m]? :=
  List.getElem?_set_ne h

theorem grows_execute (hx : s.issued[n]? = some x) (hfate : x.fate = .inFlight) :
    s.Grows (s.execute d n x) := by
  refine ⟨fun m y hy => ?_, fun _ _ hT => hT, ?_⟩
  · by_cases hnm : n = m
    · subst hnm
      obtain rfl := Option.some.inj (hx.symm.trans hy)
      obtain ⟨outcome, hafter⟩ := getElem?_execute (d := d) hx
      exact ⟨_, hafter, rfl, rfl, rfl, Or.inr hfate⟩
    · exact ⟨y, by rw [getElem?_execute_of_ne hnm, hy], .refl y⟩
  · obtain ⟨entry, hentry⟩ := log_execute d s n x
    exact ⟨[entry], hentry⟩

/-! ## The log tells what has become of the statements -/

/-- **The log** has an entry for exactly the statements that took effect. -/
structure Logged (s : System ι δ) : Prop where
  entry : ∀ e ∈ s.log, ∃ x outcome, s.issued[e.statement]? = some x ∧ x.owner = e.owner ∧
    x.operation = e.operation ∧ x.fate = .done outcome ∧ e.affected = affectedRows outcome
  settled : ∀ (m : Nat) (x : Issued ι) (outcome : Except Violation Nat), s.issued[m]? = some x →
    x.fate = .done outcome → ∃ e ∈ s.log, e.statement = m ∧ e.owner = x.owner ∧
      e.operation = x.operation ∧ e.affected = affectedRows outcome

theorem start_logged (d : Deployment ι δ) (time : Int) : (start d time).Logged :=
  ⟨fun e he => absurd he (by simp [start]), fun m x outcome hx => absurd hx (by simp [start])⟩

omit [LinearOrder δ] in
theorem Logged.issue (h : s.Logged) (owner : Option ι) (op : Operation) (r : Request) :
    (s.issue owner op r).Logged := by
  refine ⟨fun e he => ?_, fun m x outcome hx hfate => ?_⟩
  · obtain ⟨x, outcome, hx, hrest⟩ := h.entry e he
    exact ⟨x, outcome, getElem?_issue s owner op r hx, hrest⟩
  · rcases issue_cases hx with hold | ⟨-, rfl⟩
    · exact h.settled m x outcome hold hfate
    · exact absurd hfate (by simp)

theorem Logged.execute (h : s.Logged) (hx : s.issued[n]? = some x) (hfate : x.fate = .inFlight) :
    (s.execute d n x).Logged := by
  obtain ⟨outcome, row, hissued, hlog⟩ := settle_execute d s n x
  have hn : n < s.issued.length := (List.getElem?_eq_some_iff.mp hx).1
  have settled : (s.execute d n x).issued[n]? = some { x with fate := .done outcome } := by
    rw [hissued]
    exact List.getElem?_set_self hn
  refine ⟨fun e he => ?_, fun m y result hy hresult => ?_⟩
  · rw [hlog] at he
    rcases List.mem_cons.mp he with rfl | hold
    · exact ⟨_, outcome, settled, rfl, rfl, rfl, rfl⟩
    · obtain ⟨y, result, hy, howner, hop, hresult, haffected⟩ := h.entry e hold
      -- an entry's statement is done, so it is not the one that takes effect now
      have hne : n ≠ e.statement := by
        rintro rfl
        obtain rfl := Option.some.inj (hx.symm.trans hy)
        exact absurd (hfate.symm.trans hresult) (by simp)
      exact ⟨y, result, (getElem?_execute_of_ne hne).trans hy, howner, hop, hresult, haffected⟩
  · rw [hlog]
    by_cases hnm : n = m
    · subst hnm
      obtain rfl := Option.some.inj (settled.symm.trans hy)
      obtain rfl := Fate.done.inj hresult
      exact ⟨_, List.mem_cons_self, rfl, rfl, rfl, rfl⟩
    · rw [getElem?_execute_of_ne hnm] at hy
      obtain ⟨e, he, hrest⟩ := h.settled m y result hy hresult
      exact ⟨e, List.mem_cons_of_mem _ he, hrest⟩

end

/-! ## Along a run -/

section

variable {ι δ : Type} [DecidableEq ι] [LinearOrder δ] {d : Deployment ι δ} {rules : Rules}
  {s s' : System ι δ} {i : ι} {e : Move ι}

omit [LinearOrder δ] in
theorem grows_proceed (s : System ι δ) (i : ι) (op : Operation)
    (call : Call Handle (Except LockError Unit)) : s.Grows (s.proceed i op call) := by
  cases call with
  | done h result events => exact ⟨fun _ x hx => ⟨x, hx, .refl x⟩, fun _ _ hT => hT, [], rfl⟩
  | ask r held resume =>
      have grows := grows_issue s (some i) op r
      exact ⟨grows.issued, grows.minted, grows.log⟩

theorem grows_step (h : s.step d rules e = some s') : s.Grows s' := by
  cases step_cases h with
  | acquire _ _ _ =>
      refine Grows.trans ?_ (grows_proceed _ _ _ _)
      exact ⟨fun _ x hx => ⟨x, hx, .refl x⟩, fun _ _ hT => List.mem_cons_of_mem _ hT, [], rfl⟩
  | extend _ | release _ | reply _ _ => exact grows_proceed _ _ _ _
  | purge _ => exact grows_issue _ _ _ _
  | effect hx hfate _ => exact grows_execute hx hfate
  | drop _ _ | tick _ => exact ⟨fun _ x hx => ⟨x, hx, .refl x⟩, fun _ _ hT => hT, [], rfl⟩

theorem grows_run {es : List (Move ι)} (h : s.run d rules es = some s') : s.Grows s' := by
  induction es generalizing s with
  | nil =>
      obtain rfl := Option.some.inj h
      exact .refl s
  | cons e es ih =>
      obtain ⟨next, hstep, hrest⟩ := Option.bind_eq_some_iff.mp h
      exact (grows_step hstep).trans (ih hrest)

omit [LinearOrder δ] in
theorem Logged.proceed (h : s.Logged) (i : ι) (op : Operation)
    (call : Call Handle (Except LockError Unit)) : (s.proceed i op call).Logged := by
  cases call with
  | done handle result events => exact ⟨h.entry, h.settled⟩
  | ask r held resume =>
      have logged := h.issue (some i) op r
      exact ⟨logged.entry, logged.settled⟩

theorem Logged.step (h : s.Logged) (hs : s.step d rules e = some s') : s'.Logged := by
  cases step_cases hs with
  | @acquire i fresh _ _ _ _ _ _ =>
      have minted : Logged { s with minted := (i, fresh) :: s.minted } := ⟨h.entry, h.settled⟩
      exact minted.proceed _ _ _
  | extend _ | release _ | reply _ _ => exact h.proceed _ _ _
  | purge _ => exact h.issue _ _ _
  | effect hx hfate _ => exact h.execute hx hfate
  | drop _ _ | tick _ => exact ⟨h.entry, h.settled⟩

theorem Reachable.logged (h : Reachable d rules s) : s.Logged := by
  induction h with
  | start time => exact start_logged d time
  | step _ hs ih => exact ih.step hs

/-- **Every entry of the log is an effect** in some system on the way. -/
theorem Reachable.effect_of_log (h : Reachable d rules s) {later earlier : List (Entry ι δ)}
    {entry : Entry ι δ} (hlog : s.log = later ++ entry :: earlier) :
    ∃ s₁ n x, Reachable d rules s₁ ∧ s₁.issued[n]? = some x ∧ x.fate = .inFlight ∧
      s₁.log = earlier ∧ (s₁.execute d n x).log = entry :: earlier ∧
      (s₁.execute d n x).Grows s := by
  induction h generalizing later with
  | start time => exact absurd hlog (by simp [System.start])
  | @step s s' move hr hs ih =>
      rcases effect_or_quiet hs with ⟨n, x, hx, hfate, rfl⟩ | ⟨-, hsame, -⟩
      · obtain ⟨newest, hnewest⟩ := log_execute d s n x
        rw [hnewest] at hlog
        rcases List.cons_eq_append_iff.mp hlog with ⟨rfl, hnew⟩ | ⟨later', rfl, hrest⟩
        · obtain ⟨rfl, hold⟩ := List.cons.inj hnew
          exact ⟨s, n, x, hr, hx, hfate, hold.symm, hnewest.trans hnew.symm, .refl _⟩
        · obtain ⟨s₁, k, y, hr₁, hy, hfresh, hbefore, hafter, hgrows⟩ := ih hrest
          exact ⟨s₁, k, y, hr₁, hy, hfresh, hbefore, hafter, hgrows.trans (grows_step hs)⟩
      · obtain ⟨s₁, k, y, hr₁, hy, hfresh, hbefore, hafter, hgrows⟩ := ih (hsame ▸ hlog)
        exact ⟨s₁, k, y, hr₁, hy, hfresh, hbefore, hafter, hgrows.trans (grows_step hs)⟩

/-! ## A handle that is left aside -/

/-- **The handle is left aside**: it stays as it is, mints no token and issues no statement. -/
structure Aside (i : ι) (s s' : System ι δ) : Prop where
  client : s'.clients i = s.clients i
  mints : ∀ T, s'.Mints i T → s.Mints i T
  issued : ∀ (m : Nat) (x' : Issued ι), s'.issued[m]? = some x' → x'.owner = some i →
    ∃ x, s.issued[m]? = some x ∧ x.Later x'

omit [DecidableEq ι] [LinearOrder δ] in
theorem Aside.refl (i : ι) (s : System ι δ) : Aside i s s :=
  ⟨rfl, fun _ hT => hT, fun _ x hx _ => ⟨x, hx, .refl x⟩⟩

omit [DecidableEq ι] [LinearOrder δ] in
theorem Aside.trans {s'' : System ι δ} (h : Aside i s s') (h' : Aside i s' s'') : Aside i s s'' := by
  refine ⟨h'.client.trans h.client, fun T hT => h.mints T (h'.mints T hT), fun m z hz howner => ?_⟩
  obtain ⟨y, hy, hyz⟩ := h'.issued m z hz howner
  obtain ⟨x, hx, hxy⟩ := h.issued m y hy (hyz.owner ▸ howner)
  exact ⟨x, hx, hxy.trans hyz⟩

/-- A statement of the handle for an operation may still take effect. -/
def UnderWay (s : System ι δ) (i : ι) (op : Operation) (n : Nat) : Prop :=
  ∃ x, s.issued[n]? = some x ∧ x.owner = some i ∧ x.operation = op ∧ x.fate = .inFlight

omit [DecidableEq ι] [LinearOrder δ] in
/-- What is under way for a handle that was left aside was under way before. -/
theorem Aside.underWay (h : Aside i s s') {op : Operation} {n : Nat} (hn : s'.UnderWay i op n) :
    s.UnderWay i op n := by
  obtain ⟨x', hx', howner, hop, hfate⟩ := hn
  obtain ⟨x, hx, hlater⟩ := h.issued n x' hx' howner
  exact ⟨x, hx, hlater.owner ▸ howner, hlater.operation ▸ hop, hlater.inFlight hfate⟩

omit [LinearOrder δ] in
theorem aside_proceed {j : ι} (hij : i ≠ j) (s : System ι δ) (op : Operation)
    (call : Call Handle (Except LockError Unit)) : Aside i s (s.proceed j op call) := by
  cases call with
  | done h result events =>
      exact ⟨Function.update_of_ne hij _ _, fun _ hT => hT, fun _ x hx _ => ⟨x, hx, .refl x⟩⟩
  | ask r held resume =>
      refine ⟨Function.update_of_ne hij _ _, fun _ hT => hT, fun m x hx howner => ?_⟩
      rcases issue_cases (s := s) hx with hold | ⟨-, rfl⟩
      · exact ⟨x, hold, .refl x⟩
      · exact absurd (Option.some.inj howner).symm hij

omit [DecidableEq ι] in
/-- An effect leaves every handle aside; it may be that of an earlier statement of the handle, which
is done then. -/
theorem aside_execute {n : Nat} {x : Issued ι} (hx : s.issued[n]? = some x)
    (hfate : x.fate = .inFlight) : Aside i s (s.execute d n x) := by
  refine ⟨rfl, fun _ hT => hT, fun m z hz _ => ?_⟩
  have hm : m < s.issued.length := by
    obtain ⟨outcome, row, hissued, -⟩ := settle_execute d s n x
    rw [hissued] at hz
    simpa using (List.getElem?_eq_some_iff.mp hz).1
  obtain ⟨y, hy, hlater⟩ := (grows_execute (d := d) hx hfate).issued m _
    (List.getElem?_eq_getElem hm)
  obtain rfl := Option.some.inj (hy.symm.trans hz)
  exact ⟨_, List.getElem?_eq_getElem hm, hlater⟩

/-- Every move that is not about a call of the handle leaves it aside. -/
theorem aside_of_not_calls (he : ¬ e.calls i) (hs : s.step d rules e = some s') : Aside i s s' := by
  cases step_cases hs with
  | @acquire j fresh ttl handle last hj _ _ =>
      have hij : i ≠ j := he
      have aside := aside_proceed hij { s with minted := (j, fresh) :: s.minted } .acquire
        (handle.acquire (d.manager j) fresh ttl)
      refine ⟨aside.client, fun T hT => ?_, aside.issued⟩
      rcases List.mem_cons.mp (aside.mints T hT) with hnew | hold
      · exact absurd (Prod.mk.inj hnew).1 hij
      · exact hold
  | extend _ | release _ | reply _ _ => exact aside_proceed he s _ _
  | purge _ =>
      refine ⟨rfl, fun _ hT => hT, fun m x hx howner => ?_⟩
      rcases issue_cases hx with hold | ⟨-, rfl⟩
      · exact ⟨x, hold, .refl x⟩
      · exact absurd howner (by simp)
  | effect hx hfate _ => exact aside_execute hx hfate
  | drop _ _ =>
      exact ⟨Function.update_of_ne he _ _, fun _ hT => hT, fun _ x hx _ => ⟨x, hx, .refl x⟩⟩
  | tick _ => exact ⟨rfl, fun _ hT => hT, fun _ x hx _ => ⟨x, hx, .refl x⟩⟩

/-- Every move that does not start a call of the handle leaves it aside while it is at rest. -/
theorem aside_step {h : Handle} {last : Option (Operation × Except LockError Unit)}
    (hc : s.clients i = .resting h last) (he : ¬ e.starts i) (hs : s.step d rules e = some s') :
    Aside i s s' := by
  refine aside_of_not_calls (fun hcalls => ?_) hs
  have busy : ∀ {op : Operation} {n : Nat} {held : Handle}
      {resume : Reply → Call Handle (Except LockError Unit)},
      s.clients i ≠ .waiting op n held resume := by
    intro op n held resume hwaiting
    exact absurd (hc.symm.trans hwaiting) (by simp)
  cases step_cases hs with
  | acquire _ _ _ | extend _ | release _ => exact he hcalls
  | reply hj _ | drop hj _ =>
      obtain rfl : i = _ := hcalls
      exact busy hj
  | purge _ | effect _ _ _ | tick _ => exact hcalls

/-! ## Runs in which a handle starts nothing -/

/-- **The handle starts no call** between two systems of a run. -/
inductive Idles (d : Deployment ι δ) (rules : Rules) (i : ι) (s : System ι δ) : System ι δ → Prop
  | refl : Idles d rules i s s
  | step {s' s'' : System ι δ} {e : Move ι} :
      Idles d rules i s s' → ¬ e.starts i → s'.step d rules e = some s'' → Idles d rules i s s''

theorem Idles.trans {s'' : System ι δ} (h : s.Idles d rules i s') (h' : s'.Idles d rules i s'') :
    s.Idles d rules i s'' := by
  induction h' with
  | refl => exact h
  | step _ he hs ih => exact ih.step he hs

theorem idles_of_run {es : List (Move ι)} (hes : ∀ e ∈ es, ¬ e.starts i)
    (h : s.run d rules es = some s') : s.Idles d rules i s' := by
  induction es generalizing s with
  | nil =>
      obtain rfl := Option.some.inj h
      exact .refl
  | cons e es ih =>
      obtain ⟨next, hstep, hrest⟩ := Option.bind_eq_some_iff.mp h
      have first : s.Idles d rules i next := Idles.refl.step (hes e List.mem_cons_self) hstep
      exact first.trans (ih (fun e' he' => hes e' (List.mem_cons_of_mem _ he')) hrest)

theorem Idles.reachable (h : s.Idles d rules i s') (hr : Reachable d rules s) :
    Reachable d rules s' := by
  induction h with
  | refl => exact hr
  | step _ _ hs ih => exact ih.step hs

theorem Idles.grows (h : s.Idles d rules i s') : s.Grows s' := by
  induction h with
  | refl => exact .refl s
  | step _ _ hs ih => exact ih.trans (grows_step hs)

theorem Idles.aside {h : Handle} {last : Option (Operation × Except LockError Unit)}
    (hidle : s.Idles d rules i s') (hc : s.clients i = .resting h last) : Aside i s s' := by
  induction hidle with
  | refl => exact .refl i s
  | step _ he hs ih => exact ih.trans (aside_step (ih.client.trans hc) he hs)

end

end System

end LeaseLock
