/-
# LeaseLock.Proofs.Waiting -- a handle that waits for an answer

Between two answers a handle stands still: all moves are those of others, but for the effect of the
one statement that it waits for. So a run in which a handle starts nothing falls apart into stretches,
one for each statement of its call, and each stretch into what others do before and after the effect
(`System.Waits`, `System.Idles.of_waiting`). An honest answer tells what the effect was
(`System.Idles.answered`).
-/
import LeaseLock.Proofs.History

namespace LeaseLock.System

variable {ι δ : Type} [DecidableEq ι] [LinearOrder δ] {d : Deployment ι δ} {rules : Rules}
  {s s' s'' : System ι δ} {i : ι} {e : Move ι} {n : Nat} {x : Issued ι} {op : Operation}
  {held : Handle} {resume : Reply → Call Handle (Except LockError Unit)}

/-! ## Runs in which only others move -/

/-- A step leaves a statement as it is, unless it is the statement's effect. -/
theorem step_issued (hs : s.step d rules e = some s') (hx : s.issued[n]? = some x) :
    s'.issued[n]? = some x ∨ e = .effect n ∧ x.fate = .inFlight ∧ s' = s.execute d n x := by
  have proceeded : ∀ (s : System ι δ), s.issued[n]? = some x → ∀ (i : ι) (op : Operation)
      (call : Call Handle (Except LockError Unit)), (s.proceed i op call).issued[n]? = some x := by
    intro s hx i op call
    cases call with
    | done handle result events => exact hx
    | ask r held resume => exact getElem?_issue s _ _ _ hx
  cases step_cases hs with
  | acquire _ _ _ => exact Or.inl (proceeded _ (by exact hx) _ _ _)
  | extend _ | release _ | reply _ _ => exact Or.inl (proceeded _ hx _ _ _)
  | purge _ => exact Or.inl (getElem?_issue s _ _ _ hx)
  | @effect m y hy hfate _ =>
      by_cases hmn : m = n
      · subst hmn
        obtain rfl := Option.some.inj (hx.symm.trans hy)
        exact Or.inr ⟨rfl, hfate, rfl⟩
      · exact Or.inl ((getElem?_execute_of_ne hmn).trans hx)
  | drop _ _ | tick _ => exact Or.inl hx

/-- A move of others: it is not about a call of the handle, and no effect of a statement of its own. -/
def Elsewhere (s : System ι δ) (i : ι) (e : Move ι) : Prop :=
  ¬ e.calls i ∧ ∀ n x, e = .effect n → s.issued[n]? = some x → x.owner ≠ some i

/-- **Only others move** between two systems of a run. -/
inductive Others (d : Deployment ι δ) (rules : Rules) (i : ι) (s : System ι δ) : System ι δ → Prop
  | refl : Others d rules i s s
  | step {s' s'' : System ι δ} {e : Move ι} :
      Others d rules i s s' → s'.Elsewhere i e → s'.step d rules e = some s'' →
      Others d rules i s s''

omit [DecidableEq ι] in
theorem Move.not_starts_of_not_calls {e : Move ι} (h : ¬ e.calls i) : ¬ e.starts i := by
  cases e <;> first | exact h | exact fun hs => hs

theorem Others.idles (h : s.Others d rules i s') : s.Idles d rules i s' := by
  induction h with
  | refl => exact .refl
  | step _ he hs ih => exact ih.step (Move.not_starts_of_not_calls he.1) hs

theorem Others.aside (h : s.Others d rules i s') : Aside i s s' := by
  induction h with
  | refl => exact .refl i s
  | step _ he hs ih => exact ih.trans (aside_of_not_calls he.1 hs)

/-- While only others move, the statements of the handle stay as they are. -/
theorem Others.issued (h : s.Others d rules i s') (hx : s.issued[n]? = some x)
    (howner : x.owner = some i) : s'.issued[n]? = some x := by
  induction h with
  | refl => exact hx
  | step _ he hs ih =>
      rcases step_issued hs ih with hsame | ⟨heffect, -, -⟩
      · exact hsame
      · exact absurd howner (he.2 n x heffect ih)

/-- A move of others is the effect of one of their statements, or it leaves the table alone. -/
theorem Elsewhere.effect_or_quiet (he : s.Elsewhere i e) (hs : s.step d rules e = some s') :
    (∃ n x, s.issued[n]? = some x ∧ x.fate = .inFlight ∧ x.owner ≠ some i ∧ s' = s.execute d n x) ∨
      s'.table = s.table := by
  cases step_cases hs with
  | @effect n x hx hfate _ => exact Or.inl ⟨n, x, hx, hfate, he.2 n x rfl hx, rfl⟩
  | acquire _ _ _ | extend _ | release _ | reply _ _ => exact Or.inr (proceed_table _ _ _ _)
  | purge _ | drop _ _ | tick _ => exact Or.inr rfl

/-- A row that appears while only others move appears at the effect of one of their statements. -/
theorem Others.appears (h : s.Others d rules i s') {k : String} (hnone : s.table.row? k = none)
    {r : Row δ} (hsome : s'.table.row? k = some r) :
    ∃ a n x r', s.Others d rules i a ∧ a.issued[n]? = some x ∧ x.fate = .inFlight ∧
      x.owner ≠ some i ∧ a.table.row? k = none ∧ (a.execute d n x).table.row? k = some r' ∧
      s.Others d rules i (a.execute d n x) ∧ (a.execute d n x).Others d rules i s' := by
  induction h generalizing r with
  | refl => exact absurd (hnone.symm.trans hsome) (by simp)
  | @step a a' e h he hs ih =>
      cases hrow : a.table.row? k with
      | some old =>
          obtain ⟨b, n, x, r', hb, hx, hfate, howner, hbefore, hafter, hthere, hrest⟩ := ih hrow
          exact ⟨b, n, x, r', hb, hx, hfate, howner, hbefore, hafter, hthere, hrest.step he hs⟩
      | none =>
          rcases he.effect_or_quiet hs with ⟨n, x, hx, hfate, howner, rfl⟩ | htable
          · exact ⟨a, n, x, r, h, hx, hfate, howner, hrow, hsome, h.step he hs, .refl⟩
          · rw [htable, hrow] at hsome
            exact absurd hsome (by simp)

/-! ## A handle that waits for a statement -/

/-- **An effect on the way**: the statement takes effect in `a`, and else only others move. -/
structure EffectAt (d : Deployment ι δ) (rules : Rules) (i : ι) (n : Nat) (x : Issued ι)
    (s a s' : System ι δ) : Prop where
  before : s.Others d rules i a
  issued : a.issued[n]? = some x
  fate : x.fate = .inFlight
  step : a.step d rules (.effect n) = some (a.execute d n x)
  after : (a.execute d n x).Others d rules i s'

/-- **While a handle waits for a statement** only others move, but for the effect of this one. -/
def Waits (d : Deployment ι δ) (rules : Rules) (i : ι) (n : Nat) (x : Issued ι) (s s' : System ι δ) :
    Prop :=
  s.Others d rules i s' ∨ ∃ a, EffectAt d rules i n x s a s'

theorem EffectAt.idles {a : System ι δ} (h : EffectAt d rules i n x s a s') :
    s.Idles d rules i (a.execute d n x) :=
  h.before.idles.step (show ¬ Move.starts i (.effect n) from id) h.step

theorem Waits.aside (h : Waits d rules i n x s s') : Aside i s s' := by
  rcases h with h | ⟨a, h⟩
  · exact h.aside
  · exact h.before.aside.trans ((aside_execute h.issued h.fate).trans h.after.aside)

theorem Waits.idles (h : Waits d rules i n x s s') : s.Idles d rules i s' := by
  rcases h with h | ⟨a, h⟩
  · exact h.idles
  · exact h.idles.trans h.after.idles

section

variable (hx : s.issued[n]? = some x) (howner : x.owner = some i)
  (hown : ∀ op m, s.UnderWay i op m → m = n)

include hx howner hown

/-- A handle goes on waiting as long as no move is about its call: of its own statements only the one
that it waits for is under way. -/
theorem Waits.step (h : Waits d rules i n x s s') (he : ¬ e.calls i)
    (hs : s'.step d rules e = some s'') : Waits d rules i n x s s'' := by
  by_cases helse : s'.Elsewhere i e
  · rcases h with h | ⟨a, h⟩
    · exact Or.inl (h.step helse hs)
    · exact Or.inr ⟨a, { h with after := h.after.step helse hs }⟩
  · obtain ⟨m, y, rfl, hy, hmine⟩ : ∃ m y, e = .effect m ∧ s'.issued[m]? = some y ∧
        y.owner = some i := by
      by_contra hnone
      exact helse ⟨he, fun m y hm hy hmine => hnone ⟨m, y, hm, hy, hmine⟩⟩
    obtain ⟨hfate, rfl⟩ : y.fate = .inFlight ∧ s'' = s'.execute d m y := by
      cases step_cases hs with
      | effect hz hfate _ =>
          obtain rfl := Option.some.inj (hz.symm.trans hy)
          exact ⟨hfate, rfl⟩
    obtain rfl : m = n := hown _ m (h.aside.underWay ⟨y, hy, hmine, rfl, hfate⟩)
    rcases h with h | ⟨a, h⟩
    · obtain rfl := Option.some.inj (hy.symm.trans (h.issued hx howner))
      exact Or.inr ⟨s', h, hy, hfate, hs, .refl⟩
    · -- it took effect before, so it is done
      obtain ⟨outcome, hdone⟩ := getElem?_execute (d := d) h.issued
      have later := h.after.issued hdone howner
      obtain rfl := Option.some.inj (hy.symm.trans later)
      exact absurd hfate (by simp)

/-- **A call goes on only by an answer**: the handle waits, or it was answered after it had waited, or
the call was dropped. -/
theorem Idles.of_waiting (h : s.Idles d rules i s') (hc : s.clients i = .waiting op n held resume) :
    Waits d rules i n x s s' ∨
      (∃ a r, Waits d rules i n x s a ∧ (rules.honest → a.truthful n r) ∧
        a.step d rules (.reply i r) = some (a.proceed i op (resume r)) ∧
        (a.proceed i op (resume r)).Idles d rules i s') ∨
      s'.clients i = .resting held none := by
  induction h with
  | refl => exact Or.inl (Or.inl .refl)
  | @step a a' e h he hs ih =>
      rcases ih with hwaits | ⟨b, r, hwaits, htrue, hreply, hidle⟩ | hdropped
      · by_cases hcalls : e.calls i
        · have hc' : a.clients i = .waiting op n held resume := hwaits.aside.client.trans hc
          cases step_cases hs with
          | acquire _ _ _ | extend _ | release _ => exact absurd hcalls he
          | purge _ | effect _ _ _ | tick _ => exact absurd hcalls id
          | @reply j r op' n' held' resume' hj htrue =>
              obtain rfl : i = j := hcalls
              obtain ⟨rfl, rfl, rfl, rfl⟩ := Client.waiting.inj (hc'.symm.trans hj)
              exact Or.inr (Or.inl ⟨a, r, hwaits, htrue, hs, .refl⟩)
          | @drop j op' n' held' resume' hj _ =>
              obtain rfl : i = j := hcalls
              obtain ⟨rfl, rfl, rfl, rfl⟩ := Client.waiting.inj (hc'.symm.trans hj)
              exact Or.inr (Or.inr (Function.update_self ..))
        · exact Or.inl (hwaits.step hx howner hown hcalls hs)
      · exact Or.inr (Or.inl ⟨b, r, hwaits, htrue, hreply, hidle.step he hs⟩)
      · exact Or.inr (Or.inr ((aside_step hdropped he hs).client.trans hdropped))

/-- **What an answered call has seen**: its answer was lost, or its statement took effect and the answer
tells how. -/
theorem Idles.answered (h : s.Idles d rules i s') (hc : s.clients i = .waiting op n held resume)
    (hfate : x.fate = .inFlight) (hhonest : rules.honest = true) {h' : Handle}
    {last : Operation × Except LockError Unit} (hend : s'.clients i = .resting h' (some last)) :
    ∃ a r, a.step d rules (.reply i r) = some (a.proceed i op (resume r)) ∧
      (a.proceed i op (resume r)).Idles d rules i s' ∧ Waits d rules i n x s a ∧
      (r.Lost ∨ ∃ b, EffectAt d rules i n x s b a ∧
        ((∃ k t, x.request.effect (d.clock.moment b.time) b.table = .ok (k, t) ∧
            r = .answered (.ok k)) ∨
          ∃ cause, x.request.effect (d.clock.moment b.time) b.table = .error .duplicateKey ∧
            r = .answered (.error (.duplicateKey cause)))) := by
  rcases h.of_waiting (x := x) hx howner hown hc with hwaits | ⟨a, r, hwaits, htrue, hreply, hidle⟩ | hdropped
  · exact absurd ((hwaits.aside.client.trans hc).symm.trans hend) (by simp)
  · refine ⟨a, r, hreply, hidle, hwaits, ?_⟩
    have htrue := htrue hhonest
    rw [truthful, Option.any_eq_true] at htrue
    obtain ⟨y, hy, hallows⟩ := htrue
    rcases Fate.allows_cases hallows with hlost | hdone
    · exact Or.inl hlost
    rcases hwaits with hothers | ⟨b, heffect⟩
    · -- nothing is known of a statement that is still under way
      obtain rfl := Option.some.inj (hy.symm.trans (hothers.issued hx howner))
      rw [hfate] at hdone
      rcases hdone with ⟨_, habs, -⟩ | ⟨_, habs, -⟩
      · exact absurd habs (by simp)
      · exact absurd habs (by simp)
    · refine Or.inr ⟨b, heffect, ?_⟩
      have settled := heffect.after.issued (getElem?_execute_self (d := d) heffect.issued) howner
      obtain rfl := Option.some.inj (hy.symm.trans settled)
      dsimp only [Request.outcome] at hdone
      cases heff : x.request.effect (d.clock.moment b.time) b.table with
      | ok p =>
          rw [heff] at hdone
          rcases hdone with ⟨k, hk, hr⟩ | ⟨cause, hk, -⟩
          · obtain rfl := Except.ok.inj (Fate.done.inj hk)
            exact Or.inl ⟨p.1, p.2, rfl, hr⟩
          · exact absurd hk (by simp)
      | error v =>
          rw [heff] at hdone
          rcases hdone with ⟨k, hk, -⟩ | ⟨cause, hk, hr⟩
          · exact absurd hk (by simp)
          · obtain rfl := Except.error.inj (Fate.done.inj hk)
            exact Or.inr ⟨cause, rfl, hr⟩
  · exact absurd (hdropped.symm.trans hend) (by simp)

end

/-- After the effect of the statement that it waits for nothing of the handle's is under way. -/
theorem EffectAt.not_underWay {a : System ι δ} (h : EffectAt d rules i n x s a s')
    (hown : ∀ op m, s.UnderWay i op m → m = n) : ∀ op m, ¬ s'.UnderWay i op m := by
  intro op m hm
  have after : (a.execute d n x).UnderWay i op m := h.after.aside.underWay hm
  have before : s.UnderWay i op m :=
    h.before.aside.underWay ((aside_execute h.issued h.fate).underWay after)
  obtain rfl := hown op m before
  obtain ⟨y, hy, -, -, hfate⟩ := after
  obtain ⟨outcome, hdone⟩ := getElem?_execute (d := d) h.issued
  obtain rfl := Option.some.inj (hy.symm.trans hdone)
  exact absurd hfate (by simp)

/-! ## Ends of calls -/

/-- A call that is done stays done while the handle starts nothing. -/
theorem Idles.of_done {call : Call Handle (Except LockError Unit)} {state : Handle}
    {result : Except LockError Unit} {events : List Event}
    (h : (s.proceed i op call).Idles d rules i s') (hdone : call = .done state result events)
    {h' : Handle} {last : Operation × Except LockError Unit}
    (hend : s'.clients i = .resting h' (some last)) : last = (op, result) := by
  subst hdone
  have hc := proceed_done_clients s i op state result events
  obtain ⟨-, hlast⟩ := Client.resting.inj (((h.aside hc).client.trans hc).symm.trans hend)
  exact (Option.some.inj hlast).symm

/-- An answer starts no call. -/
theorem idles_reply {r : Reply} (h : s.step d rules (.reply i r) = some s') : s.Idles d rules i s' :=
  Idles.refl.step (show ¬ Move.starts i (.reply i r) from id) h

omit [LinearOrder δ] in
/-- What is under way after a statement was sent was under way before, or is the new statement. -/
theorem underWay_proceed {request : Request} {m : Nat} {op' : Operation}
    (h : (s.proceed i op (.ask request held resume)).UnderWay i op' m) :
    s.UnderWay i op' m ∨ m = s.issued.length := by
  obtain ⟨y, hy, howner, hop, hfate⟩ := h
  rcases issue_cases (s := s) hy with hold | ⟨hnew, -⟩
  · exact Or.inl ⟨y, hold, howner, hop, hfate⟩
  · exact Or.inr hnew

omit [LinearOrder δ] in
theorem getElem?_proceed_ask (s : System ι δ) (i : ι) (op : Operation) (request : Request)
    (held : Handle) (resume : Reply → Call Handle (Except LockError Unit)) :
    (s.proceed i op (.ask request held resume)).issued[s.issued.length]? =
      some ⟨some i, op, request, .inFlight⟩ := by
  show (s.issued ++ [_])[s.issued.length]? = _
  exact List.getElem?_concat_length

end LeaseLock.System
