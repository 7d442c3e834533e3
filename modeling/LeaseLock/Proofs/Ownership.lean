/-
# LeaseLock.Proofs.Ownership -- whose tokens are where

The invariant of every run: a token belongs to the one handle that minted it and is never empty; a
handle, its call in progress and all its statements know no tokens but its own; and every row of the
table carries a token of some handle of its key (`System.Sound`, `System.Reachable.sound`). It needs
no assumption on replies, on late effects or on dropped calls.

So an empty text, which is sent for an absent token, matches no row, and a row that carries a token of
one handle is matched by the tokens of no other.
-/
import LeaseLock.Proofs.System

namespace LeaseLock

/-! ## What a call may send and leave behind -/

/-- Every request of a call has a property, and every state that it may leave behind has another. -/
def Call.Within {σ α : Type} (P : Request → Prop) (Q : σ → Prop) : Call σ α → Prop
  | .done state _ _ => Q state
  | .ask r held resume => P r ∧ Q held ∧ ∀ reply, (resume reply).Within P Q

theorem Call.Within.mono {σ α : Type} {P P' : Request → Prop} {Q Q' : σ → Prop}
    (hP : ∀ r, P r → P' r) (hQ : ∀ s, Q s → Q' s) {call : Call σ α} (h : call.Within P Q) :
    call.Within P' Q' := by
  induction call with
  | done state result events => exact hQ _ h
  | ask r held resume ih => exact ⟨hP _ h.1, hQ _ h.2.1, fun reply => ih reply (h.2.2 reply)⟩

theorem Call.Within.logging {σ α : Type} {P : Request → Prop} {Q : σ → Prop} {call : Call σ α}
    (h : call.Within P Q) (note : α → List Event) : (call.logging note).Within P Q := by
  induction call with
  | done state result events => exact h
  | ask r held resume ih => exact ⟨h.1, h.2.1, fun reply => ih reply (h.2.2 reply)⟩

theorem Manager.send_within {σ α : Type} {P : Request → Prop} {Q : σ → Prop} {m : Manager}
    {s : Statement} {v : LeaseValues} {held : σ} {next : Except TransportError Nat → Call σ α}
    (hP : P (m.request s v)) (hQ : Q held) (hnext : ∀ rows, (next rows).Within P Q) :
    (m.send s v held next).Within P Q :=
  ⟨hP, hQ, fun reply => hnext reply.rows⟩

/-- A claim sends statements of its plan and goes on with a verdict. -/
theorem Manager.claim_within {σ α : Type} {P : Request → Prop} {Q : σ → Prop} {m : Manager}
    {v : LeaseValues} {held : σ} {next : Except TransportError Bool → Call σ α}
    (hP : ∀ s ∈ m.claimPlan.statements, P (m.request s v)) (hQ : Q held)
    (hnext : ∀ verdict, (next verdict).Within P Q) : (m.claim v held next).Within P Q := by
  unfold Manager.claim
  cases hplan : m.claimPlan with
  | single claim =>
      exact send_within (hP claim (by simp [hplan, ClaimPlan.statements])) hQ fun _ => hnext _
  | updateThenInsert update insert =>
      refine send_within (hP update (by simp [hplan, ClaimPlan.statements])) hQ fun rows => ?_
      cases rows with
      | error e => exact hnext _
      | ok n =>
          dsimp only
          split
          · exact hnext _
          · exact ⟨hP insert (by simp [hplan, ClaimPlan.statements]), hQ, fun _ => hnext _⟩

/-! ## Own tokens -/

/-- Every token among the values is absent or has a property. -/
def LeaseValues.Within (own : Token → Prop) (v : LeaseValues) : Prop :=
  (v.token = "" ∨ own v.token) ∧ (v.previousToken = "" ∨ own v.previousToken) ∧
    (v.unconfirmedToken = "" ∨ own v.unconfirmedToken)

/-- A handle for a key, with tokens of its own. -/
structure Handle.Within (key : String) (own : Token → Prop) (h : Handle) : Prop where
  key_eq : h.key = key
  token : ∀ T, h.token = some T → own T
  unconfirmed : ∀ T, h.unconfirmed = some T → own T

/-- The requests that a handle of a deployment, or a purge, may send. -/
inductive Deployment.Sends {ι δ : Type} [LinearOrder δ] (d : Deployment ι δ)
    (own : ι → Token → Prop) : Option ι → Operation → Request → Prop
  | ofHandle {i : ι} {op : Operation} {v : LeaseValues} {r : Request} :
      op ≠ .purgeExpired → Request.IsOf d.backend d.table op v r → v.key = d.key i →
      v.Within (own i) → (op = .acquire → own i v.token ∧ v.unconfirmedToken = v.token) →
      Sends d own (some i) op r
  | ofPurge {v : LeaseValues} {r : Request} :
      Request.IsOf d.backend d.table .purgeExpired v r → Sends d own none .purgeExpired r

section

variable {ι δ : Type} [LinearOrder δ] {d : Deployment ι δ} {own own' : ι → Token → Prop} {i : ι}

theorem LeaseValues.Within.mono {own own' : Token → Prop} (h : ∀ T, own T → own' T)
    {v : LeaseValues} (hv : v.Within own) : v.Within own' :=
  ⟨hv.1.imp_right (h _), hv.2.1.imp_right (h _), hv.2.2.imp_right (h _)⟩

theorem Handle.Within.mono {key : String} {own own' : Token → Prop} (h : ∀ T, own T → own' T)
    {handle : Handle} (hh : handle.Within key own) : handle.Within key own' :=
  ⟨hh.key_eq, fun T hT => h T (hh.token T hT), fun T hT => h T (hh.unconfirmed T hT)⟩

/-- An idle handle knows no tokens. -/
theorem Handle.idle_within (key : String) (own : Token → Prop) :
    ({ key } : Handle).Within key own :=
  ⟨rfl, fun T hT => absurd hT (by simp), fun T hT => absurd hT (by simp)⟩

theorem Handle.holder_within (key : String) {own : Token → Prop} {T : Token} (hT : own T) :
    ({ key, token := some T } : Handle).Within key own := by
  refine ⟨rfl, fun U hU => ?_, fun U hU => absurd hU (by simp)⟩
  obtain rfl := Option.some.inj hU
  exact hT

theorem Deployment.Sends.mono (h : ∀ i T, own i T → own' i T) {owner : Option ι} {op : Operation}
    {r : Request} (hr : d.Sends own owner op r) : d.Sends own' owner op r := by
  cases hr with
  | ofHandle hop hof hkey hv hclaim =>
      exact .ofHandle hop hof hkey (hv.mono (h _)) fun e => (hclaim e).imp_left (h _ _)
  | ofPurge hof => exact .ofPurge hof

theorem Option.getD_empty_within {own : Token → Prop} {o : Option Token}
    (h : ∀ T, o = some T → own T) : o.getD "" = "" ∨ own (o.getD "") := by
  cases o with
  | none => exact Or.inl rfl
  | some T => exact Or.inr (h T rfl)

/-- The calls of one handle, as far as ownership goes. -/
abbrev Deployment.Lawful (d : Deployment ι δ) (own : ι → Token → Prop) (i : ι) (op : Operation)
    (call : Call Handle (Except LockError Unit)) : Prop :=
  call.Within (d.Sends own (some i) op) (Handle.Within (d.key i) (own i))

namespace Handle

variable {h : Handle} {ttl : Duration}

theorem nextToken_own {P : Token → Prop} (hh : ∀ T, h.unconfirmed = some T → P T) {fresh : Token}
    (hf : P fresh) : P (h.nextToken fresh) := by
  unfold nextToken
  cases hu : h.unconfirmed with
  | none => exact hf
  | some T => exact hh T hu

/-- The statements of a claim with a token of one's own. -/
theorem sends_claim (hh : h.Within (d.key i) (own i)) {T : Token} (hT : own i T) :
    ∀ c ∈ (d.manager i).claimPlan.statements,
      d.Sends own (some i) .acquire ((d.manager i).request c (h.claimValues T ttl)) := by
  intro c hc
  have hc' : c ∈ (d.backend.claim d.table).statements := by
    rw [← d.backend_eq i, ← d.table_eq i]
    exact hc
  exact .ofHandle (by simp) (.claim hc') hh.key_eq
    ⟨Or.inr hT, Option.getD_empty_within hh.token, Or.inr hT⟩ fun _ => ⟨hT, rfl⟩

theorem acquire_lawful (hh : h.Within (d.key i) (own i)) {fresh : Token} (hf : own i fresh) :
    d.Lawful own i .acquire (h.acquire (d.manager i) fresh ttl) := by
  have htoken : own i (h.nextToken fresh) := nextToken_own hh.unconfirmed hf
  unfold acquire
  split
  · exact hh
  · refine Manager.claim_within (sends_claim hh htoken) ⟨hh.key_eq, hh.token, by simp⟩
      fun verdict => ?_
    rcases verdict with e | _ | _
    · refine ⟨hh.key_eq, hh.token, fun T hT => ?_⟩
      obtain rfl := Option.some.inj hT
      exact htoken
    · exact ⟨hh.key_eq, by simp, by simp⟩
    · refine ⟨hh.key_eq, fun T hT => ?_, by simp⟩
      obtain rfl := Option.some.inj hT
      exact htoken

theorem ownValues_within (hh : h.Within (d.key i) (own i)) : (h.ownValues ttl).Within (own i) :=
  ⟨Option.getD_empty_within hh.token, Or.inl rfl, Option.getD_empty_within hh.unconfirmed⟩

theorem extend_lawful (hh : h.Within (d.key i) (own i)) :
    d.Lawful own i .extend (h.extend (d.manager i) ttl) := by
  have hof : Request.IsOf d.backend d.table .extend (h.ownValues ttl)
      ((d.manager i).request (d.manager i).extendStatement (h.ownValues ttl)) := by
    rw [← d.backend_eq i, ← d.table_eq i]
    exact .extend
  unfold extend
  split
  · exact hh
  split
  · exact hh
  · refine Manager.send_within (.ofHandle (by simp) hof hh.key_eq (ownValues_within hh) (by simp))
      hh fun rows => ?_
    rcases rows with e | _ | n <;> exact hh

theorem release_lawful (hh : h.Within (d.key i) (own i)) :
    d.Lawful own i .release (h.release (d.manager i)) := by
  have hof : Request.IsOf d.backend d.table .release (h.ownValues .zero)
      ((d.manager i).request (d.manager i).releaseStatement (h.ownValues .zero)) := by
    rw [← d.backend_eq i, ← d.table_eq i]
    exact .release
  have idle : Handle.Within (d.key i) (own i) { h with token := none, unconfirmed := none } :=
    ⟨hh.key_eq, by simp, by simp⟩
  unfold release
  split
  · exact hh
  · refine Manager.send_within (.ofHandle (by simp) hof hh.key_eq (ownValues_within hh) (by simp))
      hh fun rows => ?_
    rcases rows with e | _ | n
    · exact hh
    · exact idle
    · exact idle

end Handle

end

/-! ## Sound systems -/

/-- A handle at rest or in a call, with tokens of its own. -/
def Client.Lawful {ι δ : Type} [LinearOrder δ] (d : Deployment ι δ) (own : ι → Token → Prop)
    (i : ι) : Client → Prop
  | .resting h _ => h.Within (d.key i) (own i)
  | .waiting op _ held resume =>
    held.Within (d.key i) (own i) ∧ ∀ reply, d.Lawful own i op (resume reply)

theorem Client.Lawful.mono {ι δ : Type} [LinearOrder δ] {d : Deployment ι δ}
    {own own' : ι → Token → Prop} (h : ∀ i T, own i T → own' i T) {i : ι} {c : Client}
    (hc : c.Lawful d own i) : c.Lawful d own' i := by
  cases c with
  | resting handle last => exact Handle.Within.mono (h i) hc
  | waiting op n held resume =>
      exact ⟨hc.1.mono (h i), fun reply =>
        (hc.2 reply).mono (fun _ hr => hr.mono h) fun _ hh => hh.mono (h i)⟩

namespace System

section

variable {ι δ : Type} [LinearOrder δ] {d : Deployment ι δ} {s : System ι δ} {i j : ι}

/-- The handle has minted the token. -/
def Mints (s : System ι δ) (i : ι) (T : Token) : Prop := (i, T) ∈ s.minted

/-- **Soundness**: tokens are where their owners put them. -/
structure Sound (d : Deployment ι δ) (s : System ι δ) : Prop where
  /-- No two handles mint one token. -/
  single : ∀ {i j : ι} {T : Token}, s.Mints i T → s.Mints j T → i = j
  nonempty : ∀ i : ι, ¬ s.Mints i ""
  clients : ∀ i : ι, Client.Lawful d s.Mints i (s.clients i)
  issued : ∀ x ∈ s.issued, d.Sends s.Mints x.owner x.operation x.request
  rows : ∀ {k : String} {r : Row δ}, s.table.row? k = some r → ∃ i, d.key i = k ∧ s.Mints i r.token

theorem start_sound (d : Deployment ι δ) (time : Int) : Sound d (start d time) where
  single h := absurd h (by simp [Mints, start])
  nonempty i := by simp [Mints, start]
  clients i := ⟨rfl, by simp, by simp⟩
  issued x hx := absurd hx (by simp [start])
  rows h := absurd h (by simp [start])

theorem Sound.mint (h : s.Sound d) {fresh : Token} (hne : fresh ≠ "")
    (hfresh : ∀ p ∈ s.minted, p.2 ≠ fresh) :
    Sound d { s with minted := (i, fresh) :: s.minted } := by
  have grows : ∀ j T, s.Mints j T → Mints { s with minted := (i, fresh) :: s.minted } j T :=
    fun j T hT => List.mem_cons_of_mem _ hT
  refine ⟨?_, ?_, fun j => (h.clients j).mono grows, fun x hx => (h.issued x hx).mono grows, ?_⟩
  · intro j k T hj hk
    rcases List.mem_cons.mp hj with hj | hj <;> rcases List.mem_cons.mp hk with hk | hk
    · rw [(Prod.mk.inj hj).1, (Prod.mk.inj hk).1]
    · exact absurd (Prod.mk.inj hj).2 (hfresh _ hk)
    · exact absurd (Prod.mk.inj hk).2 (hfresh _ hj)
    · exact h.single hj hk
  · intro j hj
    rcases List.mem_cons.mp hj with hj | hj
    · exact hne (Prod.mk.inj hj).2.symm
    · exact h.nonempty j hj
  · intro k r hr
    obtain ⟨j, hj, hT⟩ := h.rows hr
    exact ⟨j, hj, grows j _ hT⟩

theorem Sound.issue (h : s.Sound d) {owner : Option ι} {op : Operation} {r : Request}
    (hr : d.Sends s.Mints owner op r) : Sound d (s.issue owner op r) := by
  refine ⟨h.single, h.nonempty, h.clients, fun x hx => ?_, h.rows⟩
  rcases List.mem_append.mp hx with hx | hx
  · exact h.issued x hx
  · obtain rfl := List.mem_singleton.mp hx
    exact hr

theorem Sound.within (h : s.Sound d) {handle : Handle}
    {last : Option (Operation × Except LockError Unit)} (hc : s.clients i = .resting handle last) :
    handle.Within (d.key i) (s.Mints i) := by
  have lawful := h.clients i
  rw [hc] at lawful
  exact lawful

/-- Values with tokens of one handle do not name a token of another. -/
theorem Sound.not_names (h : s.Sound d) {v : LeaseValues} (hv : v.Within (s.Mints i)) {T : Token}
    (hT : s.Mints j T) (hij : i ≠ j) : ¬ v.Names T := by
  have foreign : ∀ U : Token, U = "" ∨ s.Mints i U → U ≠ T := by
    rintro U (rfl | hU) rfl
    · exact h.nonempty j hT
    · exact hij (h.single hU hT)
  rintro (e | e | e)
  · exact foreign _ hv.1 e
  · exact foreign _ hv.2.1 e
  · exact foreign _ hv.2.2 e

/-- The token of a row that is named by values of one handle belongs to it. -/
theorem Sound.mints_of_names (h : s.Sound d) {v : LeaseValues} (hv : v.Within (s.Mints i))
    {k : String} {r : Row δ} (hr : s.table.row? k = some r) (hn : v.Names r.token) :
    s.Mints i r.token := by
  obtain ⟨j, -, hT⟩ := h.rows hr
  by_cases hij : i = j
  · exact hij ▸ hT
  · exact absurd hn (h.not_names hv hT hij)

/-! ## Effects in a sound system -/

/-- **What a statement under way does** when it takes effect: the affected rows, and the table
afterwards. -/
inductive Effect (d : Deployment ι δ) (s : System ι δ) (x : Issued ι) : Nat → Table δ → Prop
  | failed : Effect d s x 0 s.table
  | purged {n : Nat} {t : Table δ} :
      x.owner = none → x.operation = .purgeExpired →
      (∀ k, t.row? k = (s.table.row? k).filter fun r => !r.isExpired (d.clock.moment s.time)) →
      Effect d s x n t
  | acted {i : ι} {v : LeaseValues} {n : Nat} {t : Table δ} :
      x.owner = some i → Request.IsOf d.backend d.table x.operation v x.request →
      v.key = d.key i → v.Within (s.Mints i) →
      (x.operation = .acquire → s.Mints i v.token ∧ v.unconfirmedToken = v.token) →
      Acts (d.backend.shadows d.table) (d.clock.moment s.time) (d.backend.boundTtl v.ttl) v
        x.operation s.table n t →
      Effect d s x n t

theorem Sound.effect_cases (h : s.Sound d) {n : Nat} {x : Issued ι} (hx : s.issued[n]? = some x) :
    ∃ k t outcome, Effect d s x k t ∧ affectedRows outcome = k ∧
      s.execute d n x =
        { s with
          table := t
          issued := s.issued.set n { x with fate := .done outcome }
          log := ⟨x.owner, x.operation, n, s.time, k, x.owner.bind fun i => t.row? (d.key i)⟩ ::
            s.log } := by
  obtain ⟨k, t, heff, hexec⟩ | ⟨e, -, hexec⟩ := execute_cases d s n x
  · refine ⟨k, t, .ok k, ?_, rfl, hexec⟩
    have sends := h.issued x (List.mem_of_getElem? hx)
    generalize howner : x.owner = owner at sends
    generalize hop : x.operation = op at sends
    generalize hreq : x.request = request at sends
    cases sends with
    | ofPurge hof => exact .purged howner hop fun key => hof.purge_row? (hreq ▸ heff) key
    | ofHandle hne hof hkey hv hclaim =>
        refine .acted howner (hop ▸ hreq ▸ hof) hkey hv (hop ▸ hclaim) ?_
        exact hop ▸ hof.acts hne (hreq ▸ heff)
  · exact ⟨0, s.table, .error e, .failed, rfl, hexec⟩

namespace Effect

variable {x : Issued ι} {n : Nat} {t : Table δ} {k : String} {r : Row δ}

/-- A row that a statement leaves behind carries a token of the statement's owner, or kept its own. -/
theorem row_after (h : Effect d s x n t) (hr : t.row? k = some r) :
    (∃ old, s.table.row? k = some old ∧ old.token = r.token) ∨
      ∃ i, x.owner = some i ∧ d.key i = k ∧ x.operation = .acquire ∧ s.Mints i r.token := by
  cases h with
  | failed => exact Or.inl ⟨r, hr, rfl⟩
  | purged _ _ rows =>
      rw [rows, Option.filter_eq_some_iff] at hr
      exact Or.inl ⟨r, hr.1, rfl⟩
  | @acted i v _ _ howner hof hkey hv hclaim acts =>
      by_cases hk : k = v.key
      · subst hk
        rcases (hr ▸ acts.row).token_after with kept | ⟨hop, htoken⟩
        · exact Or.inl kept
        · exact Or.inr ⟨_, howner, hkey.symm, hop, htoken ▸ (hclaim hop).1⟩
      · rw [acts.others k hk] at hr
        exact Or.inl ⟨r, hr, rfl⟩

/-- **A row is safe from others** until its deadline: no statement but those of its owner changes it,
and no other claim counts. -/
theorem row_kept (h : Effect d s x n t) (hs : s.Sound d) (hr : s.table.row? k = some r)
    (hT : s.Mints j r.token) (hx : x.owner ≠ some j) (hlive : ¬ r.isExpired (d.clock.moment s.time)) :
    t.row? k = some r ∧ ∀ i, x.owner = some i → d.key i = k → n = 0 := by
  cases h with
  | failed => exact ⟨hr, fun _ _ _ => rfl⟩
  | purged howner _ rows =>
      refine ⟨?_, fun i hi => absurd (howner.symm.trans hi) (by simp)⟩
      rw [rows, hr, Option.filter_eq_some_iff]
      exact ⟨rfl, by simpa using hlive⟩
  | @acted i v _ _ howner hof hkey hv hclaim acts =>
      have hij : i ≠ j := fun e => hx (e ▸ howner)
      by_cases hk : k = v.key
      · subst hk
        rcases (hr ▸ acts.row).unnamed (hs.not_names hv hT hij) with ⟨hn, hnew⟩ | ⟨-, hexp⟩
        · exact ⟨hnew, fun _ _ _ => hn⟩
        · exact absurd hexp hlive
      · refine ⟨(acts.others k hk).trans hr, fun i' hi' hkey' => absurd ?_ hk⟩
        obtain rfl := Option.some.inj (howner.symm.trans hi')
        exact hkey'.symm.trans hkey.symm

/-- A statement of a handle that affected no row leaves every row as it was. -/
theorem row_of_zero (h : Effect d s x 0 t) {i : ι} (hx : x.owner = some i) (k : String) :
    t.row? k = s.table.row? k := by
  cases h with
  | failed => rfl
  | purged howner _ _ => exact absurd (howner.symm.trans hx) (by simp)
  | @acted _ v _ _ _ _ _ _ _ acts =>
      by_cases hk : k = v.key
      · subst hk
        exact acts.row.eq_of_zero
      · exact acts.others k hk

end Effect

theorem Sound.execute (h : s.Sound d) {n : Nat} {x : Issued ι} (hx : s.issued[n]? = some x) :
    Sound d (s.execute d n x) := by
  obtain ⟨k, t, outcome, heff, -, hexec⟩ := h.effect_cases hx
  rw [hexec]
  refine ⟨h.single, h.nonempty, h.clients, fun y hy => ?_, fun {k r} hr => ?_⟩
  · have old : ∀ y ∈ s.issued, d.Sends s.Mints y.owner y.operation y.request := h.issued
    rcases List.mem_or_eq_of_mem_set hy with hy | rfl
    · exact old y hy
    · exact old x (List.mem_of_getElem? hx)
  · rcases heff.row_after hr with ⟨old, hold, htoken⟩ | ⟨i, -, hkey, -, hT⟩
    · obtain ⟨i, hi, hT⟩ := h.rows hold
      exact ⟨i, hi, htoken ▸ hT⟩
    · exact ⟨i, hkey, hT⟩

end

/-! ## Runs are sound -/

variable {ι δ : Type} [DecidableEq ι] [LinearOrder δ] {d : Deployment ι δ} {s s' : System ι δ}

theorem Sound.setClient (h : s.Sound d) {i : ι} {c : Client} (hc : c.Lawful d s.Mints i) :
    Sound d { s with clients := Function.update s.clients i c } := by
  refine ⟨h.single, h.nonempty, fun j => ?_, h.issued, h.rows⟩
  show Client.Lawful d s.Mints j (Function.update s.clients i c j)
  by_cases hj : j = i
  · subst hj
    rw [Function.update_self]
    exact hc
  · rw [Function.update_of_ne hj]
    exact h.clients j

theorem Sound.proceed (h : s.Sound d) {i : ι} {op : Operation}
    {call : Call Handle (Except LockError Unit)} (hcall : d.Lawful s.Mints i op call) :
    Sound d (s.proceed i op call) := by
  cases call with
  | done handle result events => exact h.setClient hcall
  | ask r held resume => exact (h.issue hcall.1).setClient hcall.2

theorem Sound.step {rules : Rules} {e : Move ι} (h : s.Sound d) (hs : s.step d rules e = some s') :
    Sound d s' := by
  cases step_cases hs with
  | @acquire i fresh ttl handle last hc hne hfresh =>
      have minted := h.mint (i := i) hne hfresh
      exact minted.proceed (Handle.acquire_lawful (minted.within hc) List.mem_cons_self)
  | extend hc => exact h.proceed (Handle.extend_lawful (h.within hc))
  | release hc => exact h.proceed (Handle.release_lawful (h.within hc))
  | @purge i r resume hp =>
      have hof : Request.IsOf d.backend d.table .purgeExpired ⟨"", "", "", "", .zero⟩ r := by
        obtain ⟨rfl, -, -⟩ := Call.ask.inj hp
        rw [← d.backend_eq i, ← d.table_eq i]
        exact .purge
      exact h.issue (.ofPurge hof)
  | effect hx _ _ => exact h.execute hx
  | @reply i r op n held resume hc _ =>
      have within := h.clients i
      rw [hc] at within
      exact h.proceed (within.2 r)
  | @drop i op n held resume hc _ =>
      have within := h.clients i
      rw [hc] at within
      exact h.setClient within.1
  | tick _ => exact ⟨h.single, h.nonempty, h.clients, h.issued, h.rows⟩

/-- **Every run is sound.** -/
theorem Reachable.sound {rules : Rules} (h : Reachable d rules s) : s.Sound d := by
  induction h with
  | start time => exact start_sound d time
  | step _ hs ih => exact ih.step hs

end System

end LeaseLock
