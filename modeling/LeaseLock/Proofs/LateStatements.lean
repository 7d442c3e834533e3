/-
# LeaseLock.Proofs.LateStatements -- what a handle's earlier calls left behind

A call that gives up leaves its statement behind, and the statement may take effect at any later time.
When a later acquisition of the handle has succeeded, such statements cannot touch its lease, as they
name other tokens: neither a release nor an extension matches its row, and a claim has to wait for its
deadline.

There is one exception, and it is wanted for another reason. After a claim whose answer was lost the
next one is made with the same token, so that the handle never loses its own row. Then the lease has
its token in common with what was left behind, and a release of before may delete it
(`System.lease_harmed`). `System.lease_survives` says that nothing else can harm a lease.
-/
import LeaseLock.Proofs.History
import LeaseLock.Proofs.MutualExclusion

namespace LeaseLock

/-! ## The tokens of a request -/

/-- **The tokens that a request names**, among its bound values. -/
def Request.tokens (r : Request) : List Token :=
  (r.statement.parameters.zip r.arguments).filterMap fun
    | (.token, .text T) | (.previousToken, .text T) | (.unconfirmedToken, .text T) => some T
    | _ => none

namespace LeaseValues

/-- The values without the tokens that a list of parameters does not bind. -/
def sent (v : LeaseValues) (parameters : List Parameter) : LeaseValues where
  key := v.key
  token := if .token ∈ parameters then v.token else ""
  previousToken := if .previousToken ∈ parameters then v.previousToken else ""
  unconfirmedToken := if .unconfirmedToken ∈ parameters then v.unconfirmedToken else ""
  ttl := v.ttl

theorem bind_sent (v : LeaseValues) (parameters : List Parameter) :
    (v.sent parameters).bind parameters = v.bind parameters := by
  refine List.map_congr_left fun p hp => ?_
  cases p <;> simp [argument, sent, hp]

theorem mem_tokens {v : LeaseValues} {s : Statement} {limit : Option Duration} {T : Token} :
    T ∈ (⟨s, s.bind v, limit⟩ : Request).tokens ↔
      Parameter.token ∈ s.parameters ∧ v.token = T ∨
      Parameter.previousToken ∈ s.parameters ∧ v.previousToken = T ∨
      Parameter.unconfirmedToken ∈ s.parameters ∧ v.unconfirmedToken = T := by
  have pairs : s.parameters.zip (s.bind v) = s.parameters.map fun p => (p, v.argument p) := by
    simpa [Statement.bind, bind] using List.zip_map' (f := id) (g := v.argument) (l := s.parameters)
  simp only [Request.tokens, pairs, List.mem_filterMap, List.mem_map]
  constructor
  · rintro ⟨_, ⟨p, hp, rfl⟩, hT⟩
    cases p <;> simp_all [argument]
  · rintro (⟨hp, rfl⟩ | ⟨hp, rfl⟩ | ⟨hp, rfl⟩)
    · exact ⟨_, ⟨_, hp, rfl⟩, rfl⟩
    · exact ⟨_, ⟨_, hp, rfl⟩, rfl⟩
    · exact ⟨_, ⟨_, hp, rfl⟩, rfl⟩

theorem names_of_mem_tokens {v : LeaseValues} {s : Statement} {limit : Option Duration} {T : Token}
    (h : T ∈ (⟨s, s.bind v, limit⟩ : Request).tokens) : v.Names T := by
  rcases mem_tokens.mp h with ⟨-, hT⟩ | ⟨-, hT⟩ | ⟨-, hT⟩
  · exact Or.inl hT
  · exact Or.inr (Or.inl hT)
  · exact Or.inr (Or.inr hT)

/-- What is left of the values names no token but those of the request. -/
theorem not_names_sent {v : LeaseValues} {s : Statement} {limit : Option Duration} {T : Token}
    (hne : T ≠ "") (h : T ∉ (⟨s, s.bind v, limit⟩ : Request).tokens) :
    ¬ (v.sent s.parameters).Names T := by
  have absent : "" ≠ T := fun e => hne e.symm
  rw [mem_tokens, not_or, not_or, not_and, not_and, not_and] at h
  rintro (hT | hT | hT)
  · dsimp only [sent] at hT
    split at hT
    · exact h.1 ‹_› hT
    · exact absent hT
  · dsimp only [sent] at hT
    split at hT
    · exact h.2.1 ‹_› hT
    · exact absent hT
  · dsimp only [sent] at hT
    split at hT
    · exact h.2.2 ‹_› hT
    · exact absent hT

end LeaseValues

namespace Request.IsOf

variable {b : Backend} {table : String} {op : Operation} {v : LeaseValues} {r : Request}

/-- A request binds a token only if its values name it. -/
theorem names_of_mem_tokens (h : IsOf b table op v r) {T : Token} (hT : T ∈ r.tokens) :
    v.Names T := by
  cases h <;> exact LeaseValues.names_of_mem_tokens hT

/-- A request is one of all values that it binds alike. -/
theorem of_bind_eq (h : IsOf b table op v r) {v' : LeaseValues}
    (hbind : r.statement.bind v' = r.statement.bind v) : IsOf b table op v' r := by
  cases h with
  | @claim _ s limit hs =>
      show IsOf b table .acquire v' ⟨s, s.bind v, limit⟩
      rw [← show s.bind v' = s.bind v from hbind]
      exact .claim hs
  | extend =>
      rw [← show (b.extend table).bind v' = (b.extend table).bind v from hbind]
      exact .extend
  | release =>
      rw [← show (b.release table).bind v' = (b.release table).bind v from hbind]
      exact .release
  | purge =>
      rw [← show (b.purge table).bind v' = (b.purge table).bind v from hbind]
      exact .purge

/-- Every request binds values that name no token but its own. -/
theorem exists_not_names (h : IsOf b table op v r) {T : Token} (hne : T ≠ "") (hT : T ∉ r.tokens) :
    ∃ v', IsOf b table op v' r ∧ v'.key = v.key ∧ ¬ v'.Names T := by
  refine ⟨v.sent r.statement.parameters, ?_, rfl, ?_⟩
  · exact h.of_bind_eq (v.bind_sent r.statement.parameters)
  · cases h <;> exact LeaseValues.not_names_sent hne hT

end Request.IsOf

/-- No deadline is set before the instant that it is counted from. -/
def Clock.Forward {δ : Type} [LinearOrder δ] (c : Clock δ) : Prop :=
  ∀ {t ttl : Int} {now deadline : δ}, 0 ≤ ttl → (c.moment t).now = some now →
    (c.moment t).after ttl = some deadline → now ≤ deadline

theorem Clock.integral_forward : Clock.integral.Forward := by
  intro t ttl now deadline hpos hnow hafter
  obtain rfl := Option.some.inj hnow
  obtain rfl := Option.some.inj hafter
  omega

/-! ## Calls that win with a token -/

section

variable {σ ε α : Type}

/-- The call ends with a failure. -/
def Call.Fails : Call σ (Except ε α) → Prop
  | .done _ (.error _) _ => True
  | _ => False

/-- **The call wins with a token**, or it fails; and it fails as soon as an answer is lost. -/
def Call.Wins (T : Token) : Call Handle (Except ε α) → Prop
  | .done h (.ok _) _ => h.token = some T
  | .done _ (.error _) _ => True
  | .ask _ _ resume => (∀ reply, reply.Lost → (resume reply).Fails) ∧ ∀ reply, (resume reply).Wins T

theorem Manager.claim_wins {m : Manager} {v : LeaseValues} {held : Handle} {T : Token}
    {next : Except TransportError Bool → Call Handle (Except ε α)}
    (hnext : ∀ verdict, (next verdict).Wins T) (hfail : ∀ e, (next (.error e)).Fails) :
    (m.claim v held next).Wins T := by
  unfold Manager.claim
  cases m.claimPlan with
  | single claim =>
      refine ⟨fun reply hlost => ?_, fun reply => hnext _⟩
      obtain ⟨e, he⟩ := hlost.rows
      dsimp only
      rw [he]
      exact hfail e
  | updateThenInsert update insert =>
      refine ⟨fun reply hlost => ?_, fun reply => ?_⟩
      · obtain ⟨e, he⟩ := hlost.rows
        dsimp only
        rw [he]
        exact hfail e
      · dsimp only
        cases reply.rows with
        | error e => exact hnext _
        | ok n =>
            dsimp only
            split
            · exact hnext _
            · -- the update has found no row, so the insert comes next
              refine ⟨fun reply hlost => ?_, fun reply => hnext _⟩
              obtain ⟨e, he⟩ := hlost.insertedRows
              dsimp only
              rw [he]
              exact hfail e

theorem Handle.acquire_wins (h : Handle) (m : Manager) (fresh : Token) (ttl : Duration) :
    (h.acquire m fresh ttl).Wins (h.nextToken fresh) := by
  unfold acquire
  split
  · trivial
  · refine Manager.claim_wins (fun verdict => ?_) fun e => trivial
    rcases verdict with e | _ | _
    · trivial
    · trivial
    · exact rfl

end

/-- Two handles for one key, which wait ten milliseconds for an answer. -/
def Deployment.impatient : Deployment Duellist Int :=
  { Deployment.duel .postgres "locks" with
    manager := fun _ => ⟨.postgres, "locks", some ⟨10000000⟩⟩
    backend_eq := fun _ => rfl
    table_eq := fun _ => rfl }

/-- Anything may go on, but no reply is false. -/
def Rules.truthful : Rules := ⟨true, true, true⟩

namespace System

section

variable {ι δ : Type} [LinearOrder δ] {d : Deployment ι δ} {s s' : System ι δ} {i : ι} {n : Nat}
  {x : Issued ι}

/-! ## Own statements that name other tokens -/

/-- A statement of a handle binds values of its own. -/
theorem Sound.values (hs : s.Sound d) (hx : s.issued[n]? = some x) (hi : x.owner = some i) :
    ∃ v, x.operation ≠ .purgeExpired ∧
      Request.IsOf d.backend d.table x.operation v x.request ∧ v.key = d.key i ∧
      v.Within (s.Mints i) := by
  have sends := hs.issued x (List.mem_of_getElem? hx)
  rw [hi] at sends
  cases sends with
  | ofHandle hop hof hkey hv _ => exact ⟨_, hop, hof, hkey, hv⟩

/-- **An own statement that does not name the row's token** leaves the row, and its deadline as well
unless the row has expired. -/
theorem Sound.row_of_other_token (hs : s.Sound d) (hx : s.issued[n]? = some x)
    (hi : x.owner = some i) {r : Row δ} (hr : s.table.row? (d.key i) = some r)
    (hT : r.token ∉ x.request.tokens) :
    ∃ r', (s.execute d n x).table.row? (d.key i) = some r' ∧
      (r' = r ∨ r.isExpired (d.clock.moment s.time) ∧
        ∃ ttl, 0 ≤ ttl ∧ (d.clock.moment s.time).after ttl = some r'.deadline) := by
  obtain ⟨v, hop, hof, hkey, -⟩ := hs.values hx hi
  have hne : r.token ≠ "" := by
    intro hempty
    obtain ⟨j, -, hminted⟩ := hs.rows hr
    exact hs.nonempty j (hempty ▸ hminted)
  obtain ⟨v', hof', hkey', hnames⟩ := hof.exists_not_names hne hT
  obtain ⟨k, t, heff, hexec⟩ | ⟨e, -, hexec⟩ := execute_cases d s n x
  · have row := (hof'.acts hop heff).row
    rw [hkey', hkey, hr] at row
    obtain ⟨r', hr', hkept⟩ := row.row_of_unnamed hnames
    refine ⟨r', by rw [hexec]; exact hr', ?_⟩
    rcases hkept with hsame | ⟨hexp, hafter⟩
    · exact Or.inl hsame
    · exact Or.inr ⟨hexp, _, d.backend.boundTtl_nonneg _, hafter⟩
  · exact ⟨r, by rw [hexec]; exact hr, Or.inl rfl⟩

/-! ## What is under way -/

/-- **A call that goes on from statement `k`**: of the handle's statements that came after the first
`k`, only the one that the call waits for is under way, and if the call wins, none is. -/
def Pending (s : System ι δ) (i : ι) (k : Nat) (T : Token) : Prop :=
  match s.clients i with
  | .resting h last => ∀ op, last = some (op, .ok ()) →
    h.token = some T ∧ ∀ op m, s.UnderWay i op m → m < k
  | .waiting _ n _ resume =>
    (∀ op m, s.UnderWay i op m → m < k ∨ m = n) ∧
      (∀ reply, reply.Lost → (resume reply).Fails) ∧ ∀ reply, (resume reply).Wins T

end

section

variable {ι δ : Type} [DecidableEq ι] [LinearOrder δ] {d : Deployment ι δ} {rules : Rules}
  {s s' : System ι δ} {i : ι} {n k : Nat} {x : Issued ι} {T : Token} {op : Operation}
  {call : Call Handle (Except LockError Unit)}

omit [LinearOrder δ] in
/-- A call that goes on with nothing under way is pending. -/
theorem pending_proceed (hnone : ∀ op m, s.UnderWay i op m → m < k) (hcall : call.Wins T) :
    (s.proceed i op call).Pending i k T := by
  unfold Pending
  cases call with
  | done h result events =>
      rw [proceed_done_clients]
      intro op' hop'
      obtain ⟨-, rfl⟩ := Prod.mk.inj (Option.some.inj hop')
      exact ⟨hcall, hnone⟩
  | ask r held resume =>
      rw [proceed_ask_clients]
      refine ⟨fun op' m hm => ?_, hcall⟩
      obtain ⟨y, hy, howner, hop, hfate⟩ := hm
      rcases issue_cases (s := s) hy with hold | ⟨hnew, -⟩
      · exact Or.inl (hnone op' m ⟨y, hold, howner, hop, hfate⟩)
      · exact Or.inr hnew

omit [LinearOrder δ] in
theorem pending_of_fails (hcall : call.Fails) : (s.proceed i op call).Pending i k T := by
  unfold Pending
  cases call with
  | done h result events =>
      rw [proceed_done_clients]
      intro op' hop'
      obtain ⟨-, rfl⟩ := Prod.mk.inj (Option.some.inj hop')
      exact absurd hcall id
  | ask r held resume => exact absurd hcall id

omit [DecidableEq ι] [LinearOrder δ] in
theorem Pending.aside (h : s.Pending i k T) (haside : Aside i s s') : s'.Pending i k T := by
  unfold Pending at h ⊢
  rw [haside.client]
  cases hc : s.clients i with
  | resting handle last =>
      rw [hc] at h
      intro op hop
      obtain ⟨htoken, hnone⟩ := h op hop
      exact ⟨htoken, fun op m hm => hnone op m (haside.underWay hm)⟩
  | waiting op n held resume =>
      rw [hc] at h
      obtain ⟨hnone, hcall⟩ := h
      exact ⟨fun op m hm => hnone op m (haside.underWay hm), hcall⟩

/-- **Every step keeps a call pending**, where replies are honest: an answer that goes on with the
call is true of its statement, so that this one is done. -/
theorem Pending.step (hhonest : rules.honest = true) (h : s.Pending i k T) {e : Move ι}
    (he : ¬ e.starts i) (hs : s.step d rules e = some s') : s'.Pending i k T := by
  by_cases hcalls : e.calls i
  swap
  · exact h.aside (aside_of_not_calls hcalls hs)
  cases step_cases hs with
  | acquire _ _ _ | extend _ | release _ => exact absurd hcalls he
  | purge _ | effect _ _ _ | tick _ => exact absurd hcalls id
  | @reply j r op n held resume hc htrue =>
      -- only the reply that the call waits for goes on with it
      obtain rfl : i = j := hcalls
      rw [Pending, hc] at h
      obtain ⟨hnone, hlost, hwins⟩ := h
      have htrue := htrue hhonest
      rw [truthful, Option.any_eq_true] at htrue
      obtain ⟨x, hx, hallows⟩ := htrue
      rcases Fate.allows_cases hallows with hl | hdone
      · exact pending_of_fails (hlost r hl)
      · -- the statement is answered, so it is done, and the next one is the only one under way
        refine pending_proceed (fun op m hm => ?_) (hwins r)
        rcases hnone op m hm with hold | rfl
        · exact hold
        · obtain ⟨y, hy, -, -, hfate⟩ := hm
          obtain rfl := Option.some.inj (hx.symm.trans hy)
          rw [hfate] at hdone
          rcases hdone with ⟨_, habs, -⟩ | ⟨_, habs, -⟩
          · exact absurd habs (by simp)
          · exact absurd habs (by simp)
  | @drop j op n held resume hc _ =>
      obtain rfl : i = j := hcalls
      have hidle : Function.update s.clients i (.resting held none) i = .resting held none :=
        Function.update_self ..
      unfold Pending
      dsimp only
      rw [hidle]
      intro op' hop'
      exact absurd hop' (by simp)

theorem Pending.idles (hhonest : rules.honest = true) (h : s.Pending i k T)
    (hidle : s.Idles d rules i s') : s'.Pending i k T := by
  induction hidle with
  | refl => exact h
  | step _ he hs ih => exact ih.step hhonest he hs

/-! ## A lease that has been acquired -/

/-- **A lease**: an acquisition of the handle, begun in `s`, has returned with success in `s'`, and then
this row stands at the key with the handle's token. -/
structure Acquired (d : Deployment ι δ) (rules : Rules) (s s' : System ι δ) (i : ι) (h : Handle)
    (lease : Row δ) : Prop where
  reachable : Reachable d rules s
  resting : ∃ last, s.clients i = .resting h last
  runs : ∃ fresh ttl begun, s.step d rules (.acquire i fresh ttl) = some begun ∧
    begun.Idles d rules i s'
  returned : ∃ h', s'.clients i = .resting h' (some (.acquire, .ok ())) ∧ h'.token = some lease.token
  row : s'.table.row? (d.key i) = some lease

/-- **The lease is there**: the row carries its token, and a deadline that is not before its own. -/
def Leased (d : Deployment ι δ) (s : System ι δ) (i : ι) (lease : Row δ) : Prop :=
  ∃ r, s.table.row? (d.key i) = some r ∧ r.token = lease.token ∧ lease.deadline ≤ r.deadline

/-- **A statement harms the lease** when its effect deletes the row, or moves its deadline before that
of the lease. -/
def Harms (d : Deployment ι δ) (s : System ι δ) (i : ι) (lease : Row δ) (n : Nat) (x : Issued ι) :
    Prop :=
  s.Leased d i lease ∧
    ∀ r, (s.execute d n x).table.row? (d.key i) = some r → r.deadline < lease.deadline

variable {h : Handle} {lease : Row δ}

theorem Acquired.reached (hl : Acquired d rules s s' i h lease) : Reachable d rules s' := by
  obtain ⟨fresh, ttl, begun, hbegin, hidle⟩ := hl.runs
  exact hidle.reachable (hl.reachable.step hbegin)

/-- A lease at the end of a run from the start. -/
theorem acquired_of_play {before during : List (Move ι)} {fresh : Token} {ttl : Duration}
    {last : Option (Operation × Except LockError Unit)} {h' : Handle}
    (hbefore : (play d rules before).map (fun s => s.clients i) = some (.resting h last))
    (hduring : ∀ e ∈ during, ¬ e.starts i)
    (hafter : (play d rules (before ++ .acquire i fresh ttl :: during)).map
      (fun s => (s.clients i, s.table.row? (d.key i))) =
        some (.resting h' (some (.acquire, .ok ())), some lease))
    (htoken : h'.token = some lease.token) :
    ∃ s s', play d rules before = some s ∧
      play d rules (before ++ .acquire i fresh ttl :: during) = some s' ∧
      Acquired d rules s s' i h lease := by
  obtain ⟨s, hs, hc⟩ := Option.map_eq_some_iff.mp hbefore
  obtain ⟨s', hs', hend⟩ := Option.map_eq_some_iff.mp hafter
  obtain ⟨hc', hrow⟩ := Prod.mk.inj hend
  have hrun : s.run d rules (.acquire i fresh ttl :: during) = some s' := by
    rw [play, run_append, show (start d 0).run d rules before = some s from hs] at hs'
    exact hs'
  obtain ⟨begun, hbegin, hrest⟩ := Option.bind_eq_some_iff.mp hrun
  exact ⟨s, s', hs, hs', reachable_play hs, ⟨last, hc⟩,
    ⟨fresh, ttl, begun, hbegin, idles_of_run hduring hrest⟩, ⟨h', hc', htoken⟩, hrow⟩

/-- The token of a lease is the one that its acquisition asked for, and what is still under way was
under way when the acquisition began. -/
theorem Acquired.token (hl : Acquired d rules s s' i h lease) (hhonest : rules.honest = true) :
    (∃ fresh, fresh ≠ "" ∧ (∀ p ∈ s.minted, p.2 ≠ fresh) ∧ lease.token = h.nextToken fresh) ∧
      ∀ op m, s'.UnderWay i op m → m < s.issued.length := by
  obtain ⟨last, hc⟩ := hl.resting
  obtain ⟨fresh, ttl, begun, hbegin, hidle⟩ := hl.runs
  obtain ⟨h', hc', htoken⟩ := hl.returned
  have pending : begun.Pending i s.issued.length (h.nextToken fresh) ∧ fresh ≠ "" ∧
      ∀ p ∈ s.minted, p.2 ≠ fresh := by
    cases step_cases hbegin with
    | acquire hc₀ hne hfresh =>
        obtain ⟨rfl, -⟩ := Client.resting.inj (hc.symm.trans hc₀)
        refine ⟨pending_proceed (fun op m hm => ?_) (h.acquire_wins _ _ _), hne, hfresh⟩
        obtain ⟨y, hy, -⟩ := hm
        exact (List.getElem?_eq_some_iff.mp hy).1
  obtain ⟨hpending, hne, hfresh⟩ := pending
  have ended := hpending.idles hhonest hidle
  rw [Pending, hc'] at ended
  obtain ⟨hwon, hnone⟩ := ended _ rfl
  exact ⟨⟨fresh, hne, hfresh, Option.some.inj (htoken.symm.trans hwon)⟩, hnone⟩

theorem Acquired.grows (hl : Acquired d rules s s' i h lease) : s.Grows s' := by
  obtain ⟨_, _, begun, hbegin, hidle⟩ := hl.runs
  exact (grows_step hbegin).trans hidle.grows

/-- **Only a retried token** is shared by a lease and an earlier statement of its handle. -/
theorem Acquired.retried (hl : Acquired d rules s s' i h lease) (hhonest : rules.honest = true)
    {s'' : System ι δ} (hgrows : s.Grows s'') (hx : s''.issued[n]? = some x) (hi : x.owner = some i)
    (hn : n < s.issued.length) (hT : lease.token ∈ x.request.tokens) :
    h.unconfirmed = some lease.token := by
  obtain ⟨⟨fresh, hne, hfresh, htoken⟩, -⟩ := hl.token hhonest
  -- the statement was there before the acquisition began, when the fresh token was not yet minted
  obtain ⟨y, hy, hlater⟩ := hgrows.issued n _ (List.getElem?_eq_getElem hn)
  obtain rfl := Option.some.inj (hx.symm.trans hy)
  obtain ⟨v, -, hof, -, hv⟩ := hl.reachable.sound.values (List.getElem?_eq_getElem hn)
    (hlater.owner ▸ hi)
  have named : v.Names lease.token := hof.names_of_mem_tokens (hlater.request ▸ hT)
  have minted : lease.token = "" ∨ s.Mints i lease.token := by
    rcases named with hv' | hv' | hv'
    · exact hv' ▸ hv.1
    · exact hv' ▸ hv.2.1
    · exact hv' ▸ hv.2.2
  rw [Handle.nextToken] at htoken
  cases hu : h.unconfirmed with
  | some U =>
      rw [hu] at htoken
      exact congrArg some htoken.symm
  | none =>
      rw [hu] at htoken
      have hsame : lease.token = fresh := htoken
      rcases minted with hempty | hold
      · exact absurd (hsame.symm.trans hempty) hne
      · exact absurd hsame (hfresh _ hold)

omit [DecidableEq ι] in
/-- A statement of the handle that harms a lease names its token. -/
theorem mem_tokens_of_harms (hs : s.Sound d) (hforward : d.clock.Forward)
    (hx : s.issued[n]? = some x) (hi : x.owner = some i) (hharm : s.Harms d i lease n x) :
    lease.token ∈ x.request.tokens := by
  obtain ⟨⟨r, hr, htoken, hdeadline⟩, hafter⟩ := hharm
  by_contra hT
  -- otherwise the row is kept, or it had expired and a claim has set a later deadline
  obtain ⟨r', hr', hkept⟩ := hs.row_of_other_token hx hi hr (htoken ▸ hT)
  have early : r'.deadline < lease.deadline := hafter r' hr'
  rcases hkept with rfl | ⟨hexp, ttl, hpos, hset⟩
  · exact absurd hdeadline (not_le.mpr early)
  · obtain ⟨now, hnow, hlate⟩ := Row.isExpired_iff.mp hexp
    have hle : lease.deadline ≤ r'.deadline :=
      calc lease.deadline ≤ r.deadline := hdeadline
        _ ≤ now := not_lt.mp hlate
        _ ≤ r'.deadline := hforward hpos hnow hset
    exact absurd hle (not_le.mpr early)

/-! ## A lease that stands -/

omit [DecidableEq ι] in
/-- **Every effect spares a lease** until its deadline, but for those of own statements with its token;
and until then no claim of another handle counts. -/
theorem leased_execute (hs : s.Sound d) (hT : s.Mints i lease.token) (hx : s.issued[n]? = some x)
    (hl : s.Leased d i lease) (hother : x.owner = some i → lease.token ∉ x.request.tokens) :
    d.clock.Passed lease.deadline s.time ∨ (s.execute d n x).Leased d i lease ∧
      ∀ e, (s.execute d n x).log = e :: s.log → ∀ j, j ≠ i → d.key j = d.key i → ¬ e.Claimed j := by
  obtain ⟨r, hr, htoken, hdeadline⟩ := hl
  -- a row that has expired is past its deadline; any other can only be lost to a matching token
  by_cases hexp : r.isExpired (d.clock.moment s.time) = true
  · exact Or.inl ((Clock.passed_of_isExpired hexp).of_le hdeadline)
  refine Or.inr ?_
  by_cases hown : x.owner = some i
  · obtain ⟨r', hr', hkept⟩ := hs.row_of_other_token hx hown hr (htoken ▸ hother hown)
    have hsame : r' = r := hkept.resolve_right fun h => hexp h.1
    refine ⟨⟨r, hsame ▸ hr', htoken, hdeadline⟩, fun e he j hij _ hclaimed => ?_⟩
    obtain ⟨outcome, row, -, hlog⟩ := settle_execute d s n x
    obtain rfl := (List.cons.inj (hlog.symm.trans he)).1
    exact hij (Option.some.inj (hclaimed.owner.symm.trans hown))
  · obtain ⟨k, t, outcome, heff, -, hexec⟩ := hs.effect_cases hx
    obtain ⟨hkept, hzero⟩ := heff.row_kept hs hr (htoken ▸ hT) hown hexp
    rw [hexec]
    refine ⟨⟨r, hkept, htoken, hdeadline⟩, fun e he j _ hkey hclaimed => ?_⟩
    obtain rfl := (List.cons.inj he).1
    have hk : k = 0 := hzero j hclaimed.owner hkey
    exact absurd hclaimed.counted (by simp [hk])

/-- Among these entries is an effect of a statement of the handle that names the token. -/
def Recalls (s : System ι δ) (i : ι) (T : Token) (entries : List (Entry ι δ)) : Prop :=
  ∃ e ∈ entries, e.owner = some i ∧ ∃ x, s.issued[e.statement]? = some x ∧ T ∈ x.request.tokens

omit [DecidableEq ι] [LinearOrder δ] in
theorem Recalls.mono {entries entries' : List (Entry ι δ)} (hr : s.Recalls i T entries)
    (hgrows : s.Grows s') (hsub : ∀ e ∈ entries, e ∈ entries') : s'.Recalls i T entries' := by
  obtain ⟨e, he, howner, x, hx, hT⟩ := hr
  obtain ⟨x', hx', hlater⟩ := hgrows.issued _ x hx
  exact ⟨e, hsub e he, howner, x', hx', hlater.request ▸ hT⟩

/-- **The lease has been secure** from `s` to `s'`, or a statement that was left behind with its token
has taken effect: it stands until its deadline, and no other claim has counted before. -/
structure Secure (d : Deployment ι δ) (s s' : System ι δ) (i : ι) (h : Handle) (lease : Row δ) :
    Prop where
  stands : ∀ newer, s'.log = newer ++ s.log →
    d.clock.Passed lease.deadline s'.time ∨ s'.Leased d i lease ∨
      h.unconfirmed = some lease.token ∧ s'.Recalls i lease.token newer
  claims : ∀ (later : List (Entry ι δ)) (e : Entry ι δ) (earlier : List (Entry ι δ)) (j : ι) (now : δ),
    s'.log = later ++ e :: (earlier ++ s.log) → e.Claimed j → j ≠ i → d.key j = d.key i →
    (d.clock.moment e.time).now = some now → now < lease.deadline →
    h.unconfirmed = some lease.token ∧ s'.Recalls i lease.token earlier

omit [DecidableEq ι] in
theorem secure_refl (hrow : s.table.row? (d.key i) = some lease) : Secure d s s i h lease := by
  refine ⟨fun _ _ => Or.inr (Or.inl ⟨lease, hrow, rfl, le_refl _⟩), ?_⟩
  intro later e earlier j now hlog
  have hlength := congrArg List.length hlog
  simp at hlength
  omega

omit [DecidableEq ι] in
theorem Secure.execute (hsec : Secure d s s' i h lease) (hgrows : s.Grows s') (hs : s'.Sound d)
    (hT : s'.Mints i lease.token) (hx : s'.issued[n]? = some x) (hfate : x.fate = .inFlight)
    (hretried : x.owner = some i → lease.token ∈ x.request.tokens →
      h.unconfirmed = some lease.token) : Secure d s (s'.execute d n x) i h lease := by
  have hgrows' : s'.Grows (s'.execute d n x) := grows_execute hx hfate
  obtain ⟨outcome, row, -, hlog⟩ := settle_execute d s' n x
  constructor
  · intro newer hnewer
    obtain ⟨newer', hnewer'⟩ := hgrows.log
    rw [hlog, hnewer', ← List.cons_append] at hnewer
    obtain rfl := List.append_cancel_right hnewer
    rcases hsec.stands newer' hnewer' with hpassed | hleased | ⟨hretry, hrecalls⟩
    · exact Or.inl hpassed
    · by_cases hmine : x.owner = some i ∧ lease.token ∈ x.request.tokens
      · -- a statement that was left behind with the lease's own token: nothing is promised after it
        obtain ⟨outcome', hafter⟩ := getElem?_execute (d := d) hx
        exact Or.inr (Or.inr ⟨hretried hmine.1 hmine.2, _, List.mem_cons_self, hmine.1, _, hafter,
          hmine.2⟩)
      · have hother : x.owner = some i → lease.token ∉ x.request.tokens :=
          fun howner hmem => hmine ⟨howner, hmem⟩
        rcases leased_execute hs hT hx hleased hother with hpassed | ⟨hleased', -⟩
        · exact Or.inl hpassed
        · exact Or.inr (Or.inl hleased')
    · exact Or.inr (Or.inr ⟨hretry, hrecalls.mono hgrows' fun _ he => List.mem_cons_of_mem _ he⟩)
  · intro later c earlier j now hsplit hc hij hkey hnow hearly
    have hsplit' := hlog.symm.trans hsplit
    rcases List.cons_eq_append_iff.mp hsplit' with ⟨rfl, hnew⟩ | ⟨later', rfl, hold⟩
    · -- the claim takes effect now, so the lease does not stand any more
      obtain ⟨rfl, hbefore⟩ := List.cons.inj hnew
      have hlate : ¬ d.clock.Passed lease.deadline s'.time :=
        fun hpassed => absurd (hpassed.le hnow) (not_le.mpr hearly)
      rcases hsec.stands earlier hbefore.symm with hpassed | hleased | ⟨hretry, hrecalls⟩
      · exact absurd hpassed hlate
      · have hother : x.owner = some i → lease.token ∉ x.request.tokens :=
          fun howner => absurd (Option.some.inj (hc.owner.symm.trans howner)) hij
        rcases leased_execute hs hT hx hleased hother with hpassed | ⟨-, hfree⟩
        · exact absurd hpassed hlate
        · exact absurd hc (hfree _ hlog j hij hkey)
      · exact ⟨hretry, hrecalls.mono hgrows' fun _ he => he⟩
    · obtain ⟨hretry, hrecalls⟩ := hsec.claims later' c earlier j now hold hc hij hkey hnow hearly
      exact ⟨hretry, hrecalls.mono hgrows' fun _ he => he⟩

/-- **Every step keeps a lease secure.** -/
theorem Secure.step {s'' : System ι δ} {e : Move ι} (hsec : Secure d s s' i h lease)
    (hgrows : s.Grows s') (hs : s'.Sound d) (hT : s'.Mints i lease.token)
    (hretried : ∀ (n : Nat) (x : Issued ι), s'.issued[n]? = some x → x.owner = some i →
      x.fate = .inFlight → lease.token ∈ x.request.tokens → h.unconfirmed = some lease.token)
    (hstep : s'.step d rules e = some s'') : Secure d s s'' i h lease := by
  have hgrows' : s'.Grows s'' := grows_step hstep
  rcases effect_or_quiet hstep with ⟨n, x, hx, hfate, rfl⟩ | ⟨htable, hlog, htime⟩
  · exact hsec.execute hgrows hs hT hx hfate (hretried n x hx · hfate)
  · refine ⟨fun newer hnewer => ?_, fun later c earlier j now hsplit hc hij hkey hnow hearly => ?_⟩
    · rcases hsec.stands newer (hlog ▸ hnewer) with hpassed | hleased | ⟨hretry, hrecalls⟩
      · exact Or.inl (hpassed.mono htime)
      · refine Or.inr (Or.inl ?_)
        rw [Leased, htable]
        exact hleased
      · exact Or.inr (Or.inr ⟨hretry, hrecalls.mono hgrows' fun _ he => he⟩)
    · obtain ⟨hretry, hrecalls⟩ :=
        hsec.claims later c earlier j now (hlog ▸ hsplit) hc hij hkey hnow hearly
      exact ⟨hretry, hrecalls.mono hgrows' fun _ he => he⟩

theorem Acquired.secure (hl : Acquired d rules s s' i h lease) (hhonest : rules.honest = true)
    {s'' : System ι δ} (hidle : s'.Idles d rules i s'') : Secure d s' s'' i h lease := by
  obtain ⟨h', hc, htoken⟩ := hl.returned
  obtain ⟨-, hbehind⟩ := hl.token hhonest
  have hminted : s'.Mints i lease.token := (hl.reached.sound.within hc).token _ htoken
  induction hidle with
  | refl => exact secure_refl hl.row
  | @step s₁ s₂ e hidle he hs ih =>
      have haside : Aside i s' s₁ := hidle.aside hc
      have hgrows : s'.Grows s₁ := hidle.grows
      refine ih.step hgrows (hidle.reachable hl.reached).sound (hgrows.minted i _ hminted) ?_ hs
      -- what the handle may still have under way was under way when its acquisition began
      intro n x hx howner hfate hmem
      have hn : n < s.issued.length := hbehind _ n (haside.underWay ⟨x, hx, howner, rfl, hfate⟩)
      exact hl.retried hhonest (hl.grows.trans hgrows) hx howner hn hmem

/-- **A lease survives what its handle's earlier calls left behind**, unless its acquisition retried a
claim. No statement of an earlier call harms it, whenever it takes effect, but one with the retried
token. So as long as the handle starts nothing new, no other handle's claim counts before the
deadline, unless such a statement has taken effect first. -/
theorem lease_survives (hl : Acquired d rules s s' i h lease) (hhonest : rules.honest = true)
    (hforward : d.clock.Forward) :
    (∀ es s'' n x, s'.run d rules es = some s'' → s''.issued[n]? = some x → x.owner = some i →
      n < s.issued.length → s''.Harms d i lease n x →
        h.unconfirmed = some lease.token ∧ lease.token ∈ x.request.tokens) ∧
    ∀ s'', s'.Idles d rules i s'' → ∀ (later : List (Entry ι δ)) (e : Entry ι δ)
      (earlier : List (Entry ι δ)) (j : ι) (now : δ),
      s''.log = later ++ e :: (earlier ++ s'.log) → e.Claimed j → j ≠ i → d.key j = d.key i →
      (d.clock.moment e.time).now = some now → now < lease.deadline →
        h.unconfirmed = some lease.token ∧ s''.Recalls i lease.token earlier := by
  constructor
  · intro es s'' n x hrun hx howner hn hharm
    have hr : Reachable d rules s'' := reachable_run hl.reached hrun
    have hmem : lease.token ∈ x.request.tokens :=
      mem_tokens_of_harms hr.sound hforward hx howner hharm
    exact ⟨hl.retried hhonest (hl.grows.trans (grows_run hrun)) hx howner hn hmem, hmem⟩
  · intro s'' hidle
    exact (hl.secure hhonest hidle).claims

end

/-! ## Two leases -/

/-- An extension runs out of time, and the lease is released. -/
def unextended : List (Move Duellist) :=
  [.acquire .holder "A" ⟨1000000000⟩, .effect 0, .reply .holder (.answered (.ok 1)),
    .extend .holder ⟨1000000000⟩, .tick 10000, .reply .holder (.overran ⟨10000000⟩),
    .release .holder, .effect 2, .reply .holder (.answered (.ok 1))]

/-- The key is claimed anew, for a hundred seconds. -/
def claimedAnew : List (Move Duellist) :=
  unextended ++ [.acquire .holder "B" ⟨100000000000⟩, .effect 3, .reply .holder (.answered (.ok 1))]

/-- The extension that was left behind does not harm the new lease. -/
theorem lease_unharmed :
    ∃ (s s₁ : System Duellist Int) (h : Handle) (lease : Row Int) (x : Issued Duellist),
      Acquired .impatient .truthful s s₁ .holder h lease ∧ Rules.truthful.honest = true ∧
      Deployment.impatient.clock.Forward ∧ s₁.run .impatient .truthful [] = some s₁ ∧
      s₁.issued[1]? = some x ∧ x.owner = some .holder ∧ 1 < s.issued.length ∧ x.fate = .inFlight ∧
      ¬ s₁.Harms .impatient .holder lease 1 x := by
  have hbefore : (play .impatient .truthful unextended).map (fun s => s.clients .holder) =
      some (.resting ⟨"job", none, none⟩ (some (.release, .ok ()))) := rfl
  have hafter : (play .impatient .truthful claimedAnew).map
      (fun s => (s.clients .holder, s.table.row? (Deployment.impatient.key .holder))) =
        some (.resting ⟨"job", some "B", none⟩ (some (.acquire, .ok ())),
          some ⟨"job", "B", 100010000⟩) := rfl
  obtain ⟨s, s₁, hs, hs₁, hl⟩ := acquired_of_play hbefore (by simp [Move.starts]) hafter rfl
  -- the extension is the second statement, and it has not run yet
  have hcount : (play .impatient .truthful unextended).map (fun s => s.issued.length) = some 3 := rfl
  have hlate : (play .impatient .truthful claimedAnew).map
      (fun s => s.issued[1]?.map fun x => (x.owner, x.fate.isInFlight)) =
        some (some (some .holder, true)) := rfl
  rw [hs] at hcount
  rw [show play .impatient .truthful claimedAnew = some s₁ from hs₁] at hlate
  have hcount : 1 < s.issued.length := by
    rw [show s.issued.length = 3 from Option.some.inj hcount]
    decide
  obtain ⟨x, hx, hends⟩ := Option.map_eq_some_iff.mp (Option.some.inj hlate)
  obtain ⟨howner, hflight⟩ := Prod.mk.inj hends
  have hfate : x.fate = .inFlight := by
    cases hx : x.fate with
    | inFlight => rfl
    | done outcome => exact absurd hflight (by simp [hx, Fate.isInFlight])
  refine ⟨s, s₁, _, _, x, hl, rfl, Clock.integral_forward, rfl, hx, howner, hcount, hfate, fun hharm => ?_⟩
  obtain ⟨hretried, -⟩ :=
    (lease_survives hl rfl Clock.integral_forward).1 [] s₁ 1 x rfl hx howner hcount hharm
  exact absurd hretried (by simp)

/-- A claim and then a release of it run out of time. -/
def abandoned : List (Move Duellist) :=
  [.acquire .holder "A" ⟨1000000000⟩, .tick 10000, .reply .holder (.overran ⟨10000000⟩),
    .release .holder, .tick 20000, .reply .holder (.overran ⟨10000000⟩)]

/-- The claim is made again, for a hundred seconds. -/
def retried : List (Move Duellist) :=
  abandoned ++ [.acquire .holder "B" ⟨100000000000⟩, .effect 2, .reply .holder (.answered (.ok 1))]

/-- Now the release takes effect, and the other handle claims the key. -/
def robbery : List (Move Duellist) := [.effect 1, .acquire .rival "C" ⟨5000⟩, .effect 3]

/-- The release that was left behind. -/
def leftBehind : Issued Duellist where
  owner := some .holder
  operation := .release
  request :=
    let m := Deployment.impatient.manager .holder
    m.request m.releaseStatement (Handle.ownValues ⟨"job", none, some "A"⟩ .zero)
  fate := .inFlight

/-- **A lease whose token was retried** can be deleted long before its deadline. -/
theorem lease_harmed :
    ∃ (s s₁ s₂ : System Duellist Int) (h : Handle) (lease : Row Int) (x : Issued Duellist)
      (e : Entry Duellist Int),
      Acquired .impatient .truthful s s₁ .holder h lease ∧
      (1 < s.issued.length ∧ s₁.issued[1]? = some x ∧ x.owner = some .holder ∧ x.fate = .inFlight ∧
        s₁.Harms .impatient .holder lease 1 x) ∧
      s₁.Idles .impatient .truthful .holder s₂ ∧ e ∈ s₂.log ∧ e.Claimed .rival ∧ e.time < lease.deadline := by
  have hbefore : (play .impatient .truthful abandoned).map (fun s => s.clients .holder) =
      some (.resting ⟨"job", none, some "A"⟩
        (some (.release, .error (.transport "job" .release (.timeout ⟨10000000⟩))))) := rfl
  have hafter : (play .impatient .truthful retried).map
      (fun s => (s.clients .holder, s.table.row? (Deployment.impatient.key .holder))) =
        some (.resting ⟨"job", some "A", none⟩ (some (.acquire, .ok ())),
          some ⟨"job", "A", 100020000⟩) := rfl
  obtain ⟨s, s₁, hs, hs₁, hl⟩ := acquired_of_play hbefore (by simp [Move.starts]) hafter rfl
  have hs₁ : play .impatient .truthful retried = some s₁ := hs₁
  -- the release is the second statement; it carries the token that the claim retries
  have hcount : (play .impatient .truthful abandoned).map (fun s => s.issued.length) = some 2 := rfl
  have hlate : (play .impatient .truthful retried).map (fun s => s.issued[1]?) =
      some (some leftBehind) := rfl
  have hgone : (play .impatient .truthful retried).map
      (fun s => (s.execute .impatient 1 leftBehind).table.row? (Deployment.impatient.key .holder)) =
        some none := rfl
  have hrobbed : (play .impatient .truthful (retried ++ robbery)).map (fun s => s.log.head?) =
      some (some ⟨some .rival, .acquire, 3, 20000, 1, some ⟨"job", "C", 20005⟩⟩) := rfl
  rw [hs] at hcount
  rw [hs₁] at hlate hgone
  have hcount : s.issued.length = 2 := Option.some.inj hcount
  obtain ⟨s₂, hs₂, hhead⟩ := Option.map_eq_some_iff.mp hrobbed
  have hrun : s₁.run .impatient .truthful robbery = some s₂ := by
    rw [play, run_append, ← play, hs₁] at hs₂
    exact hs₂
  have hharm : s₁.Harms .impatient .holder ⟨"job", "A", 100020000⟩ 1 leftBehind := by
    refine ⟨⟨_, hl.row, rfl, le_refl _⟩, fun r hr => ?_⟩
    exact absurd ((Option.some.inj hgone).symm.trans hr) (by simp)
  refine ⟨s, s₁, s₂, _, _, leftBehind, _, hl, ⟨?_, Option.some.inj hlate, rfl, rfl, hharm⟩,
    idles_of_run (by simp [robbery, Move.starts]) hrun, List.mem_of_mem_head? hhead,
    ⟨rfl, rfl, Nat.one_pos⟩, ?_⟩
  · rw [hcount]
    decide
  · decide

end System

end LeaseLock
