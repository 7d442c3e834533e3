/-
# LeaseLock.Proofs.Stage -- exclusive runs among other handles

An exclusive run takes place on a **stage**, and this one is a system of many handles. A `Script`
says what happens while the run waits: any moves of the others, effects of any statement under way,
also of the run's own and as late as the script likes, and the replies that the run gets, as far as
they are true. Whatever the run's timers may do is a matter of the script, too: how often an extension
falls due, when the task ends, and whether a statement is given up on the way.

So a theorem about all scripts is about every interleaving of the run, statement by statement.
-/
import LeaseLock.Exclusive
import LeaseLock.Proofs.History

namespace LeaseLock

/-! ## Scripts -/

/-- What happens while a statement of the run is under way. -/
inductive Cue (ι : Type) where
  | move (e : Move ι)
  | reply (r : Reply)
  /-- The run stops waiting: its budget is used up, or its task has ended. -/
  | giveUp

/-- **Script** of an exclusive run: what happens during the claim, before and during each extension,
after the last one, and during the release. -/
structure Script (ι α : Type) where
  claim : List (Cue ι)
  rounds : List (List (Move ι) × List (Cue ι)) := []
  last : List (Move ι) := []
  ending : TaskEnd α
  release : List (Cue ι)
  /-- The reading of the run's own clock after the claim. -/
  clock : Duration := .zero

instance {ι : Type} [DecidableEq ι] (i : ι) : DecidablePred (Move.starts i)
  | .acquire j _ _ | .extend j _ | .release j => inferInstanceAs (Decidable (i = j))
  | .purge _ | .effect _ | .reply _ _ | .drop _ | .tick _ => inferInstanceAs (Decidable False)

/-- **Running** a call that may be given up at every request. -/
def Call.runWhile {ω σ α : Type} (serve : ω → Request → ω × Option Reply) :
    ω → Call σ α → ω × Option (Call.Finished σ α)
  | w, .done state result events => (w, some ⟨state, result, events⟩)
  | w, .ask request _ resume =>
    match serve w request with
    | (w', some reply) => (resume reply).runWhile serve w'
    | (w', none) => (w', none)

section

variable {ω σ α : Type} {serve : ω → Request → ω × Option Reply} {w w' : ω}

/-- A call that is done with its first answer. -/
theorem Call.runWhile_once {r : Request} {held state : σ} {resume : Reply → Call σ α} {reply : Reply}
    {result : α} {events : List Event} (hserve : serve w r = (w', some reply))
    (hdone : resume reply = .done state result events) :
    (Call.ask r held resume).runWhile serve w = (w', some ⟨state, result, events⟩) := by
  simp only [runWhile, hserve, hdone]

/-- A call that is not given up runs as if it could not be. -/
theorem Call.run_of_runWhile {call : Call σ α} {finished : Call.Finished σ α} (lost : Reply)
    (h : call.runWhile serve w = (w', some finished)) :
    call.run (fun w r => ((serve w r).1, (serve w r).2.getD lost)) w = (w', finished) := by
  induction call generalizing w with
  | done state result events =>
      obtain ⟨rfl, hfinished⟩ := Prod.mk.inj h
      rw [run, Option.some.inj hfinished]
  | ask r held resume ih =>
      unfold runWhile at h
      split at h
      · rename_i next reply hserve
        simp only [run, hserve]
        exact ih reply h
      · exact absurd (Prod.mk.inj h).2 (by simp)

end

namespace System

variable {ι δ α : Type} [DecidableEq ι] [LinearOrder δ]

/-! ## The world of a run -/

section

variable (d : Deployment ι δ) (i : ι)

/-- A move of the others, if it is possible. No other call uses the handle of the run. -/
def follow (s : System ι δ) (e : Move ι) : System ι δ :=
  if e.starts i then s else (s.step d .anything e).getD s

/-- What happens until the run gets a true reply to statement `n` or stops waiting. Where the script
is over, the answer is lost. -/
def await (n : Nat) : List (Cue ι) → System ι δ → (System ι δ × List (Cue ι)) × Option Reply
  | [], s => ((s, []), some (.overran .zero))
  | .move e :: cues, s => await n cues (s.follow d i e)
  | .reply r :: cues, s => if s.truthful n r then ((s, cues), some r) else await n cues s
  | .giveUp :: cues, s => ((s, cues), none)

/-- A request of the run: its statement is issued and awaited. -/
def serve (op : Operation) (w : System ι δ × List (Cue ι)) (r : Request) :
    (System ι δ × List (Cue ι)) × Option Reply :=
  await d i w.1.issued.length w.2 (w.1.issue (some i) op r)

/-- A request of the run that is not given up: at most its answer is lost. -/
def serveFully (op : Operation) (w : System ι δ × List (Cue ι)) (r : Request) :
    (System ι δ × List (Cue ι)) × Reply :=
  let (w', reply) := serve d i op w r
  (w', reply.getD (.overran .zero))

/-- The work under a lease, with its extensions: the first failure, if there is one, and the log. -/
def extendOn (extension : Call Handle (Except LockError Unit)) :
    List (List (Move ι) × List (Cue ι)) → System ι δ → System ι δ × Option LockError × List Event
  | [], s => (s, none, [])
  | (moves, cues) :: rounds, s =>
    match extension.runWhile (serve d i .extend) (moves.foldl (follow d i) s, cues) with
    | (w, none) => (w.1, none, [])
    | (w, some ⟨_, .error e, events⟩) => (w.1, some e, events)
    | (w, some ⟨_, .ok (), events⟩) =>
      let (s, lost, later) := extendOn extension rounds w.1
      (s, lost, events ++ later)

end

/-- **The stage of a script**, for the handle `i` of a deployment. -/
def stage (d : Deployment ι δ) (i : ι) (script : Script ι α) : Stage (System ι δ) α where
  perform s call :=
    let (w, finished) := call.run (serveFully d i .acquire) (s, script.claim)
    (w.1, finished)
  performWithin s _ call :=
    let (w, finished) := call.runWhile (serve d i .release) (s, script.release)
    (w.1, finished)
  work s extension :=
    let (s, lost, events) :=
      match extension with
      | none => (s, none, [])
      | some x => extendOn d i x.call script.rounds s
    match lost with
    | some e => (s, .leaseLost e, events)
    | none => (script.last.foldl (follow d i) s, .ended script.ending, events)
  clock _ := script.clock

/-! ## What holds throughout a run -/

section

variable {d : Deployment ι δ} {i : ι} {J : System ι δ → Prop} {op : Operation}

theorem follow_cases (d : Deployment ι δ) (i : ι) (s : System ι δ) (e : Move ι) :
    s.follow d i e = s ∨ ¬ e.starts i ∧ s.step d .anything e = some (s.follow d i e) := by
  unfold follow
  split
  · exact Or.inl rfl
  · rename_i he
    cases hs : s.step d .anything e with
    | none => exact Or.inl rfl
    | some s' => exact Or.inr ⟨he, rfl⟩

theorem grows_follow (d : Deployment ι δ) (i : ι) (s : System ι δ) (e : Move ι) :
    s.Grows (s.follow d i e) := by
  rcases follow_cases d i s e with hsame | ⟨-, hs⟩
  · rw [hsame]
    exact .refl s
  · exact grows_step hs

/-- Time does not go back. -/
theorem time_le_follow (d : Deployment ι δ) (i : ι) (s : System ι δ) (e : Move ι) :
    s.time ≤ (s.follow d i e).time := by
  rcases follow_cases d i s e with hsame | ⟨-, hs⟩
  · rw [hsame]
  rcases effect_or_quiet hs with ⟨n, x, -, -, hexec⟩ | ⟨-, -, htime⟩
  · rw [hexec]
    exact Int.le_refl _
  · exact htime

theorem foldl_follow_keeps (hJ : ∀ s e, J s → J (s.follow d i e)) (moves : List (Move ι))
    {s : System ι δ} (h : J s) : J (moves.foldl (follow d i) s) := by
  induction moves generalizing s with
  | nil => exact h
  | cons e moves ih => exact ih (hJ s e h)

theorem await_keeps (hJ : ∀ s e, J s → J (s.follow d i e)) (n : Nat) (cues : List (Cue ι))
    {s : System ι δ} (h : J s) : J (await d i n cues s).1.1 := by
  induction cues generalizing s with
  | nil => exact h
  | cons cue cues ih =>
      cases cue with
      | move e => exact ih (hJ s e h)
      | reply r =>
          unfold await
          split
          · exact h
          · exact ih h
      | giveUp => exact h

/-- The run gets no false reply. -/
theorem await_truthful (d : Deployment ι δ) (i : ι) (n : Nat) (cues : List (Cue ι)) (s : System ι δ)
    {r : Reply} (h : (await d i n cues s).2 = some r) :
    r.Lost ∨ (await d i n cues s).1.1.truthful n r := by
  induction cues generalizing s with
  | nil =>
      obtain rfl := Option.some.inj h
      exact Or.inl (.overran _)
  | cons cue cues ih =>
      cases cue with
      | move e => exact ih (s.follow d i e) h
      | reply reply =>
          unfold await at h ⊢
          split at h
          · rename_i htrue
            obtain rfl := Option.some.inj h
            rw [if_pos htrue]
            exact Or.inr htrue
          · rename_i hfalse
            rw [if_neg hfalse]
            exact ih s h
      | giveUp => exact absurd h (by simp [await])

/-- A property that the moves of the others keep, and the run's own requests, holds to the end of a
call. -/
theorem runWhile_keeps {σ β : Type} {P : Request → Prop} {Q : σ → Prop}
    (hJ : ∀ s e, J s → J (s.follow d i e)) (hP : ∀ s r, P r → J s → J (s.issue (some i) op r))
    {call : Call σ β} (hcall : call.Within P Q) {w : System ι δ × List (Cue ι)} (h : J w.1) :
    J (call.runWhile (serve d i op) w).1.1 := by
  induction call generalizing w with
  | done state result events => exact h
  | ask request held resume ih =>
      have asked : J (serve d i op w request).1.1 := await_keeps hJ _ _ (hP w.1 request hcall.1 h)
      unfold Call.runWhile
      split
      · rename_i w' reply hserve
        rw [hserve] at asked
        exact ih reply (hcall.2.2 reply) asked
      · rename_i w' hserve
        rw [hserve] at asked
        exact asked

theorem extendOn_keeps {P : Request → Prop} {Q : Handle → Prop}
    (hJ : ∀ s e, J s → J (s.follow d i e)) (hP : ∀ s r, P r → J s → J (s.issue (some i) .extend r))
    {extension : Call Handle (Except LockError Unit)} (hcall : extension.Within P Q)
    (rounds : List (List (Move ι) × List (Cue ι))) {s : System ι δ} (h : J s) :
    J (extendOn d i extension rounds s).1 := by
  induction rounds generalizing s with
  | nil => exact h
  | cons round rounds ih =>
      obtain ⟨moves, cues⟩ := round
      have extended := runWhile_keeps hJ hP hcall
        (w := (moves.foldl (follow d i) s, cues)) (foldl_follow_keeps hJ moves h)
      unfold extendOn
      split
      · rename_i w hrun
        rw [hrun] at extended
        exact extended
      · rename_i w state e events hrun
        rw [hrun] at extended
        exact extended
      · rename_i w state events hrun
        rw [hrun] at extended
        exact ih extended

/-- Such a property also holds to the end of the work, with any extensions. -/
theorem work_keeps {P : Request → Prop} {Q : Handle → Prop}
    (hJ : ∀ s e, J s → J (s.follow d i e)) (hP : ∀ s r, P r → J s → J (s.issue (some i) .extend r))
    (script : Script ι α) {extension : Call Handle (Except LockError Unit)}
    (hcall : extension.Within P Q) (every : Option Duration) {s : System ι δ} (h : J s) :
    J ((stage d i script).work s (every.map fun interval => ⟨interval, extension⟩)).1 := by
  unfold stage
  cases every with
  | none => exact foldl_follow_keeps hJ script.last h
  | some interval =>
      have extended := extendOn_keeps hJ hP hcall script.rounds h
      dsimp only [Option.map_some]
      split
      · exact extended
      · exact foldl_follow_keeps hJ script.last extended

end

/-! ## Scripts that leave nothing out -/

section

variable {d : Deployment ι δ} {s s' : System ι δ} {i : ι}

/-- A request that takes effect at once and is answered. -/
theorem serve_answered (op : Operation) {r : Request} {n : Nat} {t : Table δ}
    (heff : r.effect (d.clock.moment s.time) s.table = .ok (n, t)) :
    ∃ s₁ : System ι δ,
      serve d i op (s, [.move (.effect s.issued.length), .reply (.answered (.ok n))]) r =
        ((s₁, []), some (.answered (.ok n))) ∧
      s₁.table = t ∧ s₁.clients = s.clients ∧ s₁.minted = s.minted ∧ s₁.time = s.time ∧
      s₁.issued.length = s.issued.length + 1 ∧
      s₁.log = ⟨some i, op, s.issued.length, s.time, n, t.row? (d.key i)⟩ :: s.log := by
  let x : Issued ι := ⟨some i, op, r, .inFlight⟩
  let asked : System ι δ := s.issue (some i) op r
  let executed : System ι δ := asked.execute d s.issued.length x
  have issued : asked.issued[s.issued.length]? = some x := List.getElem?_concat_length
  have effect : asked.follow d i (.effect s.issued.length) = executed := by
    rw [follow, if_neg (by simp [Move.starts]), step_effect issued rfl (Or.inl rfl)]
    rfl
  obtain ⟨hsettled, htable, hissued, hlog⟩ := execute_issued (d := d) issued
    (by simp [asked, issue]) rfl rfl heff
  have htrue : executed.truthful s.issued.length (.answered (.ok n)) := by
    rw [truthful, hsettled]
    simp [Fate.allows]
  refine ⟨executed, ?_, htable, rfl, rfl, rfl, hissued, hlog⟩
  show await d i _ [.reply _] (asked.follow d i _) = _
  rw [effect, await, if_pos htrue]

/-- An acquisition by one request. -/
theorem perform_of_serve {script : Script ι α} {r : Request} {held : Handle}
    {resume : Reply → Call Handle (Except LockError Unit)} {reply : Reply} {cues : List (Cue ι)}
    (hserve : serve d i .acquire (s, script.claim) r = ((s', cues), some reply)) {state : Handle}
    {result : Except LockError Unit} {events : List Event}
    (hdone : resume reply = .done state result events) :
    (stage d i script).perform s (.ask r held resume) = (s', ⟨state, result, events⟩) := by
  have ran : (Call.ask r held resume).run (serveFully d i .acquire) (s, script.claim) =
      ((s', cues), ⟨state, result, events⟩) :=
    Call.run_of_runWhile (.overran .zero) (Call.runWhile_once hserve hdone)
  simp only [stage, ran]

/-- A release by one request. -/
theorem performWithin_of_serve {script : Script ι α} (budget : Duration) {r : Request} {held : Handle}
    {resume : Reply → Call Handle (Except LockError Unit)} {reply : Reply} {cues : List (Cue ι)}
    (hserve : serve d i .release (s, script.release) r = ((s', cues), some reply)) {state : Handle}
    {result : Except LockError Unit} {events : List Event}
    (hdone : resume reply = .done state result events) :
    (stage d i script).performWithin s budget (.ask r held resume) =
      (s', some ⟨state, result, events⟩) := by
  simp only [stage, Call.runWhile_once hserve hdone]

/-- Moves of a run in which the handle starts no call. -/
theorem foldl_follow_of_run {moves : List (Move ι)} (hmoves : ∀ e ∈ moves, ¬ e.starts i)
    (h : s.run d .anything moves = some s') : moves.foldl (follow d i) s = s' := by
  induction moves generalizing s with
  | nil => exact Option.some.inj h
  | cons e moves ih =>
      obtain ⟨next, hstep, hrest⟩ := Option.bind_eq_some_iff.mp h
      have first : s.follow d i e = next := by
        rw [follow, if_neg (hmoves e List.mem_cons_self), hstep]
        rfl
      show moves.foldl (follow d i) (s.follow d i e) = s'
      rw [first]
      exact ih (fun e' he' => hmoves e' (List.mem_cons_of_mem _ he')) hrest

end

end System

end LeaseLock
