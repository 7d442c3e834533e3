/-
# LeaseLock.Proofs.Film -- exclusive runs by the clock

On the stage of a script an extension falls due when the script says so. Here time decides. The world
of a run counts nanoseconds, a `Film` gives each of its statements a time within which it takes effect
and is answered truly, and extension `k` is sent `k` intervals after the answer to the claim, or as
soon as the one before it is answered, whichever is later. What the others do meanwhile is up to the
film, as far as their moves fit into the time.

The run is filmed until its task ends: a `Reel` keeps every state that was seen, so that what holds at
every instant of a run is a law about the shots of its reel.
-/
import LeaseLock.Proofs.Stage

namespace LeaseLock

/-! ## Reels -/

/-- **A run on film**: the system as it is now, and the states that were seen so far, last one first. -/
structure Reel (ι δ : Type) where
  now : System ι δ
  shots : List (System ι δ)

namespace Reel

variable {ι δ : Type}

def start (s : System ι δ) : Reel ι δ := ⟨s, [s]⟩

/-- The next state. -/
def shoot (w : Reel ι δ) (s : System ι δ) : Reel ι δ := ⟨s, s :: w.shots⟩

variable [DecidableEq ι] [LinearOrder δ] (d : Deployment ι δ) (i : ι)

/-- A move of the others, if it does not lead beyond the limit. -/
def follow (limit : Int) (w : Reel ι δ) (e : Move ι) : Reel ι δ :=
  if (w.now.follow d i e).time ≤ limit then w.shoot (w.now.follow d i e) else w

def play (limit : Int) (moves : List (Move ι)) (w : Reel ι δ) : Reel ι δ :=
  moves.foldl (follow d i limit) w

/-- The run waits for an instant, and the others move. -/
def wait (moves : List (Move ι)) (t : Int) (w : Reel ι δ) : Reel ι δ :=
  w.play d i t (moves ++ [.tick t])

end Reel

/-! ## Films -/

/-- The true reply to a statement that is done; `cause` is what the driver reports of a failure. -/
def Fate.reply (cause : Violation → Fault) : Fate → Reply
  | .inFlight => .overran .zero
  | .done (.ok n) => .answered (.ok n)
  | .done (.error .duplicateKey) => .answered (.error (.duplicateKey (cause .duplicateKey)))
  | .done (.error (.notNull column)) => .answered (.error (.database (cause (.notNull column))))

/-- **Film** of an exclusive run: how long its task takes and how it ends, and what goes on meanwhile.
Statements are known by their numbers. -/
structure Film (ι α : Type) where
  /-- A statement takes effect and is answered within this time. -/
  within : Duration
  /-- The moves before a statement takes effect, and those between its effect and its answer. -/
  before : Nat → List (Move ι) := fun _ => []
  after : Nat → List (Move ι) := fun _ => []
  /-- The moves before each extension, and those after the last one. -/
  waiting : Nat → List (Move ι) := fun _ => []
  last : List (Move ι) := []
  /-- How long the task takes. -/
  sleep : Duration
  ending : TaskEnd α
  /-- Where an extension falls due at the very end of the task, whether the end comes first. -/
  overtaken : Nat → Bool := fun _ => false
  /-- Where the task may end before an extension is answered, whether it does. -/
  cut : Nat → Bool := fun _ => false
  cause : Violation → Fault
  release : List (Cue ι)
  /-- The reading of the run's own clock after the claim. -/
  clock : Duration := .zero

namespace Film

variable {ι δ α : Type} [DecidableEq ι] [LinearOrder δ]

section

variable (film : Film ι α) (d : Deployment ι δ) (i : ι)

/-- A request of the run: its statement takes effect and is answered, both by the instant `due`. -/
def serve (op : Operation) (due : Int → Int) (w : Reel ι δ) (r : Request) : Reel ι δ × Reply :=
  let n := w.now.issued.length
  let sent := w.shoot (w.now.issue (some i) op r)
  let served := sent.play d i (due w.now.time) (film.before n ++ .effect n :: film.after n)
  (served, ((served.now.issued[n]?.map Issued.fate).getD .inFlight).reply film.cause)

/-- A request that is given up at the end of the task. Its statement may have taken effect. -/
def leave (stop : Int) (w : Reel ι δ) (r : Request) : Reel ι δ × Option Reply :=
  let sent := w.shoot (w.now.issue (some i) .extend r)
  (sent.wait d i (film.before w.now.issued.length) stop, none)

/-- Extends the lease at each of the next `left` ticks, from tick `k` on, until the task ends at
`stop`; gives the error of the first extension that fails. -/
def extending (e : Extension) (start stop : Int) :
    Nat → Nat → Reel ι δ → Reel ι δ × Option LockError × List Event
  | 0, _, w => (w.wait d i film.last stop, none, [])
  | left + 1, k, w =>
    let begins := max w.now.time (start + k * e.every.nanos)
    if stop < begins ∨ stop = begins ∧ film.overtaken k then (w.wait d i film.last stop, none, [])
    else
      let w := w.wait d i (film.waiting k) begins
      if stop ≤ begins + film.within.nanos ∧ film.cut k then
        ((e.call.runWhile (film.leave d i stop) w).1, none, [])
      else
        match e.call.run (film.serve d i .extend fun t => min (t + film.within.nanos) stop) w with
        | (w, ⟨_, .error err, events⟩) => (w, some err, events)
        | (w, ⟨_, .ok (), events⟩) =>
          let (w, lost, later) := extending e start stop left (k + 1) w
          (w, lost, events ++ later)

/-- The task at work. Extensions that fall due after its end are none of its business. -/
def work (w : Reel ι δ) (extension : Option Extension) : Reel ι δ × Stop α × List Event :=
  let stop := w.now.time + film.sleep.nanos
  match extension with
  | none => (w.wait d i film.last stop, .ended film.ending, [])
  | some e =>
    match film.extending d i e w.now.time stop (film.sleep.nanos / e.every.nanos) 1 w with
    | (w, some err, events) => (w, .leaseLost err, events)
    | (w, none, events) => (w, .ended film.ending, events)

/-- **The stage of a film**. The release is not filmed, and may go as on any other stage. -/
def stage : Stage (Reel ι δ) α where
  perform w call := call.run (film.serve d i .acquire fun t => t + film.within.nanos) w
  performWithin w _ call :=
    let (out, finished) := call.runWhile (System.serve d i .release) (w.now, film.release)
    ({ w with now := out.1 }, finished)
  work := film.work d i
  clock _ := film.clock

end

end Film

theorem Call.run_ask {ω σ β : Type} {serve : ω → Request → ω × Reply} {w w' : ω} {request : Request}
    {reply : Reply} {held : σ} {resume : Reply → Call σ β} (h : serve w request = (w', reply)) :
    (Call.ask request held resume).run serve w = (resume reply).run serve w' := by
  rw [run, h]

section

variable (cause : Violation → Fault) (outcome : Except Violation Nat)

/-- A true answer says that a statement has counted exactly if it has. -/
theorem Fate.rows_reply :
    ((Fate.done outcome).reply cause).rows.map (fun n => decide (0 < n)) = .ok true ↔
      0 < affectedRows outcome := by
  rcases outcome with (_ | _) | n <;>
    simp [Fate.reply, Reply.rows, affectedRows, Except.map]

theorem Fate.insertedRows_reply :
    ((Fate.done outcome).reply cause).insertedRows.map (fun n => decide (0 < n)) = .ok true ↔
      0 < affectedRows outcome := by
  rcases outcome with (_ | _) | n <;>
    simp [Fate.reply, Reply.insertedRows, Reply.rows, affectedRows, Except.map]

end

/-! ## What is filmed stays on film -/

namespace System

variable {ι δ : Type} [DecidableEq ι] [LinearOrder δ] (d : Deployment ι δ) (i : ι)
  {s : System ι δ} {n : Nat}

/-- An effect takes no time. -/
theorem follow_effect_time : (s.follow d i (.effect n)).time = s.time := by
  rcases follow_cases d i s (.effect n) with hsame | ⟨-, hs⟩
  · rw [hsame]
  · generalize s.follow d i (.effect n) = s' at hs
    cases step_cases hs with
    | effect _ _ _ => rfl

/-- A statement that was issued is done after its effect, if it was not before. -/
theorem follow_effect_done {x : Issued ι} (hx : s.issued[n]? = some x) :
    ∃ y outcome, (s.follow d i (.effect n)).issued[n]? = some y ∧ y.fate = .done outcome := by
  cases hfate : x.fate with
  | inFlight =>
      have runs : s.follow d i (.effect n) = s.execute d n x := by
        rw [follow, if_neg (by simp [Move.starts]), step_effect hx hfate (Or.inl rfl)]
        rfl
      rw [runs]
      exact ⟨_, _, getElem?_execute_self hx, rfl⟩
  | done outcome =>
      obtain ⟨y, hy, hlater⟩ := (grows_follow d i s (.effect n)).issued n x hx
      exact ⟨y, outcome, hy, hlater.done hfate⟩

end System

namespace Reel

variable {ι δ : Type} [DecidableEq ι] [LinearOrder δ] {d : Deployment ι δ} {i : ι} {limit : Int}

theorem follow_shots (w : Reel ι δ) (e : Move ι) : w.shots ⊆ (w.follow d i limit e).shots := by
  unfold follow
  split
  · exact List.subset_cons_self _ _
  · exact List.Subset.refl _

theorem play_shots (w : Reel ι δ) (moves : List (Move ι)) :
    w.shots ⊆ (w.play d i limit moves).shots := by
  induction moves generalizing w with
  | nil => exact List.Subset.refl _
  | cons e moves ih => exact List.Subset.trans (follow_shots w e) (ih _)

theorem time_le_play (w : Reel ι δ) (moves : List (Move ι)) :
    w.now.time ≤ (w.play d i limit moves).now.time := by
  induction moves generalizing w with
  | nil => exact Int.le_refl _
  | cons e moves ih =>
      have first : w.now.time ≤ (w.follow d i limit e).now.time := by
        unfold follow
        split
        · exact System.time_le_follow d i w.now e
        · exact Int.le_refl _
      exact first.trans (ih _)

/-- Time that passes in a move does not lead beyond the limit. -/
theorem follow_time_le {w : Reel ι δ} (h : w.now.time ≤ limit) (e : Move ι) :
    (w.follow d i limit e).now.time ≤ limit := by
  unfold follow
  split
  · assumption
  · exact h

theorem play_time_le {w : Reel ι δ} (h : w.now.time ≤ limit) (moves : List (Move ι)) :
    (w.play d i limit moves).now.time ≤ limit := by
  induction moves generalizing w with
  | nil => exact h
  | cons e moves ih => exact ih (follow_time_le h e)

/-- A run that waits for an instant sees it. -/
theorem wait_time {t : Int} {w : Reel ι δ} (h : w.now.time ≤ t) (moves : List (Move ι)) :
    (w.wait d i moves t).now.time = t := by
  have early : (w.play d i t moves).now.time ≤ t := play_time_le h moves
  have ticks : (w.play d i t moves).now.follow d i (.tick t) =
      { (w.play d i t moves).now with time := t } := by
    rw [System.follow, if_neg (by simp [Move.starts]), System.step, if_pos early]
    rfl
  have last : w.wait d i moves t = (w.play d i t moves).follow d i t (.tick t) := by
    rw [wait, play, List.foldl_append]
    rfl
  rw [last, follow, ticks, if_pos (Int.le_refl t)]
  rfl

end Reel

namespace Film

variable {ι δ α : Type} [DecidableEq ι] [LinearOrder δ] {film : Film ι α} {d : Deployment ι δ}
  {i : ι} {op : Operation} {due : Int → Int}

theorem serve_shots (w : Reel ι δ) (r : Request) :
    w.shots ⊆ (film.serve d i op due w r).1.shots := by
  have sent : w.shots ⊆ (w.shoot (w.now.issue (some i) op r)).shots := List.subset_cons_self _ _
  exact List.Subset.trans sent (Reel.play_shots _ _)

theorem run_shots {σ β : Type} (call : Call σ β) (w : Reel ι δ) :
    w.shots ⊆ (call.run (film.serve d i op due) w).1.shots := by
  induction call generalizing w with
  | done state result events => exact List.Subset.refl _
  | ask r held resume ih => exact List.Subset.trans (serve_shots w r) (ih _ _)

theorem runWhile_shots {σ β : Type} (call : Call σ β) {stop : Int} (w : Reel ι δ) :
    w.shots ⊆ (call.runWhile (film.leave d i stop) w).1.shots := by
  cases call with
  | done state result events => exact List.Subset.refl _
  | ask r held resume =>
      have sent : w.shots ⊆ (w.shoot (w.now.issue (some i) .extend r)).shots :=
        List.subset_cons_self _ _
      exact List.Subset.trans sent (Reel.play_shots _ _)

theorem extending_shots (e : Extension) (start stop : Int) (left k : Nat) (w : Reel ι δ) :
    w.shots ⊆ (film.extending d i e start stop left k w).1.shots := by
  induction left generalizing k w with
  | zero => exact Reel.play_shots _ _
  | succ left ih =>
      unfold extending
      dsimp only
      split
      · exact Reel.play_shots _ _
      split
      · exact List.Subset.trans (Reel.play_shots _ _) (runWhile_shots _ _)
      let waiting := w.wait d i (film.waiting k) (max w.now.time (start + k * e.every.nanos))
      have ran : waiting.shots ⊆ (e.call.run
          (film.serve d i .extend fun t => min (t + film.within.nanos) stop) waiting).1.shots :=
        run_shots _ _
      have waited := List.Subset.trans (Reel.play_shots w _) ran
      split
      · rename_i hrun
        rw [hrun] at waited
        exact waited
      · rename_i hrun
        rw [hrun] at waited
        exact List.Subset.trans waited (ih _ _)

theorem work_shots {w w' : Reel ι δ} {extension : Option Extension} {stop : Stop α}
    {noted : List Event} (h : (film.stage d i).work w extension = (w', stop, noted)) :
    w.shots ⊆ w'.shots := by
  unfold stage work at h
  dsimp only at h
  cases extension with
  | none =>
      cases h
      exact Reel.play_shots _ _
  | some e =>
      have extending : w.shots ⊆ (film.extending d i e w.now.time (w.now.time + film.sleep.nanos)
          (film.sleep.nanos / e.every.nanos) 1 w).1.shots :=
        extending_shots _ _ _ _ _ _
      dsimp only at h
      split at h
      all_goals
        rename_i hout
        rw [hout] at extending
        cases h
        exact extending

end Film

end LeaseLock
