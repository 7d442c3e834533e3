/-
# LeaseLock.Proofs.KeepAlive -- extensions in time outlive the task

A lease that lasts `b` from the effect of each statement, extended every `i`, outlives its task if every
statement takes effect and is answered within `r`, and `i + 2r < b`. For the statement that was sent at
instant `L` promises the row until `L + b`; its answer comes by `L + r`, the next tick by `L + r + i`,
and the next statement takes effect by `L + i + 2r`, while the row is still there. Ticks are counted
from the answer to the claim and deadlines from effects; all that the induction has to know of this is
that tick `k + 1` comes no later than `i` after the answer to statement `k`. An extension that is late
makes the next one late as well, but no more so.
-/
import LeaseLock.Proofs.Film
import LeaseLock.Proofs.Lifetime
import LeaseLock.Proofs.Precedence

namespace LeaseLock

variable {ι δ : Type} [DecidableEq ι] [LinearOrder δ]

open LeaseLock.System

/-! ## What is seen of a run -/

namespace Reel

/-- The database keeps time at every shot. -/
def Timely (d : Deployment ι δ) (i : ι) (stamp : Int → δ) (ttl : Duration) (w : Reel ι δ) : Prop :=
  ∀ s ∈ w.shots, s.Timely d i stamp ttl

/-- **What is seen of a run**: its state has a property, and the lease was alive at every shot. -/
structure Seen (d : Deployment ι δ) (i : ι) (T : Token) (P : System ι δ → Prop) (w : Reel ι δ) :
    Prop where
  now : P w.now
  shown : w.now ∈ w.shots
  alive : ∀ s ∈ w.shots, s.Alive d i T
  won : ∀ s ∈ w.shots, s.Won i → w.now.Won i

variable {d : Deployment ι δ} {i : ι} {T : Token} {stamp : Int → δ} {ttl : Duration}
  {P Q : System ι δ → Prop} {w : Reel ι δ} {limit : Int}

omit [DecidableEq ι] in
theorem Timely.mono {w' : Reel ι δ} (h : w'.Timely d i stamp ttl) (hshots : w.shots ⊆ w'.shots) :
    w.Timely d i stamp ttl :=
  fun s hs => h s (hshots hs)

omit [DecidableEq ι] in
theorem Seen.imp (h : w.Seen d i T P) (hPQ : P w.now → Q w.now) : w.Seen d i T Q :=
  ⟨hPQ h.now, h.shown, h.alive, h.won⟩

omit [DecidableEq ι] in
theorem Seen.shoot (h : w.Seen d i T P) {s : System ι δ} (hs : Q s) (alive : s.Alive d i T)
    (won : w.now.Won i → s.Won i) : (w.shoot s).Seen d i T Q := by
  refine ⟨hs, List.mem_cons_self, ?_, ?_⟩
  · intro f hf
    rcases List.mem_cons.mp hf with rfl | hf
    · exact alive
    · exact h.alive f hf
  · intro f hf hwon
    rcases List.mem_cons.mp hf with rfl | hf
    · exact hwon
    · exact won (h.won f hf hwon)

/-- **A law of single moves** is one of whole plays. -/
theorem Seen.play (step : ∀ s e, P s → s.Alive d i T → s.Timely d i stamp ttl →
      (s.follow d i e).Timely d i stamp ttl → (s.follow d i e).time ≤ limit →
      P (s.follow d i e) ∧ (s.follow d i e).Alive d i T)
    (moves : List (Move ι)) (h : w.Seen d i T P)
    (timely : (w.play d i limit moves).Timely d i stamp ttl) :
    (w.play d i limit moves).Seen d i T P := by
  induction moves generalizing w with
  | nil => exact h
  | cons e moves ih =>
      refine ih ?_ timely
      have first : (w.follow d i limit e).Timely d i stamp ttl := timely.mono (play_shots _ _)
      unfold Reel.follow at first ⊢
      split at first
      · rename_i hlimit
        rw [if_pos hlimit]
        obtain ⟨hP, alive⟩ := step w.now e h.now (h.alive _ h.shown)
          (first _ (List.mem_cons_of_mem _ h.shown)) (first _ List.mem_cons_self) hlimit
        exact h.shoot hP alive fun won => won.mono (grows_follow d i w.now e)
      · rename_i hlimit
        rw [if_neg hlimit]
        exact h

/-- The run waits while its lease lasts. -/
theorem Seen.wait (hstamp : StrictMono stamp) {t : Int} (ht : limit < t) (moves : List (Move ι))
    (h : w.Seen d i T (Rests d i T stamp t))
    (timely : (w.wait d i moves limit).Timely d i stamp ttl) :
    (w.wait d i moves limit).Seen d i T (Rests d i T stamp t) := by
  refine h.play ?_ _ timely
  intro s e rests alive now later hlimit
  obtain ⟨rests', alive', -⟩ := rests.follow alive now later hstamp (by omega)
  exact ⟨rests', alive'⟩

end Reel

/-! ## One statement -/

section

variable {α : Type} {film : Film ι α} {d : Deployment ι δ} {i : ι} {T : Token} {stamp : Int → δ}
  {ttl : Duration} {w : Reel ι δ} {op : Operation} {r : Request} {t limit : Int}

omit [DecidableEq ι] in
/-- A statement of the run is sent. -/
theorem Reel.Seen.issue (h : w.Seen d i T (Rests d i T stamp t)) (mine : Mine d i T ttl op r)
    (unclaimed : op = .acquire → ¬ w.now.Won i) (claimed : op = .extend → w.now.Won i) :
    (w.shoot (w.now.issue (some i) op r)).Seen d i T
      (Sent d i T stamp t w.now.time w.now.issued.length op r) := by
  have alive := h.alive _ h.shown
  have issued : (w.now.issue (some i) op r).issued[w.now.issued.length]? =
      some ⟨some i, op, r, .inFlight⟩ := List.getElem?_concat_length
  refine h.shoot ⟨⟨h.now.watched.issue (mine.sends h.now.watched.own), h.now.lasts⟩, issued, ?_,
    Int.le_refl _, unclaimed, claimed⟩ ⟨alive.live, alive.extended, alive.alone⟩ id
  rintro op' m ⟨x, hx, howner, hop, hfate⟩
  rcases issue_cases hx with hold | ⟨hm, -⟩
  · exact absurd ⟨x, hold, howner, hop, hfate⟩ (h.now.idle op' m)
  · exact hm

/-- A statement is under way, or done. -/
abbrev Underway (d : Deployment ι δ) (i : ι) (T : Token) (stamp : Int → δ) (ttl : Duration)
    (t since : Int) (n : Nat) (op : Operation) (r : Request) (s : System ι δ) : Prop :=
  Sent d i T stamp t since n op r s ∨
    ∃ outcome, Done d i T stamp (since + d.backend.boundNanos ttl) n op r outcome s

theorem Reel.Seen.play_underway (hstamp : StrictMono stamp) {since : Int} {n : Nat}
    (ht : limit < t) (hlate : limit < since + d.backend.boundNanos ttl)
    (mine : Mine d i T ttl op r) (moves : List (Move ι))
    (h : w.Seen d i T (Underway d i T stamp ttl t since n op r))
    (timely : (w.play d i limit moves).Timely d i stamp ttl) :
    (w.play d i limit moves).Seen d i T (Underway d i T stamp ttl t since n op r) := by
  refine h.play ?_ moves timely
  rintro s e (sent | ⟨outcome, done⟩) alive now later hlimit
  · exact sent.follow mine alive now later hstamp (by omega) (by omega)
  · obtain ⟨done', alive'⟩ := done.follow alive now later hstamp (by omega)
    exact ⟨Or.inr ⟨outcome, done'⟩, alive'⟩

/-- Whatever was under way is done after its effect. -/
theorem Reel.Seen.effect (hstamp : StrictMono stamp) {since : Int} {n : Nat}
    (hnow : w.now.time ≤ limit) (ht : limit < t) (hlate : limit < since + d.backend.boundNanos ttl)
    (mine : Mine d i T ttl op r) (h : w.Seen d i T (Underway d i T stamp ttl t since n op r))
    (timely : (w.follow d i limit (.effect n)).Timely d i stamp ttl) :
    (w.follow d i limit (.effect n)).Seen d i T fun s =>
      ∃ outcome, Done d i T stamp (since + d.backend.boundNanos ttl) n op r outcome s := by
  have played := h.play_underway hstamp ht hlate mine [.effect n] timely
  have after : (w.follow d i limit (.effect n)).now = w.now.follow d i (.effect n) := by
    rw [Reel.follow, if_pos (by rw [follow_effect_time]; exact hnow)]
    rfl
  refine played.imp ?_
  rintro (sent | done)
  · obtain ⟨x, hx⟩ : ∃ x, w.now.issued[n]? = some x := by
      rcases h.now with before | ⟨outcome, before⟩
      · exact ⟨_, before.issued⟩
      · exact ⟨_, before.issued⟩
    obtain ⟨y, outcome, hy, hfate⟩ := follow_effect_done d i hx
    have flight : (w.now.follow d i (.effect n)).issued[n]? = some ⟨some i, op, r, .inFlight⟩ :=
      after ▸ sent.issued
    obtain rfl := Option.some.inj (flight.symm.trans hy)
    exact absurd hfate (by simp)
  · exact done

/-- **A statement that is served** is done by the instant that it is due, and its answer is true. -/
theorem Reel.Seen.serve (hstamp : StrictMono stamp) {due : Int → Int}
    (hnow : w.now.time ≤ due w.now.time) (ht : due w.now.time < t)
    (hlate : due w.now.time < w.now.time + d.backend.boundNanos ttl)
    (h : w.Seen d i T (Rests d i T stamp t)) (mine : Mine d i T ttl op r)
    (unclaimed : op = .acquire → ¬ w.now.Won i) (claimed : op = .extend → w.now.Won i)
    (timely : (film.serve d i op due w r).1.Timely d i stamp ttl) :
    ∃ outcome, (film.serve d i op due w r).1.Seen d i T
        (Done d i T stamp (w.now.time + d.backend.boundNanos ttl) w.now.issued.length op r outcome) ∧
      (film.serve d i op due w r).2 = (Fate.done outcome).reply film.cause ∧
      (film.serve d i op due w r).1.now.time ≤ due w.now.time := by
  let n := w.now.issued.length
  let sent := w.shoot (w.now.issue (some i) op r)
  let waiting := sent.play d i (due w.now.time) (film.before n)
  let ran := waiting.follow d i (due w.now.time) (.effect n)
  have split : (film.serve d i op due w r).1 = ran.play d i (due w.now.time) (film.after n) := by
    show sent.play d i (due w.now.time) (film.before n ++ .effect n :: film.after n) = _
    rw [Reel.play, List.foldl_append]
    rfl
  have issued := h.issue mine unclaimed claimed
  have early : waiting.now.time ≤ due w.now.time := Reel.play_time_le (w := sent) hnow _
  rw [split] at timely
  have ranTimely : ran.Timely d i stamp ttl := timely.mono (Reel.play_shots _ _)
  have waited : waiting.Seen d i T (Underway d i T stamp ttl t w.now.time n op r) :=
    (issued.imp Or.inl).play_underway hstamp ht hlate mine _
      (ranTimely.mono (Reel.follow_shots _ _))
  have done := (waited.effect hstamp early ht hlate mine ranTimely).play
    (by
      rintro s e ⟨outcome, done⟩ alive now later hlimit
      obtain ⟨done', alive'⟩ := done.follow alive now later hstamp (by omega)
      exact ⟨⟨outcome, done'⟩, alive'⟩)
    (film.after n) timely
  obtain ⟨outcome, hdone⟩ := done.now
  refine ⟨outcome, ?_, ?_, ?_⟩
  · rw [split]
    exact done.imp fun _ => hdone
  · show (((film.serve d i op due w r).1.now.issued[n]?.map Issued.fate).getD .inFlight).reply _ = _
    rw [split, hdone.issued]
    rfl
  · rw [split]
    exact Reel.play_time_le (Reel.follow_time_le early _) _

/-! ## The claim -/

/-- **A lease since `L`**: the last statement of the run was sent then, and was answered in time. -/
structure Renewed (film : Film ι α) (d : Deployment ι δ) (i : ι) (T : Token) (stamp : Int → δ)
    (ttl : Duration) (L : Int) (w : Reel ι δ) : Prop where
  seen : w.Seen d i T (Rests d i T stamp (L + d.backend.boundNanos ttl))
  sent : L ≤ w.now.time
  answered : w.now.time ≤ L + film.within.nanos

variable (hstamp : StrictMono stamp) (hwithin : film.within.nanos < d.backend.boundNanos ttl)

include hstamp hwithin

/-- One statement of a claim. -/
theorem Reel.Seen.claim_statement (h : w.Seen d i T (Rests d i T stamp t)) (unwon : ¬ w.now.Won i)
    (mine : Mine d i T ttl .acquire r)
    (timely : (film.serve d i .acquire (fun t => t + film.within.nanos) w r).1.Timely d i stamp ttl) :
    ∃ w' outcome, film.serve d i .acquire (fun t => t + film.within.nanos) w r =
        (w', (Fate.done outcome).reply film.cause) ∧
      Renewed film d i T stamp ttl w.now.time w' ∧ (w'.now.Won i ↔ 0 < affectedRows outcome) := by
  -- a key that has not been won is leased for any time
  have free : w.Seen d i T (Rests d i T stamp (w.now.time + d.backend.boundNanos ttl)) :=
    h.imp fun rests => ⟨⟨rests.watched, fun won => absurd won unwon⟩, rests.idle⟩
  obtain ⟨outcome, seen, answer, intime⟩ := free.serve hstamp (by omega) (by omega) (by omega) mine (fun _ => unwon)
    (fun hop => absurd hop (by simp)) timely
  exact ⟨_, outcome, Prod.ext rfl answer,
    ⟨seen.imp Done.toRests, Reel.time_le_play (w.shoot _) _, intime⟩, seen.now.claim rfl⟩

/-- **A claim plan** comes down to a verdict that is true. -/
theorem Reel.Seen.claim (h : w.Seen d i T (Rests d i T stamp t)) (unwon : ¬ w.now.Won i) {β : Type}
    (held : Handle) (next : Except TransportError Bool → Call Handle β)
    (timely : (((d.manager i).claim (({ key := d.key i } : Handle).claimValues T ttl) held next).run
      (film.serve d i .acquire fun t => t + film.within.nanos) w).1.Timely d i stamp ttl) :
    ∃ L w' verdict,
      ((d.manager i).claim (({ key := d.key i } : Handle).claimValues T ttl) held next).run
        (film.serve d i .acquire fun t => t + film.within.nanos) w =
          (next verdict).run (film.serve d i .acquire fun t => t + film.within.nanos) w' ∧
      Renewed film d i T stamp ttl L w' ∧ (w'.now.Won i ↔ verdict = .ok true) := by
  have mine : ∀ c ∈ (d.manager i).claimPlan.statements, Mine d i T ttl .acquire
      ((d.manager i).request c (({ key := d.key i } : Handle).claimValues T ttl)) := by
    intro c hc
    have hc' : c ∈ (d.backend.claim d.table).statements := by
      rw [← d.backend_eq i, ← d.table_eq i]
      exact hc
    exact .claim (.claim hc')
  unfold Manager.claim at timely ⊢
  cases hplan : (d.manager i).claimPlan with
  | single claim =>
      rw [hplan] at timely
      obtain ⟨w', outcome, served, renewed, won⟩ := h.claim_statement hstamp hwithin unwon
        (mine claim (by simp [hplan, ClaimPlan.statements])) (timely.mono (Film.run_shots _ _))
      refine ⟨_, w', _, Call.run_ask served, renewed, ?_⟩
      rw [won, Fate.rows_reply]
  | updateThenInsert update insert =>
      rw [hplan] at timely
      obtain ⟨w', outcome, served, renewed, won⟩ := h.claim_statement hstamp hwithin unwon
        (mine update (by simp [hplan, ClaimPlan.statements])) (timely.mono (Film.run_shots _ _))
      simp only [Manager.send] at timely ⊢
      rw [Call.run_ask served] at timely ⊢
      rcases outcome with e | n
      · -- an update that has failed is the end of the claim
        obtain ⟨cause, failed⟩ :
            ∃ cause, ((Fate.done (.error e)).reply film.cause).rows = .error cause := by
          cases e <;> exact ⟨_, rfl⟩
        rw [failed]
        exact ⟨_, w', _, rfl, renewed, by simpa [affectedRows] using won⟩
      cases n with
      | succ n => exact ⟨_, w', .ok true, rfl, renewed, by simpa [affectedRows] using won⟩
      | zero =>
          -- the update has passed the row over, and the insert has the last word
          have unwon' : ¬ w'.now.Won i := by simpa [affectedRows] using won
          obtain ⟨w'', outcome, served', renewed', won'⟩ :=
            renewed.seen.claim_statement hstamp hwithin unwon'
              (mine insert (by simp [hplan, ClaimPlan.statements]))
              (timely.mono (Film.run_shots _ _))
          refine ⟨_, w'', _, Call.run_ask served', renewed', ?_⟩
          rw [won', Fate.insertedRows_reply]

/-! ## The extensions -/

omit hwithin in
/-- **An extension in time** succeeds, and the lease lasts its whole time from then on. -/
theorem Reel.Seen.extend {due : Int → Int} (hnow : w.now.time ≤ due w.now.time)
    (ht : due w.now.time < t) (hlate : due w.now.time < w.now.time + d.backend.boundNanos ttl)
    (h : w.Seen d i T (Rests d i T stamp t)) (won : w.now.Won i) (httl : ttl.isZero = false)
    (timely : ((Exclusive.extension (d.manager i) { key := d.key i, token := some T } ttl).run
      (film.serve d i .extend due) w).1.Timely d i stamp ttl) :
    ∃ w' state events, (Exclusive.extension (d.manager i) { key := d.key i, token := some T } ttl).run
        (film.serve d i .extend due) w = (w', ⟨state, .ok (), events⟩) ∧
      w'.Seen d i T (Rests d i T stamp (w.now.time + d.backend.boundNanos ttl)) ∧ w'.now.Won i ∧
      w.now.time ≤ w'.now.time ∧ w'.now.time ≤ due w.now.time := by
  obtain ⟨resume, sends, outcome⟩ := Handle.exists_extension_outcome (m := d.manager i)
    (h := { key := d.key i, token := some T }) httl rfl
  rw [sends] at timely ⊢
  obtain ⟨result, seen, answer, intime⟩ := h.serve hstamp hnow ht hlate
    (Mine.of_extension d i T ttl) (fun hop => absurd hop (by simp)) (fun _ => won)
    (timely.mono (Film.run_shots _ _))
  obtain ⟨n, rfl⟩ : ∃ n, result = .ok (n + 1) := by
    rcases result with e | n
    · exact absurd (seen.now.extension rfl) (Nat.lt_irrefl 0)
    · obtain ⟨n, rfl⟩ := Nat.exists_eq_add_one.mpr (seen.now.extension rfl)
      exact ⟨n, rfl⟩
  obtain ⟨state, events, hdone⟩ := outcome (.answered (.ok (n + 1)))
  refine ⟨_, state, events, ?_, seen.imp Done.toRests, ?_, Reel.time_le_play (w.shoot _) _, intime⟩
  · rw [Call.run_ask (Prod.ext rfl answer)]
    show (resume (.answered (.ok (n + 1)))).run _ _ = _
    rw [hdone]
    rfl
  · exact seen.won _ (Film.serve_shots _ _ h.shown) won

omit hwithin in
/-- The task ends while an extension is under way. -/
theorem Reel.Seen.leave {stop : Int} (ht : stop < t)
    (hlate : stop < w.now.time + d.backend.boundNanos ttl)
    (h : w.Seen d i T (Rests d i T stamp t)) (won : w.now.Won i) (httl : ttl.isZero = false)
    (timely : ((Exclusive.extension (d.manager i) { key := d.key i, token := some T } ttl).runWhile
      (film.leave d i stop) w).1.Timely d i stamp ttl) :
    ∀ s ∈ ((Exclusive.extension (d.manager i) { key := d.key i, token := some T } ttl).runWhile
      (film.leave d i stop) w).1.shots, s.Alive d i T := by
  obtain ⟨resume, sends, -⟩ := Handle.exists_extension_outcome (m := d.manager i)
    (h := { key := d.key i, token := some T }) httl rfl
  rw [sends] at timely ⊢
  have sent := h.issue (Mine.of_extension d i T ttl) (fun hop => absurd hop (by simp)) (fun _ => won)
  exact ((sent.imp Or.inl).play_underway hstamp ht hlate (Mine.of_extension d i T ttl) _ timely).alive

/-- **One tick**: the run waits for it, and its extension renews the lease. -/
theorem Renewed.tick {L begins stop : Int} (h : Renewed film d i T stamp ttl L w) (won : w.now.Won i)
    (httl : ttl.isZero = false) (le_begins : w.now.time ≤ begins) (early : begins ≤ stop)
    (lasting : begins + film.within.nanos < L + d.backend.boundNanos ttl) (moves : List (Move ι))
    (timely : ((Exclusive.extension (d.manager i) { key := d.key i, token := some T } ttl).run
      (film.serve d i .extend fun t => min (t + film.within.nanos) stop)
      (w.wait d i moves begins)).1.Timely d i stamp ttl) :
    ∃ w' state events, (Exclusive.extension (d.manager i) { key := d.key i, token := some T } ttl).run
        (film.serve d i .extend fun t => min (t + film.within.nanos) stop) (w.wait d i moves begins) =
          (w', ⟨state, .ok (), events⟩) ∧
      Renewed film d i T stamp ttl begins w' ∧ w'.now.Won i := by
  have now : (w.wait d i moves begins).now.time = begins := Reel.wait_time le_begins _
  have seen := h.seen.wait hstamp (by omega) moves (timely.mono (Film.run_shots _ _))
  have held : (w.wait d i moves begins).now.Won i := seen.won _ (Reel.play_shots _ _ h.seen.shown) won
  obtain ⟨w', state, events, extended, seen', won', sent, answered⟩ :=
    seen.extend hstamp (by omega) (by omega) (by omega) held httl timely
  rw [now] at seen' sent answered
  exact ⟨w', state, events, extended, ⟨seen', sent, by omega⟩, won'⟩

/-- **A lease that is extended in time** outlives the task: no extension fails, and the lease is alive
at every shot. Tick `k` comes no later than one interval after the answer to the last statement. -/
theorem Renewed.extending {e : Extension} {L : Int}
    (hcall : e.call = Exclusive.extension (d.manager i) { key := d.key i, token := some T } ttl)
    (hbound : e.every.nanos + 2 * film.within.nanos < d.backend.boundNanos ttl)
    (httl : ttl.isZero = false) {start stop : Int} {left k : Nat}
    (h : Renewed film d i T stamp ttl L w) (won : w.now.Won i)
    (hk : start + k * e.every.nanos ≤ L + film.within.nanos + e.every.nanos)
    (hstop : stop < start + (k + left : Nat) * e.every.nanos)
    (timely : (film.extending d i e start stop left k w).1.Timely d i stamp ttl) :
    (film.extending d i e start stop left k w).2.1 = none ∧
      ∀ s ∈ (film.extending d i e start stop left k w).1.shots, s.Alive d i T := by
  induction left generalizing k w L with
  | zero =>
      have lasting : stop < L + d.backend.boundNanos ttl := by
        rw [Nat.add_zero] at hstop
        omega
      exact ⟨rfl, (h.seen.wait hstamp lasting film.last timely).alive⟩
  | succ left ih =>
      have hsent := h.sent
      have hanswered := h.answered
      have begins_le : max w.now.time (start + k * e.every.nanos) ≤
          L + film.within.nanos + e.every.nanos := by omega
      have le_begins : w.now.time ≤ max w.now.time (start + k * e.every.nanos) := le_max_left _ _
      have due_le : start + k * e.every.nanos ≤ max w.now.time (start + k * e.every.nanos) :=
        le_max_right _ _
      unfold Film.extending at timely ⊢
      dsimp only at timely ⊢
      generalize max w.now.time (start + k * e.every.nanos) = begins at *
      split at timely
      · -- the task ends before this extension is due
        rename_i ended
        have lasting : stop < L + d.backend.boundNanos ttl := by omega
        rw [if_pos ended]
        exact ⟨rfl, (h.seen.wait hstamp lasting film.last timely).alive⟩
      rename_i going
      rw [if_neg going]
      have early : begins ≤ stop := by omega
      have now : (w.wait d i (film.waiting k) begins).now.time = begins := Reel.wait_time le_begins _
      split at timely
      · -- the task ends while the extension is under way
        rename_i cut
        rw [if_pos cut, hcall] at *
        have seen := h.seen.wait hstamp (by omega) _ (timely.mono (Film.runWhile_shots _ _))
        refine ⟨rfl, seen.leave hstamp (by omega) (by omega) ?_ httl timely⟩
        exact seen.won _ (Reel.play_shots _ _ h.seen.shown) won
      · rename_i uncut
        rw [if_neg uncut, hcall] at *
        generalize hran : (Exclusive.extension _ _ _).run _ _ = ran at timely ⊢
        have ranTimely : ran.1.Timely d i stamp ttl := by
          obtain ⟨w', state, result, events⟩ := ran
          cases result with
          | error err => exact timely
          | ok _ => exact timely.mono (Film.extending_shots _ _ _ _ _ _)
        rw [← hran] at ranTimely
        obtain ⟨w', state, events, extended, renewed, won'⟩ :=
          h.tick hstamp hwithin won httl le_begins early (by omega) _ ranTimely
        obtain rfl := hran.symm.trans extended
        have regroup : k + (left + 1) = k + 1 + left := by omega
        exact ih renewed won' (by push_cast; linarith) (regroup ▸ hstop) timely

/-- The claim of a run succeeds if it counts, and only then. -/
theorem Reel.Seen.acquire (h : w.Seen d i T (Rests d i T stamp t)) (unwon : ¬ w.now.Won i)
    (httl : ttl.isZero = false) {w' : Reel ι δ}
    {claimed : Call.Finished Handle (Except LockError Unit)}
    (hclaim : (film.stage d i).perform w
      (({ key := d.key i } : Handle).acquire (d.manager i) T ttl) = (w', claimed))
    (timely : w'.Timely d i stamp ttl) :
    (∃ L, Renewed film d i T stamp ttl L w') ∧ (w'.now.Won i ↔ claimed.result = .ok ()) ∧
      (claimed.result = .ok () → claimed.state = { key := d.key i, token := some T }) := by
  obtain ⟨next, claims, hwon, hheld, hfailed⟩ :=
    ({ key := d.key i } : Handle).exists_acquire_verdicts httl (d.manager i) T
  rw [claims] at hclaim
  have performed : w' = _ := (congrArg Prod.fst hclaim).symm
  obtain ⟨L, w', verdict, runs, renewed, won⟩ :=
    h.claim hstamp hwithin unwon _ next (performed ▸ timely)
  have finished := hclaim.symm.trans runs
  rcases verdict with e | _ | _
  · rw [hfailed] at finished
    cases finished
    exact ⟨⟨L, renewed⟩, by simp [won], fun hok => absurd hok (by simp)⟩
  · rw [hheld] at finished
    cases finished
    exact ⟨⟨L, renewed⟩, by simp [won], fun hok => absurd hok (by simp)⟩
  · rw [hwon] at finished
    cases finished
    exact ⟨⟨L, renewed⟩, by simp [won], fun _ => rfl⟩

/-- The work of a run goes on to the end of the task. -/
theorem Renewed.work {L : Int} {interval : Duration} (hpos : 0 < interval.nanos)
    (hbound : interval.nanos + 2 * film.within.nanos < d.backend.boundNanos ttl)
    (httl : ttl.isZero = false) (h : Renewed film d i T stamp ttl L w) (won : w.now.Won i)
    {w' : Reel ι δ} {stop : Stop α} {noted : List Event}
    (hwork : (film.stage d i).work w (some ⟨interval,
      Exclusive.extension (d.manager i) { key := d.key i, token := some T } ttl⟩) = (w', stop, noted))
    (timely : w'.Timely d i stamp ttl) :
    stop = .ended film.ending ∧ ∀ s ∈ w'.shots, s.Alive d i T := by
  let e : Extension :=
    ⟨interval, Exclusive.extension (d.manager i) { key := d.key i, token := some T } ttl⟩
  let last : Int := w.now.time + film.sleep.nanos
  have ticks : last < w.now.time + (1 + film.sleep.nanos / interval.nanos : Nat) * interval.nanos := by
    have fits : film.sleep.nanos < (1 + film.sleep.nanos / interval.nanos) * interval.nanos := by
      rw [Nat.add_comm, Nat.mul_comm]
      exact Nat.lt_mul_div_succ _ hpos
    have fits : (film.sleep.nanos : Int) <
        (1 + film.sleep.nanos / interval.nanos : Nat) * interval.nanos := by exact_mod_cast fits
    omega
  have first : w.now.time + (1 : Nat) * (interval.nanos : Int) ≤
      L + film.within.nanos + interval.nanos := by
    have answered := h.answered
    omega
  have kept := h.extending (e := e) hstamp hwithin rfl hbound httl won first ticks
  unfold Film.stage Film.work at hwork
  dsimp only at hwork
  split at hwork
  · rename_i w'' err events hout
    cases hwork
    rw [hout] at kept
    exact absurd (kept timely).1 (by simp)
  · rename_i w'' events hout
    cases hwork
    rw [hout] at kept
    exact ⟨rfl, (kept timely).2⟩

end

/-! ## The run as a whole -/

namespace Exclusive

/-- No lease lasts so long that an interval within it leads beyond the clock. -/
theorem schedulable_of_lt_bound {b : Backend} (ttl : Duration) {now interval : Duration}
    (hclock : now.seconds < Nat.pow 2 62) (hbound : interval.nanos < b.boundNanos ttl) :
    schedulable now (some interval) = true := by
  have micros : (maxTtlMicros : Int) = 9223372036854775807 := rfl
  have millis : (maxTtlMillis : Int) = 2147483647000 := rfl
  have bound : b.boundNanos ttl ≤ 9223372036854775807000 := by
    cases b <;> simp only [Backend.boundNanos, Backend.boundTtl] <;> omega
  have half : Nat.pow 2 62 = 4611686018427387904 := rfl
  have whole : Nat.pow 2 63 = 9223372036854775808 := rfl
  refine decide_eq_true ?_
  rw [half, Duration.seconds] at hclock
  rw [whole, Duration.seconds, Duration.plus]
  dsimp only
  omega

/-- How the task of a run came to its end, if it was started. -/
def stop? {ω α : Type} (stage : Stage ω α) (d : Dialect) (key : String) (o : ExclusiveOptions)
    (fresh : Token) (w : ω) : Option (Stop α) :=
  match prepare d key o with
  | .error _ => none
  | .ok (m, idle) =>
    let (w, claimed) := stage.perform w (idle.acquire m fresh o.lockTtl)
    match claimed.result with
    | .error _ => none
    | .ok () =>
      if schedulable (stage.clock w) o.extendEvery then
        let (_, stop, _) := stage.work w <|
          o.extendEvery.map fun interval => ⟨interval, extension m claimed.state o.lockTtl⟩
        some stop
      else none

/-- **A run that passes its checks**, on a clock that its schedule does not lead beyond. -/
theorem course_of_prepared {ω α : Type} {stage : Stage ω α} {d : Dialect} {key : String}
    {o : ExclusiveOptions} {fresh : Token} {w w' : ω} {m : Manager} {idle : Handle}
    {result : ExclusiveResult α} {events : List Event} (hprepare : prepare d key o = .ok (m, idle))
    (scheduled : ∀ w, schedulable (stage.clock w) o.extendEvery = true)
    (h : run stage d key o fresh w = (w', result, events)) :
    ∃ w₁ claimed, stage.perform w (idle.acquire m fresh o.lockTtl) = (w₁, claimed) ∧
      ((∃ e, claimed.result = .error e ∧ w' = w₁ ∧ stop? stage d key o fresh w = none) ∨
        claimed.result = .ok () ∧ ∃ w₂ stop noted answer,
          (stage.work w₁ <| o.extendEvery.map fun interval =>
            ⟨interval, extension m claimed.state o.lockTtl⟩) = (w₂, stop, noted) ∧
          stage.performWithin w₂ o.releaseTimeout (claimed.state.release m) = (w', answer) ∧
          stop? stage d key o fresh w = some stop ∧
          result = (conclude key stop (releaseOutcome key o.releaseTimeout answer).1).1) := by
  refine ⟨_, _, rfl, ?_⟩
  cases hclaimed : (stage.perform w (idle.acquire m fresh o.lockTtl)).2.result with
  | error e =>
      rw [run_refused hprepare rfl hclaimed] at h
      cases h
      exact Or.inl ⟨e, rfl, rfl, by simp [stop?, hprepare, hclaimed]⟩
  | ok _ =>
      rw [run_concluded hprepare rfl hclaimed (scheduled _) rfl rfl] at h
      cases h
      refine Or.inr ⟨rfl, _, _, _, _, rfl, rfl, ?_, rfl⟩
      simp [stop?, hprepare, hclaimed, scheduled]

end Exclusive

namespace System

/-- The beginning of a run, by a handle that is fresh. -/
theorem Unused.seen {d : Deployment ι δ} {s : System ι δ} {i : ι} (hu : s.Unused i)
    (hr : Reachable d .anything s) {fresh : Token} (hne : fresh ≠ "")
    (hfresh : ∀ p ∈ s.minted, p.2 ≠ fresh) (stamp : Int → δ) (t : Int) :
    (Reel.start { s with minted := (i, fresh) :: s.minted }).Seen d i fresh
      (fun s => Rests d i fresh stamp t s ∧ ¬ s.Won i) := by
  let minting : System ι δ := { s with minted := (i, fresh) :: s.minted }
  obtain ⟨watched, -⟩ := hu.watched hr.sound hr.logged hne hfresh
  have foreign : ∀ e ∈ minting.log, e.owner ≠ some i := by
    intro e he howner
    obtain ⟨x, outcome, hx, hxowner, -⟩ := hr.logged.entry e he
    exact hu.issued x (List.mem_of_getElem? hx) (hxowner.trans howner)
  have unwon : ¬ minting.Won i := by
    rintro ⟨c, hc, hclaimed⟩
    exact foreign c hc hclaimed.owner
  have idle : ∀ op n, ¬ minting.UnderWay i op n := by
    rintro op n ⟨x, hx, howner, -⟩
    exact hu.issued x (List.mem_of_getElem? hx) howner
  refine ⟨⟨⟨⟨watched, fun won => absurd won unwon⟩, idle⟩, unwon⟩, List.mem_singleton_self _, ?_, ?_⟩
  · intro f hf
    obtain rfl := List.mem_singleton.mp hf
    refine ⟨fun won => absurd won unwon, fun e he howner => absurd howner (foreign e he), ?_⟩
    intro later c earlier hsplit hc
    exact absurd hc.owner (foreign c (hsplit ▸ List.mem_append_right later List.mem_cons_self))
  · intro f hf won
    obtain rfl := List.mem_singleton.mp hf
    exact won

/-- **Extensions keep a lease alive.** In a run in which every statement takes effect and is answered
within `film.within`, while all others claim, extend, release and purge in any order: if the database
keeps time, and the interval and twice `film.within` are less than the time to live that is bound, then
the lease is alive at every instant from the claim to the end of the task, and the task ends by itself.
If it is not started, the key has not been won. (On a clock past `2 ^ 62` seconds there might be no room
for a schedule.) -/
theorem kept_alive {α : Type} {d : Deployment ι δ} {s : System ι δ} {i : ι}
    (hr : Reachable d .anything s) (hu : s.Unused i) {fresh : Token} (hne : fresh ≠ "")
    (hfresh : ∀ p ∈ s.minted, p.2 ≠ fresh) {dialect : Dialect} {o : ExclusiveOptions}
    (hm : d.manager i = ⟨dialect, o.config.tableName, o.config.timeout?⟩) {interval : Duration}
    (hevery : o.extendEvery = some interval) {film : Film ι α}
    (hclock : film.clock.seconds < Nat.pow 2 62) {stamp : Int → δ} (hstamp : StrictMono stamp)
    (hbound : interval.nanos + 2 * film.within.nanos < d.backend.boundNanos o.lockTtl)
    {reel : Reel ι δ} {result : ExclusiveResult α} {events : List Event}
    (hrun : Exclusive.run (film.stage d i) dialect (d.key i) o fresh
      (.start { s with minted := (i, fresh) :: s.minted }) = (reel, result, events))
    (timely : reel.Timely d i stamp o.lockTtl) :
    let stop := Exclusive.stop? (film.stage d i) dialect (d.key i) o fresh
      (.start { s with minted := (i, fresh) :: s.minted })
    (∀ f ∈ reel.shots, f.Alive d i fresh) ∧
      ((∀ f ∈ reel.shots, ¬ f.Won i) ∧ stop = none ∨ stop = some (.ended film.ending) ∧
        ∃ released, result = (Exclusive.conclude (d.key i) (.ended film.ending) released).1) := by
  intro stop
  have seen := hu.seen hr hne hfresh stamp s.time
  have unwon := seen.now.2
  rcases hprepare : Exclusive.prepare dialect (d.key i) o with e | ⟨m, idle⟩
  · -- without a statement nothing is won
    rw [Exclusive.run_unprepared hprepare] at hrun
    cases hrun
    refine ⟨seen.alive, Or.inl ⟨?_, by simp [stop, Exclusive.stop?, hprepare]⟩⟩
    exact fun f hf won => unwon (seen.won f hf won)
  have faultless := Exclusive.faultless_of_prepared hprepare
  have httl := Exclusive.isZero_of_faultless faultless
  have hpos := Exclusive.pos_of_faultless faultless hevery
  have hwithin : film.within.nanos < d.backend.boundNanos o.lockTtl := by omega
  have scheduled : Exclusive.schedulable film.clock o.extendEvery = true :=
    hevery ▸ Exclusive.schedulable_of_lt_bound (b := d.backend) o.lockTtl hclock (by omega)
  obtain ⟨rfl, rfl⟩ := Exclusive.prepare_eq_ok hprepare
  obtain ⟨w₁, claimed, hclaim, course⟩ :=
    Exclusive.course_of_prepared hprepare (fun _ => scheduled) hrun
  rw [← hm] at hclaim course
  have acquired := fun timely =>
    (seen.imp And.left).acquire hstamp hwithin unwon httl hclaim timely
  rcases course with ⟨e, hfailed, rfl, hstop⟩ |
    ⟨hclaimed, w₂, stopped, noted, answer, hwork, hrelease, hstop, hresult⟩
  · obtain ⟨⟨L, renewed⟩, won, -⟩ := acquired timely
    refine ⟨renewed.seen.alive, Or.inl ⟨?_, hstop⟩⟩
    intro f hf hwon
    have claimed := won.mp (renewed.seen.won f hf hwon)
    exact absurd (hfailed.symm.trans claimed) (by simp)
  · -- the release is not filmed
    have shots : reel.shots = w₂.shots := (congrArg (fun out => out.1.shots) hrelease).symm
    have timely : w₂.Timely d i stamp o.lockTtl := timely.mono (shots ▸ List.Subset.refl _)
    obtain ⟨⟨L, renewed⟩, won, hstate⟩ := acquired (timely.mono (Film.work_shots hwork))
    rw [hevery, hstate hclaimed] at hwork
    obtain ⟨rfl, alive⟩ := renewed.work hstamp hwithin hpos hbound httl (won.mpr hclaimed) hwork timely
    exact ⟨shots ▸ alive, Or.inr ⟨hstop, _, hresult⟩⟩

end System

/-! ## A contested lease -/

/-- Two handles for one key, and a database that shows nanoseconds. -/
def Deployment.precise : Deployment Duellist Int :=
  { Deployment.duel .postgres "locks" with
    clock :=
      { moment t := ⟨some t, fun micros => some (t + micros * 1000)⟩
        steady h ha hb := by
          obtain rfl := Option.some.inj ha
          obtain rfl := Option.some.inj hb
          exact h } }

/-- A lease of sixty microseconds, extended every thirty. -/
def lasting : ExclusiveOptions :=
  { lockTtl := ⟨60000⟩, extendEvery := some ⟨30000⟩, config := { tableName := "locks" } }

/-- While the run waits for its first extension, the rival claims the key and purges the table. The
extension comes in time and is answered late; so is the answer to the claim. -/
def contested : Film Duellist Nat where
  within := ⟨10000⟩
  before n := if n = 3 then [.tick 41000] else []
  after n := if n = 0 then [.tick 5000] else [.tick 43000]
  waiting k :=
    if k = 1 then [.tick 20000, .acquire .rival "B" ⟨60000⟩, .effect 1, .purge .rival, .effect 2] else []
  sleep := ⟨80000⟩
  ending := .returned 7
  cause _ := default
  release := [.move (.effect 5), .reply (.answered (.ok 1))]

/-- The contested run, from an empty table on. -/
def contestedRun : Reel Duellist Int × ExclusiveResult Nat × List Event :=
  Exclusive.run (contested.stage .precise .holder) .postgres "job" lasting "A"
    (.start { System.start .precise 0 with minted := [(.holder, "A")] })

/-- The contested run is filmed at nineteen instants. It extends its lease twice and keeps it. -/
theorem kept_alive_contested :
    contestedRun.2.1 = .value 7 ∧ contestedRun.1.shots.length = 19 ∧
      (contestedRun.1.now.log.filter fun e => e.operation = .extend).length = 2 ∧
      ∀ f ∈ contestedRun.1.shots, f.Alive .precise .holder "A" := by
  let d : Deployment Duellist Int := .precise
  have unused : (System.start d 0).Unused .holder :=
    ⟨⟨_, _, rfl⟩, fun T hT => absurd hT List.not_mem_nil, fun x hx => absurd hx List.not_mem_nil⟩
  have fresh : ∀ p ∈ (System.start d 0).minted, p.2 ≠ "A" := fun p hp => absurd hp List.not_mem_nil
  have deadlines : (contestedRun.1.shots.all fun f => f.log.all fun e =>
      decide (e.owner ≠ some .holder) || (e.row.map Row.deadline).all (· = e.time + 60000)) = true := by
    rfl
  have timely : contestedRun.1.Timely d .holder id ⟨60000⟩ := by
    intro f hf
    refine ⟨rfl, rfl, ?_⟩
    intro e he deadline hwrote
    obtain ⟨row, hrow, rfl⟩ := hwrote.row
    have written := List.all_eq_true.mp (List.all_eq_true.mp deadlines f hf) e he
    have micros : d.backend.boundNanos ⟨60000⟩ = 60000 := rfl
    simpa [hwrote.owner, hrow, micros] using written
  refine ⟨by rfl, by rfl, by rfl, ?_⟩
  exact (kept_alive (.start 0) unused (by decide) fresh rfl rfl (by decide) strictMono_id (by decide)
    (show contestedRun = (_, _, _) from rfl) timely).1

end LeaseLock
