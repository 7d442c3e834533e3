/-
# LeaseLock.Proofs.Shadowing -- the one table name that breaks claims

In the upsert of SQLite the name `excluded` stands for the row that was to be inserted. In a table of
that name, in any case of letters, it stands for the row that is there already. The checks let the
name pass, and a claim that meets a row of its own or an expired one counts it and leaves it as it is.
-/
import LeaseLock.Proofs.Statement
import LeaseLock.TableName

namespace LeaseLock

/-! ## The name passes the checks -/

namespace TableName

theorem utf8ByteSize_ofList_le (cs : List Char) :
    (String.ofList cs).utf8ByteSize ≤ 4 * cs.length := by
  induction cs with
  | nil => simp
  | cons c cs ih =>
      have hc : c.utf8Size ≤ 4 := Char.utf8Size_le_four c
      rw [String.ofList_cons, String.utf8ByteSize_append, String.utf8ByteSize_singleton,
        List.length_cons]
      omega

theorem isAlpha_of_toLower {c : Char} (h : c.toLower.isAlpha) : c.isAlpha := by
  unfold Char.toLower at h
  split at h
  · rename_i hupper
    have upper : c.isUpper := decide_eq_true hupper
    simp [Char.isAlpha, upper]
  · exact h

theorem isPlain_of_isAlpha {name : String} (hne : name.toList ≠ []) (hlong : name.toList.length ≤ 16)
    (halpha : ∀ c ∈ name.toList, c.isAlpha) : isPlain name := by
  have size : name.utf8ByteSize ≤ maxTableNameLength := by
    have bound := utf8ByteSize_ofList_le name.toList
    rw [String.ofList_toList] at bound
    unfold maxTableNameLength
    omega
  unfold isPlain
  cases hname : name.toList with
  | nil => exact absurd hname hne
  | cons c cs =>
      rw [hname] at halpha
      have opening : c.isAlpha := halpha c List.mem_cons_self
      have following : cs.all isFollowing := by
        rw [List.all_eq_true]
        intro b hb
        simp [isFollowing, Char.isAlphanum, halpha b (List.mem_cons_of_mem _ hb)]
      simp [isOpening, opening, following, size]

/-- No manager refuses a table of this name. -/
theorem check_of_shadows {table : String} (h : Sqlite.Database.shadowsProposal table) :
    check table = .ok () := by
  have hmap : table.toList.map Char.toLower = "excluded".toList := of_decide_eq_true h
  have length : table.toList.length = 8 := by simpa using congrArg List.length hmap
  have letters : ∀ b ∈ "excluded".toList, b.isAlpha := by simp [Char.isAlpha]
  have alpha : ∀ c ∈ table.toList, c.isAlpha := by
    intro c hc
    have hlower : c.toLower ∈ "excluded".toList := hmap ▸ List.mem_map_of_mem hc
    exact isAlpha_of_toLower (letters _ hlower)
  have hne : table.toList ≠ [] := by
    intro hnil
    rw [hnil] at length
    exact absurd length (by decide)
  rw [check, if_pos (isPlain_of_isAlpha hne (by omega) alpha)]

end TableName

/-! ## A claim leaves the row as it is -/

section

variable {δ : Type} [LT δ] [DecidableLT δ]

/-- The claim of SQLite. -/
def sqliteClaim (table : String) : Statement :=
  ⟨.sqlite, table, .upsert 1 2 3 (.claimable 4 5),
    [.key, .token, .ttlMicros, .previousToken, .unconfirmedToken]⟩

/-- **In a table that shadows the proposed row** a claim inserts a new row, or counts the row that it
may overwrite and leaves it there. -/
theorem sqliteClaim_effect {table : String} (h : Sqlite.Database.shadowsProposal table)
    (v : LeaseValues) (limit : Option Duration) (m : Moment δ) (t : Table δ) {d : δ}
    (hd : m.after (min v.ttl.micros maxTtlMicros) = some d) :
    Request.effect ⟨sqliteClaim table, (sqliteClaim table).bind v, limit⟩ m t =
      match t.row? v.key with
      | some old => .ok (if old.isClaimable m v then 1 else 0, t)
      | none => .ok (1, (t.insert? ⟨v.key, v.token, d⟩).getD t) := by
  let args : List Argument := (sqliteClaim table).bind v
  have hnew : Command.newRow m args 1 2 3 = .ok ⟨v.key, v.token, d⟩ := by
    have hdeadline : Command.deadlineFor m args 3 = .ok d := by
      have hint : Argument.intAt? args 3 = some (min v.ttl.micros maxTtlMicros : Int) := rfl
      rw [Command.deadlineFor, hint, Option.bind_some, hd]
    rw [Command.newRow, hdeadline]
    rfl
  have hholds : ∀ r : Row δ, (Condition.claimable 4 5).holds m args r = r.isClaimable m v :=
    fun r => holds_claimable rfl rfl
  show Sqlite.Database.effectOn table m args t _ = _
  simp only [Sqlite.Database.effectOn, sqliteClaim, h, Sqlite.Database.upsertInPlace, hnew, bind,
    Except.bind, hholds]
  cases t.row? v.key <;> rfl

end

end LeaseLock
