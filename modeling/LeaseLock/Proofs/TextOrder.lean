/-
# LeaseLock.Proofs.TextOrder -- stored texts decide by instant

SQLite keeps deadlines as text and compares text byte by byte. In UTF-8 that is the order of the
characters, and over the years 0000 to 9999 the order of timestamps is that of their instants, so the
conditions of claims, extensions and purges, which compare the stored text with that of now, decide by
instant. Each row is either due or live, and all three kinds of statement go by that one distinction
(`Sqlite.Decides`, `Sqlite.rows_decided_by_instant`).
-/
import LeaseLock.Proofs.Gregorian
import LeaseLock.Proofs.Outcome
import LeaseLock.Proofs.SqliteClock

namespace LeaseLock

/-! ## Bytes of texts -/

/-- The bytes of a text in UTF-8. -/
def bytes (s : String) : List UInt8 := s.toByteArray.data.toList

theorem bytes_ofList (cs : List Char) : bytes (String.ofList cs) = cs.flatMap String.utf8EncodeChar := by
  rw [bytes, String.toByteArray_ofList, List.utf8Encode, List.data_toByteArray]

/-- A character further on has bytes further on, whatever follows them. -/
theorem utf8EncodeChar_append_lt {c d : Char} (h : c < d) (x y : List UInt8) :
    String.utf8EncodeChar c ++ x < String.utf8EncodeChar d ++ y := by
  have below : c.val.toNat < d.val.toNat := h
  have bound : d.val.toNat < 1114112 := by
    rcases d.valid with low | ⟨-, high⟩
    · omega
    · exact high
  unfold String.utf8EncodeChar
  dsimp only
  generalize c.val.toNat = m at below ⊢
  generalize d.val.toNat = n at below bound ⊢
  -- the first place of 64 in which the two differ decides
  have places : m / 262144 < n / 262144 ∨ m / 262144 = n / 262144 ∧ (m / 4096 < n / 4096 ∨
      m / 4096 = n / 4096 ∧ (m / 64 < n / 64 ∨ m / 64 = n / 64 ∧ m % 64 < n % 64)) := by omega
  split_ifs <;>
    simp only [List.cons_append, List.nil_append, List.cons_lt_cons_iff, UInt8.lt_iff_toNat_lt,
      ← UInt8.toNat_inj, UInt8.toNat_ofNat']
  any_goals omega
  rcases places with first | ⟨first, second | ⟨second, third | ⟨third, fourth⟩⟩⟩ <;> omega

theorem flatMap_encode_lt {cs ds : List Char} (h : cs < ds) :
    cs.flatMap String.utf8EncodeChar < ds.flatMap String.utf8EncodeChar := by
  induction cs generalizing ds with
  | nil =>
      cases ds with
      | nil => exact absurd h (lt_irrefl _)
      | cons d ds =>
          rw [List.flatMap_cons]
          cases hd : String.utf8EncodeChar d with
          | nil => exact absurd hd String.utf8EncodeChar_ne_nil
          | cons byte rest => exact List.nil_lt_cons _ _
  | cons c cs ih =>
      cases ds with
      | nil => exact absurd h (List.not_lt_nil _)
      | cons d ds =>
          rw [List.flatMap_cons, List.flatMap_cons]
          rcases List.cons_lt_cons_iff.mp h with first | ⟨rfl, rest⟩
          · exact utf8EncodeChar_append_lt first _ _
          · exact List.append_left_lt (ih rest)

/-- **Texts are compared as their bytes are.** -/
theorem lt_iff_bytes_lt {s t : String} : s < t ↔ bytes s < bytes t := by
  have mono {s t : String} (h : s < t) : bytes s < bytes t := by
    rw [← String.ofList_toList (s := s), ← String.ofList_toList (s := t), bytes_ofList, bytes_ofList]
    exact flatMap_encode_lt (String.lt_iff_toList_lt.mp h)
  constructor
  · exact mono
  · intro h
    rcases lt_trichotomy s t with first | rfl | last
    · exact first
    · exact absurd h (List.lt_irrefl _)
    · exact absurd (mono last) (List.lt_asymm h)

namespace Calendar

variable {i j : Int}

/-- An instant from the year 0000 to the year 9999. -/
def InRange (i : Int) : Prop := beginning ≤ i ∧ i < ending

/-- The first of these instants and the last. -/
example : timestamp beginning = "0000-01-01 00:00:00.000" ∧
    timestamp (ending - 1) = "9999-12-31 23:59:59.999" := by decide +kernel

theorem timestamp_lt_iff (hi : InRange i) (hj : InRange j) : timestamp i < timestamp j ↔ i < j := by
  constructor
  · intro h
    by_contra hle
    rcases (not_lt.mp hle).lt_or_eq with hlt | rfl
    · exact lt_asymm h (timestamp_lt hj.1 hlt hi.2)
    · exact lt_irrefl _ h
  · intro h
    exact timestamp_lt hi.1 h hj.2

theorem timestamp_le_iff (hi : InRange i) (hj : InRange j) : timestamp i ≤ timestamp j ↔ i ≤ j := by
  rw [← not_lt, ← not_lt, timestamp_lt_iff hj hi]

theorem timestamp_inj (hi : InRange i) (hj : InRange j) : timestamp i = timestamp j ↔ i = j := by
  constructor
  · intro h
    apply le_antisymm
    · exact (timestamp_le_iff hi hj).mp h.le
    · exact (timestamp_le_iff hj hi).mp h.ge
  · rintro rfl
    rfl

/-- **Texts of instants sort byte by byte like the instants.** -/
theorem bytes_timestamp_le_iff (hi : InRange i) (hj : InRange j) :
    bytes (timestamp i) ≤ bytes (timestamp j) ↔ i ≤ j := by
  rw [← List.not_lt, ← lt_iff_bytes_lt, timestamp_lt_iff hj hi, not_lt]

end Calendar

namespace Sqlite

open Calendar

/-! ## Texts that statements write -/

variable {clock micros : Int}

theorem nowText_eq (h : InRange clock) : nowText clock = some (timestamp clock) := by
  obtain ⟨first, last⟩ := h
  have start : 0 < clock + epochOffset := by
    unfold beginning at first
    unfold epochOffset
    omega
  have stop : clock + epochOffset < endOfTime := by
    unfold ending at last
    unfold epochOffset endOfTime
    omega
  have known : isClockInstant (clock + epochOffset) := isClockInstant_iff.mpr ⟨start, stop⟩
  unfold nowText
  dsimp only
  rw [if_pos known, textOfJulian, if_pos ⟨start.le, stop⟩, Int.add_sub_cancel]

/-- **A deadline is the text of an instant**, which is not before the clock. -/
theorem deadlineText_instant (h : InRange clock) (hmicros : 0 ≤ micros) {d : String}
    (hd : deadlineText clock micros = some d) :
    ∃ i, InRange i ∧ clock ≤ i ∧ d = timestamp i := by
  obtain ⟨i, hi, htext⟩ := deadlineText_eq_some hd
  obtain ⟨-, last, -⟩ := nowText_eq_some (nowText_eq h)
  have start : 0 ≤ clock + epochOffset := by
    have first := h.1
    unfold beginning at first
    unfold epochOffset
    omega
  obtain ⟨forward, -⟩ := instantOfDay_settled start last hmicros hi
  unfold textOfJulian at htext
  split at htext
  · rename_i known
    have bound : i - epochOffset < ending := by
      have := known.2
      unfold endOfTime at this
      unfold epochOffset ending
      omega
    refine ⟨i - epochOffset, ⟨?_, bound⟩, ?_, (Option.some.inj htext).symm⟩
    · have := h.1
      omega
    · omega
  · exact absurd htext (by simp)

/-! ## What the statements decide -/

/-- **Due or live**: which of a table's statements have their way with one of its rows. A claim that
does not name the row's token, and a purge, go by the row's being due; an extension by its owner goes
by its not being due. -/
structure Decides (table : String) (m : Moment String) (t : Table String) (r : Row String)
    (due : Bool) : Prop where
  claim : ∀ v limit d, v.key = r.key → ¬ v.Names r.token →
    m.after (Backend.sqlite.boundTtl v.ttl) = some d →
    let o := Request.outcome ⟨sqliteClaim table, (sqliteClaim table).bind v, limit⟩ m t
    o.1 = .ok due.toNat ∧ (Database.shadowsProposal table = false →
      o.2.row? r.key = some (if due then ⟨r.key, v.token, d⟩ else r))
  purge : ∀ v limit,
    let s := Backend.sqlite.purge table
    let o := Request.outcome ⟨s, s.bind v, limit⟩ m t
    (∃ n, o.1 = .ok n) ∧ o.2.row? r.key = if due then none else some r
  extend : ∀ v limit d, v.key = r.key → r.isOwn v →
    m.after (Backend.sqlite.boundTtl v.ttl) = some d →
    let s := Backend.sqlite.extend table
    let o := Request.outcome ⟨s, s.bind v, limit⟩ m t
    o.1 = .ok (!due).toNat ∧ o.2.row? r.key = some (if due then r else ⟨r.key, r.token, d⟩)

section

variable {table : String} {m : Moment String} {now : String} {t : Table String} {r : Row String}
  {v : LeaseValues} {due : Bool}

/-- A claim that does not name the row's token goes by its end alone. -/
theorem isClaimable_of_unnamed (unnamed : ¬ v.Names r.token) :
    r.isClaimable m v = r.isExpired m := by
  rw [Bool.eq_iff_iff]
  constructor
  · exact Row.isExpired_of_isClaimable unnamed
  · intro expired
    rw [Row.isClaimable, expired, Bool.true_or]

theorem claim_decides (hdue : r.isExpired m = due) (hrow : t.row? r.key = some r)
    (limit : Option Duration) {d : String} (hkey : v.key = r.key) (unnamed : ¬ v.Names r.token)
    (hd : m.after (Backend.sqlite.boundTtl v.ttl) = some d) :
    let o := Request.outcome ⟨sqliteClaim table, (sqliteClaim table).bind v, limit⟩ m t
    o.1 = .ok due.toNat ∧ (Database.shadowsProposal table = false →
      o.2.row? r.key = some (if due then ⟨r.key, v.token, d⟩ else r)) := by
  have plan : Backend.sqlite.claim table = .single (sqliteClaim table) := rfl
  obtain ⟨n, t', heff⟩ := Backend.single_runs plan limit hd t
  have row := ((Request.IsOf.claim (by rw [plan]; exact List.mem_singleton_self _)).acts
    (by simp) heff).row
  rw [hkey, hrow] at row
  have counted := row.claim_counts
  rw [isClaimable_of_unnamed unnamed, hdue] at counted
  dsimp only
  rw [Request.outcome, heff]
  dsimp only
  cases due with
  | false =>
      obtain rfl : n = 0 := counted
      exact ⟨rfl, fun _ => row.eq_of_zero⟩
  | true =>
      obtain rfl : n = 1 := counted
      refine ⟨rfl, fun plain => ?_⟩
      have unshadowed : Backend.sqlite.shadows table = false := plain
      rw [unshadowed] at row
      generalize t'.row? r.key = new at row ⊢
      cases row with
      | taken _ hd' =>
          obtain rfl := Option.some.inj (hd.symm.trans hd')
          rw [hkey]
          rfl
      | rewritten shadowed => exact absurd shadowed (by simp)

theorem purge_decides (hnow : m.now = some now) (hdue : r.isExpired m = due)
    (hrow : t.row? r.key = some r) (v : LeaseValues) (limit : Option Duration) :
    let s := Backend.sqlite.purge table
    let o := Request.outcome ⟨s, s.bind v, limit⟩ m t
    (∃ n, o.1 = .ok n) ∧ o.2.row? r.key = if due then none else some r := by
  obtain ⟨t', heff⟩ : ∃ t', Request.effect ⟨Backend.sqlite.purge table,
      (Backend.sqlite.purge table).bind v, limit⟩ m t = .ok (t.count fun r => r.deadline ≤ now, t') :=
    Backend.purge_counts limit t hnow
  have rows := Request.IsOf.purge.purge_row? heff r.key
  rw [hrow] at rows
  dsimp only
  rw [Request.outcome, heff]
  refine ⟨⟨_, rfl⟩, ?_⟩
  show t'.row? r.key = _
  rw [rows, Option.filter_some, hdue]
  cases due <;> rfl

theorem extend_decides (hnow : m.now = some now) (hdue : r.isExpired m = due)
    (hrow : t.row? r.key = some r) (limit : Option Duration) {d : String} (hkey : v.key = r.key)
    (own : r.isOwn v) (hd : m.after (Backend.sqlite.boundTtl v.ttl) = some d) :
    let s := Backend.sqlite.extend table
    let o := Request.outcome ⟨s, s.bind v, limit⟩ m t
    o.1 = .ok (!due).toNat ∧ o.2.row? r.key = some (if due then r else ⟨r.key, r.token, d⟩) := by
  obtain ⟨n, t', heff⟩ : ∃ n t', Request.effect ⟨Backend.sqlite.extend table,
      (Backend.sqlite.extend table).bind v, limit⟩ m t = .ok (n, t') :=
    Backend.extend_counts limit t hd
  have row := (Request.IsOf.extend.acts (by simp) heff).row
  rw [hkey, hrow] at row
  have live : r.isLive m = !due := by
    rw [← hdue, Leases.isExpired_eq hnow, ← Leases.isLive_some hnow, ← decide_not]
    exact decide_eq_decide.mpr not_le.symm
  have counted := row.extend_counts
  rw [own, live, Bool.true_and] at counted
  dsimp only
  rw [Request.outcome, heff]
  dsimp only
  cases due with
  | true =>
      obtain rfl : n = 0 := counted
      exact ⟨rfl, row.eq_of_zero⟩
  | false =>
      obtain rfl : n = 1 := counted
      refine ⟨rfl, ?_⟩
      generalize t'.row? r.key = new at row ⊢
      generalize hold : some r = old at row
      cases row with
      | extended _ _ hd' =>
          obtain rfl := Option.some.inj hold
          obtain rfl := Option.some.inj (hd.symm.trans hd')
          rfl

/-- **Every row is due or live**, at every moment that can be read: due if its text is not after that of
now. -/
theorem decides (table : String) (hnow : m.now = some now) (hrow : t.row? r.key = some r) :
    Decides table m t r (decide (r.deadline ≤ now)) := by
  have hdue := Leases.isExpired_eq (r := r) hnow
  constructor
  · intro v limit d hkey unnamed hd
    exact claim_decides hdue hrow limit hkey unnamed hd
  · intro v limit
    exact purge_decides hnow hdue hrow v limit
  · intro v limit d hkey own hd
    exact extend_decides hnow hdue hrow limit hkey own hd

end

/-- **Stored texts decide by instant.** Over the years 0000 to 9999 the texts of instants, on the dates of
the Gregorian calendar, sort byte by byte like the instants, and SQLite's comparisons are those of
bytes. Now is the text of the clock, and every deadline that is written is the text of an instant that
is not before it. So at every moment every row is either due, and then given to claims and purges, or
live, and then to extensions; a row whose text stands for an instant is due from that instant on. -/
theorem rows_decided_by_instant :
    (∀ i j, InRange i → InRange j → (bytes (timestamp i) ≤ bytes (timestamp j) ↔ i ≤ j) ∧
      (timestamp i = timestamp j ↔ i = j)) ∧
    (dateOfDay 0 = ⟨1970, 1, 1⟩ ∧ ∀ z, dateOfDay (z + 1) = (dateOfDay z).next) ∧
    (∀ s t : String, s < t ↔ bytes s < bytes t) ∧
    ∀ clock, InRange clock →
      (moment clock).now = some (timestamp clock) ∧
      (∀ ttl d, (moment clock).after (Backend.sqlite.boundTtl ttl) = some d →
        ∃ i, InRange i ∧ clock ≤ i ∧ d = timestamp i) ∧
      ∀ table (t : Table String) r, t.row? r.key = some r →
        Decides table (moment clock) t r (decide (r.deadline ≤ timestamp clock)) ∧
        ∀ i, InRange i → r.deadline = timestamp i →
          Decides table (moment clock) t r (decide (i ≤ clock)) := by
  refine ⟨?_, dateOfDay_gregorian, fun s t => lt_iff_bytes_lt, ?_⟩
  · intro i j hi hj
    exact ⟨bytes_timestamp_le_iff hi hj, timestamp_inj hi hj⟩
  · intro clock hclock
    have hnow : (moment clock).now = some (timestamp clock) := nowText_eq hclock
    refine ⟨hnow, ?_, ?_⟩
    · intro ttl d hd
      exact deadlineText_instant hclock (Backend.sqlite.boundTtl_nonneg ttl) hd
    · intro table t r hrow
      refine ⟨decides table hnow hrow, ?_⟩
      intro i hi hdeadline
      have due : decide (r.deadline ≤ timestamp clock) = decide (i ≤ clock) := by
        rw [hdeadline, decide_eq_decide]
        exact timestamp_le_iff hi hclock
      rw [← due]
      exact decides table hnow hrow

end Sqlite

end LeaseLock
