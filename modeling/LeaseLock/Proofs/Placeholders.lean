/-
# LeaseLock.Proofs.Placeholders -- every placeholder gets the value that its clause needs

What a placeholder is for is read off the lexemes around it. A statement uses its values in five ways
(`Use`), and each way has its words (`forms`): they are given as text, in which `?` stands for any
placeholder. `read?` goes through the lexemes of a statement and collects these clauses with their
values; it gives up at a placeholder that stands in none of them. A deadline names its numbers, what is
taken of each (`Share`) and the unit in which that counts, so that it can be told how much time it adds.

The lexemes of a statement for the mark are a closed text, so which slot stands in which clause is
computed (`Backend.wellPlaced`). Reading neither looks at the values (`read?_map`) nor at the
name of the table, and so the same clauses are in the text of every table, with the bound values.
-/
import LeaseLock.Proofs.SqlText
import LeaseLock.Proofs.Statement

namespace LeaseLock

namespace Sql

/-! ## Clauses -/

/-- **Use** of values in a statement. -/
inductive Use where
  /-- A value that `lock_key` is compared with. -/
  | key
  /-- A row to be inserted: its key, its token, and the numbers of its deadline. -/
  | row
  /-- The token to be written. -/
  | token
  /-- The two values that `owner_token` may have. -/
  | owner
  /-- The numbers of the deadline to be written. -/
  | deadline
deriving DecidableEq, Repr

/-- A use with the values in its placeholders, in order. -/
structure Clause (α : Type) where
  use : Use
  values : List α
deriving DecidableEq, Repr

namespace Clause

variable {α β : Type}

def map (f : α → β) (c : Clause α) : Clause β := ⟨c.use, c.values.map f⟩

theorem map_map_id (f : α → β) (c : Clause α) : (c.map id).map f = c.map f := by
  rw [map, map, map, List.map_id]

end Clause

/-- How much of a number is taken. -/
inductive Share where
  | all
  | quotient (divisor : Nat)
  | remainder (divisor : Nat)
deriving DecidableEq, Repr

/-- A part of the time that a deadline adds: a share of a number, in units of some nanoseconds. -/
structure Part where
  share : Share
  unit : Nat
deriving DecidableEq, Repr

/-- What is taken of a number. -/
def Share.of (n : Int) : Share → Int
  | .all => n
  | .quotient divisor => n / divisor
  | .remainder divisor => n % divisor

/-- The nanoseconds of a part. -/
def Part.time (n : Int) (p : Part) : Int := p.share.of n * p.unit

/-- The deadline after the current instant. -/
def deadlineText : Backend → String
  | .sqlite => "strftime('%Y-%m-%d %H:%M:%f', julianday('now') + ? / 86400000000.0)"
  | .mysql => "UTC_TIMESTAMP(6) + INTERVAL ? MICROSECOND"
  | .postgres => "NOW() + ?::float8 * INTERVAL '1 microsecond'"
  | .mssql => "DATEADD(millisecond, CAST(? % 1000 AS INT), DATEADD(second, CAST(? / 1000 AS INT), SYSUTCDATETIME()))"

/-- What the placeholders of the deadline count. SQLite counts in days, of 86400 seconds each. -/
def deadlineParts : Backend → List Part
  | .sqlite => [⟨.all, 86400 * 1000000000 / 86400000000⟩]
  | .mysql | .postgres => [⟨.all, 1000⟩]
  | .mssql => [⟨.remainder 1000, 1000000⟩, ⟨.quotient 1000, 1000000000⟩]

/-- The words of a clause. -/
structure Form where
  lexemes : List (Lexeme (Option Nat))
  use : Use

/-- The words of a clause, given as the parts of a text. -/
def Form.ofText (parts : List String) (use : Use) : Form :=
  ⟨(Sql.lexemes .sqlite (parts.flatMap String.toList)).getD [], use⟩

/-- The clauses in which a backend uses values. -/
def forms (b : Backend) : List Form :=
  [.ofText ["lock_key = ?"] .key,
    .ofText ["(SELECT ? AS lock_key) AS source ON target.lock_key = source.lock_key"] .key,
    .ofText ["(lock_key, owner_token, expires_at) VALUES (?, ?, ", deadlineText b, ")"] .row,
    .ofText ["owner_token = ?"] .token,
    .ofText ["owner_token IN (?, ?)"] .owner,
    .ofText ["expires_at = ", deadlineText b] .deadline]

/-! ## Reading -/

/-- Whether two lexemes are the same and no placeholders. -/
def Lexeme.same {α β : Type} : Lexeme α → Lexeme β → Bool
  | .word w, .word w' => w == w'
  | .quoted q x, .quoted q' x' => q == q' && x == x'
  | .symbol c, .symbol c' => c == c'
  | _, _ => false

section

variable {α β : Type}

/-- The values that one lexeme of a form finds in a lexeme of a text. -/
def take? (p : Lexeme (Option Nat)) (l : Lexeme α) : Option (List α) :=
  if p.slot?.isSome then l.slot?.map ([·]) else if p.same l then some [] else none

/-- The values in the placeholders of a form at the head of a text. -/
def capture? : List (Lexeme (Option Nat)) → List (Lexeme α) → Option (List α)
  | [], _ => some []
  | p :: form, l :: ls => do return (← take? p l) ++ (← capture? form ls)
  | _ :: _, [] => none

/-- The clause at the head of a text, and how many lexemes it has. -/
def clause? (fs : List Form) (ls : List (Lexeme α)) : Option (Clause α × Nat) :=
  fs.findSome? fun f => (capture? f.lexemes ls).map fun xs => (⟨f.use, xs⟩, f.lexemes.length)

/-- **Clauses of a text** behind the first `skip` lexemes. Words outside the forms are passed over;
placeholders outside are refused. -/
def read? (fs : List Form) : Nat → List (Lexeme α) → Option (List (Clause α))
  | _, [] => some []
  | skip + 1, _ :: ls => read? fs skip ls
  | 0, l :: ls =>
    match clause? fs (l :: ls) with
    | some (c, n) => (read? fs (n - 1) ls).map (c :: ·)
    | none => if l.slot?.isSome then none else read? fs 0 ls

theorem take?_slots {p : Lexeme (Option Nat)} {l : Lexeme α} {xs : List α} (h : take? p l = some xs) :
    slots [l] = xs := by
  unfold take? at h
  split at h
  · obtain ⟨x, hx, rfl⟩ := Option.map_eq_some_iff.mp h
    simp [slots, hx]
  · split at h
    · rename_i same
      obtain rfl := Option.some.inj h
      cases l with
      | slot x => cases p <;> exact absurd same (by simp [Lexeme.same])
      | word w | quoted q x | symbol c => rfl
    · exact absurd h (by simp)

/-- The values of a form at the head of a text are those of the placeholders there. -/
theorem capture?_slots {form : List (Lexeme (Option Nat))} {ls : List (Lexeme α)} {xs : List α}
    (h : capture? form ls = some xs) : slots (ls.take form.length) = xs := by
  induction form generalizing ls xs with
  | nil =>
    obtain rfl := Option.some.inj h
    rfl
  | cons p form ih =>
    cases ls with
    | nil => exact absurd h (by simp [capture?])
    | cons l ls =>
      obtain ⟨first, hfirst, h⟩ := Option.bind_eq_some_iff.mp h
      obtain ⟨later, hlater, h⟩ := Option.bind_eq_some_iff.mp h
      obtain rfl := Option.some.inj h
      rw [← take?_slots hfirst, ← ih hlater, ← slots_append]
      rfl

theorem clause?_slots {fs : List Form} (nonempty : ∀ form ∈ fs, form.lexemes ≠ [])
    {ls : List (Lexeme α)} {c : Clause α} {n : Nat} (h : clause? fs ls = some (c, n)) :
    0 < n ∧ slots (ls.take n) = c.values := by
  obtain ⟨form, hform, h⟩ := List.exists_of_findSome?_eq_some h
  obtain ⟨xs, hxs, h⟩ := Option.map_eq_some_iff.mp h
  obtain ⟨rfl, rfl⟩ := Prod.mk.inj h
  exact ⟨List.length_pos_of_ne_nil (nonempty form hform), capture?_slots hxs⟩

/-- **Reading leaves no placeholder out**: the clauses have the values of all placeholders, in order. -/
theorem read?_slots {fs : List Form} (nonempty : ∀ form ∈ fs, form.lexemes ≠ []) {skip : Nat}
    {ls : List (Lexeme α)} {cs : List (Clause α)} (h : read? fs skip ls = some cs) :
    slots (ls.drop skip) = cs.flatMap Clause.values := by
  induction ls generalizing skip cs with
  | nil =>
    obtain rfl : cs = [] := by simpa [read?] using h.symm
    simp [slots]
  | cons l ls ih =>
    cases skip with
    | succ skip => exact ih h
    | zero =>
      rw [read?] at h
      split at h
      · rename_i c n hclause
        obtain ⟨positive, values⟩ := clause?_slots nonempty hclause
        obtain ⟨later, hlater, rfl⟩ := Option.map_eq_some_iff.mp h
        have rest : (l :: ls).drop n = ls.drop (n - 1) := by
          rw [← Nat.succ_pred_eq_of_pos positive]
          rfl
        rw [List.drop_zero, ← List.take_append_drop n (l :: ls), slots_append, values, rest, ih hlater]
        rfl
      · split at h
        · exact absurd h (by simp)
        · rename_i plain
          have none : l.slot? = none := by simpa using plain
          rw [List.drop_zero, slots, List.filterMap_cons_none none]
          exact ih h

/-- A change of lexemes that a reader does not notice, but for the values in the placeholders. -/
structure Unnoticed (fs : List Form) (f : α → β) (g : Lexeme α → Lexeme β) : Prop where
  slot? : ∀ l, (g l).slot? = l.slot?.map f
  same : ∀ form ∈ fs, ∀ p ∈ form.lexemes, ∀ l, p.same (g l) = p.same l

namespace Unnoticed

variable {fs : List Form} {f : α → β} {g : Lexeme α → Lexeme β}

theorem take?_map (h : Unnoticed fs f g) {p : Lexeme (Option Nat)} {l : Lexeme α}
    (same : p.same (g l) = p.same l) : take? p (g l) = (take? p l).map (List.map f) := by
  unfold take?
  rw [h.slot?, same]
  split_ifs
  · cases l.slot? <;> rfl
  · rfl
  · rfl

theorem capture?_map (h : Unnoticed fs f g) {form : List (Lexeme (Option Nat))}
    (hform : ∀ p ∈ form, ∀ l, p.same (g l) = p.same l) (ls : List (Lexeme α)) :
    capture? form (ls.map g) = (capture? form ls).map (List.map f) := by
  induction form generalizing ls with
  | nil => simp [capture?]
  | cons p form ih =>
    rw [List.forall_mem_cons] at hform
    cases ls with
    | nil => rfl
    | cons l ls =>
      rw [List.map_cons, capture?, capture?, h.take?_map (hform.1 l), ih hform.2]
      cases take? p l with
      | none => rfl
      | some xs =>
        cases capture? form ls with
        | none => rfl
        | some ys => exact congrArg some List.map_append.symm

theorem clause?_map (h : Unnoticed fs f g) (ls : List (Lexeme α)) :
    clause? fs (ls.map g) = (clause? fs ls).map fun p => (p.1.map f, p.2) := by
  have each : ∀ form ∈ fs, ((capture? form.lexemes (ls.map g)).map fun xs =>
      ((⟨form.use, xs⟩ : Clause β), form.lexemes.length)) =
      ((capture? form.lexemes ls).map fun xs =>
        ((⟨form.use, xs⟩ : Clause α), form.lexemes.length)).map fun p => (p.1.map f, p.2) := by
    intro form hform
    rw [h.capture?_map (h.same form hform), Option.map_map, Option.map_map]
    rfl
  clear h
  unfold clause?
  induction fs with
  | nil => rfl
  | cons form fs ih =>
    rw [List.forall_mem_cons] at each
    rw [List.findSome?_cons, List.findSome?_cons, each.1]
    cases (capture? form.lexemes ls).map fun xs => ((⟨form.use, xs⟩ : Clause α), form.lexemes.length) with
    | none => exact ih each.2
    | some p => rfl

/-- **Reading does not notice it.** -/
theorem read?_map (h : Unnoticed fs f g) (skip : Nat) (ls : List (Lexeme α)) :
    read? fs skip (ls.map g) = (read? fs skip ls).map (List.map (Clause.map f)) := by
  induction ls generalizing skip with
  | nil => cases skip <;> rfl
  | cons l ls ih =>
    cases skip with
    | succ skip => exact ih skip
    | zero =>
      have head := h.clause?_map (l :: ls)
      rw [List.map_cons] at head
      rw [List.map_cons, read?, head, read?]
      cases hclause : clause? fs (l :: ls) with
      | some p =>
        simp only [Option.map_some, ih, Option.map_map]
        rfl
      | none =>
        have placeholder : (g l).slot?.isSome = l.slot?.isSome := by
          rw [h.slot?, Option.isSome_map]
        simp only [Option.map_none, placeholder]
        split_ifs
        · rfl
        · exact ih 0

end Unnoticed

end

/-! ## Values -/

/-- The element at a position that is counted from one. -/
def nth? {α : Type} (xs : List α) (n : Slot) : Option α := if n = 0 then none else xs[n - 1]?

theorem nth?_map {α β : Type} (f : α → β) (xs : List α) (n : Slot) :
    nth? (xs.map f) n = (nth? xs n).map f := by
  unfold nth?
  split
  · rfl
  · exact List.getElem?_map

/-- Puts the bound values into the placeholders. -/
def bound (args : List Argument) (ls : List (Lexeme Slot)) : List (Lexeme (Option Argument)) :=
  ls.map (Lexeme.map (nth? args))

/-- The parameters whose values a use needs. -/
def Use.needs (b : Backend) (op : Operation) : Use → List Parameter
  | .key => [.key]
  | .row => .key :: .token :: (deadlineParts b).map fun _ => b.ttlParameter
  | .token => [.token]
  | .owner => [if op = .acquire then .previousToken else .token, .unconfirmedToken]
  | .deadline => (deadlineParts b).map fun _ => b.ttlParameter

/-- The values that a use needs: a claim looks for the previous token where an extension and a release
look for the token. -/
def Use.expected (b : Backend) (op : Operation) (v : LeaseValues) : Use → List Argument
  | .key => [.text v.key]
  | .row => .text v.key :: .text v.token :: (deadlineParts b).map fun _ => .int (b.boundTtl v.ttl)
  | .token => [.text v.token]
  | .owner => [.text (if op = .acquire then v.previousToken else v.token), .text v.unconfirmedToken]
  | .deadline => (deadlineParts b).map fun _ => .int (b.boundTtl v.ttl)

theorem Use.expected_eq (b : Backend) (op : Operation) (v : LeaseValues) (u : Use) :
    u.expected b op v = (u.needs b op).map v.argument := by
  have ttl : v.argument b.ttlParameter = .int (b.boundTtl v.ttl) := by cases b <;> rfl
  cases u with
  | key | token => rfl
  | row => simp only [expected, needs, List.map_cons, List.map_map, Function.comp_def, ttl]; rfl
  | deadline => simp only [expected, needs, List.map_map, Function.comp_def, ttl]
  | owner => cases op <;> rfl

/-- The nanoseconds in the unit of a bound time to live. -/
def ttlUnit : Parameter → Nat
  | .ttlMillis => 1000000
  | _ => 1000

/-- **A deadline adds the bound number**, counted in the unit in which it is bound. -/
theorem sum_time (b : Backend) (n : Int) :
    ((deadlineParts b).map (Part.time n)).sum = n * ttlUnit b.ttlParameter := by
  cases b with
  | sqlite | mysql | postgres =>
    simp [deadlineParts, Part.time, Share.of, ttlUnit, Backend.ttlParameter]
  | mssql =>
    simp only [deadlineParts, List.map_cons, List.map_nil, List.sum_cons, List.sum_nil, Part.time,
      Share.of, ttlUnit, Backend.ttlParameter]
    omega

/-! ## The statement for the mark -/

theorem numbered_spell (name : List Char) (i : Nat) (ls : List (Lexeme (Option Nat))) :
    numbered i (ls.map (Lexeme.spell name)) = (numbered i ls).map (Lexeme.spell name) := by
  induction ls generalizing i with
  | nil => rfl
  | cons l ls ih =>
    cases l with
    | word w | quoted q x | symbol c => simp [numbered, Lexeme.spell, ih]
    | slot x => cases x <;> simp [numbered, Lexeme.spell, ih]

/-- A name brings no placeholder. -/
theorem slots_spell {α : Type} (name : List Char) (ls : List (Lexeme α)) :
    slots (ls.map (Lexeme.spell name)) = slots ls := by
  rw [slots, slots, List.filterMap_map]
  exact congrArg (List.filterMap · ls) (funext fun l => by cases l <;> rfl)

/-- Writes a name for the mark in an identifier, and leaves string literals alone. -/
def Lexeme.rename {α : Type} (name : List Char) : Lexeme α → Lexeme α
  | .quoted q x => if q = '\'' then .quoted q x else .quoted q (Sql.spell name x)
  | .word w => .word w
  | .slot x => .slot x
  | .symbol c => .symbol c

/-- A literal without the mark stays what it is. -/
theorem Lexeme.spell_eq_rename {α : Type} (name : List Char) {l : Lexeme α}
    (h : ∀ x, l = .quoted '\'' x → mark ∉ x) : l.spell name = l.rename name := by
  cases l with
  | word w | slot x | symbol c => rfl
  | quoted q x =>
    by_cases hq : q = '\''
    · subst hq
      simp [spell, rename, spell_of_notMem (h x rfl)]
    · simp [spell, rename, hq]

/-- Numbering leaves quoted texts alone. -/
theorem quoted_mem_of_numbered {i : Nat} {ls : List (Lexeme (Option Nat))} {q : Char} {x : List Char}
    (h : .quoted q x ∈ numbered i ls) : .quoted q x ∈ ls := by
  induction ls generalizing i with
  | nil => exact absurd h (by simp [numbered])
  | cons l ls ih =>
    rcases l with w | ⟨q', x'⟩ | ⟨_ | n⟩ | c <;>
      simp only [numbered, List.mem_cons, reduceCtorEq, false_or] at h ⊢
    · exact ih h
    · rcases h with h | h
      · exact .inl (by simpa using h)
      · exact .inr (ih h)
    · exact ih h
    · exact ih h
    · exact ih h

/-- What is computed of the forms: each has words, and none in quotes but literals. -/
theorem forms_plain (b : Backend) : ∀ form ∈ forms b,
    form.lexemes ≠ [] ∧ ∀ p ∈ form.lexemes, p.quote? ∈ [none, some '\''] := by
  cases b <;> decide +kernel

/-- The forms speak of no identifier in quotes. -/
theorem opening_of_mem_forms (b : Backend) :
    ∀ form ∈ forms b, ∀ p ∈ form.lexemes, ∀ q x, p = .quoted q x → q = '\'' := by
  rintro form hform p hp q x rfl
  simpa [Lexeme.quote?] using (forms_plain b form hform).2 _ hp

theorem unnoticed_rename (b : Backend) (name : List Char) :
    Unnoticed (forms b) (id : Slot → Slot) (Lexeme.rename name) where
  slot? l := by
    cases l with
    | word w | slot x | symbol c => rfl
    | quoted q x =>
      by_cases hq : q = '\'' <;> simp [Lexeme.rename, hq, Lexeme.slot?]
  same form hform p hp l := by
    cases l with
    | word w | slot x | symbol c => rfl
    | quoted q x =>
      by_cases hq : q = '\''
      · simp [Lexeme.rename, hq]
      · -- the form has no identifier in quotes, so it differs from both
        cases p with
        | word w | slot x | symbol c => simp [Lexeme.rename, hq, Lexeme.same]
        | quoted q' x' =>
          have literal := opening_of_mem_forms b form hform _ hp q' x' rfl
          have apart : (q' == q) = false := beq_false_of_ne (literal ▸ Ne.symm hq)
          simp [Lexeme.rename, hq, Lexeme.same, apart]

theorem unnoticed_map (fs : List Form) {α β : Type} (f : α → β) : Unnoticed fs f (Lexeme.map f) where
  slot? l := by cases l <;> rfl
  same _ _ p _ l := by cases l <;> cases p <;> rfl

end Sql

open Sql

/-- Whether the statement for the mark has each slot in a clause that needs its parameter. -/
def Statement.wellPlaced (op : Operation) (s : Statement) : Bool :=
  splices s.backend s.pieces &&
  match lexemes s.backend (markedText s.backend s.pieces) with
  | none => false
  | some ls =>
    ls.all Lexeme.isWhole && nameQuotes ls ≠ [] &&
    (nameQuotes ls).all (· = identifierQuote s.backend) &&
    (slots (numbered 0 ls)).all (fun n => 1 ≤ n && n ≤ s.parameters.length) &&
    (List.range' 1 s.parameters.length).all (slots (numbered 0 ls)).contains &&
    match read? (forms s.backend) 0 (numbered 0 ls) with
    | none => false
    | some cs =>
      cs.all (fun c => c.values.map (nth? s.parameters) = (c.use.needs s.backend op).map some) &&
      (op = .purgeExpired || cs.any fun c => c.use = .key || c.use = .row)

theorem Backend.wellPlaced_sqlite (op : Operation) :
    (statementsOf .sqlite "" op).all (Statement.wellPlaced op) := by
  cases op <;> decide +kernel

theorem Backend.wellPlaced_mysql (op : Operation) :
    (statementsOf .mysql "" op).all (Statement.wellPlaced op) := by
  cases op <;> decide +kernel

theorem Backend.wellPlaced_postgres (op : Operation) :
    (statementsOf .postgres "" op).all (Statement.wellPlaced op) := by
  cases op <;> decide +kernel

theorem Backend.wellPlaced_mssql (op : Operation) :
    (statementsOf .mssql "" op).all (Statement.wellPlaced op) := by
  cases op <;> decide +kernel

theorem Backend.wellPlaced (b : Backend) (op : Operation) {s : Statement}
    (h : s ∈ b.statementsOf "" op) : s.wellPlaced op := by
  cases b with
  | sqlite => exact List.all_eq_true.mp (wellPlaced_sqlite op) s h
  | mysql => exact List.all_eq_true.mp (wellPlaced_mysql op) s h
  | postgres => exact List.all_eq_true.mp (wellPlaced_postgres op) s h
  | mssql => exact List.all_eq_true.mp (wellPlaced_mssql op) s h

/-- What has been computed of a statement for the mark, with its lexemes and its clauses. -/
structure Statement.Placed (op : Operation) (s : Statement) (ls : List (Lexeme (Option Nat)))
    (cs : List (Clause Slot)) : Prop where
  splices : splices s.backend s.pieces
  lexed : lexemes s.backend (markedText s.backend s.pieces) = some ls
  whole : ∀ l ∈ ls, l.isWhole
  named : nameQuotes ls ≠ []
  quotes : ∀ q ∈ nameQuotes ls, q = identifierQuote s.backend
  slots : ∀ n, n ∈ slots (numbered 0 ls) ↔ 1 ≤ n ∧ n ≤ s.parameters.length
  read : read? (forms s.backend) 0 (numbered 0 ls) = some cs
  needs : ∀ c ∈ cs, c.values.map (nth? s.parameters) = (c.use.needs s.backend op).map some
  keyed : op ≠ .purgeExpired → ∃ c ∈ cs, c.use = .key ∨ c.use = .row

/-- Every parameter has a clause that needs it: its placeholder stands in one. -/
theorem Statement.Placed.needed {op : Operation} {s : Statement} {ls : List (Lexeme (Option Nat))}
    {cs : List (Clause Slot)} (h : s.Placed op ls cs) {p : Parameter} (hp : p ∈ s.parameters) :
    ∃ c ∈ cs, p ∈ c.use.needs s.backend op := by
  obtain ⟨i, hi, rfl⟩ := List.getElem_of_mem hp
  have placed : i + 1 ∈ Sql.slots (numbered 0 ls) := (h.slots _).mpr ⟨Nat.succ_pos i, hi⟩
  have left : Sql.slots ((numbered 0 ls).drop 0) = cs.flatMap Clause.values :=
    read?_slots (fun form hform => (forms_plain s.backend form hform).1) h.read
  rw [List.drop_zero] at left
  rw [left] at placed
  obtain ⟨c, hc, value⟩ := List.mem_flatMap.mp placed
  have bound : nth? s.parameters (i + 1) = some s.parameters[i] := by
    rw [nth?, if_neg i.succ_ne_zero]
    exact List.getElem?_eq_getElem hi
  have needed : some s.parameters[i] ∈ (c.use.needs s.backend op).map some := by
    rw [← h.needs c hc, ← bound]
    exact List.mem_map_of_mem value
  exact ⟨c, hc, by simpa using needed⟩

theorem Statement.exists_placed {op : Operation} {s : Statement} (h : s.wellPlaced op) :
    ∃ ls cs, s.Placed op ls cs := by
  unfold wellPlaced at h
  cases hlex : lexemes s.backend (markedText s.backend s.pieces) with
  | none => simp [hlex] at h
  | some ls =>
    cases hread : read? (forms s.backend) 0 (numbered 0 ls) with
    | none => simp [hlex, hread] at h
    | some cs =>
      simp only [hlex, hread, Bool.and_eq_true, List.all_eq_true, decide_eq_true_eq,
        List.contains_iff_mem, List.mem_range'_1, Bool.or_eq_true, List.any_eq_true] at h
      obtain ⟨hsplices, ⟨⟨⟨⟨hwhole, hnamed⟩, hquotes⟩, hbounds⟩, hall⟩, hneeds, hkeyed⟩ := h
      refine ⟨ls, cs, hsplices, hlex, hwhole, hnamed, hquotes, ?_, hread, hneeds,
        fun hop => hkeyed.resolve_left hop⟩
      intro n
      constructor
      · exact hbounds n
      · rintro ⟨hfirst, hlast⟩
        exact hall n ⟨hfirst, Nat.lt_one_add_iff.mpr hlast⟩

/-! ## Requests for any table -/

/-- **Every placeholder has the value that its clause needs**: the placeholders are the slots of the
parameters, each stands in a clause, every parameter is in a clause that needs it, and the bound values
are the ones that these clauses need. -/
structure Request.Fits (b : Backend) (op : Operation) (v : LeaseValues) (r : Request)
    (ls : List (Lexeme (Option Nat))) (cs : List (Clause (Option Argument))) : Prop where
  lexed : lexemes b r.statement.sql.toList = some ls
  slots : ∀ n, n ∈ slots (numbered 0 ls) ↔ 1 ≤ n ∧ n ≤ r.statement.parameters.length
  read : read? (forms b) 0 (bound r.arguments (numbered 0 ls)) = some cs
  values : ∀ c ∈ cs, c.values = (c.use.expected b op v).map some
  needed : ∀ p ∈ r.statement.parameters, ∃ c ∈ cs, p ∈ c.use.needs b op
  keyed : op ≠ .purgeExpired → ∃ c ∈ cs, c.use = .key ∨ c.use = .row

/-- No string literal has the mark. -/
theorem Statement.Placed.unmarked {op : Operation} {s : Statement} {ls : List (Lexeme (Option Nat))}
    {cs : List (Clause Slot)} (h : s.Placed op ls cs) {l : Lexeme Slot} (hl : l ∈ numbered 0 ls)
    (x : List Char) (hx : l = .quoted '\'' x) : mark ∉ x := by
  subst hx
  intro hmark
  have hmem := quoted_mem_of_numbered hl
  have whole := h.whole _ hmem
  obtain rfl : x = [mark] := by simpa [Lexeme.isWhole, hmark] using whole
  have quote := h.quotes _ (mem_nameQuotes hmem)
  generalize s.backend = b at quote
  cases b <;> exact absurd quote (by decide)

theorem Statement.Placed.fits {op : Operation} {s : Statement} {ls : List (Lexeme (Option Nat))}
    {cs : List (Clause Slot)} (h : s.Placed op ls cs) {name : String}
    (hname : ∀ c ∈ name.toList, isWordChar c) (v : LeaseValues) (limit : Option Duration) :
    Request.Fits s.backend op v ⟨{ s with table := name }, s.bind v, limit⟩
      (ls.map (Lexeme.spell name.toList)) (cs.map (Clause.map (nth? (s.bind v)))) where
  lexed := by
    show lexemes s.backend (s.backend.text name s.pieces).toList = _
    rw [lexemes_text h.splices hname, h.lexed]
    rfl
  slots n := by
    rw [numbered_spell, slots_spell]
    exact h.slots n
  read := by
    have renamed : (numbered 0 ls).map (Lexeme.spell name.toList) =
        (numbered 0 ls).map (Lexeme.rename name.toList) :=
      List.map_congr_left fun l hl => Lexeme.spell_eq_rename _ (h.unmarked hl)
    have unread := (unnoticed_rename s.backend name.toList).read?_map 0 (numbered 0 ls)
    rw [h.read] at unread
    rw [numbered_spell, renamed, bound, (unnoticed_map _ _).read?_map, unread, Option.map_some,
      Option.map_some, List.map_map]
    exact congrArg some (List.map_congr_left fun c _ => Clause.map_map_id _ c)
  values c hc := by
    obtain ⟨c, hmem, rfl⟩ := List.mem_map.mp hc
    have needs := congrArg (List.map (Option.map v.argument)) (h.needs c hmem)
    rw [List.map_map, List.map_map] at needs
    rw [Use.expected_eq, List.map_map]
    refine Eq.trans (List.map_congr_left fun n _ => ?_) needs
    exact nth?_map v.argument s.parameters n
  needed p hp := by
    obtain ⟨c, hc, needs⟩ := h.needed hp
    exact ⟨_, List.mem_map_of_mem hc, needs⟩
  keyed hop := by
    obtain ⟨c, hc, huse⟩ := h.keyed hop
    exact ⟨_, List.mem_map_of_mem hc, huse⟩

theorem Request.isOf_iff {b : Backend} {table : String} {op : Operation} {v : LeaseValues}
    {r : Request} : Request.IsOf b table op v r ↔
      ∃ s ∈ b.statementsOf table op, ∃ limit, r = ⟨s, s.bind v, limit⟩ := by
  constructor
  · rintro (h | _ | _ | _)
    · exact ⟨_, h, _, rfl⟩
    · exact ⟨_, List.mem_singleton_self _, _, rfl⟩
    · exact ⟨_, List.mem_singleton_self _, _, rfl⟩
    · exact ⟨_, List.mem_singleton_self _, _, rfl⟩
  · rintro ⟨s, hs, limit, rfl⟩
    cases op with
    | acquire => exact .claim hs
    | extend => exact List.mem_singleton.mp hs ▸ .extend
    | release => exact List.mem_singleton.mp hs ▸ .release
    | purgeExpired => exact List.mem_singleton.mp hs ▸ .purge

theorem Request.IsOf.fits {b : Backend} {name : String} {op : Operation} {v : LeaseValues}
    {r : Request} (h : Request.IsOf b name op v r) (hname : ∀ c ∈ name.toList, isWordChar c) :
    ∃ ls cs, r.Fits b op v ls cs := by
  obtain ⟨s, hs, limit, rfl⟩ := Request.isOf_iff.mp h
  rw [Backend.statementsOf_eq] at hs
  obtain ⟨bare, hbare, rfl⟩ := List.mem_map.mp hs
  obtain ⟨ls, cs, placed⟩ := Statement.exists_placed (b.wellPlaced op hbare)
  obtain rfl := Backend.backend_of_mem hbare
  exact ⟨_, _, placed.fits hname v limit⟩

/-! ## The clauses of each operation -/

namespace Sql.Use

variable {b : Backend} {op : Operation} {u : Use}

/-- The unconfirmed token is needed as one of the two that the row may have. -/
theorem eq_owner (h : .unconfirmedToken ∈ u.needs b op) : u = .owner := by
  cases u with
  | owner => rfl
  | key | token => exact absurd h (by simp [needs])
  | row | deadline => cases b <;> exact absurd h (by simp [needs, deadlineParts, Backend.ttlParameter])

/-- The time to live is needed for a deadline, in a new row or in an old one. -/
theorem eq_row_or_deadline (h : b.ttlParameter ∈ u.needs b op) : u = .row ∨ u = .deadline := by
  cases u with
  | row => exact .inl rfl
  | deadline => exact .inr rfl
  | key | token => cases b <;> exact absurd h (by simp [needs, Backend.ttlParameter])
  | owner => cases b <;> cases op <;> exact absurd h (by simp [needs, Backend.ttlParameter])

/-- A claim needs its token to write it, into a new row or into an old one. -/
theorem eq_row_or_token (h : .token ∈ u.needs b .acquire) : u = .row ∨ u = .token := by
  cases u with
  | row => exact .inl rfl
  | token => exact .inr rfl
  | key | owner => exact absurd h (by simp [needs])
  | deadline => cases b <;> exact absurd h (by simp [needs, deadlineParts, Backend.ttlParameter])

end Sql.Use

/-- What the statements of an operation take. -/
theorem Request.IsOf.parameters {b : Backend} {name : String} {op : Operation} {v : LeaseValues}
    {r : Request} (h : Request.IsOf b name op v r) :
    (op = .acquire ∨ op = .extend → b.ttlParameter ∈ r.statement.parameters) ∧
    (op = .acquire → .token ∈ r.statement.parameters) ∧
    (op ≠ .purgeExpired → (∀ key token ttl, r.statement.command ≠ .insert key token ttl) →
      .unconfirmedToken ∈ r.statement.parameters) := by
  cases h with
  | claim hs =>
    cases b with
    | sqlite | postgres | mssql =>
      obtain rfl := List.mem_singleton.mp hs
      simp
    | mysql =>
      rcases List.mem_cons.mp hs with rfl | hs
      · simp
      · obtain rfl := List.mem_singleton.mp hs
        simp
  | extend => cases b <;> simp [Backend.extend]
  | release => simp [Backend.release]
  | purge => simp

/-- **Which clauses the statements have.** Claims and extensions write a deadline, and claims write their
token; and every statement but a plain insert and the purge asks for the owner of the row. -/
theorem Request.Fits.clauses {b : Backend} {name : String} {op : Operation} {v : LeaseValues}
    {r : Request} {ls : List (Lexeme (Option Nat))} {cs : List (Clause (Option Argument))}
    (h : r.Fits b op v ls cs) (hof : Request.IsOf b name op v r) :
    (op = .acquire ∨ op = .extend → ∃ c ∈ cs, c.use = .row ∨ c.use = .deadline) ∧
    (op = .acquire → ∃ c ∈ cs, c.use = .row ∨ c.use = .token) ∧
    (op ≠ .purgeExpired → (∀ key token ttl, r.statement.command ≠ .insert key token ttl) →
      ∃ c ∈ cs, c.use = .owner) := by
  obtain ⟨ttl, token, owner⟩ := hof.parameters
  refine ⟨fun hop => ?_, fun hop => ?_, fun hop overwrites => ?_⟩
  · obtain ⟨c, hc, needs⟩ := h.needed _ (ttl hop)
    exact ⟨c, hc, Use.eq_row_or_deadline needs⟩
  · obtain ⟨c, hc, needs⟩ := h.needed _ (token hop)
    subst hop
    exact ⟨c, hc, Use.eq_row_or_token needs⟩
  · obtain ⟨c, hc, needs⟩ := h.needed _ (owner hop overwrites)
    exact ⟨c, hc, Use.eq_owner needs⟩

/-! ## Every dialect -/

/-- The quotes around the table's name in the definition of the table; SQL Server first asks for the
name as a text. -/
def Backend.definitionQuotes (b : Backend) : List Char :=
  (if b = .mssql then ['\''] else []) ++ [identifierQuote b]

/-- The definition of the table splices the name in like the statements, and has no placeholder. -/
theorem Backend.exists_definition (b : Backend) : splices b b.tableDefinition ∧
    ∃ ls, lexemes b (markedText b b.tableDefinition) = some ls ∧ slots ls = [] ∧
      (∀ l ∈ ls, l.isWhole) ∧ nameQuotes ls = b.definitionQuotes := by
  have computed : splices b b.tableDefinition ∧
      (lexemes b (markedText b b.tableDefinition)).any fun ls =>
        slots ls = [] && ls.all Lexeme.isWhole && nameQuotes ls = b.definitionQuotes := by
    cases b <;> decide +kernel
  obtain ⟨hsplices, h⟩ := computed
  cases hls : lexemes b (markedText b b.tableDefinition) with
  | none => simp [hls] at h
  | some ls =>
    simp only [hls, Option.any_some, Bool.and_eq_true, decide_eq_true_eq, List.all_eq_true] at h
    exact ⟨hsplices, ls, rfl, h.1.1, h.1.2, h.2⟩

/-- **Every placeholder gets the value that its clause needs**, in every statement of every dialect,
for every table and all values of a lease call. A deadline adds the bound time to live, counted in the
unit in which it is bound, and the definition of the table has no placeholder. -/
theorem Dialect.placeholders_fit (d : Dialect) {name : String}
    (hname : TableName.check name = .ok ()) :
    (∀ op v r, Request.IsOf d.backend name op v r → ∃ ls cs, r.Fits d.backend op v ls cs) ∧
    (∀ ttl, ((deadlineParts d.backend).map (Part.time (d.backend.boundTtl ttl))).sum =
      d.backend.boundTtl ttl * ttlUnit d.backend.ttlParameter) ∧
    ∃ ls, lexemes d.backend (d.backend.createTable name).toList = some ls ∧ slots ls = [] := by
  have word := isWordChar_of_check hname
  refine ⟨fun op v r h => h.fits word, fun ttl => sum_time _ _, ?_⟩
  obtain ⟨hsplices, ls, hls, hnone, -⟩ := d.backend.exists_definition
  refine ⟨ls.map (Lexeme.spell name.toList), ?_, ?_⟩
  · rw [Backend.createTable, lexemes_text hsplices word, hls]
    rfl
  · rw [slots_spell, hnone]

/-- The extension of a lease over a driver with numbered placeholders. -/
theorem Dialect.placeholders_fit_extension :
    TableName.check "locks" = .ok () ∧
    Request.IsOf (Dialect.backend .pgx) "locks" .extend ⟨"job", "T1", "", "T2", .ofSeconds 60⟩
      ⟨Backend.extend .postgres "locks", [.text "job", .text "T1", .int 60000000, .text "T2"], none⟩ ∧
    ∃ ls cs, Request.Fits .postgres .extend ⟨"job", "T1", "", "T2", .ofSeconds 60⟩
      ⟨Backend.extend .postgres "locks", [.text "job", .text "T1", .int 60000000, .text "T2"], none⟩
      ls cs :=
  have accepted : TableName.check "locks" = .ok () := by decide
  have asked : Request.IsOf (Dialect.backend .pgx) "locks" .extend ⟨"job", "T1", "", "T2", .ofSeconds 60⟩
      ⟨Backend.extend .postgres "locks", [.text "job", .text "T1", .int 60000000, .text "T2"], none⟩ :=
    .extend
  ⟨accepted, asked, (Dialect.placeholders_fit .pgx accepted).1 _ _ _ asked⟩

end LeaseLock
