/-
# LeaseLock.Proofs.CallerData -- what callers choose cannot change a statement

Callers choose the table's name, keys, and times to live; tokens are minted for them. A name is spliced
into the texts of a manager, but only after it has been accepted as a plain word (`IsPlainWord`), and a
plain word fills the quotes around it and nothing else: the texts have the same frames for every table
(`Backend.exists_frames`). Everything else is bound: whatever is asked of a handle, each request that it
sends is a statement of its manager with values beside it (`Errand.sendsFirst`).
-/
import LeaseLock.Proofs.Placeholders
import LeaseLock.Proofs.TokenDiscipline

namespace LeaseLock

open Sql

/-! ## Names -/

/-- **A manager is made** for a plain word and for no other name; the name is taken as it is. -/
theorem Manager.ofConfig_eq_ok_iff {d : Dialect} {c : Config} {m : Manager} :
    Manager.ofConfig d c = .ok m ↔
      IsPlainWord c.tableName.toList ∧ m = ⟨d, c.tableName, c.timeout?⟩ := by
  rw [← TableName.check_eq_ok_iff, Manager.ofConfig]
  cases TableName.check c.tableName with
  | error e => simp [bind, Except.bind]
  | ok u => simp [bind, Except.bind, pure, Except.pure, eq_comm]

/-- No character of a plain word ends quotes, and none has a meaning of its own in a statement. -/
theorem IsPlainWord.inert {name : List Char} (h : IsPlainWord name) (b : Backend) {c : Char}
    (hc : c ∈ name) : (∀ q, closing? b q ≠ some c) ∧ c ∉ ['?', '$', '@', '\\'] := by
  constructor
  · intro q hclosing
    exact absurd (isWordChar_of_isFollowing (h.isFollowing hc))
      (by simp [not_isWordChar_of_closing hclosing])
  · intro special
    have following := h.isFollowing hc
    simp only [List.mem_cons, List.not_mem_nil, or_false] at special
    rcases special with rfl | rfl | rfl | rfl
    all_goals exact absurd following (by decide)

/-! ## Texts -/

/-- The statements of an operation. -/
def Manager.statementsOf (m : Manager) (op : Operation) : List Statement :=
  m.dialect.backend.statementsOf m.tableName op

/-- The texts of an operation. -/
def Manager.textsOf (m : Manager) (op : Operation) : List String :=
  (m.statementsOf op).map Statement.sql

/-- **The texts of a manager**: the definition of its table, and its statements. -/
def Manager.texts (m : Manager) : List String :=
  m.createTable :: [Operation.acquire, .release, .extend, .purgeExpired].flatMap m.textsOf

/-- Frames in which the table's name stands between the quotes of an identifier, the text in the
definition of the table apart. -/
structure Backend.Frames (b : Backend) (definition : List Place) (statements : List (List Place)) :
    Prop where
  definition : definition.filterMap Place.quote? = b.definitionQuotes
  named : ∀ frame ∈ statements, frame.filterMap Place.quote? ≠ []
  identifiers : ∀ frame ∈ statements, ∀ q ∈ frame.filterMap Place.quote?, q = identifierQuote b

section

variable {b : Backend} {name : String}

/-- Frames of texts for every table, from the lexemes of the texts for the mark. -/
theorem lexemes_fill {pieces : List Piece} {ls : List (Lexeme (Option Nat))} (h : splices b pieces)
    (hls : lexemes b (markedText b pieces) = some ls) (hwhole : ∀ l ∈ ls, l.isWhole)
    (hname : ∀ c ∈ name.toList, isWordChar c) :
    lexemes b (b.text name pieces).toList =
      some ((ls.map Lexeme.place).map (Place.fill name.toList)) := by
  rw [lexemes_text h hname, hls, List.map_map, Option.map_some]
  exact congrArg some (List.map_congr_left fun l hl => (Lexeme.fill_place (hwhole l hl) _).symm)

theorem filterMap_quote?_place (ls : List (Lexeme (Option Nat))) :
    (ls.map Lexeme.place).filterMap Place.quote? = nameQuotes ls :=
  List.filterMap_map

/-- A statement has one frame for all tables. -/
theorem Statement.exists_frame {op : Operation} {s : Statement} (h : s ∈ b.statementsOf "" op) :
    ∃ frame : List Place, frame.filterMap Place.quote? ≠ [] ∧
      (∀ q ∈ frame.filterMap Place.quote?, q = identifierQuote b) ∧
      ∀ name : String, (∀ c ∈ name.toList, isWordChar c) →
        lexemes b ({ s with table := name } : Statement).sql.toList =
          some (frame.map (Place.fill name.toList)) := by
  obtain ⟨ls, cs, placed⟩ := Statement.exists_placed (b.wellPlaced op h)
  obtain rfl := Backend.backend_of_mem h
  refine ⟨ls.map Lexeme.place, ?_, ?_, ?_⟩
  · rw [filterMap_quote?_place]
    exact placed.named
  · rw [filterMap_quote?_place]
    exact placed.quotes
  · intro name hname
    exact lexemes_fill placed.splices placed.lexed placed.whole hname

/-- Frames of several statements. -/
theorem exists_frames_of_statements {ss : List Statement}
    (h : ∀ s ∈ ss, ∃ op, s ∈ b.statementsOf "" op) :
    ∃ frames : List (List Place), (∀ frame ∈ frames, frame.filterMap Place.quote? ≠ []) ∧
      (∀ frame ∈ frames, ∀ q ∈ frame.filterMap Place.quote?, q = identifierQuote b) ∧
      ∀ name : String, (∀ c ∈ name.toList, isWordChar c) →
        (ss.map fun s => lexemes b ({ s with table := name } : Statement).sql.toList) =
          frames.map fun frame => some (frame.map (Place.fill name.toList)) := by
  induction ss with
  | nil => exact ⟨[], by simp, by simp, fun _ _ => rfl⟩
  | cons s ss ih =>
    rw [List.forall_mem_cons] at h
    obtain ⟨⟨op, hs⟩, hss⟩ := h
    obtain ⟨frame, hnamed, hquotes, hfill⟩ := Statement.exists_frame hs
    obtain ⟨frames, hnameds, hquotess, hfills⟩ := ih hss
    refine ⟨frame :: frames, List.forall_mem_cons.mpr ⟨hnamed, hnameds⟩,
      List.forall_mem_cons.mpr ⟨hquotes, hquotess⟩, ?_⟩
    intro name hname
    rw [List.map_cons, List.map_cons, hfill name hname, hfills name hname]

end

/-- **The texts of all managers of a dialect have the same frames.** -/
theorem Dialect.exists_frames (d : Dialect) :
    ∃ definition statements, d.backend.Frames definition statements ∧
      ∀ m : Manager, m.dialect = d → (∀ c ∈ m.tableName.toList, isWordChar c) →
        (m.texts.map fun text => lexemes d.backend text.toList) =
          (definition :: statements).map fun frame =>
            some (frame.map (Place.fill m.tableName.toList)) := by
  obtain ⟨hsplices, ls, hls, -, hwhole, hquotes⟩ := d.backend.exists_definition
  have each : ∀ s ∈ [Operation.acquire, .release, .extend, .purgeExpired].flatMap
      (d.backend.statementsOf ""), ∃ op, s ∈ d.backend.statementsOf "" op := by
    intro s hs
    obtain ⟨op, -, hop⟩ := List.mem_flatMap.mp hs
    exact ⟨op, hop⟩
  obtain ⟨statements, hnamed, hidentifiers, hfill⟩ := exists_frames_of_statements each
  refine ⟨ls.map Lexeme.place, statements, ⟨?_, hnamed, hidentifiers⟩, ?_⟩
  · rw [filterMap_quote?_place, hquotes]
  · rintro m rfl hname
    rw [List.map_cons, ← hfill _ hname, Manager.texts, List.map_cons, Manager.createTable,
      Backend.createTable, lexemes_fill hsplices hls hwhole hname, List.map_flatMap,
      List.map_flatMap]
    congr 1
    refine List.flatMap_congr fun op _ => ?_
    rw [Manager.textsOf, Manager.statementsOf, Backend.statementsOf_eq, List.map_map, List.map_map]
    rfl

/-! ## What is sent -/

section

variable {m : Manager} {h : Handle} {rs : List Request}

/-- The operation that is asked of a handle. -/
def Errand.operation : Errand → Operation
  | .acquire _ _ => .acquire
  | .extend _ => .extend
  | .release => .release

/-- The values that an operation binds for a handle. -/
def Errand.values (h : Handle) : Errand → LeaseValues
  | .acquire fresh ttl => h.claimValues (h.nextToken fresh) ttl
  | .extend ttl => h.ownValues ttl
  | .release => h.ownValues .zero

/-- The first requests of an operation with the same values for all of them. -/
def Manager.SendsFirst (m : Manager) (op : Operation) (v : LeaseValues) (rs : List Request) : Prop :=
  ∃ n, rs = ((m.statementsOf op).take n).map fun s => m.request s v

theorem Manager.SendsFirst.nothing (m : Manager) (op : Operation) (v : LeaseValues) :
    m.SendsFirst op v [] :=
  ⟨0, rfl⟩

/-- Such requests carry texts of the manager. -/
theorem Manager.SendsFirst.texts {op : Operation} {v : LeaseValues} (first : m.SendsFirst op v rs) :
    rs.map (fun r => r.statement.sql) <+: m.textsOf op := by
  obtain ⟨n, rfl⟩ := first
  rw [List.map_map, Manager.textsOf, show (fun r : Request => r.statement.sql) ∘ (m.request · v) =
    Statement.sql from rfl]
  exact (List.take_prefix n _).map Statement.sql

/-- **A handle sends statements of its manager**, whatever its key and its tokens and whatever is asked
of it: in their order, and with all values beside them. -/
theorem Errand.sendsFirst {errand : Errand} {out : Option (Call.Finished Handle (Except LockError Unit))}
    (asks : (errand.call m h).Asks rs out) : m.SendsFirst errand.operation (errand.values h) rs := by
  cases errand with
  | acquire fresh ttl =>
    replace asks : (h.acquire m fresh ttl).Asks rs out := asks
    cases zero : ttl.isZero with
    | true =>
      rw [Handle.acquire, if_pos zero] at asks
      exact asks.of_isDone trivial ▸ .nothing m _ _
    | false =>
      obtain ⟨n, -, hrs⟩ := Handle.acquire_asks zero asks
      exact ⟨n, hrs⟩
  | extend ttl =>
    replace asks : (h.extend m ttl).Asks rs out := asks
    cases zero : ttl.isZero with
    | true =>
      rw [Handle.extend, if_pos zero] at asks
      exact asks.of_isDone trivial ▸ .nothing m _ _
    | false =>
      cases idle : h.isIdle with
      | true =>
        rw [Handle.extend, if_neg (by simp [zero]), if_pos idle] at asks
        exact asks.of_isDone trivial ▸ .nothing m _ _
      | false =>
        rw [← Call.logging_nothing (Handle.extend _ _ _)] at asks
        exact ⟨1, Handle.extend_asks zero idle _ asks⟩
  | release =>
    replace asks : (h.release m).Asks rs out := asks
    cases idle : h.isIdle with
    | true =>
      rw [Handle.release, if_pos idle] at asks
      exact asks.of_isDone trivial ▸ .nothing m _ _
    | false => exact ⟨1, Handle.release_asks idle asks⟩

/-- What is asked is not refused beforehand. -/
def Errand.IsDue (h : Handle) : Errand → Prop
  | .acquire _ ttl => ttl.isZero = false
  | .extend ttl => ttl.isZero = false ∧ h.isIdle = false
  | .release => h.isIdle = false

/-- Then something is sent. -/
theorem Errand.IsDue.sends {errand : Errand} (due : errand.IsDue h)
    {out : Option (Call.Finished Handle (Except LockError Unit))}
    (asks : (errand.call m h).Asks rs out) : rs ≠ [] := by
  cases errand with
  | acquire fresh ttl =>
    obtain ⟨n, some_sent, rfl⟩ := Handle.acquire_asks due asks
    simp [Nat.ne_of_gt some_sent, ClaimPlan.statements_ne_nil]
  | extend ttl =>
    replace asks : (h.extend m ttl).Asks rs out := asks
    rw [← Call.logging_nothing (Handle.extend _ _ _)] at asks
    rw [Handle.extend_asks due.1 due.2 _ asks]
    exact List.cons_ne_nil _ _
  | release =>
    rw [Handle.release_asks due asks]
    exact List.cons_ne_nil _ _

/-- A purge sends its one statement. -/
theorem Manager.purge_asks {out : Option (Call.Finished Unit (Except LockError Nat))}
    (asks : m.purge.Asks rs out) : rs.map (fun r => r.statement.sql) = m.textsOf .purgeExpired := by
  unfold Manager.purge Manager.send at asks
  obtain rfl : rs = [m.request m.purgeStatement ⟨"", "", "", "", .zero⟩] := by
    refine asks.once fun reply => ?_
    cases reply.rows <;> trivial
  rfl

end

/-! ## Caller data -/

/-- **What callers choose cannot change a statement.** Exactly the plain words are accepted for a
table. The texts of all tables that are accepted have the same frames, and the name of the table is in
its places and holds no character that could end the quotes around it or begin a placeholder. Of a
manager that has been made, handles and purges send the texts that it was made with: keys, tokens, and
times to live are bound beside them. -/
theorem Dialect.texts_fixed (d : Dialect) :
    (∀ c, (∃ m, Manager.ofConfig d c = .ok m) ↔ IsPlainWord c.tableName.toList) ∧
    (∃ definition statements, d.backend.Frames definition statements ∧
      ∀ c m, Manager.ofConfig d c = .ok m →
        (m.texts.map fun text => lexemes d.backend text.toList) =
          (definition :: statements).map fun frame =>
            some (frame.map (Place.fill c.tableName.toList))) ∧
    (∀ c m, Manager.ofConfig d c = .ok m → ∀ x ∈ c.tableName.toList,
      (∀ q, closing? d.backend q ≠ some x) ∧ x ∉ ['?', '$', '@', '\\']) ∧
    ∀ c m, Manager.ofConfig d c = .ok m →
      (∀ h errand rs out, (Errand.call errand m h).Asks rs out →
        m.SendsFirst errand.operation (errand.values h) rs ∧
          rs.map (fun r => r.statement.sql) <+: m.textsOf errand.operation ∧
          (errand.IsDue h → rs ≠ [])) ∧
      ∀ rs out, m.purge.Asks rs out →
        rs.map (fun r => r.statement.sql) = m.textsOf .purgeExpired := by
  obtain ⟨definition, statements, frames, filled⟩ := d.exists_frames
  refine ⟨?_, ⟨definition, statements, frames, ?_⟩, ?_, ?_⟩
  · intro c
    simp only [Manager.ofConfig_eq_ok_iff, exists_and_left, exists_eq, and_true]
  · intro c m made
    obtain ⟨plain, rfl⟩ := Manager.ofConfig_eq_ok_iff.mp made
    exact filled _ rfl (isWordChar_of_check ((TableName.check_eq_ok_iff _).mpr plain))
  · intro c m made x hx
    obtain ⟨plain, rfl⟩ := Manager.ofConfig_eq_ok_iff.mp made
    exact plain.inert d.backend hx
  · intro c m _
    refine ⟨fun h errand rs out asks => ?_, fun rs out asks => Manager.purge_asks asks⟩
    have first := Errand.sendsFirst asks
    exact ⟨first, first.texts, fun due => due.sends asks⟩

/-- Two tables for the dialect that also spells the name as a text. -/
theorem Dialect.texts_fixed_two_tables :
    Manager.ofConfig .mssql ⟨"locks", none⟩ = .ok ⟨.mssql, "locks", none⟩ ∧
    Manager.ofConfig .mssql ⟨"_2", none⟩ = .ok ⟨.mssql, "_2", none⟩ ∧
    ∃ definition statements, Backend.Frames .mssql definition statements ∧
      (Manager.texts ⟨.mssql, "locks", none⟩).map (fun text => lexemes .mssql text.toList) =
        (definition :: statements).map (fun frame => some (frame.map (Place.fill "locks".toList))) ∧
      (Manager.texts ⟨.mssql, "_2", none⟩).map (fun text => lexemes .mssql text.toList) =
        (definition :: statements).map (fun frame => some (frame.map (Place.fill "_2".toList))) :=
  have locks : Manager.ofConfig .mssql ⟨"locks", none⟩ = .ok ⟨.mssql, "locks", none⟩ := by decide
  have other : Manager.ofConfig .mssql ⟨"_2", none⟩ = .ok ⟨.mssql, "_2", none⟩ := by decide
  have ⟨definition, statements, frames, filled⟩ := (Dialect.texts_fixed .mssql).2.1
  ⟨locks, other, definition, statements, frames, filled _ _ locks, filled _ _ other⟩

end LeaseLock
