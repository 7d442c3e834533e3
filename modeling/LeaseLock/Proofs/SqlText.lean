/-
# LeaseLock.Proofs.SqlText -- statements as a server reads them

A server sees characters. By its rules for quotes it cuts them into lexemes: words, quoted texts,
placeholders, and single symbols. The four backends differ in which quotes they know and in how a
placeholder looks; a placeholder is read from the characters, so one inside a quoted text is none.
Comments are not read: no statement has one.

Between quotes a name of word characters is as good as a single character (`lexemes_spell`). So the
text of a statement for any table is cut like the text in which one character, the **mark**, stands for
the table's name, and what holds of that one text holds for every table.
-/
import LeaseLock.Proofs.PlainWord

namespace LeaseLock.Sql

/-! ## Lexemes -/

/-- **Lexeme** of SQL text, with what is known of each placeholder. -/
inductive Lexeme (α : Type) where
  /-- A keyword, a name without quotes, or the digits of a number. -/
  | word (w : List Char)
  /-- The text between two quotes, of which the first is `opening`. -/
  | quoted (opening : Char) (content : List Char)
  | slot (x : α)
  | symbol (c : Char)
deriving DecidableEq, Repr

/-- The quote that ends what a quote has opened. -/
def closing? (b : Backend) (opening : Char) : Option Char :=
  match b, opening with
  | _, '\'' => some '\''
  | _, '"' => some '"'
  | .sqlite, '`' | .mysql, '`' => some '`'
  | .sqlite, '[' | .mssql, '[' => some ']'
  | _, _ => none

/-- Whether a closing quote that is written twice stands for itself. -/
def doubles (b : Backend) (opening : Char) : Bool := !(b = .sqlite && opening = '[')

/-- Whether a backslash takes the next character with it. -/
def escapes (b : Backend) (opening : Char) : Bool := b = .mysql && opening ≠ '`'

/-- Characters that a word is made of, the signs of numbered placeholders included. -/
def isWordChar (c : Char) : Bool := c.isAlphanum || c = '_' || c = '$' || c = '@'

def isBlank (c : Char) : Bool := c = ' ' || c = '\n' || c = '\t' || c = '\r'

/-- The number of a placeholder that carries one. -/
def number? (b : Backend) (w : List Char) : Option Nat :=
  match b, w with
  | .postgres, '$' :: digits => Numeral.decimal? digits
  | .mssql, '@' :: 'P' :: digits => Numeral.decimal? digits
  | _, _ => none

/-- A finished word: a numbered placeholder, or just a word. -/
def ofWord (b : Backend) (w : List Char) : Lexeme (Option Nat) :=
  match number? b w with
  | some n => .slot (some n)
  | none => .word w

/-! ## The scan -/

/-- Where a scan stands. What has been read of the current lexeme is kept backwards. -/
inductive Mode where
  | between
  | word (done : List Char)
  | inside (opening : Char) (done : List Char)
  /-- Inside quotes, after a backslash. -/
  | escaped (opening : Char) (done : List Char)
  /-- After a closing quote, which ends the text unless it comes twice. -/
  | closed (opening : Char) (done : List Char)
deriving DecidableEq, Repr

/-- A scan: where it stands, and the lexemes behind it, last one first. -/
structure Scan where
  mode : Mode
  done : List (Lexeme (Option Nat))
deriving DecidableEq, Repr

namespace Scan

/-- Reads a character between lexemes. -/
def start (b : Backend) (done : List (Lexeme (Option Nat))) (c : Char) : Scan :=
  if isBlank c then ⟨.between, done⟩
  else if isWordChar c then ⟨.word [c], done⟩
  else if (closing? b c).isSome then ⟨.inside c [], done⟩
  else if c = '?' ∧ (b = .sqlite ∨ b = .mysql) then ⟨.between, .slot none :: done⟩
  else ⟨.between, .symbol c :: done⟩

/-- **One step of a scan.** -/
def step (b : Backend) : Scan → Char → Scan
  | ⟨.between, done⟩, c => start b done c
  | ⟨.word w, done⟩, c =>
    if isWordChar c then ⟨.word (c :: w), done⟩ else start b (ofWord b w.reverse :: done) c
  | ⟨.inside q x, done⟩, c =>
    if closing? b q = some c then ⟨.closed q x, done⟩
    else if escapes b q && c = '\\' then ⟨.escaped q (c :: x), done⟩
    else ⟨.inside q (c :: x), done⟩
  | ⟨.escaped q x, done⟩, c => ⟨.inside q (c :: x), done⟩
  | ⟨.closed q x, done⟩, c =>
    if closing? b q = some c ∧ doubles b q then ⟨.inside q (c :: x), done⟩
    else start b (.quoted q x.reverse :: done) c

/-- The lexemes of a scan that has reached the end of its text; none where a quote is open. -/
def finish? (b : Backend) : Scan → Option (List (Lexeme (Option Nat)))
  | ⟨.between, done⟩ => some done.reverse
  | ⟨.word w, done⟩ => some (ofWord b w.reverse :: done).reverse
  | ⟨.closed q x, done⟩ => some (.quoted q x.reverse :: done).reverse
  | ⟨.inside _ _, _⟩ | ⟨.escaped _ _, _⟩ => none

end Scan

/-- **Lexemes of a text**, by the quoting rules of a backend. -/
def lexemes (b : Backend) (text : List Char) : Option (List (Lexeme (Option Nat))) :=
  (text.foldl (Scan.step b) ⟨.between, []⟩).finish? b

/-- A quote that is written twice, a placeholder, and one that is none. -/
example : lexemes .sqlite "a.b = ? OR 'it''s ?'".toList =
    some [.word ['a'], .symbol '.', .word ['b'], .symbol '=', .slot none, .word ['O', 'R'],
      .quoted '\'' "it's ?".toList] := by decide +kernel

/-! ## Numbering and binding -/

/-- Placeholders without a number are numbered from `i + 1` on. -/
def numbered (i : Nat) : List (Lexeme (Option Nat)) → List (Lexeme Slot)
  | [] => []
  | .slot none :: ls => .slot (i + 1) :: numbered (i + 1) ls
  | .slot (some n) :: ls => .slot n :: numbered i ls
  | .word w :: ls => .word w :: numbered i ls
  | .quoted q x :: ls => .quoted q x :: numbered i ls
  | .symbol c :: ls => .symbol c :: numbered i ls

namespace Lexeme

variable {α β : Type}

/-- Puts something else for what is known of a placeholder. -/
def map (f : α → β) : Lexeme α → Lexeme β
  | .word w => .word w
  | .quoted q x => .quoted q x
  | .slot x => .slot (f x)
  | .symbol c => .symbol c

/-- What is known of a placeholder. -/
def slot? : Lexeme α → Option α
  | .slot x => some x
  | .word _ | .quoted _ _ | .symbol _ => none

/-- The quote that opens a quoted text. -/
def quote? : Lexeme α → Option Char
  | .quoted q _ => some q
  | .word _ | .slot _ | .symbol _ => none

end Lexeme

/-- The placeholders, in order. -/
def slots {α : Type} (ls : List (Lexeme α)) : List α := ls.filterMap Lexeme.slot?

theorem slots_append {α : Type} (ls ms : List (Lexeme α)) : slots (ls ++ ms) = slots ls ++ slots ms :=
  List.filterMap_append

/-! ## A name in the place of the mark -/

/-- The character that stands for the table's name; it is in no statement. -/
def mark : Char := '\x00'

/-- Writes a name for the mark. -/
def spell (name text : List Char) : List Char :=
  text.flatMap fun c => if c = mark then name else [c]

/-- Writes a name for the mark inside quotes. -/
def Lexeme.spell {α : Type} (name : List Char) : Lexeme α → Lexeme α
  | .quoted q x => .quoted q (Sql.spell name x)
  | .word w => .word w
  | .slot x => .slot x
  | .symbol c => .symbol c

/-- Whether every mark of a text is read between quotes, and not after a backslash. -/
def Scan.admits (b : Backend) : Scan → List Char → Bool
  | _, [] => true
  | s, c :: text =>
    (c ≠ mark || match s.mode with
      | .inside _ _ => true
      | _ => false) && admits b (step b s c) text

section

variable {b : Backend} {name : List Char}

theorem spell_cons_mark (name text : List Char) :
    spell name (mark :: text) = name ++ spell name text := by
  rw [spell, List.flatMap_cons, if_pos rfl, spell]

theorem spell_cons {c : Char} (hc : c ≠ mark) (name text : List Char) :
    spell name (c :: text) = c :: spell name text := by
  rw [spell, List.flatMap_cons, if_neg hc, spell, List.singleton_append]

theorem spell_append (name x y : List Char) : spell name (x ++ y) = spell name x ++ spell name y :=
  List.flatMap_append

/-- Without a mark there is nothing to write a name for. -/
theorem spell_of_notMem {text : List Char} (h : mark ∉ text) : spell name text = text := by
  induction text with
  | nil => rfl
  | cons c text ih =>
    rw [List.mem_cons, not_or] at h
    rw [spell_cons (Ne.symm h.1), ih h.2]

@[simp]
theorem ofWord_spell (b : Backend) (w : List Char) : (ofWord b w).spell name = ofWord b w := by
  unfold ofWord
  cases number? b w <;> rfl

/-- No closing quote is part of a word. -/
theorem not_isWordChar_of_closing {q c : Char} (h : closing? b q = some c) : isWordChar c = false := by
  unfold closing? at h
  split at h
  all_goals first
    | (obtain rfl := Option.some.inj h; decide)
    | exact absurd h (by simp)

namespace Mode

/-- The mode after the same text with a name for the mark. -/
def spell (name : List Char) : Mode → Mode
  | .between => .between
  | .word w => .word w
  | .inside q x => .inside q (Sql.spell name x.reverse).reverse
  | .escaped q x => .escaped q (Sql.spell name x.reverse).reverse
  | .closed q x => .closed q (Sql.spell name x.reverse).reverse

end Mode

namespace Scan

/-- The scan after the same text with a name for the mark. -/
def spell (name : List Char) (s : Scan) : Scan := ⟨s.mode.spell name, s.done.map (Lexeme.spell name)⟩

theorem start_spell (b : Backend) (done : List (Lexeme (Option Nat))) (c : Char) :
    start b (done.map (Lexeme.spell name)) c = (start b done c).spell name := by
  unfold start
  split_ifs <;> rfl

/-- One more character, seen from the other end. -/
theorem spell_reverse_cons {c : Char} (hc : c ≠ mark) (name x : List Char) :
    (Sql.spell name (c :: x).reverse).reverse = c :: (Sql.spell name x.reverse).reverse := by
  rw [List.reverse_cons, spell_append, spell_cons hc, List.reverse_append]
  rfl

/-- Any character but the mark is read in the same way with a name and without. -/
theorem step_spell {c : Char} (hc : c ≠ mark) (s : Scan) :
    step b (s.spell name) c = (step b s c).spell name := by
  obtain ⟨mode, done⟩ := s
  cases mode with
  | between => exact start_spell b done c
  | word w =>
    have finished : start b ((ofWord b w.reverse :: done).map (Lexeme.spell name)) c =
        (start b (ofWord b w.reverse :: done) c).spell name := start_spell b _ c
    rw [List.map_cons, ofWord_spell] at finished
    simp only [spell, Mode.spell, step, finished]
    split_ifs <;> rfl
  | inside q x =>
    simp only [spell, Mode.spell, step]
    split_ifs <;> simp only [spell_reverse_cons hc]
  | escaped q x => simp only [spell, Mode.spell, step, spell_reverse_cons hc]
  | closed q x =>
    have finished : start b ((.quoted q x.reverse :: done).map (Lexeme.spell name)) c =
        (start b (.quoted q x.reverse :: done) c).spell name := start_spell b _ c
    rw [List.map_cons, Lexeme.spell] at finished
    simp only [spell, Mode.spell, step, List.reverse_reverse, finished]
    split_ifs
    · simp only [spell_reverse_cons hc]
    · rfl

/-- A name between quotes is read from end to end. -/
theorem foldl_step_inside (hname : ∀ c ∈ name, isWordChar c) (q : Char) (x : List Char)
    (done : List (Lexeme (Option Nat))) :
    name.foldl (step b) ⟨.inside q x, done⟩ = ⟨.inside q (name.reverse ++ x), done⟩ := by
  induction name generalizing x with
  | nil => rfl
  | cons c name ih =>
    rw [List.forall_mem_cons] at hname
    have open_still : ¬ closing? b q = some c := by
      intro hclosing
      rw [not_isWordChar_of_closing hclosing] at hname
      exact absurd hname.1 (by simp)
    have no_escape : c ≠ '\\' := by
      rintro rfl
      exact absurd hname.1 (by decide)
    have read : step b ⟨.inside q x, done⟩ c = ⟨.inside q (c :: x), done⟩ := by
      simp [step, open_still, no_escape]
    rw [List.foldl_cons, read, ih hname.2, List.reverse_cons, List.append_assoc]
    rfl

/-- **A name is read like the mark**, wherever marks are admitted. -/
theorem foldl_step_spell (hname : ∀ c ∈ name, isWordChar c) {text : List Char} {s : Scan}
    (h : s.admits b text) :
    (Sql.spell name text).foldl (step b) (s.spell name) = (text.foldl (step b) s).spell name := by
  induction text generalizing s with
  | nil => rfl
  | cons c text ih =>
    rw [admits, Bool.and_eq_true] at h
    obtain ⟨here, rest⟩ := h
    by_cases hc : c = mark
    · subst hc
      obtain ⟨mode, done⟩ := s
      cases mode with
      | inside q x =>
        have read : step b ⟨.inside q x, done⟩ mark = ⟨.inside q (mark :: x), done⟩ := by
          have open_still : ¬ closing? b q = some mark := by
            unfold closing?
            split <;> decide
          simp [step, open_still, show mark ≠ '\\' by decide]
        rw [spell_cons_mark, List.foldl_append, List.foldl_cons, ← ih rest, read]
        congr 1
        simp only [spell, Mode.spell]
        rw [foldl_step_inside hname, List.reverse_cons, spell_append, spell_cons_mark]
        simp [Sql.spell]
      | between | word w | escaped q x | closed q x => exact absurd here (by simp)
    · rw [spell_cons hc, List.foldl_cons, List.foldl_cons, step_spell hc, ih rest]

theorem finish?_spell (s : Scan) :
    (s.spell name).finish? b = (s.finish? b).map (List.map (Lexeme.spell name)) := by
  obtain ⟨mode, done⟩ := s
  cases mode with
  | between | word w | inside q x | escaped q x => simp [spell, Mode.spell, finish?]
  | closed q x => simp [spell, Mode.spell, finish?, Lexeme.spell]

end Scan

/-- **The lexemes of a text do not depend on the name in it**, which fills the quotes around it. -/
theorem lexemes_spell (hname : ∀ c ∈ name, isWordChar c) {text : List Char}
    (h : Scan.admits b ⟨.between, []⟩ text) :
    lexemes b (spell name text) = (lexemes b text).map (List.map (Lexeme.spell name)) := by
  have folded := Scan.foldl_step_spell hname h
  have beginning : Scan.spell name ⟨.between, []⟩ = ⟨.between, []⟩ := rfl
  rw [beginning] at folded
  rw [lexemes, folded, Scan.finish?_spell, lexemes]

end

/-! ## Frames -/

/-- **Place** in a text: a lexeme that is the same for every table, or the name of the table between
quotes. A list of places is the frame of a text. -/
inductive Place where
  | fixed (l : Lexeme (Option Nat))
  | name (opening : Char)
deriving DecidableEq, Repr

/-- The lexeme at a place, for a table. -/
def Place.fill (name : List Char) : Place → Lexeme (Option Nat)
  | .fixed l => l
  | .name q => .quoted q name

/-- The quote that opens the table's name at a place. -/
def Place.quote? : Place → Option Char
  | .fixed _ => none
  | .name q => some q

/-- The place of a lexeme: a mark between quotes is the place of the name. -/
def Lexeme.place : Lexeme (Option Nat) → Place
  | .quoted q x => if x = [mark] then .name q else .fixed (.quoted q x)
  | l => .fixed l

/-- Whether a lexeme has the mark at most as a whole. -/
def Lexeme.isWhole : Lexeme (Option Nat) → Bool
  | .quoted _ x => !x.contains mark || x = [mark]
  | _ => true

/-- The quotes around the table's name, in order. -/
def nameQuotes (ls : List (Lexeme (Option Nat))) : List Char := ls.filterMap (·.place.quote?)

theorem Lexeme.fill_place {l : Lexeme (Option Nat)} (h : l.isWhole) (name : List Char) :
    l.place.fill name = l.spell name := by
  cases l with
  | word w | slot x | symbol c => rfl
  | quoted q x =>
    simp only [isWhole, Bool.or_eq_true, Bool.not_eq_true', List.contains_eq_mem,
      decide_eq_false_iff_not, decide_eq_true_eq] at h
    by_cases hx : x = [mark]
    · subst hx
      simp [place, Place.fill, spell, Sql.spell]
    · simp [place, hx, Place.fill, spell, spell_of_notMem (h.resolve_right hx)]

theorem mem_nameQuotes {ls : List (Lexeme (Option Nat))} {q : Char}
    (h : .quoted q [mark] ∈ ls) : q ∈ nameQuotes ls :=
  List.mem_filterMap.mpr ⟨_, h, rfl⟩

/-- The quote that opens an identifier. -/
def identifierQuote : Backend → Char
  | .sqlite | .postgres => '"'
  | .mysql => '`'
  | .mssql => '['

/-! ## Texts of pieces -/

/-- The text of pieces with the mark for the table's name. -/
def markedText (b : Backend) (pieces : List Piece) : List Char :=
  pieces.flatMap fun p => (b.pieceText (String.singleton mark) p).toList

/-- Whether pieces bring no mark of their own, and the table's name only between quotes. -/
def splices (b : Backend) (pieces : List Piece) : Bool :=
  (pieces.all fun
    | .table | .tableText => true
    | p => !(b.pieceText "" p).toList.contains mark) &&
  Scan.admits b ⟨.between, []⟩ (markedText b pieces)

section

variable {b : Backend} {pieces : List Piece}

/-- One piece, with the name written for the mark. -/
theorem toList_pieceText_eq_spell (name : String) {p : Piece}
    (h : p = .table ∨ p = .tableText ∨ mark ∉ (b.pieceText "" p).toList) :
    (b.pieceText name p).toList =
      spell name.toList (b.pieceText (String.singleton mark) p).toList := by
  cases p with
  | table =>
    have quoted : ∀ open_quote close_quote : Char, open_quote ≠ mark → close_quote ≠ mark →
        open_quote :: (name.toList ++ [close_quote]) =
          spell name.toList [open_quote, mark, close_quote] := by
      intro open_quote close_quote hopen hclose
      rw [spell_cons hopen, spell_cons_mark, spell_cons hclose]
      rfl
    cases b <;>
      simpa [Backend.pieceText, Backend.quoteName] using quoted _ _ (by decide) (by decide)
  | tableText => simp [Backend.pieceText, spell]
  | words s =>
    rcases h with h | h | h
    · exact absurd h (by simp)
    · exact absurd h (by simp)
    · exact (spell_of_notMem h).symm
  | slot i =>
    rcases h with h | h | h
    · exact absurd h (by simp)
    · exact absurd h (by simp)
    · exact (spell_of_notMem h).symm

theorem toList_text_eq_spell (h : splices b pieces) (name : String) :
    (b.text name pieces).toList = spell name.toList (markedText b pieces) := by
  rw [splices, Bool.and_eq_true, List.all_eq_true] at h
  have each : ∀ p ∈ pieces, (b.pieceText name p).toList =
      spell name.toList (b.pieceText (String.singleton mark) p).toList := by
    intro p hp
    refine toList_pieceText_eq_spell name ?_
    have bare := h.1 p hp
    cases p with
    | table => exact .inl rfl
    | tableText => exact .inr (.inl rfl)
    | words s | slot i => exact .inr (.inr (by simpa using bare))
  rw [markedText, Backend.text, String.toList_join, List.flatMap_map, spell, List.flatMap_assoc]
  exact List.flatMap_congr each

/-- **The text of pieces for any table** is cut like the text for the mark. -/
theorem lexemes_text (h : splices b pieces) {name : String}
    (hname : ∀ c ∈ name.toList, isWordChar c) :
    lexemes b (b.text name pieces).toList =
      (lexemes b (markedText b pieces)).map (List.map (Lexeme.spell name.toList)) := by
  rw [toList_text_eq_spell h, lexemes_spell hname]
  rw [splices, Bool.and_eq_true] at h
  exact h.2

theorem isWordChar_of_isFollowing {c : Char} (h : TableName.isFollowing c) : isWordChar c := by
  rw [TableName.isFollowing, Bool.or_eq_true, beq_iff_eq] at h
  rcases h with alnum | underscore
  · simp [isWordChar, alnum]
  · simp [isWordChar, underscore]

/-- A name that is accepted for a table is a word. -/
theorem isWordChar_of_check {name : String} (h : TableName.check name = .ok ()) :
    ∀ c ∈ name.toList, isWordChar c :=
  fun _ hc => isWordChar_of_isFollowing (((TableName.check_eq_ok_iff name).mp h).isFollowing hc)

end

end LeaseLock.Sql

/-! ## The statements of each backend -/

namespace LeaseLock

/-- The pieces of a statement's text. -/
def Statement.pieces (s : Statement) : List Piece := s.command.pieces s.backend

namespace Backend

/-- The statements of an operation. -/
def statementsOf (b : Backend) (table : String) : Operation → List Statement
  | .acquire => (b.claim table).statements
  | .extend => [b.extend table]
  | .release => [b.release table]
  | .purgeExpired => [b.purge table]

/-- Only the table's name tells the statements of two tables apart. -/
theorem statementsOf_eq (b : Backend) (table : String) (op : Operation) :
    b.statementsOf table op = (b.statementsOf "" op).map fun s => { s with table } := by
  cases b <;> cases op <;> rfl

theorem backend_of_mem {b : Backend} {table : String} {op : Operation} {s : Statement}
    (h : s ∈ b.statementsOf table op) : s.backend = b := by
  cases b <;> cases op <;> simp [statementsOf, claim, ClaimPlan.statements] at h
  all_goals first
    | (subst h; rfl)
    | (rcases h with rfl | rfl <;> rfl)

end Backend

end LeaseLock
