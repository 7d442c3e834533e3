/-
# LeaseLock.Proofs.JsonText -- JSON texts by their grammar, and that they are read

The grammar says which characters a value may be written with: blanks where they may stand, numerals
with fraction and exponent, characters as they are or as escapes (`Spells`). It is stated without the
reader. The reader goes in two steps, and so does the proof that it reads every such text
(`parse?_of_spells`): a scan of the characters ends with the tokens of the value (`Spells.reads`), and a
parse of these tokens ends with the value (`parses`), whatever stands around it.

Which string a text means is a relation of its own (`Text.StandsFor`): every character stands for
itself, or is written by its UTF-16 code units. Decoding finds this string (`Text.chars?_eq_some_iff`).
-/
import LeaseLock.Json.Parser
import LeaseLock.Proofs.Numeral
import Mathlib

namespace LeaseLock.Json

/-! ## Grammar -/

/-- Blanks, which mean nothing between tokens. -/
def IsBlank (cs : List Char) : Prop := ∀ c ∈ cs, c = ' ' ∨ c = '\t' ∨ c = '\n' ∨ c = '\r'

/-- A run of decimal digits. -/
def AreDigits (cs : List Char) : Prop := ∀ c ∈ cs, '0' ≤ c ∧ c ≤ '9'

/-- A whole part: no digit follows a leading zero. -/
inductive IsWhole : List Char → Prop
  | zero : IsWhole ['0']
  | positive {c : Char} {cs : List Char} : '1' ≤ c → c ≤ '9' → AreDigits cs → IsWhole (c :: cs)

/-- A fraction with its point, or none. -/
inductive IsFraction : List Char → Prop
  | none : IsFraction []
  | digits {c : Char} {cs : List Char} : AreDigits (c :: cs) → IsFraction ('.' :: c :: cs)

/-- An exponent with its mark and perhaps a sign, or none. -/
inductive IsExponent : List Char → Prop
  | none : IsExponent []
  | digits {mark c : Char} {sign cs : List Char} : mark = 'e' ∨ mark = 'E' →
      sign = [] ∨ sign = ['+'] ∨ sign = ['-'] → AreDigits (c :: cs) →
      IsExponent (mark :: sign ++ c :: cs)

/-- **Numeral** of a number. -/
inductive IsNumeral : List Char → Prop
  | mk {sign whole fraction exponent : List Char} : sign = [] ∨ sign = ['-'] → IsWhole whole →
      IsFraction fraction → IsExponent exponent → IsNumeral (sign ++ whole ++ fraction ++ exponent)

/-- The letters that may follow a backslash, with the characters they stand for. -/
def letterEscapes : List (Char × Char) :=
  [('"', '"'), ('\\', '\\'), ('/', '/'), ('b', '\x08'), ('f', '\x0c'), ('n', '\n'), ('r', '\r'),
    ('t', '\t')]

/-- A hexadecimal digit, of either case, and its value. -/
def IsHexDigit (c : Char) (d : Nat) : Prop :=
  "0123456789abcdef".toList[d]? = some c ∨ "0123456789ABCDEF".toList[d]? = some c

/-- One unit of a text: a character as it is, an escape by a letter, or one by four digits. -/
inductive TextUnit.Spells : TextUnit → List Char → Prop
  | raw {c : Char} : ' ' ≤ c → c ≠ '"' → c ≠ '\\' → Spells (.char c) [c]
  | letter {l c : Char} : (l, c) ∈ letterEscapes → Spells (.char c) ['\\', l]
  | digits {a b c d : Char} {w x y z : Nat} : IsHexDigit a w → IsHexDigit b x → IsHexDigit c y →
      IsHexDigit d z → Spells (.code (w * 16 ^ 3 + x * 16 ^ 2 + y * 16 + z)) ['\\', 'u', a, b, c, d]

/-- The units of a text between its quotes. -/
inductive Text.Spells : Text → List Char → Prop
  | nil : Spells [] []
  | cons {u : TextUnit} {t : Text} {xs ys : List Char} : u.Spells xs → Spells t ys →
      Spells (u :: t) (xs ++ ys)

/-- A part of the grammar, with what it means: a value, or what stands between the brackets of an
array or an object that is not empty. -/
inductive Phrase where
  | value (v : Json)
  | elements (vs : List Json)
  | members (ms : List (Text × Json))

/-- **The grammar of JSON.** -/
inductive Spells : Phrase → List Char → Prop
  | null : Spells (.value .null) ['n', 'u', 'l', 'l']
  | true : Spells (.value (.bool .true)) ['t', 'r', 'u', 'e']
  | false : Spells (.value (.bool .false)) ['f', 'a', 'l', 's', 'e']
  | number {numeral : List Char} : IsNumeral numeral → Spells (.value (.number numeral)) numeral
  | text {t : Text} {cs : List Char} : t.Spells cs → Spells (.value (.text t)) ('"' :: cs ++ ['"'])
  | emptyArray {a : List Char} : IsBlank a → Spells (.value (.array [])) ('[' :: a ++ [']'])
  | array {vs : List Json} {cs : List Char} : Spells (.elements vs) cs →
      Spells (.value (.array vs)) ('[' :: cs ++ [']'])
  | emptyObject {a : List Char} : IsBlank a → Spells (.value (.object [])) ('\x7b' :: a ++ ['\x7d'])
  | object {ms : List (Text × Json)} {cs : List Char} : Spells (.members ms) cs →
      Spells (.value (.object ms)) ('\x7b' :: cs ++ ['\x7d'])
  | lastElement {v : Json} {a cs b : List Char} : IsBlank a → Spells (.value v) cs → IsBlank b →
      Spells (.elements [v]) (a ++ cs ++ b)
  | element {v : Json} {vs : List Json} {a cs b rest : List Char} : IsBlank a →
      Spells (.value v) cs → IsBlank b → Spells (.elements vs) rest →
      Spells (.elements (v :: vs)) (a ++ cs ++ b ++ ',' :: rest)
  | lastMember {k : Text} {v : Json} {a key b c cs d : List Char} : IsBlank a → k.Spells key →
      IsBlank b → IsBlank c → Spells (.value v) cs → IsBlank d →
      Spells (.members [(k, v)]) (a ++ '"' :: key ++ '"' :: b ++ ':' :: c ++ cs ++ d)
  | member {k : Text} {v : Json} {ms : List (Text × Json)} {a key b c cs d rest : List Char} :
      IsBlank a → k.Spells key → IsBlank b → IsBlank c → Spells (.value v) cs → IsBlank d →
      Spells (.members ms) rest →
      Spells (.members ((k, v) :: ms))
        (a ++ '"' :: key ++ '"' :: b ++ ':' :: c ++ cs ++ d ++ ',' :: rest)

/-! ## Strings -/

/-- The UTF-16 code units of a character. -/
def utf16 (c : Char) : List Nat :=
  if c.toNat < 0x10000 then [c.toNat]
  else [0xd800 + (c.toNat - 0x10000) / 0x400, 0xdc00 + (c.toNat - 0x10000) % 0x400]

/-- **A text stands for a string** whose characters it has as they are or by their code units. -/
inductive Text.StandsFor : Text → List Char → Prop
  | nil : StandsFor [] []
  | char {c : Char} {t : Text} {cs : List Char} : StandsFor t cs → StandsFor (.char c :: t) (c :: cs)
  | coded {c : Char} {t : Text} {cs : List Char} : StandsFor t cs →
      StandsFor ((utf16 c).map .code ++ t) (c :: cs)

namespace Text

theorem isHigh_iff (n : Nat) : isHigh n ↔ 0xd800 ≤ n ∧ n < 0xdc00 := by
  simp [isHigh]

theorem isLow_iff (n : Nat) : isLow n ↔ 0xdc00 ≤ n ∧ n < 0xe000 := by
  simp [isLow]

/-- A code unit that is no surrogate is a character by itself. -/
theorem chars?_code {unit : Nat} (t : Text) (high : ¬ isHigh unit) (low : ¬ isLow unit) :
    chars? (.code unit :: t) = (chars? t).map (Char.ofNat unit :: ·) := by
  cases t with
  | nil => simp [chars?, high, low]
  | cons u t => cases u <;> simp [chars?, high, low]

theorem chars?_pair {high low : Nat} (t : Text) (hhigh : isHigh high) (hlow : isLow low) :
    chars? (.code high :: .code low :: t) = (chars? t).map (Char.ofNat (pairValue high low) :: ·) := by
  simp [chars?, hhigh, hlow]

/-- The code units of a character are read as the character. -/
theorem chars?_utf16 (c : Char) (t : Text) :
    chars? ((utf16 c).map .code ++ t) = (chars? t).map (c :: ·) := by
  have valid := c.valid
  simp only [UInt32.isValidChar, Nat.isValidChar, Char.toNat_val] at valid
  unfold utf16
  split
  · simp only [List.map_cons, List.map_nil, List.cons_append, List.nil_append]
    rw [chars?_code, Char.ofNat_toNat]
    · rw [isHigh_iff]
      omega
    · rw [isLow_iff]
      omega
  · simp only [List.map_cons, List.map_nil, List.cons_append, List.nil_append]
    have value : pairValue (0xd800 + (c.toNat - 0x10000) / 0x400)
        (0xdc00 + (c.toNat - 0x10000) % 0x400) = c.toNat := by
      unfold pairValue
      omega
    rw [chars?_pair, value, Char.ofNat_toNat]
    · rw [isHigh_iff]
      omega
    · rw [isLow_iff]
      omega

theorem StandsFor.chars?_eq {t : Text} {cs : List Char} (h : t.StandsFor cs) : chars? t = some cs := by
  induction h with
  | nil => rfl
  | char _ ih => rw [chars?, ih]; rfl
  | coded _ ih => rw [chars?_utf16, ih]; rfl

theorem utf16_of_valid {n : Nat} (valid : n.isValidChar) :
    utf16 (Char.ofNat n) = if n < 0x10000 then [n]
      else [0xd800 + (n - 0x10000) / 0x400, 0xdc00 + (n - 0x10000) % 0x400] := by
  rw [utf16, Char.toNat_ofNat, if_pos valid]

theorem utf16_pair {high low : Nat} (hhigh : isHigh high) (hlow : isLow low) :
    utf16 (Char.ofNat (pairValue high low)) = [high, low] := by
  rw [isHigh_iff] at hhigh
  rw [isLow_iff] at hlow
  generalize value : pairValue high low = n
  unfold pairValue at value
  have first : 0xd800 + (n - 0x10000) / 0x400 = high := by omega
  have second : 0xdc00 + (n - 0x10000) % 0x400 = low := by omega
  rw [utf16_of_valid (.inr (by omega)), if_neg (by omega), first, second]

theorem utf16_single {unit : Nat} (high : ¬ isHigh unit) (low : ¬ isLow unit) (h : unit < 0x10000) :
    utf16 (Char.ofNat unit) = [unit] := by
  rw [isHigh_iff] at high
  rw [isLow_iff] at low
  rw [utf16_of_valid (by unfold Nat.isValidChar; omega), if_pos h]

theorem StandsFor.pair {high low : Nat} {t : Text} {cs : List Char} (hhigh : isHigh high)
    (hlow : isLow low) (h : t.StandsFor cs) :
    StandsFor (.code high :: .code low :: t) (Char.ofNat (pairValue high low) :: cs) := by
  have coded := StandsFor.coded (c := Char.ofNat (pairValue high low)) h
  rwa [utf16_pair hhigh hlow] at coded

theorem StandsFor.single {unit : Nat} {t : Text} {cs : List Char} (high : ¬ isHigh unit)
    (low : ¬ isLow unit) (bound : unit < 0x10000) (h : t.StandsFor cs) :
    StandsFor (.code unit :: t) (Char.ofNat unit :: cs) := by
  have coded := StandsFor.coded (c := Char.ofNat unit) h
  rwa [utf16_single high low bound] at coded

/-- Code units that are read are those of characters. -/
theorem standsFor_of_chars? {t : Text} {cs : List Char}
    (bounded : ∀ unit, .code unit ∈ t → unit < 0x10000) (h : chars? t = some cs) :
    t.StandsFor cs := by
  fun_induction chars? t generalizing cs with
  | case1 =>
    obtain rfl := Option.some.inj h
    exact .nil
  | case2 c t ih =>
    obtain ⟨cs, hcs, rfl⟩ := Option.map_eq_some_iff.mp h
    exact .char (ih (fun unit hunit => bounded unit (.tail _ hunit)) hcs)
  | case3 high low t hhigh hlow ih =>
    obtain ⟨cs, hcs, rfl⟩ := Option.map_eq_some_iff.mp h
    exact .pair hhigh hlow (ih (fun unit hunit => bounded unit (.tail _ (.tail _ hunit))) hcs)
  | case6 unit _ t high low ih | case8 unit t _ alone ih =>
    obtain ⟨cs, hcs, rfl⟩ := Option.map_eq_some_iff.mp h
    refine .single ?_ ?_ (bounded unit (.head _)) (ih (fun u hu => bounded u (.tail _ hu)) hcs)
    all_goals simp_all
  | case4 | case5 | case7 => exact absurd h (by simp)

/-- **Decoding** finds the string that a text stands for, and nothing where it stands for none. -/
theorem chars?_eq_some_iff {t : Text} {cs : List Char}
    (bounded : ∀ unit, .code unit ∈ t → unit < 0x10000) : chars? t = some cs ↔ t.StandsFor cs :=
  ⟨standsFor_of_chars? bounded, StandsFor.chars?_eq⟩

end Text

/-! ## Runs -/

/-- Steps that may fail lead from one state to another. -/
def Runs {σ α : Type} (step? : σ → α → Option σ) (s : σ) (xs : List α) (s' : σ) : Prop :=
  xs.foldlM step? s = some s'

namespace Runs

variable {σ α : Type} {step? : σ → α → Option σ} {s s' s'' : σ} {x : α} {xs ys : List α}

theorem refl (s : σ) : Runs step? s [] s := rfl

theorem trans (h : Runs step? s xs s') (h' : Runs step? s' ys s'') : Runs step? s (xs ++ ys) s'' := by
  rw [Runs, List.foldlM_append, h]
  exact h'

theorem cons (h : step? s x = some s') (h' : Runs step? s' xs s'') : Runs step? s (x :: xs) s'' := by
  rw [Runs, List.foldlM_cons, h]
  exact h'

theorem one (h : step? s x = some s') : Runs step? s [x] s' := .cons h (.refl s')

end Runs

/-! ## From tokens to the value -/

mutual

/-- The tokens of a value. -/
def tokens : Json → List Token
  | .null => [.null]
  | .bool b => [.bool b]
  | .number numeral => [.number numeral]
  | .text t => [.text t]
  | .array vs => .openArray :: tokensOfElements vs ++ [.closeArray]
  | .object ms => .openObject :: tokensOfMembers ms ++ [.closeObject]

/-- The tokens of elements, with commas between. -/
def tokensOfElements : List Json → List Token
  | [] => []
  | [v] => tokens v
  | v :: vs => tokens v ++ .comma :: tokensOfElements vs

/-- The tokens of members, with commas between. -/
def tokensOfMembers : List (Text × Json) → List Token
  | [] => []
  | [(k, v)] => .text k :: .colon :: tokens v
  | (k, v) :: ms => .text k :: .colon :: tokens v ++ .comma :: tokensOfMembers ms

end

/-- The tokens of a part of the grammar. -/
def Phrase.tokens : Phrase → List Token
  | .value v => v.tokens
  | .elements vs => tokensOfElements vs
  | .members ms => tokensOfMembers ms

theorem tokensOfElements_cons (v : Json) {vs : List Json} (h : vs ≠ []) :
    tokensOfElements (v :: vs) = v.tokens ++ .comma :: tokensOfElements vs := by
  cases vs with
  | nil => exact absurd rfl h
  | cons w ws => rw [tokensOfElements]; simp

theorem tokensOfMembers_cons (k : Text) (v : Json) {ms : List (Text × Json)} (h : ms ≠ []) :
    tokensOfMembers ((k, v) :: ms) = .text k :: .colon :: v.tokens ++ .comma :: tokensOfMembers ms := by
  cases ms with
  | nil => exact absurd rfl h
  | cons m ms => rw [tokensOfMembers]; simp

/-- No value begins with a closing bracket. -/
theorem exists_tokens_cons (v : Json) :
    ∃ first rest, v.tokens = first :: rest ∧ first ≠ .closeArray := by
  cases v <;> exact ⟨_, _, by rw [tokens]; try rfl, by simp⟩

theorem exists_tokensOfElements (v : Json) (vs : List Json) :
    ∃ first rest, tokensOfElements (v :: vs) = first :: rest ∧ first ≠ .closeArray := by
  obtain ⟨first, rest, htokens, hfirst⟩ := v.exists_tokens_cons
  cases vs with
  | nil => exact ⟨first, rest, htokens, hfirst⟩
  | cons w ws =>
    rw [tokensOfElements_cons v (List.cons_ne_nil w ws), htokens]
    exact ⟨first, _, rfl, hfirst⟩

theorem exists_tokensOfMembers (k : Text) (v : Json) (ms : List (Text × Json)) :
    ∃ rest, tokensOfMembers ((k, v) :: ms) = .text k :: rest := by
  cases ms with
  | nil => exact ⟨_, rfl⟩
  | cons m ms =>
    rw [tokensOfMembers_cons k v (List.cons_ne_nil m ms)]
    exact ⟨_, rfl⟩

namespace Parse

/-- The first element of an array is read like the others. -/
theorem runs_firstElement {around : List Frame} {first : Token} {rest : List Token} {q : Parse}
    (hfirst : first ≠ .closeArray) (h : Runs step? (value (.array [] :: around)) (first :: rest) q) :
    Runs step? (firstElement around) (first :: rest) q := by
  have same : step? (.firstElement around) first = step? (.value (.array [] :: around)) first := by
    cases first with
    | closeArray => exact absurd rfl hfirst
    | _ => rfl
  rw [Runs, List.foldlM_cons] at h ⊢
  rw [same]
  exact h

end Parse

mutual

/-- **The tokens of a value are read as the value**, whatever is open around it. -/
theorem parses (around : List Frame) : ∀ v : Json,
    Runs Parse.step? (.value around) v.tokens (.after v around)
  | .null | .bool _ | .number _ | .text _ => rfl
  | .array [] => rfl
  | .array (v :: vs) => by
    have elements := parsesElements [] around (v :: vs) (List.cons_ne_nil v vs)
    obtain ⟨first, rest, htokens, hfirst⟩ := exists_tokensOfElements v vs
    rw [htokens] at elements
    rw [tokens, htokens]
    exact .cons rfl (Parse.runs_firstElement hfirst elements)
  | .object [] => rfl
  | .object ((k, v) :: ms) => by
    have members := parsesMembers [] around ((k, v) :: ms) (List.cons_ne_nil (k, v) ms)
    obtain ⟨rest, htokens⟩ := exists_tokensOfMembers k v ms
    rw [htokens] at members
    rw [tokens, htokens]
    -- a first key is read like the others
    exact .cons rfl members

/-- Elements are read behind those that are done. -/
theorem parsesElements (done : List Json) (around : List Frame) : ∀ vs : List Json, vs ≠ [] →
    Runs Parse.step? (.value (.array done :: around)) (tokensOfElements vs ++ [.closeArray])
      (.after (.array (done.reverse ++ vs)) around)
  | [], hne => absurd rfl hne
  | [v], _ => by
    refine (parses _ v).trans (.one ?_)
    rw [← List.reverse_cons]
    rfl
  | v :: w :: ws, _ => by
    have rest := parsesElements (v :: done) around (w :: ws) (List.cons_ne_nil w ws)
    rw [List.reverse_cons, List.append_assoc] at rest
    rw [tokensOfElements_cons v (List.cons_ne_nil w ws), List.append_assoc]
    exact (parses _ v).trans (.cons rfl rest)

/-- Members are read behind those that are done. -/
theorem parsesMembers (done : List (Text × Json)) (around : List Frame) :
    ∀ ms : List (Text × Json), ms ≠ [] →
      Runs Parse.step? (.key done around) (tokensOfMembers ms ++ [.closeObject])
        (.after (.object (done.reverse ++ ms)) around)
  | [], hne => absurd rfl hne
  | [(k, v)], _ => by
    refine .cons rfl (.cons rfl ((parses _ v).trans (.one ?_)))
    rw [← List.reverse_cons]
    rfl
  | (k, v) :: m :: ms, _ => by
    have rest := parsesMembers ((k, v) :: done) around (m :: ms) (List.cons_ne_nil m ms)
    rw [List.reverse_cons, List.append_assoc] at rest
    rw [tokensOfMembers_cons k v (List.cons_ne_nil m ms), List.cons_append, List.cons_append,
      List.append_assoc]
    exact .cons rfl (.cons rfl ((parses _ v).trans (.cons rfl rest)))

end

/-- The tokens of a value stand for it. -/
theorem ofTokens?_tokens (v : Json) : ofTokens? v.tokens = some v := by
  have read : v.tokens.foldlM Parse.step? (.value []) = some (.after v []) := parses [] v
  rw [ofTokens?, read]
  rfl

/-! ## From characters to tokens -/

namespace Scan

/-- A scan with these tokens behind it. A numeral at its end may still be open. -/
inductive Settled : Scan → List Token → Prop
  | between (done : List Token) : Settled ⟨.between, done⟩ done
  | number {stage : NumeralStage} {numeral : List Char} {done : List Token} : stage.complete →
      Settled ⟨.number stage numeral, done⟩ (.number numeral.reverse :: done)

/-- The characters that may stand behind a value. -/
def delimiters : List Char := [' ', '\t', '\n', '\r', ',', ']', '\x7d']

variable {s : Scan} {done : List Token} {c : Char}

/-- No numeral goes on with a delimiter. -/
theorem next?_eq_none (stage : NumeralStage) (hc : c ∈ delimiters) : stage.next? c = none := by
  simp only [delimiters, List.mem_cons, List.not_mem_nil, or_false] at hc
  rcases hc with rfl | rfl | rfl | rfl | rfl | rfl | rfl
  all_goals cases stage <;> rfl

theorem Settled.step?_eq (h : s.Settled done) (hc : c ∈ delimiters) : step? s c = start? done c := by
  cases h with
  | between => rfl
  | number hstage => simp [step?, next?_eq_none _ hc, hstage]

theorem Settled.finish?_eq (h : s.Settled done) : s.finish? = some done.reverse := by
  cases h with
  | between => rfl
  | number hstage => simp [finish?, hstage]

end Scan

/-- **A stretch of text is scanned as tokens**, whatever has been scanned before. -/
def Reads (cs : List Char) (ts : List Token) : Prop :=
  ∀ done, ∃ s : Scan, Runs Scan.step? ⟨.between, done⟩ cs s ∧ s.Settled (ts.reverse ++ done)

/-- A character that is a token by itself. -/
def IsSign (c : Char) (token : Token) : Prop :=
  ∀ done, Scan.start? done c = some ⟨.between, token :: done⟩

section

variable {a cs rest : List Char} {ts ts' : List Token} {c : Char} {token : Token}

theorem isBlank_nil : IsBlank [] := by simp [IsBlank]

theorem IsBlank.runs (h : IsBlank a) (done : List Token) :
    Runs Scan.step? ⟨.between, done⟩ a ⟨.between, done⟩ := by
  induction a with
  | nil => exact .refl _
  | cons c a ih =>
    obtain ⟨hc, ha⟩ := List.forall_mem_cons.mp h
    refine .cons ?_ (ih ha)
    rcases hc with rfl | rfl | rfl | rfl <;> rfl

namespace Reads

theorem nil : Reads [] [] := fun done => ⟨_, .refl _, .between done⟩

theorem sign (h : IsSign c token) (reads : Reads rest ts) : Reads (c :: rest) (token :: ts) := by
  intro done
  obtain ⟨s, runs, settled⟩ := reads (token :: done)
  refine ⟨s, .cons (h done) runs, ?_⟩
  rwa [List.reverse_cons, List.append_assoc]

theorem blank_append (h : IsBlank a) (reads : Reads rest ts) : Reads (a ++ rest) ts := by
  intro done
  obtain ⟨s, runs, settled⟩ := reads done
  exact ⟨s, (h.runs done).trans runs, settled⟩

theorem append_blank (reads : Reads cs ts) (h : IsBlank a) : Reads (cs ++ a) ts := by
  intro done
  obtain ⟨s, runs, settled⟩ := reads done
  cases a with
  | nil => exact ⟨s, by rwa [List.append_nil], settled⟩
  | cons c a =>
    obtain ⟨hc, ha⟩ := List.forall_mem_cons.mp h
    -- the first blank ends a numeral, and the others follow between tokens
    have ended : Scan.step? s c = some ⟨.between, ts.reverse ++ done⟩ := by
      rcases hc with rfl | rfl | rfl | rfl <;> rw [settled.step?_eq (by decide)] <;> rfl
    exact ⟨_, runs.trans (.cons ended (IsBlank.runs ha _)), .between _⟩

/-- A sign that may stand behind a value ends it. -/
theorem append_sign (reads : Reads cs ts) (hc : c ∈ Scan.delimiters) (h : IsSign c token)
    (reads' : Reads rest ts') : Reads (cs ++ c :: rest) (ts ++ token :: ts') := by
  intro done
  obtain ⟨s, runs, settled⟩ := reads done
  obtain ⟨s', runs', settled'⟩ := reads' (token :: (ts.reverse ++ done))
  have ended : Scan.step? s c = some ⟨.between, token :: (ts.reverse ++ done)⟩ := by
    rw [settled.step?_eq hc, h]
  refine ⟨s', runs.trans (.cons ended runs'), ?_⟩
  rwa [List.reverse_append, List.reverse_cons, List.append_assoc, List.append_assoc]

end Reads

end

/-! ### Texts -/

section

variable {t : Text} {u : TextUnit} {cs : List Char}

theorem IsHexDigit.lt {c : Char} {d : Nat} (h : IsHexDigit c d) : d < 16 := by
  rcases h with h | h
  · exact (List.getElem?_eq_some_iff.mp h).1
  · exact (List.getElem?_eq_some_iff.mp h).1

theorem hexDigit?_eq {c : Char} {d : Nat} (h : IsHexDigit c d) : Scan.hexDigit? c = some d := by
  have bound := h.lt
  rcases h with h | h <;> interval_cases d <;> obtain rfl := Option.some.inj h <;> rfl

/-- One digit of an escape, with others to follow. -/
theorem step?_code {c : Char} {d : Nat} (h : IsHexDigit c d) (units : Text) (left value : Nat)
    (done : List Token) : Scan.step? ⟨.code units (left + 2) value, done⟩ c =
      some ⟨.code units (left + 1) (16 * value + d), done⟩ := by
  simp [Scan.step?, hexDigit?_eq h]

theorem step?_lastCode {c : Char} {d : Nat} (h : IsHexDigit c d) (units : Text) (value : Nat)
    (done : List Token) : Scan.step? ⟨.code units 1 value, done⟩ c =
      some ⟨.text (.code (16 * value + d) :: units), done⟩ := by
  simp [Scan.step?, hexDigit?_eq h]

/-- A unit is scanned inside a text. -/
theorem TextUnit.Spells.runs (h : u.Spells cs) (units : Text) (done : List Token) :
    Runs Scan.step? ⟨.text units, done⟩ cs ⟨.text (u :: units), done⟩ := by
  cases h with
  | raw hlow hquote hslash =>
    have plain : ¬ _ < ' ' := Char.not_lt.mpr hlow
    exact .one (by simp [Scan.step?, hquote, hslash, plain])
  | letter hmem =>
    simp only [letterEscapes, List.mem_cons, List.not_mem_nil, or_false, Prod.mk.injEq] at hmem
    rcases hmem with ⟨rfl, rfl⟩ | ⟨rfl, rfl⟩ | ⟨rfl, rfl⟩ | ⟨rfl, rfl⟩ | ⟨rfl, rfl⟩ | ⟨rfl, rfl⟩ |
      ⟨rfl, rfl⟩ | ⟨rfl, rfl⟩
    all_goals rfl
  | @digits a b c d w x y z ha hb hc hd =>
    have value : 16 * (16 * (16 * (16 * 0 + w) + x) + y) + z =
        w * 16 ^ 3 + x * 16 ^ 2 + y * 16 + z := by ring
    refine .cons rfl (.cons rfl ?_)
    rw [← value]
    exact .cons (step?_code ha ..) (.cons (step?_code hb ..) (.cons (step?_code hc ..)
      (.one (step?_lastCode hd ..))))

theorem Text.Spells.runs (h : t.Spells cs) (units : Text) (done : List Token) :
    Runs Scan.step? ⟨.text units, done⟩ cs ⟨.text (t.reverse ++ units), done⟩ := by
  induction h generalizing units with
  | nil => exact .refl _
  | @cons u t xs ys hu _ ih =>
    rw [List.reverse_cons, List.append_assoc]
    exact (hu.runs units done).trans (ih (u :: units))

/-- Four hexadecimal digits give sixteen bits. -/
theorem Text.Spells.bounded (h : t.Spells cs) : ∀ unit, .code unit ∈ t → unit < 0x10000 := by
  induction h with
  | nil => simp
  | cons hu _ ih =>
    intro unit hunit
    rcases List.mem_cons.mp hunit with rfl | hunit
    · cases hu with
      | digits ha hb hc hd =>
        have := ha.lt
        have := hb.lt
        have := hc.lt
        have := hd.lt
        omega
    · exact ih unit hunit

/-- A text between its quotes is a token. -/
theorem Reads.text (h : t.Spells cs) {rest : List Char} {ts : List Token} (reads : Reads rest ts) :
    Reads ('"' :: cs ++ '"' :: rest) (.text t :: ts) := by
  intro done
  obtain ⟨s, runs, settled⟩ := reads (.text t :: done)
  have units := h.runs [] done
  rw [List.append_nil] at units
  have closed : Scan.step? ⟨.text t.reverse, done⟩ '"' = some ⟨.between, .text t :: done⟩ := by
    simp [Scan.step?]
  refine ⟨s, .cons rfl (units.trans (.cons closed runs)), ?_⟩
  rwa [List.reverse_cons, List.append_assoc]

end

/-! ### Numerals -/

section

variable {cs : List Char} {stage stage' : NumeralStage}

theorem isDigit_of_le {c : Char} (h : '0' ≤ c ∧ c ≤ '9') : NumeralStage.isDigit c := by
  simp [NumeralStage.isDigit, h]

/-- Where digits go on as they are, so does a run of them. -/
theorem AreDigits.runs (h : AreDigits cs)
    (loops : ∀ c, NumeralStage.isDigit c → stage.next? c = some stage) :
    Runs NumeralStage.next? stage cs stage := by
  induction cs with
  | nil => exact .refl _
  | cons c cs ih =>
    obtain ⟨hc, hcs⟩ := List.forall_mem_cons.mp h
    exact .cons (loops c (isDigit_of_le hc)) (ih hcs)

/-- The stages behind which a fraction or an exponent may follow, or nothing. -/
def Whole (stage : NumeralStage) : Prop := stage = .zero ∨ stage = .whole

theorem IsWhole.runs (h : IsWhole cs) :
    ∃ stage, Whole stage ∧ Runs NumeralStage.next? .minus cs stage := by
  cases h with
  | zero => exact ⟨.zero, .inl rfl, rfl⟩
  | @positive c cs hlow hhigh hcs =>
    have digit := isDigit_of_le ⟨Char.le_trans (by decide) hlow, hhigh⟩
    have nonzero : c ≠ '0' := by
      rintro rfl
      exact absurd hlow (by decide)
    have first : NumeralStage.next? .minus c = some .whole := by
      simp [NumeralStage.next?, nonzero, digit]
    exact ⟨.whole, .inr rfl, .cons first (hcs.runs fun c hc => by simp [NumeralStage.next?, hc])⟩

theorem IsFraction.runs (h : IsFraction cs) (hstage : Whole stage) :
    ∃ stage', (Whole stage' ∨ stage' = .fraction) ∧ Runs NumeralStage.next? stage cs stage' := by
  cases h with
  | none => exact ⟨stage, .inl hstage, .refl _⟩
  | digits hdigits =>
    obtain ⟨hc, hcs⟩ := List.forall_mem_cons.mp hdigits
    refine ⟨.fraction, .inr rfl, ?_⟩
    have point : stage.next? '.' = some .point := by rcases hstage with rfl | rfl <;> rfl
    refine .cons point (.cons ?_ (AreDigits.runs hcs ?_))
    · simp [NumeralStage.next?, isDigit_of_le hc]
    · intro c hc
      simp [NumeralStage.next?, hc]

theorem IsExponent.runs (h : IsExponent cs) (hstage : Whole stage ∨ stage = .fraction) :
    ∃ stage', stage'.complete ∧ Runs NumeralStage.next? stage cs stage' := by
  cases h with
  | none =>
    refine ⟨stage, ?_, .refl _⟩
    rcases hstage with (rfl | rfl) | rfl <;> rfl
  | @digits mark c sign cs hmark hsign hdigits =>
    obtain ⟨hc, hcs⟩ := List.forall_mem_cons.mp hdigits
    have marked : stage.next? mark = some .mark := by
      rcases hstage with (rfl | rfl) | rfl <;> rcases hmark with rfl | rfl <;> rfl
    have tail : Runs NumeralStage.next? .exponent cs .exponent :=
      AreDigits.runs hcs fun c hc => by simp [NumeralStage.next?, hc]
    have first := isDigit_of_le hc
    refine ⟨.exponent, rfl, .cons marked ?_⟩
    rcases hsign with rfl | rfl | rfl
    · exact .cons (by simp [NumeralStage.next?, first]) tail
    · exact .cons rfl (.cons (by simp [NumeralStage.next?, first]) tail)
    · exact .cons rfl (.cons (by simp [NumeralStage.next?, first]) tail)

/-- A numeral is scanned by its stages. -/
theorem runs_number (h : Runs NumeralStage.next? stage cs stage') (numeral : List Char)
    (done : List Token) :
    Runs Scan.step? ⟨.number stage numeral, done⟩ cs ⟨.number stage' (cs.reverse ++ numeral), done⟩ := by
  induction cs generalizing stage numeral with
  | nil =>
    obtain rfl := Option.some.inj h
    exact .refl _
  | cons c cs ih =>
    rw [Runs, List.foldlM_cons] at h
    obtain ⟨next, hnext, hrest⟩ := Option.bind_eq_some_iff.mp h
    rw [List.reverse_cons, List.append_assoc]
    exact .cons (by simp [Scan.step?, hnext]) (ih hrest (c :: numeral))

/-- A numeral without a sign begins with a digit. -/
theorem start?_digit {c : Char} (h : NumeralStage.next? .minus c = some stage) (done : List Token) :
    Scan.start? done c = some ⟨.number stage [c], done⟩ := by
  have digit : '0' ≤ c ∧ c ≤ '9' := by
    simp only [NumeralStage.next?, NumeralStage.isDigit, Bool.and_eq_true, decide_eq_true_eq] at h
    split_ifs at h with zero digit
    · rw [zero]
      decide
    · exact digit
  obtain ⟨hd, hc⟩ := Numeral.digit?_eq_some_iff.mp (if_pos digit)
  generalize c.toNat - 48 = d at hd hc
  subst hc
  interval_cases d <;> obtain rfl := Option.some.inj h <;> rfl

/-- A numeral is a token. -/
theorem IsNumeral.reads (h : IsNumeral cs) : Reads cs [.number cs] := by
  intro done
  obtain ⟨hsign, hwhole, hfraction, hexponent⟩ := h
  rename_i sign whole fraction exponent
  obtain ⟨stage₁, hstage₁, runs₁⟩ := hwhole.runs
  obtain ⟨stage₂, hstage₂, runs₂⟩ := hfraction.runs hstage₁
  obtain ⟨stage₃, complete, runs₃⟩ := hexponent.runs hstage₂
  have runs : Runs NumeralStage.next? .minus (whole ++ fraction ++ exponent) stage₃ :=
    (runs₁.trans runs₂).trans runs₃
  rw [List.append_assoc, List.append_assoc, ← List.append_assoc whole]
  generalize whole ++ fraction ++ exponent = unsigned at runs
  have settled : ∀ numeral, (⟨.number stage₃ numeral, done⟩ : Scan).Settled
      (.number numeral.reverse :: done) := fun numeral => .number complete
  rcases hsign with rfl | rfl
  · cases unsigned with
    | nil => obtain rfl := Option.some.inj runs; exact absurd complete (by decide)
    | cons c rest =>
      rw [Runs, List.foldlM_cons] at runs
      obtain ⟨stage, hstage, hrest⟩ := Option.bind_eq_some_iff.mp runs
      refine ⟨_, .cons (start?_digit hstage done) (runs_number hrest [c] done), ?_⟩
      have scanned := settled (rest.reverse ++ [c])
      rwa [List.reverse_append, List.reverse_reverse] at scanned
  · refine ⟨_, .cons rfl (runs_number runs ['-'] done), ?_⟩
    have scanned := settled (unsigned.reverse ++ ['-'])
    rwa [List.reverse_append, List.reverse_reverse] at scanned

end

/-! ### Values -/

theorem Spells.elements_ne_nil {vs : List Json} {cs : List Char} (h : Spells (.elements vs) cs) :
    vs ≠ [] := by
  cases h <;> exact List.cons_ne_nil _ _

theorem Spells.members_ne_nil {ms : List (Text × Json)} {cs : List Char}
    (h : Spells (.members ms) cs) : ms ≠ [] := by
  cases h <;> exact List.cons_ne_nil _ _

/-- The names of members are spelled as texts. -/
theorem Spells.exists_key {ms : List (Text × Json)} {cs : List Char} (h : Spells (.members ms) cs) :
    ∀ m ∈ ms, ∃ key, m.1.Spells key := by
  induction ms generalizing cs with
  | nil => simp
  | cons m ms ih =>
    cases h with
    | lastMember _ hk => simpa using ⟨_, hk⟩
    | member _ hk _ _ _ _ hrest => exact List.forall_mem_cons.mpr ⟨⟨_, hk⟩, ih hrest⟩

/-- **What the grammar spells is scanned as its tokens.** -/
theorem Spells.reads {p : Phrase} {cs : List Char} (h : Spells p cs) : Reads cs p.tokens := by
  have comma : IsSign ',' .comma := fun _ => rfl
  have colon : IsSign ':' .colon := fun _ => rfl
  have openArray : IsSign '[' .openArray := fun _ => rfl
  have closeArray : IsSign ']' .closeArray := fun _ => rfl
  have openObject : IsSign '\x7b' .openObject := fun _ => rfl
  have closeObject : IsSign '\x7d' .closeObject := fun _ => rfl
  induction h with
  | null | true | false => exact fun done => ⟨_, rfl, .between _⟩
  | number h => exact h.reads
  | text h => exact .text h .nil
  | emptyArray ha => exact .sign openArray (.blank_append ha (.sign closeArray .nil))
  | array h ih =>
    rw [Phrase.tokens, tokens]
    exact .sign openArray (.append_sign ih (by decide) closeArray .nil)
  | emptyObject ha => exact .sign openObject (.blank_append ha (.sign closeObject .nil))
  | object h ih =>
    rw [Phrase.tokens, tokens]
    exact .sign openObject (.append_sign ih (by decide) closeObject .nil)
  | lastElement ha h hb ih => exact .append_blank (.blank_append ha ih) hb
  | element ha h hb hrest ih ihrest =>
    rw [Phrase.tokens, tokensOfElements_cons _ hrest.elements_ne_nil]
    exact .append_sign (.append_blank (.blank_append ha ih) hb) (by decide) comma ihrest
  | lastMember ha hk hb hc h hd ih =>
    have reads := Reads.blank_append ha (.text hk (.blank_append hb
      (.sign colon (.blank_append hc (.append_blank ih hd)))))
    simpa [Phrase.tokens, tokensOfMembers] using reads
  | member ha hk hb hc h hd hrest ih ihrest =>
    rw [Phrase.tokens, tokensOfMembers_cons _ _ hrest.members_ne_nil]
    have reads := Reads.blank_append ha (.text hk (.blank_append hb (.sign colon (.blank_append hc
      (.append_sign (.append_blank ih hd) (by decide) comma ihrest)))))
    simpa [Phrase.tokens] using reads

/-- **Reading accepts the grammar**: a value in any of its spellings, with blanks around it. -/
theorem parse?_of_spells {v : Json} {a cs b : List Char} (ha : IsBlank a) (h : Spells (.value v) cs)
    (hb : IsBlank b) : parse? (String.ofList (a ++ cs ++ b)) = some v := by
  obtain ⟨s, runs, settled⟩ := (h.reads.blank_append ha).append_blank hb []
  have scanned : Token.scan? (a ++ cs ++ b) = some v.tokens := by
    rw [Token.scan?, runs, Option.bind_eq_bind, Option.bind_some, settled.finish?_eq,
      List.append_nil, List.reverse_reverse]
    rfl
  rw [parse?, String.toList_ofList, scanned]
  exact ofTokens?_tokens v

end LeaseLock.Json
