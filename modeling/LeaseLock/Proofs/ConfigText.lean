/-
# LeaseLock.Proofs.ConfigText -- settings and their JSON text

The members of an object give settings one by one: each known field at most once, in any place, and any
others between them (`Config.Gives`). Reading an object gives what its members give, and the defaults
for the rest; nothing is read where a known field is repeated or a field has a name that is no string.
The text that settings are written as spells such an object, so they are read back as they are
(`Config.parse?_serialized`).
-/
import LeaseLock.Config
import LeaseLock.Proofs.JsonText

namespace LeaseLock

open Json

namespace Config

/-! ## What members give -/

/-- A time limit in JSON: none, or digits that stand for 64 bits. -/
inductive IsLimit : Json → Option UInt64 → Prop
  | null : IsLimit .null none
  | digits {numeral : List Char} {millis : UInt64} : Numeral.IsDecimal numeral millis.toNat →
      IsLimit (.number numeral) (some millis)

/-- **What the members of an object give**: a table and a time limit, or nothing for them. -/
inductive Gives : List (Text × Json) → Option String → Option (Option UInt64) → Prop
  | nil : Gives [] none none
  | table {k t : Text} {name : String} {ms : List (Text × Json)} {limit : Option (Option UInt64)} :
      k.StandsFor "table_name".toList → t.StandsFor name.toList → Gives ms none limit →
      Gives ((k, .text t) :: ms) (some name) limit
  | limit {k : Text} {v : Json} {limit : Option UInt64} {ms : List (Text × Json)}
      {table : Option String} :
      k.StandsFor "statement_timeout_ms".toList → IsLimit v limit → Gives ms table none →
      Gives ((k, v) :: ms) table (some limit)
  | other {k : Text} {field : String} {v : Json} {ms : List (Text × Json)} {table : Option String}
      {limit : Option (Option UInt64)} :
      k.StandsFor field.toList → field ≠ "table_name" → field ≠ "statement_timeout_ms" →
      Gives ms table limit → Gives ((k, v) :: ms) table limit

/-- A member with its name decoded. -/
def named? (m : Text × Json) : Option (String × Json) := do some ((← m.1.decode?), m.2)

theorem ofJson?_object (ms : List (Text × Json)) : ofJson? (.object ms) =
    (ms.mapM named?).bind fun members =>
      (member? members "table_name" defaultTableName Json.string?).bind fun tableName =>
        (member? members "statement_timeout_ms" none timeoutOfJson?).bind fun timeoutMillis =>
          some { tableName, timeoutMillis } := rfl

theorem decode?_eq {t : Text} {s : String} (h : t.StandsFor s.toList) : t.decode? = some s := by
  rw [Text.decode?, h.chars?_eq, Option.map_some, String.ofList_toList]

theorem timeoutOfJson?_eq {v : Json} {limit : Option UInt64} (h : IsLimit v limit) :
    timeoutOfJson? v = some limit := by
  cases h with
  | null => rfl
  | @digits numeral millis h =>
    have small : millis.toNat < UInt64.size := millis.toNat_lt
    rw [timeoutOfJson?, Numeral.decimal?_eq_some_iff.mpr h]
    simp [small]

/-- What has been found of a field among members: nothing, or one value that is read. -/
def Found {α : Type} (members : List (String × Json)) (field : String) (read? : Json → Option α) :
    Option α → Prop
  | none => (members.filter fun m => m.1 = field) = []
  | some x => ∃ v, (members.filter fun m => m.1 = field) = [(field, v)] ∧ read? v = some x

section

variable {α : Type} {members : List (String × Json)} {field : String} {read? : Json → Option α}
  {found : Option α}

theorem Found.member?_eq (h : Found members field read? found) (default : α) :
    member? members field default read? = some (found.getD default) := by
  cases found with
  | none =>
    rw [member?, h]
    rfl
  | some x =>
    obtain ⟨v, hfilter, hread⟩ := h
    rw [member?, hfilter]
    exact hread

/-- A field comes first. -/
theorem Found.cons (h : Found members field read? none) {v : Json} {x : α} (hread : read? v = some x) :
    Found ((field, v) :: members) field read? (some x) := by
  refine ⟨v, ?_, hread⟩
  rw [List.filter_cons_of_pos (by simp), h]

/-- Another field makes no difference. -/
theorem Found.skip (h : Found members field read? found) {other : String} (hne : other ≠ field)
    (v : Json) : Found ((other, v) :: members) field read? found := by
  have same : (((other, v) :: members).filter fun m => m.1 = field) =
      members.filter fun m => m.1 = field := List.filter_cons_of_neg (by simpa using hne)
  cases found with
  | none => rwa [Found, same]
  | some x => rwa [Found, same]

end

/-- **Members are found as they are given.** -/
theorem Gives.found {ms : List (Text × Json)} {table : Option String} {limit : Option (Option UInt64)}
    (h : Gives ms table limit) :
    ∃ members, ms.mapM named? = some members ∧ Found members "table_name" Json.string? table ∧
      Found members "statement_timeout_ms" timeoutOfJson? limit := by
  have step : ∀ {k : Text} {field : String} {v : Json} {ms : List (Text × Json)}
      {members : List (String × Json)}, k.StandsFor field.toList → ms.mapM named? = some members →
      ((k, v) :: ms).mapM named? = some ((field, v) :: members) := by
    intro k field v ms members hk hms
    have name : named? (k, v) = some (field, v) := by simp [named?, decode?_eq hk]
    rw [List.mapM_cons, name, hms]
    rfl
  induction h with
  | nil => exact ⟨[], rfl, rfl, rfl⟩
  | table hk ht _ ih =>
    obtain ⟨members, hms, htable, hlimit⟩ := ih
    exact ⟨_, step hk hms, htable.cons (decode?_eq ht), hlimit.skip (by decide) _⟩
  | limit hk hv _ ih =>
    obtain ⟨members, hms, htable, hlimit⟩ := ih
    exact ⟨_, step hk hms, htable.skip (by decide) _, hlimit.cons (timeoutOfJson?_eq hv)⟩
  | other hk htable hlimit _ ih =>
    obtain ⟨members, hms, foundTable, foundLimit⟩ := ih
    exact ⟨_, step hk hms, foundTable.skip htable _, foundLimit.skip hlimit _⟩

theorem Gives.ofJson?_eq {ms : List (Text × Json)} {table : Option String}
    {limit : Option (Option UInt64)} (h : Gives ms table limit) :
    ofJson? (.object ms) = some ⟨table.getD defaultTableName, limit.getD none⟩ := by
  obtain ⟨members, hms, htable, hlimit⟩ := h.found
  rw [ofJson?_object, hms, Option.bind_some, htable.member?_eq, Option.bind_some, hlimit.member?_eq,
    Option.bind_some]

/-! ## What is refused -/

/-- A part of a list is mapped to a part. -/
theorem exists_mapM_sublist {α β : Type} {f : α → Option β} {xs ys : List α} (h : xs.Sublist ys)
    {bs : List β} (hbs : ys.mapM f = some bs) : ∃ as, xs.mapM f = some as ∧ as.Sublist bs := by
  have uncons : ∀ {y : α} {ys : List α} {bs : List β}, (y :: ys).mapM f = some bs →
      ∃ b rest, f y = some b ∧ ys.mapM f = some rest ∧ bs = b :: rest := by
    intro y ys bs hbs
    rw [List.mapM_cons] at hbs
    obtain ⟨b, hb, hrest⟩ := Option.bind_eq_some_iff.mp hbs
    obtain ⟨rest, hrest, heq⟩ := Option.bind_eq_some_iff.mp hrest
    exact ⟨b, rest, hb, hrest, (Option.some.inj heq).symm⟩
  induction h generalizing bs with
  | slnil => exact ⟨[], rfl, List.nil_sublist _⟩
  | cons y _ ih =>
    obtain ⟨b, rest, -, hrest, rfl⟩ := uncons hbs
    obtain ⟨as, has, hsub⟩ := ih hrest
    exact ⟨as, has, hsub.cons b⟩
  | cons_cons y _ ih =>
    obtain ⟨b, rest, hb, hrest, rfl⟩ := uncons hbs
    obtain ⟨as, has, hsub⟩ := ih hrest
    refine ⟨b :: as, ?_, hsub.cons_cons b⟩
    rw [List.mapM_cons, hb, has]
    rfl

/-- A field that is there twice is refused. -/
theorem member?_eq_none {α : Type} {members : List (String × Json)} {field : String} {v v' : Json}
    (h : [(field, v), (field, v')].Sublist members) (default : α) (read? : Json → Option α) :
    member? members field default read? = none := by
  have twice : [(field, v), (field, v')].Sublist (members.filter fun m => m.1 = field) := by
    have filtered := h.filter fun m => m.1 = field
    simpa using filtered
  have long := twice.length_le
  unfold member?
  split
  · next empty => rw [empty] at long; exact absurd long (by simp)
  · next single => rw [single] at long; exact absurd long (by simp)
  · rfl

/-- A known field stands twice among members. -/
def Repeats (ms : List (Text × Json)) : Prop :=
  ∃ field ∈ ["table_name", "statement_timeout_ms"], ∃ k v k' v', [(k, v), (k', v')].Sublist ms ∧
    k.StandsFor field.toList ∧ k'.StandsFor field.toList

theorem Repeats.ofJson?_eq {ms : List (Text × Json)} (h : Repeats ms) : ofJson? (.object ms) = none := by
  obtain ⟨field, hfield, k, v, k', v', hsub, hk, hk'⟩ := h
  rw [ofJson?_object]
  cases hms : ms.mapM named? with
  | none => rfl
  | some members =>
    obtain ⟨found, hfound, hsub⟩ := exists_mapM_sublist hsub hms
    have both : found = [(field, v), (field, v')] := by
      simpa [named?, decode?_eq hk, decode?_eq hk'] using hfound.symm
    rw [both] at hsub
    rw [Option.bind_some]
    simp only [List.mem_cons, List.not_mem_nil, or_false] at hfield
    rcases hfield with rfl | rfl
    · rw [member?_eq_none hsub, Option.bind_none]
    · rw [member?_eq_none hsub]
      cases member? members "table_name" defaultTableName Json.string? <;> rfl

/-- A field that has no string for a name is refused. -/
theorem ofJson?_of_undecodable {ms : List (Text × Json)} {k : Text} {v : Json} (h : (k, v) ∈ ms)
    (hk : k.decode? = none) : ofJson? (.object ms) = none := by
  rw [ofJson?_object]
  cases hms : ms.mapM named? with
  | none => rfl
  | some members =>
    obtain ⟨found, hfound, -⟩ := exists_mapM_sublist (List.singleton_sublist.mpr h) hms
    exact absurd hfound (by simp [named?, hk])

/-! ## What is written -/

theorem isHexDigit_digit {d : Nat} (h : d < 16) : IsHexDigit (Numeral.digit d) d := by
  left
  interval_cases d <;> rfl

/-- A code unit is written as an escape. -/
theorem spells_codeEscape {unit : Nat} (h : unit < 0x10000) :
    TextUnit.Spells (.code unit) (codeEscape unit) := by
  have value : unit / 16 / 16 / 16 % 16 * 16 ^ 3 + unit / 16 / 16 % 16 * 16 ^ 2 + unit / 16 % 16 * 16 +
      unit % 16 = unit := by omega
  have digits := TextUnit.Spells.digits
    (isHexDigit_digit (Nat.mod_lt (unit / 16 / 16 / 16) (by decide : 0 < 16)))
    (isHexDigit_digit (Nat.mod_lt (unit / 16 / 16) (by decide : 0 < 16)))
    (isHexDigit_digit (Nat.mod_lt (unit / 16) (by decide : 0 < 16)))
    (isHexDigit_digit (Nat.mod_lt unit (by decide : 0 < 16)))
  rwa [value] at digits

/-- A character is written as a unit that stands for it. -/
theorem exists_unit (c : Char) : ∃ u : TextUnit, u.Spells (charText c) ∧
    ∀ {t : Text} {cs : List Char}, t.StandsFor cs → Text.StandsFor (u :: t) (c :: cs) := by
  unfold charText
  split
  case h_8 hquote hslash _ _ _ _ _ =>
    split
    · next control =>
      have small : c.toNat < 32 := control
      refine ⟨.code c.toNat, spells_codeEscape (by omega), fun h => ?_⟩
      have coded := Text.StandsFor.coded (c := c) h
      rwa [utf16, if_pos (by omega)] at coded
    · next visible => exact ⟨.char c, .raw (Char.not_lt.mp visible) hquote hslash, .char⟩
  all_goals exact ⟨.char _, .letter (by decide), .char⟩

/-- A string is written as a text that stands for it. -/
theorem exists_text (s : List Char) :
    ∃ t : Text, t.Spells ((s.map .char).flatMap TextUnit.written) ∧ t.StandsFor s := by
  induction s with
  | nil => exact ⟨[], .nil, .nil⟩
  | cons c s ih =>
    obtain ⟨t, spelled, stands⟩ := ih
    obtain ⟨u, hu, hc⟩ := exists_unit c
    exact ⟨u :: t, .cons hu spelled, hc stands⟩

theorem isNumeral_digits (n : Nat) : IsNumeral (Numeral.digits 10 n) := by
  obtain ⟨d, ds, hds, hdigits, -, hzero⟩ := Numeral.exists_digits n
  have digit : ∀ e < 10, '0' ≤ Numeral.digit e ∧ Numeral.digit e ≤ '9' := by decide
  have positive : ∀ e < 10, e ≠ 0 → '1' ≤ Numeral.digit e := by decide
  obtain ⟨hd, hds⟩ := List.forall_mem_cons.mp hds
  have whole : IsWhole (Numeral.digits 10 n) := by
    rw [hdigits]
    by_cases h : d = 0
    · obtain ⟨-, rfl⟩ := hzero h
      rw [h]
      exact .zero
    · refine .positive (positive d hd h) (digit d hd).2 ?_
      intro c hc
      obtain ⟨e, he, rfl⟩ := List.mem_map.mp hc
      exact digit e (hds e he)
  simpa using IsNumeral.mk (.inl rfl) whole .none .none

/-- A time limit is written as a value that is one. -/
theorem exists_limit (limit : Option UInt64) :
    ∃ v, Spells (.value v) (timeoutToJson limit).written ∧ IsLimit v limit := by
  cases limit with
  | none => exact ⟨.null, .null, .null⟩
  | some millis =>
    exact ⟨_, .number (isNumeral_digits millis.toNat), .digits (Numeral.isDecimal_digits millis.toNat)⟩

/-- **Settings are written as an object that gives them.** -/
theorem exists_object (c : Config) : ∃ ms, Spells (.value (.object ms)) c.toJson.written ∧
    Gives ms (some c.tableName) (some c.timeoutMillis) := by
  obtain ⟨k, hk, field⟩ := exists_text "table_name".toList
  obtain ⟨t, ht, name⟩ := exists_text c.tableName.toList
  obtain ⟨k', hk', field'⟩ := exists_text "statement_timeout_ms".toList
  obtain ⟨v, hv, limit⟩ := exists_limit c.timeoutMillis
  refine ⟨[(k, .text t), (k', v)], ?_, .table field name (.limit field' limit .nil)⟩
  have spelled := Spells.object (.member isBlank_nil hk isBlank_nil isBlank_nil (.text ht) isBlank_nil
    (.lastMember isBlank_nil hk' isBlank_nil isBlank_nil hv isBlank_nil))
  simpa [toJson, written, writtenMembers, Text.written, Text.ofString, Json.ofString] using spelled

/-! ## Texts -/

/-- An object in any of its spellings gives what its members give. -/
theorem parse?_object {ms : List (Text × Json)} {a cs b : List Char} (ha : IsBlank a)
    (h : Spells (.value (.object ms)) cs) (hb : IsBlank b) :
    parse? (String.ofList (a ++ cs ++ b)) = ofJson? (.object ms) := by
  rw [parse?, parse?_of_spells ha h hb]
  rfl

/-- **Settings are read back from their text.** -/
theorem parse?_serialized (c : Config) : parse? c.serialized = some c := by
  obtain ⟨ms, spelled, gives⟩ := c.exists_object
  have read := parse?_object isBlank_nil spelled isBlank_nil
  rw [gives.ofJson?_eq, List.append_nil, List.nil_append] at read
  exact read

/-- **Settings survive their JSON form.** What is written is read back as it was. An object in any
spelling and with any blanks gives the values of its known fields, each there at most once and in any
place among other fields with any values, and the defaults for the fields that are left out. Nothing is
read where a known field is repeated, or where the name of a field is no string. -/
theorem survives_text :
    (∀ c : Config, parse? c.serialized = some c) ∧
    ∀ (ms : List (Text × Json)) (a cs b : List Char), IsBlank a → Spells (.value (.object ms)) cs →
      IsBlank b →
      (∀ table limit, Gives ms table limit → parse? (String.ofList (a ++ cs ++ b)) =
        some ⟨table.getD defaultTableName, limit.getD none⟩) ∧
      (Repeats ms → parse? (String.ofList (a ++ cs ++ b)) = none) ∧
      ((∃ m ∈ ms, ∀ name, ¬ m.1.StandsFor name) → parse? (String.ofList (a ++ cs ++ b)) = none) := by
  refine ⟨parse?_serialized, ?_⟩
  intro ms a cs b ha h hb
  rw [parse?_object ha h hb]
  refine ⟨fun table limit gives => gives.ofJson?_eq, Repeats.ofJson?_eq, ?_⟩
  rintro ⟨⟨k, v⟩, hmem, hk⟩
  refine ofJson?_of_undecodable hmem ?_
  cases h with
  | emptyObject => exact absurd hmem (by simp)
  | object hms =>
    obtain ⟨key, spelled⟩ := hms.exists_key _ hmem
    rw [Text.decode?, Option.map_eq_none_iff, Option.eq_none_iff_forall_ne_some]
    intro name hname
    exact hk name ((Text.chars?_eq_some_iff spelled.bounded).mp hname)

/-- An object with a field of another name. -/
theorem survives_text_other_field :
    Spells (.value (.object [([.char 'x'], .array [])])) "\x7b\"x\": []\x7d".toList ∧
    Gives [([.char 'x'], .array [])] none none ∧ parse? " \x7b\"x\": []\x7d" = some {} :=
  have space : IsBlank [' '] := by simp [IsBlank]
  have spelled : Spells (.value (.object [([.char 'x'], .array [])])) "\x7b\"x\": []\x7d".toList :=
    .object (.lastMember isBlank_nil (.cons (.raw (by decide) (by decide) (by decide)) .nil)
      isBlank_nil space (.emptyArray isBlank_nil) isBlank_nil)
  have field : Text.StandsFor [.char 'x'] "x".toList := .char .nil
  have gives : Gives [([.char 'x'], .array [])] none none :=
    .other field (by decide) (by decide) .nil
  ⟨spelled, gives, (survives_text.2 _ [' '] _ [] space spelled isBlank_nil).1 none none gives⟩

/-- **A field whose name is half of a surrogate pair is refused**, though it is no known field and the
text is an object by the grammar. -/
theorem unpaired_field_refused :
    Spells (.value (.object [([.code 0xd800], .number ['0'])]))
      "\x7b\"\\ud800\":0\x7d".toList ∧
    (∀ field ∈ ["table_name", "statement_timeout_ms"],
      ¬ Text.StandsFor [.code 0xd800] field.toList) ∧
    parse? "\x7b\"\\ud800\":0\x7d" = none ∧ parse? "\x7b\"\\ud800\":0\x7d" ≠ some {} := by
  have refused : parse? "\x7b\"\\ud800\":0\x7d" = none := by decide +kernel
  refine ⟨?_, ?_, refused, by simp [refused]⟩
  · have key : Text.Spells [.code 0xd800] (['\\', 'u', 'd', '8', '0', '0'] ++ []) :=
      .cons (.digits (w := 13) (x := 8) (y := 0) (z := 0) (.inl rfl) (.inl rfl) (.inl rfl)
        (.inl rfl)) .nil
    have zero : IsNumeral ['0'] := .mk (.inl rfl) .zero .none .none
    exact .object (.lastMember isBlank_nil key isBlank_nil isBlank_nil (.number zero) isBlank_nil)
  · intro field _ stands
    exact absurd stands.chars?_eq (by simp [Text.chars?, Text.isHigh])

end Config

end LeaseLock
