/-
# LeaseLock.Proofs.QuotedText -- quoted text stays on its line, ends with its quotes, and can be told

A text of a caller's stands between quotes with some of its characters escaped (`Quoted.Written`). Whatever
the text is, three things hold of its quoted form. Nothing in it is hidden, so no control character and no
line break stands in it (`Quoted.isOneLine_quote`). Who reads it behind the opening quote, and knows no more
of escapes than that a backslash takes the character after it, stops at the closing quote and not before
(`Quoted.upToQuote?_inside`). And the escapes are a prefix code, so two texts that are quoted alike, with
whatever follows, are the same text (`Quoted.quote_append_inj`).
-/
import LeaseLock.Text.Quoted
import LeaseLock.Proofs.Numeral
import Mathlib

namespace LeaseLock

/-! ## Lines -/

/-- A control character. -/
def IsControl (c : Char) : Prop := c.toNat < 0x20 ∨ 0x7f ≤ c.toNat ∧ c.toNat < 0xa0

instance (c : Char) : Decidable (IsControl c) :=
  inferInstanceAs (Decidable (c.toNat < 0x20 ∨ 0x7f ≤ c.toNat ∧ c.toNat < 0xa0))

/-- The characters at which a text breaks into lines: line feed, line tabulation, form feed, carriage
return, next line, and the separators of lines and of paragraphs. -/
def lineBreaks : List Char := ['\n', '\x0b', '\x0c', '\r', '\x85', '\u2028', '\u2029']

/-- **A text on one line**, with no control character in it. -/
def IsOneLine (s : String) : Prop := ∀ c ∈ s.toList, ¬ IsControl c ∧ c ∉ lineBreaks

instance (s : String) : Decidable (IsOneLine s) :=
  List.decidableBAll _ _

@[simp] theorem isOneLine_append {s t : String} : IsOneLine (s ++ t) ↔ IsOneLine s ∧ IsOneLine t := by
  rw [IsOneLine, String.toList_append, List.forall_mem_append]
  rfl

namespace Quoted

open Numeral

/-! ## Hidden characters -/

/-- The ranges of hidden characters. -/
def hiddenRanges : List (Nat × Nat) := Unprintable.ranges ++ Ignorable.ranges ++ Combining.ranges

theorem isHidden_iff (c : Char) :
    isHidden c ↔ ∃ r ∈ hiddenRanges, r.1 ≤ c.toNat ∧ c.toNat ≤ r.2 := by
  simp [isHidden, hiddenRanges, Unprintable.contains, Ignorable.contains, Combining.contains,
    or_and_right, exists_or, or_assoc]

/-- No printable character of ASCII is hidden. -/
theorem not_isHidden_of_ascii {c : Char} (low : 0x20 ≤ c.toNat) (high : c.toNat < 0x7f) :
    ¬ isHidden c := by
  have outside : ∀ r ∈ hiddenRanges, r.2 < 0x20 ∨ 0x7f ≤ r.1 := by decide +kernel
  rw [isHidden_iff]
  rintro ⟨r, hr, first, last⟩
  have := outside r hr
  omega

theorem isHidden_of_isControl {c : Char} (h : IsControl c) : isHidden c := by
  rw [isHidden_iff]
  rcases h with h | ⟨low, high⟩
  · exact ⟨(0x0, 0x1f), by decide +kernel, Nat.zero_le _, by omega⟩
  · exact ⟨(0x7f, 0xa0), by decide +kernel, low, by omega⟩

theorem isHidden_of_mem_lineBreaks {c : Char} (h : c ∈ lineBreaks) : isHidden c := by
  have hidden : lineBreaks.all isHidden := by decide +kernel
  exact List.all_eq_true.mp hidden c h

/-- What shows all of its characters is one line. -/
theorem isOneLine_of_visible {s : String} (h : ∀ c ∈ s.toList, ¬ isHidden c) : IsOneLine s :=
  fun c hc => ⟨fun control => h c hc (isHidden_of_isControl control),
    fun ends => h c hc (isHidden_of_mem_lineBreaks ends)⟩

/-! ## Escapes -/

/-- The characters with a letter of their own, and the letters. -/
def letters : List (Char × Char) :=
  [('"', '"'), ('\\', '\\'), ('\t', 't'), ('\r', 'r'), ('\n', 'n'), ('\x00', '0')]

/-- **How a character is written** between quotes: as it is, by a backslash and a letter, or by its code
point. -/
inductive Written : Char → List Char → Prop
  | plain {c : Char} : c ≠ '"' → c ≠ '\\' → ¬ isHidden c → Written c [c]
  | letter {c l : Char} : (c, l) ∈ letters → Written c ['\\', l]
  | code {c : Char} : isHidden c →
      Written c ('\\' :: 'u' :: '\x7b' :: (digits 16 c.toNat ++ ['\x7d']))

theorem written_escape (c : Char) : Written c (escape c) := by
  unfold escape
  split
  case h_7 hquote hslash _ _ _ _ =>
    split
    · next hidden => exact .code hidden
    · next visible => exact .plain hquote hslash visible
  all_goals exact .letter (by decide)

/-- A hexadecimal digit is a plain character of ASCII. -/
theorem isDigitOf_ascii {c : Char} (h : IsDigitOf 16 c) :
    0x20 ≤ c.toNat ∧ c.toNat < 0x7f ∧ c ≠ '"' ∧ c ≠ '\\' ∧ c ≠ '\x7d' := by
  obtain ⟨d, hd, rfl⟩ := h
  have plain : ∀ d < 16, 0x20 ≤ (digit d).toNat ∧ (digit d).toNat < 0x7f ∧ digit d ≠ '"' ∧
      digit d ≠ '\\' ∧ digit d ≠ '\x7d' := by decide
  exact plain d hd

/-- Nothing hidden is written. -/
theorem Written.visible {c : Char} {xs : List Char} (h : Written c xs) : ∀ x ∈ xs, ¬ isHidden x := by
  intro x hx
  cases h with
  | plain _ _ visible =>
    obtain rfl := List.mem_singleton.mp hx
    exact visible
  | @letter l hl =>
    have ascii : ∀ p ∈ letters, 0x20 ≤ p.2.toNat ∧ p.2.toNat < 0x7f := by decide
    obtain ⟨low, high⟩ := ascii _ hl
    rw [List.mem_cons, List.mem_singleton] at hx
    rcases hx with rfl | rfl
    · exact not_isHidden_of_ascii (by decide) (by decide)
    · exact not_isHidden_of_ascii low high
  | code _ =>
    simp only [List.mem_cons, List.mem_append, List.not_mem_nil, or_false] at hx
    rcases hx with rfl | rfl | rfl | hx | rfl
    case inr.inr.inr.inl =>
      obtain ⟨low, high, -⟩ := isDigitOf_ascii (isDigitOf_of_mem_digits (by decide) hx)
      exact not_isHidden_of_ascii low high
    all_goals exact not_isHidden_of_ascii (by decide) (by decide)

theorem Written.ne_nil {c : Char} {xs : List Char} (h : Written c xs) : xs ≠ [] := by
  cases h <;> exact List.cons_ne_nil _ _

/-- **Escapes are a prefix code.** -/
theorem Written.append_inj {c d : Char} {xs ys as bs : List Char} (hc : Written c xs)
    (hd : Written d ys) (h : xs ++ as = ys ++ bs) : c = d ∧ as = bs := by
  have letter_inj : ∀ p ∈ letters, ∀ q ∈ letters, p.2 = q.2 → p.1 = q.1 := by decide
  have letter_ne : ∀ p ∈ letters, p.2 ≠ 'u' := by decide
  -- a backslash tells an escape, and the character behind it the kind of the escape
  cases hc with
  | plain _ hslash _ =>
    cases hd with
    | plain _ _ _ => exact List.cons.inj h
    | letter _ => exact absurd (List.cons.inj h).1 hslash
    | code _ => exact absurd (List.cons.inj h).1 hslash
  | @letter l hl =>
    cases hd with
    | plain _ hslash _ => exact absurd (List.cons.inj h).1.symm hslash
    | @letter l' hl' =>
      obtain ⟨same, rest⟩ := List.cons.inj (List.cons.inj h).2
      exact ⟨letter_inj _ hl _ hl' same, rest⟩
    | code _ => exact absurd (List.cons.inj (List.cons.inj h).2).1 (letter_ne _ hl)
  | code _ =>
    cases hd with
    | plain _ hslash _ => exact absurd (List.cons.inj h).1.symm hslash
    | @letter l' hl' => exact absurd (List.cons.inj (List.cons.inj h).2).1.symm (letter_ne _ hl')
    | code _ =>
      have tails : digits 16 c.toNat ++ '\x7d' :: as = digits 16 d.toNat ++ '\x7d' :: bs := by
        simpa using h
      rw [digits_append_inj (by decide) (by decide) (by decide) (by decide)] at tails
      exact ⟨Char.toNat_inj.mp tails.1, tails.2.2⟩

/-! ## Quoted text -/

/-- What stands between the quotes around a text. -/
def inside (s : String) : List Char := s.toList.flatMap escape

theorem toList_quote (s : String) : (quote s).toList = '"' :: (inside s ++ ['"']) := by
  rw [quote, String.toList_ofList]
  rfl

theorem inside_injective : Function.Injective inside := by
  intro s t h
  rw [← String.toList_inj]
  unfold inside at h
  generalize s.toList = cs at h ⊢
  generalize t.toList = ds at h ⊢
  induction cs generalizing ds with
  | nil =>
    cases ds with
    | nil => rfl
    | cons d ds => exact absurd (List.append_eq_nil_iff.mp h.symm).1 (written_escape d).ne_nil
  | cons c cs ih =>
    cases ds with
    | nil => exact absurd (List.append_eq_nil_iff.mp h).1 (written_escape c).ne_nil
    | cons d ds =>
      obtain ⟨rfl, rest⟩ := (written_escape c).append_inj (written_escape d) h
      rw [ih ds rest]

/-- A quoted text shows all of its characters. -/
theorem not_isHidden_of_mem_quote {s : String} {c : Char} (h : c ∈ (quote s).toList) : ¬ isHidden c := by
  rw [toList_quote, List.mem_cons, List.mem_append, List.mem_singleton] at h
  have quote_visible : ¬ isHidden '"' := not_isHidden_of_ascii (by decide) (by decide)
  rcases h with rfl | h | rfl
  · exact quote_visible
  · obtain ⟨d, -, hc⟩ := List.mem_flatMap.mp h
    exact (written_escape d).visible c hc
  · exact quote_visible

/-- **A quoted text is one line**, whatever was quoted. -/
theorem isOneLine_quote (s : String) : IsOneLine (quote s) :=
  isOneLine_of_visible fun _ => not_isHidden_of_mem_quote

/-! ## The end of quoted text -/

/-- **Reading up to a quote**: what stands before the first quote that no backslash takes, and what stands
behind it. A backslash takes the character after it, whatever that is. -/
def upToQuote? : List Char → Option (List Char × List Char)
  | [] => none
  | '"' :: rest => some ([], rest)
  | '\\' :: c :: rest => (upToQuote? rest).map fun r => ('\\' :: c :: r.1, r.2)
  | c :: rest => (upToQuote? rest).map fun r => (c :: r.1, r.2)

theorem upToQuote?_plain {c : Char} (hquote : c ≠ '"') (hslash : c ≠ '\\') (rest : List Char) :
    upToQuote? (c :: rest) = (upToQuote? rest).map fun r => (c :: r.1, r.2) := by
  rw [upToQuote?]
  · exact hquote
  · exact fun _ _ backslash _ => hslash backslash

/-- Reading goes on through characters that are neither quotes nor backslashes. -/
theorem upToQuote?_run {xs : List Char} (h : ∀ x ∈ xs, x ≠ '"' ∧ x ≠ '\\') (rest : List Char) :
    upToQuote? (xs ++ rest) = (upToQuote? rest).map fun r => (xs ++ r.1, r.2) := by
  induction xs with
  | nil => simp
  | cons x xs ih =>
    obtain ⟨⟨hquote, hslash⟩, hxs⟩ := List.forall_mem_cons.mp h
    rw [List.cons_append, upToQuote?_plain hquote hslash, ih hxs, Option.map_map]
    rfl

/-- Reading goes on through a written character, a quote among them. -/
theorem upToQuote?_written {c : Char} {xs : List Char} (h : Written c xs) (rest : List Char) :
    upToQuote? (xs ++ rest) = (upToQuote? rest).map fun r => (xs ++ r.1, r.2) := by
  cases h with
  | plain hquote hslash _ => exact upToQuote?_plain hquote hslash rest
  | letter _ => rfl
  | code _ =>
    have plain : ∀ x ∈ '\x7b' :: (digits 16 c.toNat ++ ['\x7d']), x ≠ '"' ∧ x ≠ '\\' := by
      intro x hx
      rw [List.mem_cons, List.mem_append, List.mem_singleton] at hx
      rcases hx with rfl | hx | rfl
      · decide
      · obtain ⟨-, -, hquote, hslash, -⟩ := isDigitOf_ascii (isDigitOf_of_mem_digits (by decide) hx)
        exact ⟨hquote, hslash⟩
      · decide
    show (upToQuote? (('\x7b' :: (digits 16 c.toNat ++ ['\x7d'])) ++ rest)).map _ = _
    rw [upToQuote?_run plain, Option.map_map]
    rfl

/-- **A text cannot end its quotes**: reading stops at the closing quote and leaves what follows it. -/
theorem upToQuote?_inside (s : String) (rest : List Char) :
    upToQuote? (inside s ++ '"' :: rest) = some (inside s, rest) := by
  unfold inside
  induction s.toList with
  | nil => rfl
  | cons c cs ih =>
    rw [List.flatMap_cons, List.append_assoc, upToQuote?_written (written_escape c), ih]
    rfl

/-- A quote and a backslash in the text, and a quote behind it. -/
example : upToQuote? "a\\\"b\\\\\" is \"free\"".toList =
    some ("a\\\"b\\\\".toList, " is \"free\"".toList) := by decide +kernel

/-- **The quoted text tells the text**, and where it ends. -/
theorem quote_append_inj {s t a b : String} : quote s ++ a = quote t ++ b ↔ s = t ∧ a = b := by
  constructor
  · intro h
    have tails : inside s ++ '"' :: a.toList = inside t ++ '"' :: b.toList := by
      have lists := congrArg String.toList h
      simpa [toList_quote] using lists
    have read := upToQuote?_inside s a.toList
    rw [tails, upToQuote?_inside t, Option.some.injEq, Prod.mk.injEq] at read
    exact ⟨(inside_injective read.1).symm, (String.toList_inj.mp read.2).symm⟩
  · rintro ⟨rfl, rfl⟩
    rfl

theorem quote_inj {s t : String} : quote s = quote t ↔ s = t := by
  have whole := quote_append_inj (s := s) (t := t) (a := "") (b := "")
  simpa using whole

/-- **The first quoted text of a line**: what stands before its opening quote, between its quotes, and
behind its closing quote. -/
def firstQuoted? : List Char → Option (List Char × List Char × List Char)
  | [] => none
  | '"' :: rest => (upToQuote? rest).map fun r => ([], r)
  | c :: rest => (firstQuoted? rest).map fun r => (c :: r.1, r.2)

/-- The first quoted text of a line is found whole. -/
theorem firstQuoted?_append {before : List Char} (h : '"' ∉ before) (s : String) (after : List Char) :
    firstQuoted? (before ++ (quote s).toList ++ after) = some (before, inside s, after) := by
  induction before with
  | nil =>
    have read := upToQuote?_inside s after
    rw [toList_quote, List.nil_append, List.cons_append, List.append_assoc, List.singleton_append,
      firstQuoted?, read]
    rfl
  | cons c before ih =>
    rw [List.mem_cons, not_or] at h
    obtain ⟨hc, hbefore⟩ := h
    rw [List.cons_append, List.cons_append, firstQuoted?, ih hbefore]
    · rfl
    · exact Ne.symm hc

end Quoted

end LeaseLock
