/-
# LeaseLock.Proofs.Numeral -- what reading an integer accepts, and what a written one tells

A server's result code arrives as text. Reading it as a 32-bit integer accepts one optional sign and
at least one digit, leading zeros included, as long as the value fits, and nothing else. The low byte
of such an integer is its residue, for negative ones too.

A number that is written, in any base up to sixteen, can be told from its numeral, which ends at the
first character that is no digit (`digits_append_inj`).
-/
import LeaseLock.Text.Numeral
import Mathlib.Data.Nat.Digits.Lemmas
import Mathlib.Tactic.IntervalCases

namespace LeaseLock.Numeral

/-! ## Digits -/

theorem digit?_eq_some_iff {c : Char} {d : Nat} : digit? c = some d ↔ d < 10 ∧ c = digit d := by
  constructor
  · intro h
    unfold digit? at h
    split at h
    · rename_i hc
      obtain ⟨low, high⟩ := hc
      rw [Char.le_def, UInt32.le_iff_toNat_le] at low high
      have low : 48 ≤ c.toNat := low
      have high : c.toNat ≤ 57 := high
      obtain rfl := Option.some.inj h
      refine ⟨by omega, ?_⟩
      rw [digit, if_pos (by omega), show 48 + (c.toNat - 48) = c.toNat by omega, Char.ofNat_toNat]
    · exact absurd h (by simp)
  · rintro ⟨hd, rfl⟩
    interval_cases d <;> decide

theorem decimalFrom?_eq_some_iff {acc n : Nat} {cs : List Char} :
    decimalFrom? acc cs = some n ↔ ∃ ds : List Nat, (∀ d ∈ ds, d < 10) ∧ cs = ds.map digit ∧
      n = Nat.ofDigits 10 ds.reverse + 10 ^ ds.length * acc := by
  induction cs generalizing acc with
  | nil =>
      rw [decimalFrom?, Option.some.injEq]
      constructor
      · rintro rfl
        exact ⟨[], by simp, rfl, by simp⟩
      · rintro ⟨ds, -, hds, rfl⟩
        obtain rfl := List.map_eq_nil_iff.mp hds.symm
        simp
  | cons c cs ih =>
      show (digit? c).bind (fun d => decimalFrom? (10 * acc + d) cs) = some n ↔ _
      simp only [Option.bind_eq_some_iff, digit?_eq_some_iff, ih]
      -- the digit that is read stands for itself times the place that the rest leaves to it
      have place : ∀ (d : Nat) (ds : List Nat), Nat.ofDigits 10 (d :: ds).reverse +
          10 ^ (d :: ds).length * acc = Nat.ofDigits 10 ds.reverse + 10 ^ ds.length * (10 * acc + d) := by
        intro d ds
        rw [Nat.ofDigits_reverse_cons, List.length_cons, pow_succ]
        ring
      constructor
      · rintro ⟨d, ⟨hd, rfl⟩, ds, hds, rfl, rfl⟩
        refine ⟨d :: ds, ?_, rfl, (place d ds).symm⟩
        exact List.forall_mem_cons.mpr ⟨hd, hds⟩
      · rintro ⟨_ | ⟨d, ds⟩, hds, hcs, rfl⟩
        · exact absurd hcs (by simp)
        · obtain ⟨rfl, rfl⟩ := List.cons.inj hcs
          obtain ⟨hd, hds⟩ := List.forall_mem_cons.mp hds
          exact ⟨d, ⟨hd, rfl⟩, ds, hds, rfl, place d ds⟩

/-! ## Decimal numerals -/

/-- **A decimal numeral**: one digit or more, the most significant first, leading zeros allowed. -/
def IsDecimal (cs : List Char) (n : Nat) : Prop :=
  ∃ ds : List Nat, ds ≠ [] ∧ (∀ d ∈ ds, d < 10) ∧ cs = ds.map digit ∧ n = Nat.ofDigits 10 ds.reverse

theorem decimal?_eq_some_iff {cs : List Char} {n : Nat} : decimal? cs = some n ↔ IsDecimal cs n := by
  cases cs with
  | nil =>
      constructor
      · intro h
        exact absurd h (by simp [decimal?])
      · rintro ⟨ds, hne, -, hcs, -⟩
        exact absurd (List.map_eq_nil_iff.mp hcs.symm) hne
  | cons c cs =>
      show decimalFrom? 0 (c :: cs) = some n ↔ _
      rw [decimalFrom?_eq_some_iff]
      constructor
      · rintro ⟨ds, hds, hcs, rfl⟩
        refine ⟨ds, ?_, hds, hcs, by simp⟩
        rintro rfl
        exact absurd hcs (by simp)
      · rintro ⟨ds, -, hds, hcs, rfl⟩
        exact ⟨ds, hds, hcs, by simp⟩

/-- A decimal numeral begins with a digit, so with no sign. -/
theorem IsDecimal.unsigned {c : Char} {cs : List Char} {n : Nat} (h : IsDecimal (c :: cs) n) :
    c ≠ '-' ∧ c ≠ '+' := by
  obtain ⟨ds, -, hds, hcs, -⟩ := h
  cases ds with
  | nil => exact absurd hcs (by simp)
  | cons d ds =>
      obtain ⟨rfl, -⟩ := List.cons.inj hcs
      have hd : d < 10 := hds d List.mem_cons_self
      constructor <;> interval_cases d <;> decide

/-- The digits of a number, and no leading zero unless it is zero. -/
theorem exists_digits (n : Nat) : ∃ d ds, (∀ e ∈ d :: ds, e < 10) ∧ digits 10 n = (d :: ds).map digit ∧
    n = Nat.ofDigits 10 (d :: ds).reverse ∧ (d = 0 → n = 0 ∧ ds = []) := by
  fun_induction digits 10 n with
  | case1 n h ih =>
      obtain ⟨d, ds, hds, hdigits, hvalue, hzero⟩ := ih
      have lead : d ≠ 0 := fun hd => absurd (hzero hd).1 (by omega)
      refine ⟨d, ds ++ [n % 10], ?_, ?_, ?_, fun hd => absurd hd lead⟩
      · rw [← List.cons_append]
        simp only [List.mem_append, List.mem_singleton]
        rintro e (he | rfl)
        · exact hds e he
        · omega
      · rw [hdigits, ← List.cons_append, List.map_append]
        rfl
      · rw [← List.cons_append, List.reverse_append, List.reverse_singleton, List.singleton_append,
          Nat.ofDigits_cons, ← hvalue]
        omega
  | case2 n h =>
      refine ⟨n, [], ?_, rfl, ?_, fun hd => ⟨hd, rfl⟩⟩
      · simp
        omega
      · simp

theorem isDecimal_digits (n : Nat) : IsDecimal (digits 10 n) n := by
  obtain ⟨d, ds, hds, hdigits, hvalue, -⟩ := exists_digits n
  exact ⟨d :: ds, List.cons_ne_nil d ds, hds, hdigits, hvalue⟩

/-! ## What is written -/

/-- A digit of a base. -/
def IsDigitOf (b : Nat) (c : Char) : Prop := ∃ d < b, c = digit d

instance (b : Nat) (c : Char) : Decidable (IsDigitOf b c) :=
  inferInstanceAs (Decidable (∃ d < b, c = digit d))

theorem digit_inj {d e : Nat} (hd : d < 16) (he : e < 16) : digit d = digit e ↔ d = e := by
  have distinct : ∀ d < 16, ∀ e < 16, digit d = digit e → d = e := by decide
  exact ⟨distinct d hd e he, congrArg digit⟩

theorem length_padded (b width n : Nat) : (padded b width n).length = width := by
  induction width generalizing n with
  | zero => rfl
  | succ width ih =>
      show (padded b width (n / b) ++ [digit (n % b)]).length = width + 1
      rw [List.length_append, ih, List.length_singleton]

theorem digits_ne_nil (b n : Nat) : digits b n ≠ [] := by
  rw [digits]
  split <;> simp

/-- Two runs of one kind of characters, each cut off by a character of another kind. -/
theorem run_append_inj {P : Char → Prop} {xs ys as bs : List Char} {c d : Char}
    (hxs : ∀ x ∈ xs, P x) (hys : ∀ y ∈ ys, P y) (hc : ¬ P c) (hd : ¬ P d) :
    xs ++ c :: as = ys ++ d :: bs ↔ xs = ys ∧ c = d ∧ as = bs := by
  constructor
  · intro h
    induction xs generalizing ys with
    | nil =>
        cases ys with
        | nil =>
            obtain ⟨rfl, rfl⟩ := List.cons.inj h
            exact ⟨rfl, rfl, rfl⟩
        | cons y ys =>
            obtain ⟨rfl, -⟩ := List.cons.inj h
            exact absurd (hys _ List.mem_cons_self) hc
    | cons x xs ih =>
        obtain ⟨hx, hxs⟩ := List.forall_mem_cons.mp hxs
        cases ys with
        | nil =>
            obtain ⟨rfl, -⟩ := List.cons.inj h
            exact absurd hx hd
        | cons y ys =>
            obtain ⟨rfl, tails⟩ := List.cons.inj h
            obtain ⟨rfl, rest⟩ := ih hxs (List.forall_mem_cons.mp hys).2 tails
            exact ⟨rfl, rest⟩
  · rintro ⟨rfl, rfl, rfl⟩
    rfl

section

variable {b : Nat} (low : 2 ≤ b) (high : b ≤ 16)

include low in
theorem isDigitOf_of_mem_digits {n : Nat} {c : Char} (h : c ∈ digits b n) : IsDigitOf b c := by
  fun_induction digits b n with
  | case1 n _ ih =>
      rcases List.mem_append.mp h with h | h
      · exact ih h
      · exact ⟨n % b, Nat.mod_lt n (by omega), List.mem_singleton.mp h⟩
  | case2 n small => exact ⟨n, by omega, List.mem_singleton.mp h⟩

include low in
theorem isDigitOf_of_mem_padded {width n : Nat} {c : Char} (h : c ∈ padded b width n) :
    IsDigitOf b c := by
  induction width generalizing n with
  | zero => exact absurd h List.not_mem_nil
  | succ width ih =>
      rcases List.mem_append.mp h with h | h
      · exact ih h
      · exact ⟨n % b, Nat.mod_lt n (by omega), List.mem_singleton.mp h⟩

include low high

/-- **A numeral tells its number.** -/
theorem digits_injective : Function.Injective (digits b) := by
  intro n m h
  have small : ∀ k, k % b < 16 := fun k => Nat.lt_of_lt_of_le (Nat.mod_lt k (by omega)) high
  induction n using Nat.strong_induction_on generalizing m with
  | _ n ih =>
      rw [digits, digits.eq_def b m] at h
      split at h <;> split at h
      · obtain ⟨front, last⟩ := List.append_singleton_inj.mp h
        have quotient : n / b = m / b := ih (n / b) (Nat.div_lt_self (by omega) (by omega)) front
        have remainder : n % b = m % b := (digit_inj (small n) (small m)).mp last
        rw [← Nat.div_add_mod n b, quotient, remainder, Nat.div_add_mod]
      · rw [← List.nil_append [digit m], List.append_singleton_inj] at h
        exact absurd h.1 (digits_ne_nil b (n / b))
      · rw [← List.nil_append [digit n], List.append_singleton_inj] at h
        exact absurd h.1.symm (digits_ne_nil b (m / b))
      · exact (digit_inj (by omega) (by omega)).mp (List.singleton_inj.mp h)

/-- A numeral ends at the first character that is no digit. -/
theorem digits_append_inj {n m : Nat} {c d : Char} {as bs : List Char} (hc : ¬ IsDigitOf b c)
    (hd : ¬ IsDigitOf b d) :
    digits b n ++ c :: as = digits b m ++ d :: bs ↔ n = m ∧ c = d ∧ as = bs := by
  rw [run_append_inj (fun _ => isDigitOf_of_mem_digits low) (fun _ => isDigitOf_of_mem_digits low) hc hd,
    (digits_injective low high).eq_iff]

/-- A padded numeral tells what fits into its width. -/
theorem padded_inj {width n m : Nat} :
    padded b width n = padded b width m ↔ n % b ^ width = m % b ^ width := by
  have small : ∀ k, k % b < 16 := fun k => Nat.lt_of_lt_of_le (Nat.mod_lt k (by omega)) high
  induction width generalizing n m with
  | zero => simp [padded, Nat.mod_one]
  | succ width ih =>
      simp only [padded, List.append_singleton_inj, ih, digit_inj (small n) (small m)]
      rw [pow_succ', Nat.mod_mul, Nat.mod_mul]
      constructor
      · rintro ⟨quotient, remainder⟩
        rw [quotient, remainder]
      · intro h
        have remainder : n % b = m % b := by simpa using congrArg (· % b) h
        rw [remainder, Nat.add_left_cancel_iff] at h
        exact ⟨Nat.eq_of_mul_eq_mul_left (by omega) h, remainder⟩

end

/-! ## Integers of 32 bits -/

/-- **A numeral of a 32-bit integer**: a decimal numeral, behind one sign or none, whose value fits. -/
def IsSigned32 (cs : List Char) (n : Int) : Prop :=
  -2 ^ 31 ≤ n ∧ n < 2 ^ 31 ∧ ∃ digits k, IsDecimal digits k ∧
    ((cs = digits ∨ cs = '+' :: digits) ∧ n = k ∨ cs = '-' :: digits ∧ n = -k)

section

variable {cs : List Char} {n : Int}

/-- Behind a sign stands a decimal numeral, and the sign goes to its value. -/
theorem isSigned32_sign {sign : Char} (hsign : sign = '+' ∨ sign = '-') :
    IsSigned32 (sign :: cs) n ↔ ∃ k, IsDecimal cs k ∧ -2 ^ 31 ≤ n ∧ n < 2 ^ 31 ∧
      n = if sign = '-' then -(k : Int) else k := by
  constructor
  · rintro ⟨hlow, hhigh, digits, k, hk, ⟨rfl | h, rfl⟩ | ⟨h, rfl⟩⟩
    · rcases hsign with rfl | rfl
      · exact absurd rfl hk.unsigned.2
      · exact absurd rfl hk.unsigned.1
    · obtain ⟨rfl, rfl⟩ := List.cons.inj h
      exact ⟨k, hk, hlow, hhigh, rfl⟩
    · obtain ⟨rfl, rfl⟩ := List.cons.inj h
      exact ⟨k, hk, hlow, hhigh, rfl⟩
  · rintro ⟨k, hk, hlow, hhigh, value⟩
    refine ⟨hlow, hhigh, cs, k, hk, ?_⟩
    rcases hsign with rfl | rfl
    · exact .inl ⟨.inr rfl, value⟩
    · exact .inr ⟨rfl, value⟩

/-- Behind a minus sign, the greatest value is one greater. -/
theorem isSigned32_minus :
    IsSigned32 ('-' :: cs) n ↔ ∃ k, IsDecimal cs k ∧ (k : Int) ≤ 2 ^ 31 ∧ n = -k := by
  rw [isSigned32_sign (.inr rfl)]
  refine exists_congr fun k => and_congr_right fun _ => ?_
  rw [if_pos rfl]
  omega

theorem isSigned32_plus :
    IsSigned32 ('+' :: cs) n ↔ ∃ k, IsDecimal cs k ∧ (k : Int) < 2 ^ 31 ∧ n = k := by
  rw [isSigned32_sign (.inl rfl)]
  refine exists_congr fun k => and_congr_right fun _ => ?_
  rw [if_neg (by decide)]
  omega

theorem isSigned32_unsigned (hminus : ∀ digits, cs ≠ '-' :: digits)
    (hplus : ∀ digits, cs ≠ '+' :: digits) :
    IsSigned32 cs n ↔ ∃ k, IsDecimal cs k ∧ (k : Int) < 2 ^ 31 ∧ n = k := by
  constructor
  · rintro ⟨hlow, hhigh, digits, k, hk, ⟨rfl | h, rfl⟩ | ⟨h, rfl⟩⟩
    · exact ⟨k, hk, hhigh, rfl⟩
    · exact absurd h (hplus digits)
    · exact absurd h (hminus digits)
  · rintro ⟨k, hk, hfits, rfl⟩
    exact ⟨by omega, by omega, cs, k, hk, .inl ⟨.inl rfl, rfl⟩⟩

/-- Reading a decimal numeral whose value has to fit. -/
theorem decimal?_bind_eq_some_iff {fits : Nat → Prop} [DecidablePred fits] {value : Nat → Int} :
    ((decimal? cs).bind fun k => if fits k then some (value k) else none) = some n ↔
      ∃ k, IsDecimal cs k ∧ fits k ∧ n = value k := by
  simp only [Option.bind_eq_some_iff, decimal?_eq_some_iff, Option.ite_none_right_eq_some,
    Option.some.injEq, @eq_comm _ n]

theorem nonnegative_eq_some_iff :
    signed32?.nonnegative cs = some n ↔ ∃ k, IsDecimal cs k ∧ (k : Int) < 2 ^ 31 ∧ n = k := by
  refine decimal?_bind_eq_some_iff.trans (exists_congr fun k => and_congr_right fun _ => ?_)
  rw [Nat.pow_eq]
  omega

/-- **Reading a 32-bit integer** accepts its numerals, and nothing else. -/
theorem signed32?_eq_some_iff : signed32? cs = some n ↔ IsSigned32 cs n := by
  unfold signed32?
  split
  · rename_i cs
    rw [isSigned32_minus]
    refine decimal?_bind_eq_some_iff.trans (exists_congr fun k => and_congr_right fun _ => ?_)
    rw [Nat.pow_eq]
    omega
  · rw [isSigned32_plus, nonnegative_eq_some_iff]
  · rename_i hminus hplus
    rw [isSigned32_unsigned hminus hplus, nonnegative_eq_some_iff]

end

/-! ## The low byte -/

/-- The low byte of a 32-bit integer in two's complement. -/
def lowByte (n : Int) : BitVec 32 := BitVec.ofInt 32 n &&& 0xff#32

theorem lowByte_eq_iff {n : Int} {k : Nat} (hk : k < 256) :
    lowByte n = BitVec.ofNat 32 k ↔ n % 256 = k := by
  rw [lowByte, ← BitVec.toNat_inj, BitVec.toNat_and, BitVec.toNat_ofInt, BitVec.toNat_ofNat,
    BitVec.toNat_ofNat]
  show (n % (2 ^ 32 : Nat)).toNat &&& (2 ^ 8 - 1) = k % 2 ^ 32 ↔ _
  rw [Nat.and_two_pow_sub_one_eq_mod]
  omega

/-- An extended code and a negative one, each with the low byte of a database that is busy. -/
example : lowByte 261 = 5#32 ∧ lowByte (-251) = 5#32 := by decide

end LeaseLock.Numeral
