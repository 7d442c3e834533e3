/-
# LeaseLock.Proofs.TtlWidths -- the widths of a time to live

On its way into a statement a time to live goes through three widths. A host keeps a duration as whole
seconds in 64 bits and nanoseconds below a second in 32. Its whole units are counted in 128 bits, which
is enough for every duration (`HostDuration.toNat_whole`); then they are cut to a signed 64-bit number
and, where SQL Server is asked, to a cap. SQL Server casts two shares of the bound number to 32 bits,
and the cap is the greatest number of whole seconds for which both casts work (`Sql.isGreatest_castable`).
-/
import LeaseLock.Proofs.Placeholders

namespace LeaseLock

/-! ## Machine words -/

/-- A duration as a host keeps it. -/
structure HostDuration where
  secs : UInt64
  subsec : UInt32
  below_second : subsec.toNat < 1000000000

namespace HostDuration

/-- The span of time that is meant. -/
def span (d : HostDuration) : Duration := .ofParts d.secs.toNat d.subsec.toNat

/-- The whole units in 128 bits, for a unit of some nanoseconds of which so many make a second. -/
def whole (d : HostDuration) (nanos perSecond : UInt32) : BitVec 128 :=
  d.secs.toBitVec.setWidth 128 * perSecond.toBitVec.setWidth 128 +
    (d.subsec / nanos).toBitVec.setWidth 128

/-- The greatest signed 64-bit number that does not exceed a count. -/
def saturate (n : BitVec 128) : Int64 :=
  if n.toNat < 2 ^ 63 then .ofNat n.toNat else .maxValue

/-- The greatest number of milliseconds that is bound: whole seconds that fit 32 bits. -/
def maxMillis : Int64 := Int32.maxValue.toInt64 * 1000

/-- The bound microseconds. -/
def boundMicros (d : HostDuration) : Int64 := saturate (d.whole 1000 1000000)

/-- The bound milliseconds. -/
def boundMillis (d : HostDuration) : Int64 := min (saturate (d.whole 1000000 1000)) maxMillis

/-- **128 bits are enough**: whole units are counted exactly. -/
theorem toNat_whole (d : HostDuration) {nanos perSecond : UInt32}
    (h : nanos.toNat * perSecond.toNat = 1000000000) :
    (d.whole nanos perSecond).toNat = d.span.nanos / nanos.toNat := by
  have product_pos : 0 < nanos.toNat * perSecond.toNat := by omega
  have unit_pos : 0 < nanos.toNat := Nat.pos_of_mul_pos_right product_pos
  have secs_lt : d.secs.toNat < 2 ^ 64 := d.secs.toNat_lt
  have perSecond_lt : perSecond.toNat < 2 ^ 32 := perSecond.toNat_lt
  have subsec_lt : d.subsec.toNat / nanos.toNat < 2 ^ 32 :=
    lt_of_le_of_lt (Nat.div_le_self _ _) d.subsec.toNat_lt
  have product_lt : d.secs.toNat * perSecond.toNat < 2 ^ 64 * 2 ^ 32 :=
    Nat.mul_lt_mul'' secs_lt perSecond_lt
  have parts : d.span.nanos / nanos.toNat =
      d.secs.toNat * perSecond.toNat + d.subsec.toNat / nanos.toNat := by
    rw [span, Duration.ofParts, ← h, Nat.mul_left_comm, Nat.mul_add_div unit_pos]
  rw [parts, whole, BitVec.toNat_add, BitVec.toNat_mul]
  simp only [BitVec.toNat_setWidth, UInt64.toNat_toBitVec, UInt32.toNat_toBitVec, UInt32.toNat_div]
  rw [Nat.mod_eq_of_lt (a := d.secs.toNat) (by omega),
    Nat.mod_eq_of_lt (a := perSecond.toNat) (by omega),
    Nat.mod_eq_of_lt (a := d.subsec.toNat / nanos.toNat) (by omega),
    Nat.mod_eq_of_lt (a := d.secs.toNat * perSecond.toNat) (by omega), Nat.mod_eq_of_lt (by omega)]

theorem toInt_saturate (n : BitVec 128) : (saturate n).toInt = min (n.toNat : Int) (2 ^ 63 - 1) := by
  unfold saturate
  split
  · rw [Int64.toInt_ofNat_of_lt (by assumption)]
    omega
  · rw [Int64.toInt_maxValue]
    omega

theorem toInt_min (a b : Int64) : (min a b).toInt = min a.toInt b.toInt := by
  rw [show min a b = if a ≤ b then a else b from rfl, min_def]
  simp only [Int64.le_iff_toInt_le]
  split <;> rfl

theorem toInt_boundMicros (d : HostDuration) :
    d.boundMicros.toInt = min ((d.span.nanos / 1000 : Nat) : Int) (2 ^ 63 - 1) := by
  rw [boundMicros, toInt_saturate, d.toNat_whole (by decide)]
  rfl

theorem toInt_boundMillis (d : HostDuration) :
    d.boundMillis.toInt = min ((d.span.nanos / 1000000 : Nat) : Int) 2147483647000 := by
  have cap : maxMillis.toInt = 2147483647000 := by decide
  rw [boundMillis, toInt_min, toInt_saturate, cap, d.toNat_whole (by decide),
    show UInt32.toNat 1000000 = 1000000 from rfl]
  omega

/-- The longest duration is cut to the cap. -/
example : boundMillis ⟨18446744073709551615, 999999999, by decide⟩ = 2147483647000 := by decide

/-- A duration is bound as a number: as many units as are in it, up to a cap. -/
structure Binds (d : HostDuration) (p : Parameter) (cap : Int) (bound : Int64) : Prop where
  argument : ∀ v : LeaseValues, v.ttl = d.span → v.argument p = .int bound.toInt
  exact : bound.toInt = min ((d.span.nanos / Sql.ttlUnit p : Nat) : Int) cap
  nonneg : 0 ≤ bound.toInt
  not_longer : bound.toInt * Sql.ttlUnit p ≤ d.span.nanos

theorem binds_of_exact {d : HostDuration} {p : Parameter} {cap : Int} {bound : Int64}
    (cap_nonneg : 0 ≤ cap)
    (exact : bound.toInt = min ((d.span.nanos / Sql.ttlUnit p : Nat) : Int) cap)
    (argument : ∀ v : LeaseValues, v.ttl = d.span → v.argument p = .int bound.toInt) :
    d.Binds p cap bound := by
  have units_nonneg : (0 : Int) ≤ (d.span.nanos / Sql.ttlUnit p : Nat) := Int.natCast_nonneg _
  refine ⟨argument, exact, ?_, ?_⟩
  · rw [exact]
    exact le_min units_nonneg cap_nonneg
  · have below : bound.toInt ≤ ((d.span.nanos / Sql.ttlUnit p : Nat) : Int) := by
      rw [exact]
      exact min_le_left _ _
    calc bound.toInt * Sql.ttlUnit p
        ≤ ((d.span.nanos / Sql.ttlUnit p : Nat) : Int) * Sql.ttlUnit p :=
          Int.mul_le_mul_of_nonneg_right below (Int.natCast_nonneg _)
      _ ≤ d.span.nanos := by exact_mod_cast Nat.div_mul_le_self _ _

theorem binds_micros (d : HostDuration) : d.Binds .ttlMicros (2 ^ 63 - 1) d.boundMicros := by
  refine binds_of_exact (by decide) d.toInt_boundMicros fun v hv => ?_
  rw [toInt_boundMicros, LeaseValues.argument, hv]
  rfl

theorem binds_millis (d : HostDuration) : d.Binds .ttlMillis 2147483647000 d.boundMillis := by
  refine binds_of_exact (by decide) d.toInt_boundMillis fun v hv => ?_
  rw [toInt_boundMillis, LeaseValues.argument, hv]
  rfl

/-- More time is not bound as less. -/
theorem Binds.mono {d d' : HostDuration} {p : Parameter} {cap : Int} {bound bound' : Int64}
    (binds : d.Binds p cap bound) (binds' : d'.Binds p cap bound')
    (h : d.span.nanos ≤ d'.span.nanos) : bound ≤ bound' := by
  have units : d.span.nanos / Sql.ttlUnit p ≤ d'.span.nanos / Sql.ttlUnit p := Nat.div_le_div_right h
  rw [Int64.le_iff_toInt_le, binds.exact, binds'.exact]
  omega

end HostDuration

/-! ## Casts -/

namespace Sql

/-- A cast to a signed 32-bit number works. -/
def Fits32 (n : Int) : Prop := Int32.minValue.toInt ≤ n ∧ n ≤ Int32.maxValue.toInt

/-- How SQL Server calls a unit of some nanoseconds. -/
def unitName (nanos : Nat) : String := if nanos = 1000000 then "millisecond" else "second"

/-- How a share of a number is written. -/
def Share.text (number : String) : Share → String
  | .all => number
  | .quotient divisor => number ++ " / " ++ Numeral.decimal divisor
  | .remainder divisor => number ++ " % " ++ Numeral.decimal divisor

/-- The current instant, put forward by shares of a number, each of them cast to 32 bits. -/
def castText (number : String) : List Part → String
  | [] => Backend.nowWords .mssql
  | p :: ps =>
    "DATEADD(" ++ unitName p.unit ++ ", CAST(" ++ p.share.text number ++ " AS INT), " ++
      castText number ps ++ ")"

/-- SQL Server's deadline casts the shares of the bound number. -/
theorem text_deadline_mssql (name : String) (ttl : Slot) :
    Backend.mssql.text name (Backend.mssql.deadline ttl) =
      castText (Backend.mssql.placeholder ttl) (deadlineParts .mssql) := by
  have thousand : Numeral.decimal 1000 = "1000" := by decide +kernel
  have between : " % 1000 AS INT), DATEADD(second, CAST(" =
      " % 1000 AS INT), " ++ "DATEADD(second, CAST(" := by decide +kernel
  simp [Backend.text, Backend.deadline, Backend.pieceText, castText, deadlineParts, Share.text,
    unitName, thousand, Backend.nowWords, String.join, String.append_assoc]
  rw [between, String.append_assoc]

theorem fits32_iff (n : Int) : Fits32 n ↔ -2147483648 ≤ n ∧ n ≤ 2147483647 := Iff.rfl

/-- The casts of a deadline work for a number. -/
def Castable (m : Int) : Prop := ∀ p ∈ deadlineParts .mssql, Fits32 (p.share.of m)

theorem castable_iff (m : Int) : Castable m ↔ Fits32 (m % 1000) ∧ Fits32 (m / 1000) := by
  simp [Castable, deadlineParts, Share.of]

theorem castable_of_le {m : Int} (nonneg : 0 ≤ m) (h : m ≤ 2147483647000) : Castable m := by
  rw [castable_iff, fits32_iff, fits32_iff]
  omega

/-- **The cap is the greatest number of whole seconds** for which no cast fails. -/
theorem isGreatest_castable : IsGreatest {m : Int | 1000 ∣ m ∧ Castable m} 2147483647000 := by
  refine ⟨⟨by decide, castable_of_le (by decide) (by decide)⟩, ?_⟩
  rintro m ⟨⟨k, rfl⟩, castable⟩
  rw [castable_iff, fits32_iff, fits32_iff] at castable
  omega

end Sql

/-! ## Times to live -/

open Sql in
/-- **A time to live never overflows and never gets longer**, for every duration that a host can keep.
Its whole units fit 128 bits; it is bound as a signed 64-bit number of microseconds or milliseconds, as
many as are in it up to the cap, and more time is not bound as less. Of the bound milliseconds SQL
Server casts two shares to 32 bits, which works and loses nothing, and no greater cap in whole seconds
would do. -/
theorem HostDuration.ttl_bound (d : HostDuration) :
    ((d.whole 1000 1000000).toNat = d.span.nanos / 1000 ∧
      (d.whole 1000000 1000).toNat = d.span.nanos / 1000000) ∧
    d.Binds .ttlMicros (2 ^ 63 - 1) d.boundMicros ∧
    d.Binds .ttlMillis 2147483647000 d.boundMillis ∧
    (∀ d' : HostDuration, d.span.nanos ≤ d'.span.nanos →
      d.boundMicros ≤ d'.boundMicros ∧ d.boundMillis ≤ d'.boundMillis) ∧
    (∀ name ttl, Backend.mssql.text name (Backend.mssql.deadline ttl) =
      castText (Backend.mssql.placeholder ttl) (deadlineParts .mssql)) ∧
    Castable d.boundMillis.toInt ∧
    ((deadlineParts .mssql).map (Part.time d.boundMillis.toInt)).sum =
      d.boundMillis.toInt * 1000000 ∧
    IsGreatest {m : Int | 1000 ∣ m ∧ Castable m} 2147483647000 := by
  have micros := d.binds_micros
  have millis := d.binds_millis
  refine ⟨⟨d.toNat_whole (by decide), d.toNat_whole (by decide)⟩, micros, millis, ?_,
    text_deadline_mssql, ?_, sum_time .mssql _, isGreatest_castable⟩
  · intro d' h
    exact ⟨micros.mono d'.binds_micros h, millis.mono d'.binds_millis h⟩
  · refine castable_of_le millis.nonneg ?_
    rw [millis.exact]
    exact min_le_right _ _

end LeaseLock
