/-
# LeaseLock.Proofs.Wording -- what the message of a lock error tells

A lock error is worded by one of a few sentences, with its own data filled in. No sentence opens like
another one, so a message tells its sentence; quoted texts, numbers and durations tell what they stand for,
and where they end. Only what a driver reports stands in a message as it is, and of that the message tells
the text (`LockError.message_eq_iff`). What callers supply stands between quotes, with the same words around
it whatever it is, so it can neither leave its quotes nor begin another line
(`LockError.messages_unambiguous`).
-/
import LeaseLock.Event
import LeaseLock.Proofs.DurationText
import LeaseLock.Proofs.PlainWord
import LeaseLock.Proofs.QuotedText

namespace LeaseLock

open Quoted

/-! ## Sentences -/

/-- **Sentence**: how an error is worded, whatever it is filled with. -/
inductive Sentence where
  | unknownDialect
  | emptyKey
  | keyTooLong
  | invalidTableName
  | invalidTtl
  | invalidExtendInterval
  | contention
  | lostLease
  | failed (operation : Operation)
deriving DecidableEq

namespace Sentence

/-- The words that a sentence opens with. Behind `lock` there may be a key in quotes or another word, so the
quote belongs to them. -/
def opening : Sentence → String
  | .unknownDialect => "unsupported SQL dialect: "
  | .emptyKey => "lock key must not be empty"
  | .keyTooLong => "lock key is "
  | .invalidTableName => "invalid lock table name: "
  | .invalidTtl => "lock TTL must be positive, got "
  | .invalidExtendInterval => "lease extension interval must be positive, got "
  | .contention => "lock \""
  | .lostLease => "lease on lock "
  | .failed operation => operation.name ++ " of lock "

/-- All sentences. -/
def all : List Sentence :=
  [.unknownDialect, .emptyKey, .keyTooLong, .invalidTableName, .invalidTtl, .invalidExtendInterval,
    .contention, .lostLease, .failed .acquire, .failed .extend, .failed .release, .failed .purgeExpired]

theorem mem_all (s : Sentence) : s ∈ all := by
  cases s with
  | failed operation => cases operation <;> decide
  | _ => decide

/-- **No sentence opens like another one.** -/
theorem eq_of_opening_prefix {s t : Sentence} (h : s.opening.toList <+: t.opening.toList) : s = t := by
  have apart : ∀ s ∈ all, ∀ t ∈ all, s.opening.toList <+: t.opening.toList → s = t := by
    decide +kernel
  exact apart s s.mem_all t t.mem_all h

end Sentence

/-- The sentence of a configuration error. -/
def ConfigError.sentence : ConfigError → Sentence
  | .unknownDialect _ => .unknownDialect
  | .emptyKey => .emptyKey
  | .keyTooLong _ _ => .keyTooLong
  | .invalidTableName _ => .invalidTableName
  | .invalidTtl _ => .invalidTtl
  | .invalidExtendInterval _ => .invalidExtendInterval

theorem ConfigError.opening_prefix (e : ConfigError) :
    e.sentence.opening.toList <+: e.message.toList := by
  cases e <;> simp [sentence, Sentence.opening.eq_def, message.eq_def]

/-! ## What a message tells -/

theorem TransportError.timeout_message_inj {d e : Duration} :
    (timeout d).message = (timeout e).message ↔ d = e := by
  simp only [message.eq_def, String.append_right_inj, Duration.text_inj]

theorem Operation.failed_append_inj {o : Operation} {key key' a b : String} :
    o.failed key ++ a = o.failed key' ++ b ↔ key = key' ∧ a = b := by
  simp only [failed, String.append_assoc, String.append_right_inj, quote_append_inj]

namespace LockError

/-- The sentence of a lock error. -/
def sentence : LockError → Sentence
  | .config e => e.sentence
  | .contention _ => .contention
  | .transport _ operation _ => .failed operation
  | .lostLease _ => .lostLease

theorem opening_prefix (e : LockError) : e.sentence.opening.toList <+: e.message.toList := by
  cases e with
  | config e => exact e.opening_prefix
  | contention key => simp [sentence, Sentence.opening.eq_def, message.eq_def, toList_quote]
  | transport key operation e => simp [sentence, Sentence.opening.eq_def, message.eq_def, Operation.failed]
  | lostLease key => simp [sentence, Sentence.opening.eq_def, message.eq_def]

/-- A message tells its sentence. -/
theorem sentence_eq {e e' : LockError} (h : e.message = e'.message) : e.sentence = e'.sentence := by
  have opens := e.opening_prefix
  rw [h] at opens
  rcases List.prefix_or_prefix_of_prefix opens e'.opening_prefix with h | h
  · exact Sentence.eq_of_opening_prefix h
  · exact (Sentence.eq_of_opening_prefix h).symm

/-- **Errors that read alike**: the same error, but for what stands behind the text of its reason. -/
inductive Alike : LockError → LockError → Prop
  | same {e : LockError} : Alike e e
  | failed {key : String} {operation : Operation} {e e' : TransportError} : e.message = e'.message →
      Alike (.transport key operation e) (.transport key operation e')

/-- Within a sentence, a message tells what it is filled with. -/
theorem alike_of_sentence_eq : ∀ {e e' : LockError}, e.sentence = e'.sentence →
    e.message = e'.message → e.Alike e'
  -- errors of two sentences are no cases: what is assumed of them is false on sight
  | .config (.unknownDialect name), .config (.unknownDialect name'), _, h => by
    simp only [message.eq_def, ConfigError.message.eq_def, String.append_right_inj, quote_inj] at h
    exact h ▸ .same
  | .config .emptyKey, .config .emptyKey, _, _ => .same
  | .config (.keyTooLong length limit), .config (.keyTooLong length' limit'), _, h => by
    have space : ¬ Numeral.IsDigitOf 10 ' ' := by decide
    have both : length = length' ∧ limit = limit' := by
      simpa [message.eq_def, ConfigError.message.eq_def, Numeral.decimal,
        Numeral.digits_append_inj (b := 10) (by decide) (by decide) space space]
        using congrArg String.toList h
    obtain ⟨rfl, rfl⟩ := both
    exact .same
  | .config (.invalidTableName name), .config (.invalidTableName name'), _, h => by
    simp only [message.eq_def, ConfigError.message.eq_def, String.append_right_inj, quote_inj] at h
    exact h ▸ .same
  | .config (.invalidTtl ttl), .config (.invalidTtl ttl'), _, h => by
    simp only [message.eq_def, ConfigError.message.eq_def, String.append_right_inj, Duration.text_inj] at h
    exact h ▸ .same
  | .config (.invalidExtendInterval interval), .config (.invalidExtendInterval interval'), _, h => by
    simp only [message.eq_def, ConfigError.message.eq_def, String.append_right_inj, Duration.text_inj] at h
    exact h ▸ .same
  | .contention key, .contention key', _, h => by
    simp only [message.eq_def, String.append_assoc, String.append_right_inj, quote_append_inj] at h
    exact h.1 ▸ .same
  | .transport key operation e, .transport key' operation' e', same, h => by
    obtain rfl := Sentence.failed.inj same
    simp only [message.eq_def, Operation.failed_append_inj] at h
    obtain ⟨rfl, h⟩ := h
    exact .failed h
  | .lostLease key, .lostLease key', _, h => by
    simp only [message.eq_def, String.append_assoc, String.append_right_inj, quote_append_inj] at h
    exact h.1 ▸ .same

/-- **A message tells the error**, but for what stands behind the text of its reason. -/
theorem message_eq_iff {e e' : LockError} : e.message = e'.message ↔ e.Alike e' := by
  constructor
  · intro h
    exact alike_of_sentence_eq (sentence_eq h) h
  · rintro (_ | h)
    · rfl
    · simp only [message.eq_def, h]

/-- Whether the reason is a driver's report, in the driver's own words. -/
def reportsDriver : LockError → Bool
  | .transport _ _ (.database _) => true
  | _ => false

theorem message_inj {e e' : LockError} (he : ¬ e.reportsDriver) (he' : ¬ e'.reportsDriver) :
    e.message = e'.message ↔ e = e' := by
  refine ⟨fun h => ?_, congrArg message⟩
  cases message_eq_iff.mp h with
  | same => rfl
  | @failed key operation reason reason' alike =>
    cases reason with
    | database _ => exact absurd rfl he
    | timeout limit =>
      cases reason' with
      | database _ => exact absurd rfl he'
      | timeout limit' => rw [TransportError.timeout_message_inj.mp alike]

theorem report_message_inj {key key' : String} {o o' : Operation} {f f' : Fault} :
    (transport key o (.database f)).message = (transport key' o' (.database f')).message ↔
      o = o' ∧ key = key' ∧ f.text = f'.text := by
  rw [message_eq_iff]
  constructor
  · rintro (_ | h)
    · exact ⟨rfl, rfl, rfl⟩
    · exact ⟨rfl, rfl, h⟩
  · rintro ⟨rfl, rfl, h⟩
    exact .failed h

/-- A report reads like another error only where the driver words a timeout. -/
theorem report_message_eq_iff {e : LockError} (he : ¬ e.reportsDriver) {key : String} {o : Operation}
    {f : Fault} :
    (transport key o (.database f)).message = e.message ↔
      ∃ limit, e = transport key o (.timeout limit) ∧
        f.text = (TransportError.timeout limit).message := by
  rw [message_eq_iff]
  constructor
  · intro h
    cases h with
    | same => exact absurd rfl he
    | @failed _ _ _ reason h =>
      cases reason with
      | database _ => exact absurd rfl he
      | timeout limit => exact ⟨limit, rfl, h⟩
  · rintro ⟨limit, rfl, h⟩
    exact .failed h

/-! ## What callers supply -/

/-- The text of a caller's that a message quotes. -/
def supplied? : LockError → Option String
  | .config (.unknownDialect name) | .config (.invalidTableName name) => some name
  | .config _ => none
  | .contention key | .transport key _ _ | .lostLease key => some key

/-- The same error about another text. -/
def about : LockError → String → LockError
  | .config (.unknownDialect _), text => .config (.unknownDialect text)
  | .config (.invalidTableName _), text => .config (.invalidTableName text)
  | .config e, _ => .config e
  | .contention _, text => .contention text
  | .transport _ operation e, text => .transport text operation e
  | .lostLease _, text => .lostLease text

theorem about_supplied : ∀ {e : LockError} {text : String}, e.supplied? = some text → e.about text = e
  | .config (.unknownDialect _), _, h => by rw [about, Option.some.inj h]
  | .config (.invalidTableName _), _, h => by rw [about, Option.some.inj h]
  | .contention _, _, h => by rw [about, Option.some.inj h]
  | .transport _ _ _, _, h => by rw [about, Option.some.inj h]
  | .lostLease _, _, h => by rw [about, Option.some.inj h]

/-- **The words around a supplied text** do not depend on it, and no quote is among those before it. -/
theorem exists_frame : ∀ {e : LockError} {text : String}, e.supplied? = some text →
    ∃ before after : String, '"' ∉ before.toList ∧
      ∀ t, (e.about t).message = before ++ quote t ++ after
  | .config (.unknownDialect _), _, _ =>
    ⟨"unsupported SQL dialect: ", "", by decide +kernel, fun _ => String.append_empty.symm⟩
  | .config (.invalidTableName _), _, _ =>
    ⟨"invalid lock table name: ", "", by decide +kernel, fun _ => String.append_empty.symm⟩
  | .contention _, _, _ => ⟨"lock ", " is held by another owner", by decide +kernel, fun _ => rfl⟩
  | .transport _ operation e, _, _ => by
    refine ⟨operation.name ++ " of lock ", " failed: " ++ e.message, ?_, fun t => ?_⟩
    · cases operation <;> decide +kernel
    · simp only [about, message.eq_def, Operation.failed, String.append_assoc]
  | .lostLease _, _, _ =>
    ⟨"lease on lock ", " expired or was taken over", by decide +kernel, fun _ => rfl⟩

/-- A reader finds the supplied text between the same words, whatever it is. -/
theorem firstQuoted?_message {e : LockError} {text : String} (h : e.supplied? = some text) :
    ∃ before after, firstQuoted? e.message.toList = some (before, inside text, after) ∧
      ∀ t, firstQuoted? (e.about t).message.toList = some (before, inside t, after) := by
  obtain ⟨before, after, hbefore, framed⟩ := exists_frame h
  have read : ∀ t, firstQuoted? (e.about t).message.toList =
      some (before.toList, inside t, after.toList) := by
    intro t
    rw [framed, String.toList_append, String.toList_append]
    exact firstQuoted?_append hbefore t after.toList
  refine ⟨before.toList, after.toList, ?_, read⟩
  rw [← read text, about_supplied h]

end LockError

/-! ## Lines -/

theorem isOneLine_decimal (n : Nat) : IsOneLine (Numeral.decimal n) := by
  refine isOneLine_of_visible fun c hc => ?_
  rw [Numeral.decimal, String.toList_ofList] at hc
  obtain ⟨d, hd, rfl⟩ := Numeral.isDigitOf_of_mem_digits (by decide) hc
  obtain ⟨low, high, -⟩ := isDigitOf_ascii ⟨d, by omega, rfl⟩
  exact not_isHidden_of_ascii low high

theorem Duration.isOneLine_text (d : Duration) : IsOneLine d.text := by
  have signs : ['.', 's', 'm', 'µ', 'n'].all fun c => !isHidden c := by decide +kernel
  refine isOneLine_of_visible fun c hc => ?_
  rcases mem_text hc with ⟨k, hk, rfl⟩ | hc
  · obtain ⟨low, high, -⟩ := isDigitOf_ascii ⟨k, by omega, rfl⟩
    exact not_isHidden_of_ascii low high
  · simpa using List.all_eq_true.mp signs c hc

/-- A plain word is one line without quotes around it. -/
theorem IsPlainWord.isOneLine {name : String} (h : IsPlainWord name.toList) : IsOneLine name := by
  have between : ∀ {a b c : Char}, a ≤ c → c ≤ b → ' ' ≤ a → b ≤ '~' → ¬ isHidden c := by
    intro a b c low high first last
    have small : c.toNat ≤ '~'.toNat := Nat.le_trans high last
    exact not_isHidden_of_ascii (Nat.le_trans first low) (Nat.lt_of_le_of_lt small (by decide))
  refine isOneLine_of_visible fun c hc => ?_
  have following := (TableName.isFollowing_iff c).mp (h.isFollowing hc)
  rcases following with (⟨low, high⟩ | ⟨low, high⟩) | ⟨low, high⟩ | rfl
  · exact between low high (by decide) (by decide)
  · exact between low high (by decide) (by decide)
  · exact between low high (by decide) (by decide)
  · exact not_isHidden_of_ascii (by decide) (by decide)

theorem ConfigError.isOneLine_message (e : ConfigError) : IsOneLine e.message := by
  cases e <;> simp only [message.eq_def, isOneLine_append, isOneLine_quote, isOneLine_decimal,
    Duration.isOneLine_text, and_true] <;> decide +kernel

theorem Operation.isOneLine_failed (o : Operation) (key : String) : IsOneLine (o.failed key) := by
  simp only [failed, isOneLine_append, isOneLine_quote, and_true]
  cases o <;> decide +kernel

theorem LockError.isOneLine_message {e : LockError} (h : ¬ e.reportsDriver) : IsOneLine e.message := by
  cases e with
  | config e => exact e.isOneLine_message
  | contention key =>
    simp only [message.eq_def, isOneLine_append, isOneLine_quote, and_true]
    decide +kernel
  | transport key operation e =>
    cases e with
    | timeout limit =>
      simp only [message.eq_def, TransportError.message.eq_def, isOneLine_append,
        Operation.isOneLine_failed, Duration.isOneLine_text, true_and, and_true]
      decide +kernel
    | database _ => exact absurd rfl h
  | lostLease key =>
    simp only [message.eq_def, isOneLine_append, isOneLine_quote, and_true]
    decide +kernel

/-- What an event says is the library's own: its table is a plain word, its error no driver's report. -/
def Event.OwnWords : Event → Prop
  | .purged _ table => IsPlainWord table.toList
  | .stoppingTask _ e | .releaseFailed _ e => ¬ e.reportsDriver
  | _ => True

/-- **A record of the log is one line.** -/
theorem Event.isOneLine_line {event : Event} (h : event.OwnWords) : IsOneLine event.line := by
  have message : IsOneLine event.message := by
    cases event with
    | purged rows table =>
      simp only [message.eq_def, isOneLine_append, isOneLine_decimal, IsPlainWord.isOneLine h, and_true]
      decide +kernel
    | stoppingTask key e | releaseFailed key e =>
      simp only [message.eq_def, isOneLine_append, isOneLine_quote, LockError.isOneLine_message h, and_true]
      decide +kernel
    | acquired key ttl | extended key ttl =>
      simp only [message.eq_def, isOneLine_append, isOneLine_quote, Duration.isOneLine_text, and_true]
      decide +kernel
    | released key | foreignAtRelease key =>
      simp only [message.eq_def, isOneLine_append, isOneLine_quote, and_true]
      decide +kernel
  have mark : IsOneLine "DEBUG " := by decide +kernel
  exact isOneLine_append.mpr ⟨mark, message⟩

namespace LockError

/-- **The messages of lock errors are unambiguous.** No two errors in the library's own words have the same
message; two reports of a driver have the same one only for the same operation, key and text, and a report
reads like another error only where the driver words that error's timeout for the same operation and key.
What callers supply changes nothing of this: a message in the library's words is one line, with no control
character in it, and so is a record of it in the log; a reader who looks for the quoted text finds the
supplied one whole, with the same words before and behind it whatever was supplied. -/
theorem messages_unambiguous :
    (∀ e e' : LockError, ¬ e.reportsDriver → ¬ e'.reportsDriver →
      (e.message = e'.message ↔ e = e')) ∧
    (∀ key key' o o' f f',
      (transport key o (.database f)).message = (transport key' o' (.database f')).message ↔
        o = o' ∧ key = key' ∧ f.text = f'.text) ∧
    (∀ (e : LockError) key o f, ¬ e.reportsDriver →
      ((transport key o (.database f)).message = e.message ↔
        ∃ limit, e = transport key o (.timeout limit) ∧
          f.text = (TransportError.timeout limit).message)) ∧
    (∀ e : LockError, ¬ e.reportsDriver → IsOneLine e.message) ∧
    (∀ event : Event, event.OwnWords → IsOneLine event.line) ∧
    ∀ (e : LockError) text, e.supplied? = some text →
      ∃ before after, firstQuoted? e.message.toList = some (before, inside text, after) ∧
        ∀ t, firstQuoted? (e.about t).message.toList = some (before, inside t, after) := by
  refine ⟨?_, ?_, ?_, ?_, ?_, ?_⟩
  · intro e e' he he'
    exact message_inj he he'
  · intro key key' o o' f f'
    exact report_message_inj
  · intro e key o f he
    exact report_message_eq_iff he
  · intro e he
    exact isOneLine_message he
  · intro event h
    exact Event.isOneLine_line h
  · intro e text h
    exact firstQuoted?_message h

/-- A key that tries to end its quotes, to finish its message, and to begin another one on the next line. -/
def forgedKey : String := "a\" is held by another owner\nlock \"b"

/-- Such a key is quoted whole and on one line; and a driver that words a timeout. -/
theorem messages_unambiguous_forged :
    ¬ (contention forgedKey).reportsDriver ∧
    (contention forgedKey).message ≠ (contention "a").message ∧
    IsOneLine (contention forgedKey).message ∧
    IsOneLine (Event.released forgedKey).line ∧
    (∃ before after,
      firstQuoted? (contention forgedKey).message.toList = some (before, inside forgedKey, after) ∧
      firstQuoted? (contention "a").message.toList = some (before, inside "a", after)) ∧
    (transport "a" .extend (.database (.plain "statement did not complete within 5s"))).message =
      (transport "a" .extend (.timeout (.ofSeconds 5))).message := by
  obtain ⟨own, -, report, line, record, quoted⟩ := messages_unambiguous
  have forged : ¬ (contention forgedKey).reportsDriver := Bool.false_ne_true
  have honest : ¬ (contention "a").reportsDriver := Bool.false_ne_true
  have timeout : ¬ (transport "a" .extend (.timeout (.ofSeconds 5))).reportsDriver := Bool.false_ne_true
  obtain ⟨before, after, found, framed⟩ := quoted (contention forgedKey) forgedKey rfl
  refine ⟨forged, ?_, line _ forged, record _ trivial, ⟨before, after, found, framed "a"⟩, ?_⟩
  · rw [Ne, own _ _ forged honest]
    decide
  · rw [report _ _ _ _ timeout]
    exact ⟨.ofSeconds 5, rfl, by decide +kernel⟩

end LockError

end LeaseLock
