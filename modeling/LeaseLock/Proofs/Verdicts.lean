/-
# LeaseLock.Proofs.Verdicts -- which errors a preloaded registry calls retryable

A preloaded registry goes by what the server or the driver itself reported: a few troubles of each
dialect pass, and an error is worth another try just if one of them stands somewhere along its chain.
None of the layers that errors are wrapped in is such a trouble, so however deep a driver's error
lies, its verdict is that of the error alone.
-/
import LeaseLock.Proofs.Numeral
import LeaseLock.Proofs.Registration

namespace LeaseLock

/-! ## Troubles that pass -/

/-- **Passing troubles**: what the server or the driver of a dialect reports when another try may go
through. SQL Server has none that is known. -/
inductive Passing : Dialect → Fault → Prop
  /-- A deadlock or a serialization failure of Postgres, under either driver. -/
  | conflict {d : Dialect} {e : DatabaseError} (server : d = .postgres ∨ d = .pgx)
      (code : e.code? = some "40P01" ∨ e.code? = some "40001") : Passing d (.database e)
  /-- A prepared statement of Postgres that has become stale. -/
  | stalePlan {d : Dialect} {e : DatabaseError} (server : d = .postgres ∨ d = .pgx)
      (code : e.code? = some "0A000")
      (message : e.message = "cached plan must not change result type") : Passing d (.database e)
  /-- A database or a table of SQLite that is locked: the low byte of the code, plain or extended. -/
  | busy {e : DatabaseError} {code : String} {n : Int} (coded : e.code? = some code)
      (number : Numeral.IsSigned32 code.toList n)
      (locked : Numeral.lowByte n = 5#32 ∨ Numeral.lowByte n = 6#32) : Passing .sqlite (.database e)
  /-- A deadlock of MySQL, or a wait for a lock that took too long. -/
  | contended {number : Nat} {state : Option String} {message : String}
      (known : number = 1213 ∨ number = 1205) : Passing .mysql (.database (.mysql number state message))
  /-- A connection to MySQL that broke. -/
  | disconnected (text : String) : Passing .mysql (.communication text)

theorem not_passing_mssql (f : Fault) : ¬ Passing .mssql f := by
  intro passing
  cases passing with
  | conflict server | stalePlan server => exact absurd server (by simp)

section

variable {e : DatabaseError} {f : Fault} {d : Dialect}

theorem postgresRetryable_iff : postgresRetryable e ↔
    (e.code? = some "40P01" ∨ e.code? = some "40001") ∨
      e.code? = some "0A000" ∧ e.message = "cached plan must not change result type" := by
  simp [postgresRetryable]

theorem sqliteRetryable_iff : sqliteRetryable e ↔
    ∃ code n, e.code? = some code ∧ Numeral.IsSigned32 code.toList n ∧
      (Numeral.lowByte n = 5#32 ∨ Numeral.lowByte n = 6#32) := by
  have five (n : Int) := Numeral.lowByte_eq_iff (n := n) (show 5 < 256 by decide)
  have six (n : Int) := Numeral.lowByte_eq_iff (n := n) (show 6 < 256 by decide)
  unfold sqliteRetryable
  simp only [five, six, ← Numeral.signed32?_eq_some_iff]
  split
  · rename_i unread
    simp only [Option.bind_eq_none_iff] at unread
    simp only [Bool.false_eq_true, false_iff, not_exists, not_and]
    intro code n coded read
    exact absurd (unread code coded ▸ read) (by simp)
  · rename_i n read
    obtain ⟨code, coded, number⟩ := Option.bind_eq_some_iff.mp read
    rw [Bool.or_eq_true, decide_eq_true_iff, decide_eq_true_iff]
    constructor
    · intro locked
      exact ⟨code, n, coded, number, locked⟩
    · rintro ⟨code', n', coded', number', locked⟩
      obtain rfl := Option.some.inj (coded.symm.trans coded')
      obtain rfl := Option.some.inj (number.symm.trans number')
      exact locked

theorem mysqlRetryable_iff : mysqlRetryable e ↔
    ∃ number state message, e = .mysql number state message ∧ (number = 1213 ∨ number = 1205) := by
  cases e <;> simp [mysqlRetryable, DatabaseError.mysqlNumber?]

/-- A judgement on the server's own error. -/
theorem any_databaseError?_iff {accepts : DatabaseError → Bool} :
    f.databaseError?.any accepts ↔ ∃ e, f = .database e ∧ accepts e := by
  cases f <;> simp [Fault.databaseError?]

theorem postgres_accepts_iff (server : d = .postgres ∨ d = .pgx) :
    Classifier.postgres.accepts f ↔ Passing d f := by
  show f.databaseError?.any postgresRetryable ↔ _
  rw [any_databaseError?_iff]
  constructor
  · rintro ⟨e, rfl, accepted⟩
    rcases postgresRetryable_iff.mp accepted with code | ⟨code, message⟩
    · exact .conflict server code
    · exact .stalePlan server code message
  · intro passing
    cases passing with
    | conflict _ code => exact ⟨_, rfl, postgresRetryable_iff.mpr (.inl code)⟩
    | stalePlan _ code message => exact ⟨_, rfl, postgresRetryable_iff.mpr (.inr ⟨code, message⟩)⟩
    | busy | contended | disconnected => exact absurd server (by simp)

theorem sqlite_accepts_iff : Classifier.sqlite.accepts f ↔ Passing .sqlite f := by
  show f.databaseError?.any sqliteRetryable ↔ _
  rw [any_databaseError?_iff]
  constructor
  · rintro ⟨e, rfl, accepted⟩
    obtain ⟨code, n, coded, number, locked⟩ := sqliteRetryable_iff.mp accepted
    exact .busy coded number locked
  · intro passing
    cases passing with
    | busy coded number locked =>
        exact ⟨_, rfl, sqliteRetryable_iff.mpr ⟨_, _, coded, number, locked⟩⟩
    | conflict server | stalePlan server => exact absurd server (by simp)

theorem mysql_accepts_iff : Classifier.mysql.accepts f ↔ Passing .mysql f := by
  show (f.databaseError?.any mysqlRetryable || f.isCommunication) ↔ _
  rw [Bool.or_eq_true, any_databaseError?_iff]
  constructor
  · rintro (⟨e, rfl, accepted⟩ | broken)
    · obtain ⟨number, state, message, rfl, known⟩ := mysqlRetryable_iff.mp accepted
      exact .contended known
    · cases f <;> first | exact .disconnected _ | exact absurd broken (by simp [Fault.isCommunication])
  · intro passing
    cases passing with
    | contended known => exact .inl ⟨_, rfl, mysqlRetryable_iff.mpr ⟨_, _, _, rfl, known⟩⟩
    | disconnected text => exact .inr rfl
    | conflict server | stalePlan server => exact absurd server (by simp)

/-- The built-in classifiers of a dialect accept just the troubles that pass. -/
theorem exists_builtIn_iff : (∃ c ∈ Registry.builtIn d, c.accepts f) ↔ Passing d f := by
  have alone {c : Classifier} : (∃ c' ∈ [c], c'.accepts f) ↔ c.accepts f := by simp
  cases d with
  | sqlite => exact alone.trans sqlite_accepts_iff
  | mysql => exact alone.trans mysql_accepts_iff
  | postgres => exact alone.trans (postgres_accepts_iff (.inl rfl))
  | pgx => exact alone.trans (postgres_accepts_iff (.inr rfl))
  | mssql =>
      constructor
      · rintro ⟨c, listed, -⟩
        exact absurd listed List.not_mem_nil
      · intro passing
        exact absurd passing (not_passing_mssql f)

end

/-! ## Verdicts along a chain -/

/-- **The default verdict**: somewhere along the chain stands a trouble that passes. -/
theorem Registry.retryable_defaults_iff (d : Dialect) (f : Fault) :
    (defaults.check d f).retryable ↔ ∃ e, f.Reaches e ∧ Passing d e := by
  rw [(defaults_lists d).retryable_iff f]
  simp only [exists_builtIn_iff]

theorem Registry.retryable_defaults_mssql (f : Fault) :
    (defaults.check .mssql f).retryable = false := by
  rw [Bool.eq_false_iff, ne_eq, retryable_defaults_iff]
  rintro ⟨e, -, passing⟩
  exact not_passing_mssql e passing

/-! ## Layers -/

/-- **Layer**: an error around another one, whose source is the rest of the chain. -/
inductive Layer where
  | plain (text : String)
  | decoding
  | configuration
  /-- A statement failed, because of a duplicate key or for another reason. -/
  | statement (duplicateKey : Bool)
  | transport
  | lock (key : String) (operation : Operation)
deriving DecidableEq, Repr

namespace Layer

/-- The layer around an error. -/
def around : Layer → Fault → Fault
  | .plain text, f => .context text f
  | .decoding, f => .decoding f
  | .configuration, f => .configuration f
  | .statement duplicateKey, f => .statement duplicateKey f
  | .transport, f => .transport f
  | .lock key operation, f => .lock key operation f

/-- Layers around an error, the outermost first. -/
def wrap (layers : List Layer) (f : Fault) : Fault := layers.foldr around f

variable {d : Dialect} {f e : Fault}

/-- What a layer adds to the chain: itself, and the transport error that a lock error carries. -/
theorem chain_around (layer : Layer) (f : Fault) :
    ∃ added, (layer.around f).chain = added ++ f.chain ∧ ∀ e ∈ added, ¬ Passing d e := by
  cases layer with
  | lock key operation =>
      refine ⟨[.lock key operation f, .transport f], rfl, ?_⟩
      simp only [List.forall_mem_cons]
      exact ⟨nofun, nofun, nofun⟩
  | plain | decoding | configuration | statement | transport =>
      refine ⟨[_], rfl, ?_⟩
      simp only [List.forall_mem_singleton]
      exact nofun

/-- **No layer changes the default verdict.** -/
theorem retryable_around (layer : Layer) (f : Fault) :
    (Registry.defaults.check d (layer.around f)).retryable = (Registry.defaults.check d f).retryable := by
  obtain ⟨added, chain, harmless⟩ := layer.chain_around (d := d) f
  rw [Bool.eq_iff_iff, Registry.retryable_defaults_iff, Registry.retryable_defaults_iff]
  simp only [← Fault.mem_chain_iff, chain, List.mem_append]
  constructor
  · rintro ⟨e, here | below, passing⟩
    · exact absurd passing (harmless e here)
    · exact ⟨e, below, passing⟩
  · rintro ⟨e, below, passing⟩
    exact ⟨e, .inr below, passing⟩

theorem retryable_wrap (layers : List Layer) (f : Fault) :
    (Registry.defaults.check d (wrap layers f)).retryable = (Registry.defaults.check d f).retryable := by
  induction layers with
  | nil => rfl
  | cons layer layers ih => exact (layer.retryable_around (wrap layers f)).trans ih

end Layer

/-! ## Lock errors -/

/-- A failed statement has the verdict of what the driver reported: that it met a duplicate key is
neither asked nor kept. -/
theorem Registry.retryable_ofStatement (d : Dialect) (key : String) (operation : Operation)
    (e : StatementError) : (defaults.checkLock d (.transport key operation (.ofStatement e))).retryable =
      (defaults.check d e.cause).retryable :=
  Layer.retryable_around .transport e.cause

/-- **The default verdicts.** An error is retryable just if a trouble that passes stands somewhere
along its chain, so on SQL Server none ever is, and layers around an error change nothing. Of the
lock errors, a timeout is retryable by every registry and for every dialect; another transport error
has the verdict of the driver's error, whether or not the statement had met a duplicate key; and no
other lock error ever is. -/
theorem Registry.default_verdicts (d : Dialect) :
    (∀ f, (defaults.check d f).retryable ↔ ∃ e, f.Reaches e ∧ Passing d e) ∧
    (∀ f, (defaults.check .mssql f).retryable = false) ∧
    (∀ layers f, (defaults.check d (Layer.wrap layers f)).retryable =
      (defaults.check d f).retryable) ∧
    (∀ (r : Registry) key operation limit,
      (r.checkLock d (.transport key operation (.timeout limit))).retryable) ∧
    (∀ key operation (e : StatementError),
      (defaults.checkLock d (.transport key operation (.ofStatement e))).retryable =
        (defaults.check d e.cause).retryable) ∧
    (∀ (r : Registry) e, e.isTransport = false → (r.checkLock d e).retryable = false) := by
  refine ⟨retryable_defaults_iff d, retryable_defaults_mssql, Layer.retryable_wrap, ?_,
    retryable_ofStatement d, ?_⟩
  · intro r key operation limit
    rfl
  · intro r e final
    cases e with
    | transport key operation e => exact absurd final (by simp [LockError.isTransport])
    | config | contention | lostLease => rfl

end LeaseLock
