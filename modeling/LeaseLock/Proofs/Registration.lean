/-
# LeaseLock.Proofs.Registration -- a registry stands for a list of classifiers per dialect

A registry keeps judges that have grown by joining one classifier after the other. What a program can
tell from its checks is nevertheless a list for each dialect: the classifiers registered there since
the dialect was last cleared, oldest first. A copy of a registry starts with the lists of its
original, and from then on neither sees what happens to the other.

A check asks the questions "does this classifier accept this error" in one fixed order, errors from
the outermost inwards and for each error the classifiers as listed, and it stops at the first yes.
-/
import LeaseLock.Retry.Registry
import Mathlib.Logic.Function.Basic
import Mathlib.Logic.Relation

namespace LeaseLock

/-! ## The errors of a chain -/

namespace Fault

/-- The error that one comes to by going from source to source. -/
def Reaches : Fault → Fault → Prop :=
  Relation.ReflTransGen fun outer inner => outer.source? = some inner

theorem chain_eq (f : Fault) : f.chain = f :: (f.source?.map chain).getD [] := by
  rw [chain, causes_eq]
  cases f.source? <;> rfl

/-- The chain of the source is shorter. -/
theorem chain_shorter {f inner : Fault} (below : f.source? = some inner) :
    inner.chain.length < f.chain.length := by
  rw [chain_eq f, below]
  exact Nat.lt_succ_self _

/-- The chain of an error consists of the error and its transitive sources. -/
theorem mem_chain_iff {f e : Fault} : e ∈ f.chain ↔ f.Reaches e := by
  induction length : f.chain.length using Nat.strongRecOn generalizing f with
  | _ n ih =>
    subst length
    cases source : f.source? with
    | none =>
      have alone : f.chain = [f] := by rw [chain_eq, source]; rfl
      rw [alone, List.mem_singleton]
      constructor
      · rintro rfl
        exact .refl
      · intro reached
        rcases reached.cases_head with same | ⟨inner, below, _⟩
        · exact same.symm
        · exact absurd (source.symm.trans below) (by simp)
    | some inner =>
      have longer : f.chain = f :: inner.chain := by rw [chain_eq, source]; rfl
      rw [longer, List.mem_cons, ih _ (chain_shorter source) rfl]
      constructor
      · rintro (rfl | reached)
        · exact .refl
        · exact .head source reached
      · intro reached
        rcases reached.cases_head with same | ⟨next, below, rest⟩
        · exact .inl same.symm
        · obtain rfl : inner = next := Option.some.inj (source.symm.trans below)
          exact .inr rest

end Fault

/-! ## Asking in order -/

/-- A question: does the classifier accept the error. -/
abbrev Question : Type := Classifier × Fault

/-- Whether the answer is yes. -/
def Question.yes (q : Question) : Bool := q.1.accepts q.2

namespace Verdict

@[simp] theorem unasked_orElse (v : Verdict) : unasked.orElse v = v := by
  simp [unasked, orElse]

@[simp] theorem orElse_unasked (v : Verdict) : v.orElse unasked = v := by
  rcases v with ⟨_ | _, asked⟩ <;> simp [unasked, orElse]

theorem orElse_assoc (u v w : Verdict) : (u.orElse v).orElse w = u.orElse (v.orElse w) := by
  rcases u with ⟨_ | _, asked⟩
  · rcases v with ⟨_ | _, asked'⟩ <;> simp [orElse]
  · simp [orElse]

/-- The verdict of putting questions one after the other, up to the first yes. -/
def ofQuestions : List Question → Verdict
  | [] => unasked
  | q :: qs => (Judge.ofClassifier q.1 q.2).orElse (ofQuestions qs)

theorem ofQuestions_append (qs rest : List Question) :
    ofQuestions (qs ++ rest) = (ofQuestions qs).orElse (ofQuestions rest) := by
  induction qs with
  | nil => exact (unasked_orElse _).symm
  | cons q qs ih => rw [List.cons_append, ofQuestions, ofQuestions, ih, orElse_assoc]

theorem retryable_ofQuestions (qs : List Question) :
    (ofQuestions qs).retryable = qs.any Question.yes := by
  induction qs with
  | nil => rfl
  | cons q qs ih =>
    rw [ofQuestions, List.any_cons, ← ih]
    cases yes : q.1.accepts q.2 <;> simp [Judge.ofClassifier, orElse, Question.yes, yes]

/-- The questions up to and with the first one whose answer is yes. -/
def upToYes (qs : List Question) : List Question :=
  qs.takeWhile (fun q => !q.yes) ++ (qs.find? Question.yes).toList

theorem asked_ofQuestions (qs : List Question) : (ofQuestions qs).asked = upToYes qs := by
  induction qs with
  | nil => rfl
  | cons q qs ih =>
    rw [ofQuestions, upToYes]
    cases yes : q.1.accepts q.2
    · simp [Judge.ofClassifier, orElse, Question.yes, yes, ih, upToYes]
    · simp [Judge.ofClassifier, orElse, Question.yes, yes]

end Verdict

/-! ## Judges that stand for lists -/

/-- The questions on a chain of errors: error by error, and for each the classifiers in order. -/
def questions (cs : List Classifier) (errors : List Fault) : List Question :=
  errors.flatMap fun e => cs.map fun c => (c, e)

@[simp] theorem questions_nil (cs : List Classifier) : questions cs [] = [] := rfl

theorem questions_cons (cs : List Classifier) (e : Fault) (errors : List Fault) :
    questions cs (e :: errors) = (cs.map fun c => (c, e)) ++ questions cs errors := rfl

theorem questions_to_nobody (errors : List Fault) : questions [] errors = [] := by
  induction errors with
  | nil => rfl
  | cons e errors ih => rw [questions_cons, ih, List.map_nil, List.append_nil]

theorem mem_questions {cs : List Classifier} {errors : List Fault} {q : Question} :
    q ∈ questions cs errors ↔ q.1 ∈ cs ∧ q.2 ∈ errors := by
  rcases q with ⟨c, e⟩
  simp only [questions, List.mem_flatMap, List.mem_map, Prod.mk.injEq]
  constructor
  · rintro ⟨e', below, c', listed, rfl, rfl⟩
    exact ⟨listed, below⟩
  · rintro ⟨listed, below⟩
    exact ⟨e, below, c, listed, rfl, rfl⟩

namespace Judge

variable {judge : Judge} {cs : List Classifier}

/-- The judge asks just these classifiers, in this order, up to the first that accepts. -/
def StandsFor (judge : Judge) (cs : List Classifier) : Prop :=
  ∀ f, judge f = .ofQuestions (cs.map fun c => (c, f))

theorem ofClassifier_standsFor (c : Classifier) : (ofClassifier c).StandsFor [c] := by
  intro f
  exact (Verdict.orElse_unasked _).symm

theorem StandsFor.orElse {later : Judge} {cs' : List Classifier} (stands : judge.StandsFor cs)
    (stands' : later.StandsFor cs') : (judge.orElse later).StandsFor (cs ++ cs') := by
  intro f
  rw [List.map_append, Verdict.ofQuestions_append, ← stands f, ← stands' f]
  rfl

theorem StandsFor.along (stands : judge.StandsFor cs) (errors : List Fault) :
    judge.along errors = .ofQuestions (questions cs errors) := by
  induction errors with
  | nil => rfl
  | cons e errors ih =>
    rw [Judge.along, ih, stands e, questions_cons, Verdict.ofQuestions_append]

end Judge

/-! ## Registries that stand for lists -/

namespace Registry

variable {r : Registry} {d : Dialect} {cs : List Classifier}

/-- For this dialect the registry has just these classifiers, in this order. -/
def Lists (r : Registry) (d : Dialect) (cs : List Classifier) : Prop :=
  match r.judges d with
  | none => cs = []
  | some judge => judge.StandsFor cs

theorem Lists.check (lists : r.Lists d cs) (f : Fault) :
    r.check d f = .ofQuestions (questions cs f.chain) := by
  unfold Lists at lists
  unfold Registry.check
  cases judge : r.judges d with
  | none =>
    rw [judge] at lists
    obtain rfl : cs = [] := lists
    rw [questions_to_nobody]
    rfl
  | some judge' =>
    rw [judge] at lists
    exact lists.along f.chain

/-- A registry accepts an error just if one of the classifiers it lists accepts the error or one of its
transitive sources. -/
theorem Lists.retryable_iff (lists : r.Lists d cs) (f : Fault) :
    (r.check d f).retryable ↔ ∃ e, f.Reaches e ∧ ∃ c ∈ cs, c.accepts e := by
  rw [lists.check f, Verdict.retryable_ofQuestions, List.any_eq_true]
  constructor
  · rintro ⟨⟨c, e⟩, asked, yes⟩
    obtain ⟨listed, below⟩ := mem_questions.mp asked
    exact ⟨e, Fault.mem_chain_iff.mp below, c, listed, yes⟩
  · rintro ⟨e, reached, c, listed, yes⟩
    exact ⟨(c, e), mem_questions.mpr ⟨listed, Fault.mem_chain_iff.mpr reached⟩, yes⟩

@[simp] theorem judges_set_self (r : Registry) (d : Dialect) (judge : Option Judge) :
    (r.set d judge).judges d = judge := if_pos rfl

theorem judges_set_of_ne (r : Registry) {d d' : Dialect} (judge : Option Judge) (other : d' ≠ d) :
    (r.set d judge).judges d' = r.judges d' := if_neg other

theorem empty_lists (d : Dialect) : empty.Lists d [] := rfl

theorem unregister_lists (r : Registry) (d : Dialect) : (r.unregister d).Lists d [] := by
  rw [Lists, unregister, judges_set_self]

theorem Lists.register (lists : r.Lists d cs) (c : Classifier) :
    (r.register d c).Lists d (cs ++ [c]) := by
  unfold Lists at lists ⊢
  rw [Registry.register, judges_set_self]
  cases judge : r.judges d with
  | none =>
    rw [judge] at lists
    obtain rfl : cs = [] := lists
    exact Judge.ofClassifier_standsFor c
  | some earlier =>
    rw [judge] at lists
    exact lists.orElse (Judge.ofClassifier_standsFor c)

/-- The classifiers that a preloaded registry starts with. -/
def builtIn : Dialect → List Classifier
  | .postgres | .pgx => [.postgres]
  | .sqlite => [.sqlite]
  | .mysql => [.mysql]
  | .mssql => []

theorem defaults_lists (d : Dialect) : defaults.Lists d (builtIn d) := by
  cases d with
  | mssql => exact empty_lists .mssql
  | _ => exact Judge.ofClassifier_standsFor _

/-! ## Histories -/

/-- A step of a program that keeps registries under names. -/
inductive Step (ι : Type) where
  | register (i : ι) (d : Dialect) (c : Classifier)
  | unregister (i : ι) (d : Dialect)
  /-- The registry `target` is made a copy of `source`. -/
  | clone (source target : ι)
  | check (i : ι) (d : Dialect) (f : Fault)

variable {ι : Type} [DecidableEq ι] (preloaded : ι → Bool)

/-- The registries after a step. -/
def Step.take (registries : ι → Registry) : Step ι → ι → Registry
  | .register i d c => Function.update registries i ((registries i).register d c)
  | .unregister i d => Function.update registries i ((registries i).unregister d)
  | .clone source target => Function.update registries target (registries source)
  | .check _ _ _ => registries

/-- Whether the step is one on dialect `d` of registry `i`, or makes `i` a copy. -/
def Step.Concerns (i : ι) (d : Dialect) : Step ι → Prop
  | .register j d' _ | .unregister j d' => j = i ∧ d' = d
  | .clone _ target => target = i
  | .check _ _ _ => False

/-- The registries after a history, the latest step first. -/
def after : List (Step ι) → ι → Registry
  | [] => fun i => if preloaded i then defaults else empty
  | step :: past => step.take (after past)

/-- **In force**: what a history leaves for a registry and a dialect, oldest first. Clearing starts
the list anew, and a copy goes on from the list of its original. -/
def inForce : List (Step ι) → ι → Dialect → List Classifier
  | [], i, d => if preloaded i then builtIn d else []
  | .register j d' c :: past, i, d =>
    if j = i ∧ d' = d then inForce past i d ++ [c] else inForce past i d
  | .unregister j d' :: past, i, d => if j = i ∧ d' = d then [] else inForce past i d
  | .clone source target :: past, i, d =>
    if target = i then inForce past source d else inForce past i d
  | .check _ _ _ :: past, i, d => inForce past i d

/-- A step that does not concern a registry's dialect leaves its judge as it was. -/
theorem Step.judges_take {registries : ι → Registry} {step : Step ι} {i : ι}
    (unconcerned : ¬ step.Concerns i d) :
    (step.take registries i).judges d = (registries i).judges d := by
  have others (j : ι) (d' : Dialect) (judge : Option Judge) (apart : ¬ (j = i ∧ d' = d)) :
      (Function.update registries j ((registries j).set d' judge) i).judges d =
        (registries i).judges d := by
    by_cases here : j = i
    · subst here
      rw [Function.update_self]
      exact judges_set_of_ne _ _ fun same => apart ⟨rfl, same.symm⟩
    · rw [Function.update_of_ne (Ne.symm here)]
  cases step with
  | register j d' c => exact others j d' _ unconcerned
  | unregister j d' => exact others j d' _ unconcerned
  | clone source target =>
    show (Function.update registries target (registries source) i).judges d = _
    rw [Function.update_of_ne (Ne.symm unconcerned)]
  | check => rfl

/-- A registry lists what its history has left in force. -/
theorem after_lists (history : List (Step ι)) (i : ι) (d : Dialect) :
    (after preloaded history i).Lists d (inForce preloaded history i d) := by
  induction history generalizing i with
  | nil =>
    unfold after inForce
    split
    · exact defaults_lists d
    · exact empty_lists d
  | cons step past ih =>
    by_cases concerned : step.Concerns i d
    · cases step with
      | register j d' c =>
        obtain ⟨rfl, rfl⟩ := concerned
        simpa [after, Step.take, inForce] using (ih j).register c
      | unregister j d' =>
        obtain ⟨rfl, rfl⟩ := concerned
        simpa [after, Step.take, inForce] using unregister_lists _ d'
      | clone source target =>
        obtain rfl : target = i := concerned
        simpa [after, Step.take, inForce] using ih source
      | check => exact concerned.elim
    · have listed : inForce preloaded (step :: past) i d = inForce preloaded past i d := by
        cases step with
        | check => rfl
        | _ => exact if_neg concerned
      rw [listed, Lists, after, Step.judges_take concerned]
      exact ih i

/-- Later steps that concern neither a registry's dialect nor the registry as a copy are not seen by
its checks. -/
theorem check_unconcerned {i : ι} {later : List (Step ι)} (history : List (Step ι))
    (unconcerned : ∀ step ∈ later, ¬ step.Concerns i d) :
    (after preloaded (later ++ history) i).check d = (after preloaded history i).check d := by
  induction later with
  | nil => rfl
  | cons step later ih =>
    have same : (after preloaded (step :: later ++ history) i).judges d =
        (after preloaded (later ++ history) i).judges d :=
      Step.judges_take (unconcerned step List.mem_cons_self)
    rw [← ih fun step' mem => unconcerned step' (List.mem_cons_of_mem _ mem)]
    funext f
    rw [check, check, same]

/-- **Refinement.** After any history, a check accepts an error just if one of the classifiers in
force accepts the error or one of its transitive sources. It puts its questions error by error from
the outermost inwards, each to the classifiers in the order of their registration, and stops at the
first yes. Steps on other dialects and other registries are not seen, and a copy answers as its
original did when it was made, whatever becomes of the original. -/
theorem check_refines_lists (history : List (Step ι)) (i : ι) (d : Dialect) :
    (∀ f, ((after preloaded history i).check d f).retryable ↔
      ∃ e, f.Reaches e ∧ ∃ c ∈ inForce preloaded history i d, c.accepts e) ∧
    (∀ f, ((after preloaded history i).check d f).asked =
      Verdict.upToYes (questions (inForce preloaded history i d) f.chain)) ∧
    (∀ later : List (Step ι), (∀ step ∈ later, ¬ step.Concerns i d) →
      (after preloaded (later ++ history) i).check d = (after preloaded history i).check d) ∧
    (∀ (copy : ι) (later : List (Step ι)), (∀ step ∈ later, ¬ step.Concerns copy d) →
      (after preloaded (later ++ .clone i copy :: history) copy).check d =
        (after preloaded history i).check d) := by
  have lists := after_lists preloaded history i d
  refine ⟨?_, ?_, ?_, ?_⟩
  · intro f
    exact lists.retryable_iff f
  · intro f
    rw [lists.check f, Verdict.asked_ofQuestions]
  · intro later unconcerned
    exact check_unconcerned preloaded history unconcerned
  · intro copy later unconcerned
    have copied : after preloaded (.clone i copy :: history) copy = after preloaded history i :=
      Function.update_self _ _ _
    rw [check_unconcerned preloaded _ unconcerned, copied]

end Registry

end LeaseLock
