import FilterQuery.Proofs.DistinctTexts
import FilterQuery.Proofs.Intake

/-!
# What a call for suggestions comes to

A lookup may fail, and it may read and change a state of its own.  Where nothing is wanted, it is
not asked at all.  Otherwise it is asked once, and either its values are given as distinct texts or
its failure is reported.  A context that cannot be used is left out with a warning in both cases.

A failure of the lookup never gets out of the call, but two others do: the reader may stop at an
integer in the text of the context, and a value that was found may hold an integer that is too long
to be shown.

Main results:

- `run_suggest_eq_ok_iff`: what a call comes to, and which state it leaves behind.
- `exists_suggests_iff`: when it comes to anything.
- `suggests_iff_in_limit`: both for every call and every lookup.
-/

namespace FilterQuery.Suggestion

open Number

variable {σ Failure : Type} (settings : Settings)
  (lookup : Request → StateM σ (Except Failure (List Value))) (field : String)
  (operator : Option Operator) (term : Option String) (size : Option Int) (context : Input)

/-! ## What is asked and what is answered -/

/-- What a lookup is asked for, with the context that can be used. -/
def request (usable : Option Value) : Request :=
  { field, term, size := clampSize settings size, context := usable }

/-- The warning about a context that was given and cannot be used. -/
def contextWarnings (usable : Option Value) : List Notice :=
  if !context.isUnset && usable.isNone then [.contextIgnored field] else []

/-- What the answer of a lookup comes to. -/
def answer (warnings : List Notice) :
    Except Failure (List Value) → Except DigitLimit (Outcome (List String))
  | .error _ => .ok (.failure [.lookupFailed field] warnings)
  | .ok values => (distinctTexts values).map fun texts => .success texts warnings

/-- What a call comes to, with the state before it and the one that it leaves behind. -/
inductive Suggests : σ → Outcome (List String) → σ → Prop
  /-- Without need nothing is looked up. -/
  | idle {state : σ} (h : wantsValues field operator = false) :
      Suggests state (.success [] []) state
  /-- A failure of the lookup is reported. -/
  | failed {state left : σ} {usable : Option Value} {failure : Failure}
      (h : wantsValues field operator = true) (hcontext : Intake.context? context = .ok usable)
      (hlookup : (lookup (request settings field term size usable)).run state =
        (.error failure, left)) :
      Suggests state (.failure [.lookupFailed field] (contextWarnings field context usable)) left
  /-- The values that are found are given as distinct texts. -/
  | found {state left : σ} {usable : Option Value} {values : List Value} {texts : List String}
      (h : wantsValues field operator = true) (hcontext : Intake.context? context = .ok usable)
      (hlookup : (lookup (request settings field term size usable)).run state =
        (.ok values, left))
      (htexts : distinctTexts values = .ok texts) :
      Suggests state (.success texts (contextWarnings field context usable)) left

/-- Whether a call stays clear of integers that are too long: in the text of the context, where the
reader comes to them, and in the values that are found. -/
def StaysInLimit (state : σ) : Prop :=
  wantsValues field operator = true →
    Intake.ReadsInLimit context ∧
      ∀ usable values left, Intake.context? context = .ok usable →
        (lookup (request settings field term size usable)).run state = (.ok values, left) →
          ∀ value ∈ values, value.isWritable = true

variable {settings lookup field operator term size context}

/-- The answer of a lookup comes to a failure that is reported, or to distinct texts. -/
theorem answer_eq_ok_iff {warnings : List Notice} {outcome : Outcome (List String)}
    {result : Except Failure (List Value)} :
    answer field warnings result = .ok outcome ↔
      (∃ failure, result = .error failure ∧ outcome = .failure [.lookupFailed field] warnings) ∨
        ∃ values texts, result = .ok values ∧ distinctTexts values = .ok texts ∧
          outcome = .success texts warnings := by
  cases result with
  | error failure => simp [answer, eq_comm]
  | ok values =>
      constructor
      · intro h
        rcases Traversal.map_eq_ok_iff.mp h with ⟨texts, htexts, rfl⟩
        exact .inr ⟨values, texts, rfl, htexts, rfl⟩
      · rintro (⟨failure, hfailure, _⟩ | ⟨_, texts, hvalues, htexts, rfl⟩)
        · contradiction
        · rcases Except.ok.inj hvalues with rfl
          exact Traversal.map_eq_ok_iff.mpr ⟨texts, htexts, rfl⟩

/-! ## Calls -/

/-- Where values are wanted, the lookup is asked once, as soon as the context was read. -/
theorem suggest_of_wants {m : Type → Type} [Monad m] [LawfulMonad m]
    {source : Request → m (Except Failure (List Value))}
    (h : wantsValues field operator = true) :
    suggest settings source field operator term size context =
      match Intake.context? context with
      | .error limit => pure (.error limit)
      | .ok usable =>
          answer field (contextWarnings field context usable) <$>
            source (request settings field term size usable) := by
  simp only [suggest, h, Bool.not_true, Bool.false_eq_true, if_false]
  cases Intake.context? context with
  | error limit => rfl
  | ok usable =>
      dsimp only
      rw [← bind_pure_comp]
      refine congrArg (source (request settings field term size usable) >>= ·) ?_
      funext result
      cases result <;> rfl

variable {state left : σ} {outcome : Outcome (List String)}

/-- Where values are wanted and the context was read, the lookup decides about the outcome and
about the state. -/
theorem run_suggest_of_context? {usable : Option Value} (h : wantsValues field operator = true)
    (hcontext : Intake.context? context = .ok usable) :
    (suggest settings lookup field operator term size context).run state =
      ((lookup (request settings field term size usable)).run state).map
        (answer field (contextWarnings field context usable)) id := by
  rw [suggest_of_wants h, hcontext]
  rfl

/-- What a call comes to is what its context and its lookup come to. -/
theorem run_suggest_eq_ok_iff :
    (suggest settings lookup field operator term size context).run state = (.ok outcome, left) ↔
      Suggests settings lookup field operator term size context state outcome left := by
  constructor
  · intro h
    cases hwants : wantsValues field operator with
    | false =>
        rw [suggest_of_not_wants settings lookup term size context hwants] at h
        rcases Prod.mk.inj h with ⟨houtcome, rfl⟩
        rcases Except.ok.inj houtcome with rfl
        exact .idle hwants
    | true =>
        cases hcontext : Intake.context? context with
        | error limit =>
            rw [suggest_of_wants hwants, hcontext] at h
            have hlimit := (Prod.mk.inj h).1
            contradiction
        | ok usable =>
            rw [run_suggest_of_context? hwants hcontext] at h
            rcases Prod.mk.inj h with ⟨hanswer, rfl⟩
            rcases answer_eq_ok_iff.mp hanswer with ⟨failure, hfailure, rfl⟩ |
              ⟨values, texts, hvalues, htexts, rfl⟩
            · exact .failed hwants hcontext (Prod.ext hfailure rfl)
            · exact .found hwants hcontext (Prod.ext hvalues rfl) htexts
  · intro h
    cases h with
    | idle hwants =>
        rw [suggest_of_not_wants settings lookup term size context hwants]
        rfl
    | failed hwants hcontext hlookup =>
        rw [run_suggest_of_context? hwants hcontext, hlookup]
        rfl
    | found hwants hcontext hlookup htexts =>
        rw [run_suggest_of_context? hwants hcontext, hlookup]
        exact Prod.ext (Traversal.map_eq_ok_iff.mpr ⟨_, htexts, rfl⟩) rfl

/-- A call comes to an outcome exactly when it stays clear of integers that are too long. -/
theorem exists_suggests_iff :
    (∃ outcome left,
        Suggests settings lookup field operator term size context state outcome left) ↔
      StaysInLimit settings lookup field operator term size context state := by
  constructor
  · rintro ⟨outcome, left, h⟩ hwants
    cases h with
    | idle h =>
        rw [hwants] at h
        contradiction
    | failed _ hcontext hlookup =>
        refine ⟨(Intake.exists_context?_iff context).mp ⟨_, hcontext⟩, ?_⟩
        intro usable values left hother hvalues
        rcases Except.ok.inj (hcontext.symm.trans hother) with rfl
        have hboth := (Prod.mk.inj (hlookup.symm.trans hvalues)).1
        contradiction
    | found _ hcontext hlookup htexts =>
        refine ⟨(Intake.exists_context?_iff context).mp ⟨_, hcontext⟩, ?_⟩
        intro usable values left hother hvalues
        rcases Except.ok.inj (hcontext.symm.trans hother) with rfl
        rcases Except.ok.inj (Prod.mk.inj (hlookup.symm.trans hvalues)).1 with rfl
        exact (exists_distinctTexts_iff _).mp ⟨_, htexts⟩
  · intro hlimit
    cases hwants : wantsValues field operator with
    | false => exact ⟨_, state, .idle hwants⟩
    | true =>
        obtain ⟨hreads, hwritable⟩ := hlimit hwants
        obtain ⟨usable, hcontext⟩ := (Intake.exists_context?_iff context).mpr hreads
        cases hlookup : (lookup (request settings field term size usable)).run state with
        | mk result left =>
            cases result with
            | error failure => exact ⟨_, left, .failed hwants hcontext hlookup⟩
            | ok values =>
                obtain ⟨texts, htexts⟩ := (exists_distinctTexts_iff values).mpr
                  (hwritable usable values left hcontext hlookup)
                exact ⟨_, left, .found hwants hcontext hlookup htexts⟩

/-- Suggestions never fail but at an integer that is too long.  A call comes to an outcome unless
the reader stops at such an integer in the text of the context, or the lookup finds a value that
holds one.  The outcome is that nothing is suggested where nothing is wanted.  Otherwise it is the
one failure of the lookup, whatever the lookup fails with, or the distinct texts of what it finds,
and a context that was given and cannot be used is no more than a warning. -/
theorem suggests_iff_in_limit (settings : Settings)
    (lookup : Request → StateM σ (Except Failure (List Value))) (field : String)
    (operator : Option Operator) (term : Option String) (size : Option Int) (context : Input)
    (state : σ) :
    ((∃ outcome left,
        (suggest settings lookup field operator term size context).run state =
          (.ok outcome, left)) ↔
      StaysInLimit settings lookup field operator term size context state) ∧
    ∀ outcome left,
      (suggest settings lookup field operator term size context).run state = (.ok outcome, left) ↔
        Suggests settings lookup field operator term size context state outcome left := by
  refine ⟨?_, fun outcome left => run_suggest_eq_ok_iff⟩
  rw [← exists_suggests_iff]
  exact exists_congr fun outcome => exists_congr fun left => run_suggest_eq_ok_iff

/-- A call stops where the reader stops at the text of its context. -/
theorem stops_at_context (hwants : wantsValues field operator = true)
    (hcontext : ¬Intake.ReadsInLimit context) :
    (suggest settings lookup field operator term size context).run state ≠ (.ok outcome, left) := by
  intro h
  have hlimit := exists_suggests_iff.mp ⟨outcome, left, run_suggest_eq_ok_iff.mp h⟩
  exact hcontext (hlimit hwants).1

/-- A call stops at a value that was found and cannot be written. -/
theorem stops_at_value {usable : Option Value} {values : List Value} {value : Value} {rest : σ}
    (hwants : wantsValues field operator = true)
    (hcontext : Intake.context? context = .ok usable)
    (hlookup : (lookup (request settings field term size usable)).run state = (.ok values, rest))
    (hvalue : value ∈ values) (hlong : value.isWritable = false) :
    (suggest settings lookup field operator term size context).run state ≠ (.ok outcome, left) := by
  intro h
  have hlimit := exists_suggests_iff.mp ⟨outcome, left, run_suggest_eq_ok_iff.mp h⟩
  have hwritable := (hlimit hwants).2 usable values rest hcontext hlookup value hvalue
  rw [hlong] at hwritable
  contradiction

/-- A context in which a digit is repeated too often stops a call whose lookup finds a text, and an
integer of as many digits stops a call that was given no context. -/
theorem long_integers_stop_suggestions :
    let finding (value : Value) (_ : Request) : StateM Unit (Except String (List Value)) :=
      pure (.ok [value])
    let context := Input.text (String.ofList (List.replicate 4301 '1'))
    (∀ outcome left, (suggest {} (finding (.text "a")) "host.keyword" none none none context).run
      () ≠ (.ok outcome, left)) ∧
    ∀ outcome left, (suggest {} (finding (.int (10 ^ 4300))) "host.keyword" none none none
      .null).run () ≠ (.ok outcome, left) := by
  intro finding context
  have hwants : wantsValues "host.keyword" none = true := by decide
  constructor
  · intro outcome left
    exact stops_at_context hwants (Intake.not_readsInLimit_replicate (Nat.le_refl 4300))
  · intro outcome left
    exact stops_at_value hwants (Intake.context?_unset rfl) rfl (List.mem_singleton_self _)
      (Value.not_isWritable_pow (Nat.le_refl 4300))

end FilterQuery.Suggestion
