import FilterQuery.Intake
import FilterQuery.Proofs.Json.Limits
import FilterQuery.Proofs.Limits

/-!
# What payloads are answered with

Malformed text, bytes that spell no text and data that describes no filter are answered like a
payload that asks for nothing.  Two things are not: a text in which the reader comes to an integer
with too many digits, and a filter whose query stops at such an integer.

Main results:

- `exists_load?_iff`: a payload is loaded unless the reader stops at an integer in its text.
- `readsInLimit_of_digits`: it does not stop at a text without a long run of digits.
- `payloads_answered_iff_in_limit`: what is answered, with what, and when.
-/

namespace FilterQuery

open Number

/-- A field is found in plain data where it is found in data from outside. -/
theorem Input.get?_toFields (name : String) (fields : List (String × Input)) :
    Value.get? name (toFields fields) = (get? name fields).map toValue := by
  induction fields with
  | nil => rfl
  | cons field rest ih =>
      rcases field with ⟨key, input⟩
      by_cases h : key = name <;> simp [toFields, get?, Value.get?, h, ih]

namespace Intake

variable {default : Relation} {ids : IdSupply} {raw data : Input}

/-! ## Loading -/

/-- The text that a payload is read from, if it is text or spells one. -/
def jsonText? : Input → Option String
  | .text s => some s
  | .bytes octets => Text.decodeOctets? octets
  | _ => none

/-- Whether the reader gets through the text of a payload without stopping at an integer. -/
def ReadsInLimit (raw : Input) : Prop :=
  ∀ s, jsonText? raw = some s → ∀ limit, Json.read s ≠ .error (.digitLimit limit)

/-- A text is loaded unless the reader stops at an integer. -/
theorem exists_loadText_iff (s : String) :
    (∃ data, load?.loadText s = .ok data) ↔
      ∀ limit, Json.read s ≠ .error (.digitLimit limit) := by
  unfold load?.loadText
  cases h : Json.read s with
  | ok value => simp
  | error error =>
      cases error with
      | malformed => simp
      | digitLimit limit => simp

/-- A payload is loaded unless the reader stops at an integer in its text. -/
theorem exists_load?_iff (raw : Input) : (∃ data, load? raw = .ok data) ↔ ReadsInLimit raw := by
  unfold ReadsInLimit
  cases raw with
  | text s =>
      rw [load?, exists_loadText_iff]
      simp [jsonText?]
  | bytes octets =>
      rw [load?]
      cases h : Text.decodeOctets? octets with
      | none => simp [jsonText?, h]
      | some s =>
          rw [Option.elim_some, exists_loadText_iff]
          simp [jsonText?, h]
  | null | bool _ | int _ | float _ | list _ | object _ | node _ => simp [load?, jsonText?]

/-- The reader does not stop at a text without a long run of digits. -/
theorem readsInLimit_of_digits
    (h : ∀ s, jsonText? raw = some s → ¬Json.HasLongRun maxDigits s.toList) :
    ReadsInLimit raw := by
  intro s hs limit hread
  exact h s hs (Json.hasLongRun_of_read hread)

/-- A payload that was left out is no text at which the reader stops. -/
theorem readsInLimit_of_unset (h : raw.isUnset = true) : ReadsInLimit raw := by
  apply readsInLimit_of_digits
  intro s hs hrun
  have hempty : s.toList = [] := by
    cases raw with
    | text t =>
        obtain rfl : t = s := by simpa [jsonText?] using hs
        simpa [Input.isUnset] using h
    | _ => simp [jsonText?, Input.isUnset] at hs h
  rcases hrun with ⟨run, hin, hlong, _⟩
  rw [hempty, List.infix_nil] at hin
  rw [hin] at hlong
  exact absurd hlong (Nat.not_lt_zero _)

/-! ## Context queries -/

/-- A context is answered unless the reader stops at an integer in its text. -/
theorem exists_context?_iff (raw : Input) :
    (∃ context, context? raw = .ok context) ↔ ReadsInLimit raw := by
  unfold context?
  by_cases hunset : raw.isUnset = true
  · rw [if_pos hunset]
    exact iff_of_true ⟨none, rfl⟩ (readsInLimit_of_unset hunset)
  · rw [if_neg hunset, ← exists_load?_iff]
    exact Traversal.exists_map_iff

/-- A context is an object whose field `query` is an object. -/
theorem shape_of_context? {context : Value} (h : context? raw = .ok (some context)) :
    ∃ fields query, context = .object fields ∧
      Value.get? "query" fields = some (.object query) := by
  unfold context? at h
  by_cases hunset : raw.isUnset = true
  · simp [hunset] at h
  · rw [if_neg hunset] at h
    rcases Traversal.map_eq_ok_iff.mp h with ⟨data, _, hcontext⟩
    rcases Option.map_eq_some_iff.mp hcontext with ⟨fields, hfields, rfl⟩
    rcases Option.bind_eq_some_iff.mp hfields with ⟨input, _, hinput⟩
    unfold contextFields? at hinput
    split at hinput
    · split at hinput
      · next query hquery =>
          rcases Option.some.inj hinput with rfl
          refine ⟨_, Input.toFields query, rfl, ?_⟩
          rw [Input.get?_toFields, hquery]
          rfl
      · contradiction
    · contradiction

/-! ## Query documents -/

/-- Whether data is a document with a field `query`, which is handed on as it is. -/
def isDocument : Input → Bool
  | .object fields => (Input.get? "query" fields).isSome
  | _ => false

/-- Whether a payload is read as a filter, and as which one. -/
def Describes (default : Relation) (ids : IdSupply) (raw : Input) (found : Filter) : Prop :=
  raw.isUnset = false ∧ ∃ data left, load? raw = .ok (some data) ∧ isDocument data = false ∧
    (filter default data).run ids = .ok (found, left)

/-- The document for what was loaded. -/
def answer (default : Relation) (ids : IdSupply) : Option Input → Except DigitLimit Value
  | none => .ok matchAll
  | some data =>
      if isDocument data then .ok data.toValue else query.described default ids data

/-- A payload that is not left out is loaded and then answered. -/
theorem query_eq (h : raw.isUnset = false) :
    query default ids raw = load? raw >>= answer default ids := by
  have hgiven : ¬raw.isUnset = true := by simp [h]
  unfold query
  rw [if_neg hgiven]
  refine congrArg (load? raw >>= ·) (funext fun loaded => ?_)
  cases loaded with
  | none => rfl
  | some data =>
      cases data with
      | object fields =>
          by_cases hquery : (Input.get? "query" fields).isSome = true <;>
            simp [answer, isDocument, hquery, pure, Except.pure]
      | _ => rfl

/-- What is no document is answered by the filter that it describes. -/
theorem answer_of_not_isDocument (h : isDocument data = false) :
    answer default ids (some data) = query.described default ids data :=
  if_neg (by simp [h])

/-- A payload that is read as a filter is answered with the document of the filter. -/
theorem query_of_describes {found : Filter} (h : Describes default ids raw found) :
    query default ids raw = found.document default := by
  rcases h with ⟨hunset, data, left, hload, hdocument, hfilter⟩
  rw [query_eq hunset, hload]
  change answer default ids (some data) = _
  rw [answer_of_not_isDocument hdocument, query.described, hfilter]

/-- Data that describes a filter is answered unless the query of the filter stops. -/
theorem exists_described_iff :
    (∃ document, query.described default ids data = .ok document) ↔
      ∀ found left, (filter default data).run ids = .ok (found, left) →
        found.CompilesInLimit := by
  unfold query.described
  cases h : (filter default data).run ids with
  | error issues => simp
  | ok result =>
      rcases result with ⟨found, left⟩
      simp [Filter.exists_document_iff]

/-- What was loaded is answered unless it describes a filter whose query stops. -/
theorem exists_answer_iff {loaded : Option Input} (hunset : raw.isUnset = false)
    (hload : load? raw = .ok loaded) :
    (∃ document, answer default ids loaded = .ok document) ↔
      ∀ found, Describes default ids raw found → found.CompilesInLimit := by
  cases loaded with
  | none =>
      refine iff_of_true ⟨matchAll, rfl⟩ ?_
      rintro found ⟨_, data, left, hdata, _, _⟩
      have hnone := Except.ok.inj (hload.symm.trans hdata)
      contradiction
  | some data =>
      cases hdocument : isDocument data with
      | true =>
          refine iff_of_true ⟨data.toValue, if_pos hdocument⟩ ?_
          rintro found ⟨_, other, left, hother, hfilter, _⟩
          obtain rfl : data = other := Option.some.inj (Except.ok.inj (hload.symm.trans hother))
          rw [hdocument] at hfilter
          contradiction
      | false =>
          rw [answer_of_not_isDocument hdocument, exists_described_iff]
          constructor
          · rintro h found ⟨_, other, left, hother, _, hfound⟩
            obtain rfl : data = other := Option.some.inj (Except.ok.inj (hload.symm.trans hother))
            exact h found left hfound
          · intro h found left hfound
            exact h found ⟨hunset, data, left, hload, hdocument, hfound⟩

/-- A payload is answered unless the reader stops at an integer in its text, or it describes a
filter whose query stops. -/
theorem exists_query_iff (default : Relation) (ids : IdSupply) (raw : Input) :
    (∃ document, query default ids raw = .ok document) ↔
      ReadsInLimit raw ∧ ∀ found, Describes default ids raw found → found.CompilesInLimit := by
  cases hunset : raw.isUnset with
  | true =>
      refine iff_of_true ⟨matchAll, query_unset hunset⟩ ⟨readsInLimit_of_unset hunset, ?_⟩
      intro found hdescribes
      rw [hdescribes.1] at hunset
      contradiction
  | false =>
      rw [query_eq hunset, ← exists_load?_iff]
      cases hload : load? raw with
      | error limit =>
          refine iff_of_false ?_ ?_
          · rintro ⟨document, h⟩
            contradiction
          · rintro ⟨⟨loaded, h⟩, _⟩
            contradiction
      | ok loaded =>
          rw [← exists_answer_iff hunset hload]
          exact ⟨fun h => ⟨⟨loaded, rfl⟩, h⟩, fun h => h.2⟩

/-- Whether a document is an object with a field `query`. -/
def HasQuery (document : Value) : Prop :=
  ∃ fields, document = .object fields ∧ (Value.get? "query" fields).isSome = true

/-- The document of a clause, and the one that finds everything, have a field `query`. -/
theorem hasQuery_queryDocument (clause : Option Clause) : HasQuery (queryDocument clause) := by
  cases clause with
  | none => exact ⟨_, rfl, rfl⟩
  | some clause => exact ⟨_, rfl, rfl⟩

/-- Data that is handed on has a field `query`. -/
theorem hasQuery_of_isDocument (h : isDocument data = true) : HasQuery data.toValue := by
  cases data with
  | object fields =>
      refine ⟨Input.toFields fields, rfl, ?_⟩
      rw [Input.get?_toFields, Option.isSome_map]
      exact h
  | _ => contradiction

/-- What was loaded is answered by a document with a field `query`. -/
theorem hasQuery_of_answer {loaded : Option Input} {document : Value}
    (h : answer default ids loaded = .ok document) : HasQuery document := by
  cases loaded with
  | none =>
      rcases Except.ok.inj h with rfl
      exact hasQuery_queryDocument none
  | some data =>
      cases hdocument : isDocument data with
      | true =>
          rw [answer, if_pos hdocument] at h
          rcases Except.ok.inj h with rfl
          exact hasQuery_of_isDocument hdocument
      | false =>
          rw [answer_of_not_isDocument hdocument, query.described] at h
          split at h
          · rcases Traversal.map_eq_ok_iff.mp h with ⟨clause, _, rfl⟩
            exact hasQuery_queryDocument clause
          · rcases Except.ok.inj h with rfl
            exact hasQuery_queryDocument none

/-- A payload is answered by a document with a field `query`. -/
theorem hasQuery_of_query {document : Value} (h : query default ids raw = .ok document) :
    HasQuery document := by
  cases hunset : raw.isUnset with
  | true =>
      rw [query_unset hunset] at h
      rcases Except.ok.inj h with rfl
      exact hasQuery_queryDocument none
  | false =>
      rw [query_eq hunset] at h
      rcases Traversal.bind_eq_ok_iff.mp h with ⟨loaded, _, hanswer⟩
      exact hasQuery_of_answer hanswer

/-! ## Every payload -/

/-- A payload is answered, as a context and as a query, unless the reader stops at an integer in its
text or the query of the filter that it describes stops at one.  Short runs of digits never stop the
reader.  What is answered is no context or an object whose field `query` is an object, and always
an object with a field `query`. -/
theorem payloads_answered_iff_in_limit (default : Relation) (ids : IdSupply) (raw : Input) :
    ((∃ context, context? raw = .ok context) ↔ ReadsInLimit raw) ∧
    ((∃ document, query default ids raw = .ok document) ↔
      ReadsInLimit raw ∧ ∀ found, Describes default ids raw found → found.CompilesInLimit) ∧
    ((∀ s, jsonText? raw = some s → ¬Json.HasLongRun maxDigits s.toList) → ReadsInLimit raw) ∧
    (∀ context, context? raw = .ok (some context) → ∃ fields query, context = .object fields ∧
      Value.get? "query" fields = some (.object query)) ∧
    ∀ document, query default ids raw = .ok document → HasQuery document := by
  exact ⟨exists_context?_iff raw, exists_query_iff default ids raw, readsInLimit_of_digits,
    fun _ => shape_of_context?, fun _ => hasQuery_of_query⟩

/-- The reader stops at a digit that is repeated too often. -/
theorem not_readsInLimit_replicate {n : Nat} (h : maxDigits ≤ n) :
    ¬ReadsInLimit (.text (String.ofList (List.replicate (n + 1) '1'))) := by
  intro hreads
  exact hreads _ rfl _ (Json.readBounded_replicate h)

/-- The data of a condition that compares one field with a text describes that condition. -/
theorem describes_comparing (default : Relation) (ids : IdSupply) (s : String) :
    Describes default ids (.object [("id", .text "c"), ("field", .text "bytes"),
      ("operator", .text "is"), ("value", .text s)]) (.comparing (.text s)) := by
  refine ⟨rfl, _, ids, rfl, rfl, rfl⟩

/-- A text of one digit that is repeated too often is not answered at all, and neither is a
condition that was filled in with it as a query. -/
theorem long_integers_stop_payloads :
    let typed := Input.text (String.ofList (List.replicate 4301 '1'))
    let condition := Input.object [("id", .text "c"), ("field", .text "bytes"),
      ("operator", .text "is"), ("value", typed)]
    (∀ context, context? typed ≠ .ok context) ∧
      (∀ document, query .and ⟨"f", 0⟩ typed ≠ .ok document) ∧
      ∀ document, query .and ⟨"f", 0⟩ condition ≠ .ok document := by
  intro typed condition
  have htyped : ¬ReadsInLimit typed := not_readsInLimit_replicate (Nat.le_refl 4300)
  have hcondition : ¬(Filter.comparing
      (.text (String.ofList (List.replicate 4301 '1')))).CompilesInLimit :=
    Filter.not_compilesInLimit_comparing (Value.isBlank_replicate (by decide) 4300)
      (Coercion.isInLimit_replicate (by decide) (Nat.le_refl 4300))
  refine ⟨fun context h => htyped ((exists_context?_iff _).mp ⟨context, h⟩),
    fun document h => htyped ((exists_query_iff _ _ _).mp ⟨document, h⟩).1, fun document h => ?_⟩
  exact hcondition (((exists_query_iff _ _ _).mp ⟨document, h⟩).2 _ (describes_comparing _ _ _))

end Intake

end FilterQuery
