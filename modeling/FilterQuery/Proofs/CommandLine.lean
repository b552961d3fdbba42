import FilterQuery.CommandLine
import FilterQuery.Proofs.Identifiers
import FilterQuery.Proofs.ReadableFilter
import FilterQuery.Proofs.Submission

/-!
# Filter files and payloads

The command line reads a filter from a file, and a request carries one as its payload.  Each finds
out by itself whether data holds rows, a tree or a node, and each has its own way to deal with data
that is none of them: the command stops, and the request finds everything.  Apart from that the
same text has the same query document on both ways, whatever identifiers are drawn on them.

Main results:

- `Reading.steady_fileFilter`: two supplies make no difference to a filter in a file but in
  identifiers.
- `Intake.filter_eq_fileFilter`: data describes the same filter in a file and in a payload.
- `CommandLine.compile_none`: the command prints the document of the filter.
- `CommandLine.read_printed_pretty`: what is printed of a document that was read denotes it.
- `CommandLine.compile_prints_query`: a file is compiled exactly if its data describes a filter, and
  what is printed then denotes the document for the same payload.
-/

namespace FilterQuery

open Function Number

namespace Value

/-- Whether data is a list, or an object that is no query document. -/
def isFilterData : Value → Bool
  | list _ => true
  | object fields => (get? "query" fields).isNone
  | _ => false

/-- Whether data describes a filter: rows if it is a list, a tree if it has a root, and a node
otherwise. -/
inductive Describes (default : Relation) : Value → Prop
  | rows {items : List Value} {ids left : IdSupply} {found : List Row}
      (h : (Reading.rows (.ofValue (list items))).run ids = .ok (found, left)) :
      Describes default (list items)
  | tree {fields : List (String × Value)} {ids left : IdSupply} {found : Tree}
      (hroot : (get? "root" fields).isSome = true)
      (h : (Reading.tree default (.ofValue (object fields))).run ids = .ok (found, left)) :
      Describes default (object fields)
  | node {fields : List (String × Value)} {ids left : IdSupply} {found : Node}
      (hroot : (get? "root" fields).isSome = false)
      (h : (Reading.node default (.ofValue (object fields))).run ids = .ok (found, left)) :
      Describes default (object fields)

end Value

/-! ## The same data in a file and in a payload -/

namespace Reading

/-- Two supplies make no difference to a filter in a file but in identifiers. -/
theorem steady_fileFilter (default : Relation) (flat : Bool) (data : Input) :
    Steady (Eq on Filter.withoutIds) (CommandLine.fileFilter default flat data) := by
  unfold CommandLine.fileFilter
  split
  · exact .map (fun _ _ hsame => congrArg Filter.rows hsame) (steady_rows data)
  · split
    · exact .map (fun _ _ hsame => congrArg Filter.tree hsame) (steady_tree default data)
    · refine .map ?_ (steady_node default data)
      exact fun _ _ hsame => congrArg (fun root => Filter.tree (some root)) hsame

end Reading

/-- Data describes the same filter in a file and in a payload. -/
theorem Intake.filter_eq_fileFilter {value : Value} (h : value.isFilterData = true)
    (default : Relation) :
    filter default (.ofValue value) = CommandLine.fileFilter default false (.ofValue value) := by
  cases value with
  | list items =>
      exact congrArg (Filter.rows <$> ·) (Reading.mixedItems_ofItems items)
  | object fields =>
      rw [Input.ofValue, filter, CommandLine.fileFilter]
      rfl
  | _ => contradiction

/-- Data describes a filter if one is read from it in a file. -/
theorem Value.describes_iff_exists {value : Value} (h : value.isFilterData = true)
    (default : Relation) :
    value.Describes default ↔ ∃ ids found left,
      (CommandLine.fileFilter default false (.ofValue value)).run ids = .ok (found, left) := by
  cases value with
  | list items =>
      have hfile : CommandLine.fileFilter default false (.ofValue (list items)) =
          Filter.rows <$> Reading.rows (.ofValue (list items)) := rfl
      rw [hfile]
      constructor
      · rintro ⟨h⟩
        exact ⟨_, _, _, Reading.run_map_eq_ok_iff.mpr ⟨_, h, rfl⟩⟩
      · rintro ⟨ids, found, left, h⟩
        rcases Reading.run_map_eq_ok_iff.mp h with ⟨rs, hrows, _⟩
        exact .rows hrows
  | object fields =>
      have hfile : CommandLine.fileFilter default false (.ofValue (object fields)) =
          if (get? "root" fields).isSome then
            (fun tree => Filter.tree tree.root) <$> Reading.tree default (.ofValue (object fields))
          else
            (fun node => Filter.tree (some node)) <$>
              Reading.node default (.ofValue (object fields)) := by
        rw [← Option.isSome_map (f := Input.ofValue), ← Input.get?_ofFields]
        rfl
      rw [hfile]
      constructor
      · rintro (_ | ⟨hroot, h⟩ | ⟨hroot, h⟩)
        · rw [if_pos hroot]
          exact ⟨_, _, _, Reading.run_map_eq_ok_iff.mpr ⟨_, h, rfl⟩⟩
        · rw [if_neg (by simp [hroot])]
          exact ⟨_, _, _, Reading.run_map_eq_ok_iff.mpr ⟨_, h, rfl⟩⟩
      · rintro ⟨ids, found, left, h⟩
        cases hroot : (get? "root" fields).isSome with
        | true =>
            rw [if_pos hroot] at h
            rcases Reading.run_map_eq_ok_iff.mp h with ⟨tree, htree, _⟩
            exact .tree hroot htree
        | false =>
            rw [if_neg (by simp [hroot])] at h
            rcases Reading.run_map_eq_ok_iff.mp h with ⟨node, hnode, _⟩
            exact .node hroot hnode
  | _ => contradiction

/-- It does not matter from which supply. -/
theorem Value.describes_iff {value : Value} (h : value.isFilterData = true) (default : Relation)
    (ids : IdSupply) :
    value.Describes default ↔ ∃ found left,
      (CommandLine.fileFilter default false (.ofValue value)).run ids = .ok (found, left) := by
  rw [describes_iff_exists h]
  constructor
  · rintro ⟨others, found, left, hrun⟩
    have hsteady := Reading.steady_fileFilter default false (.ofValue value) others ids
    rw [hrun] at hsteady
    generalize (CommandLine.fileFilter default false (.ofValue value)).run ids = second
      at hsteady ⊢
    cases hsteady with
    | ok _ _ other => exact ⟨_, other, rfl⟩
  · rintro ⟨found, left, hrun⟩
    exact ⟨ids, found, left, hrun⟩

/-! ## What is printed -/

namespace CommandLine

/-- The exit code of the program. -/
def exitStatus : Except Failure Output → Nat
  | .ok _ => 0
  | .error failure => failure.exitCode

variable {settings : Settings} {path contents : String} {value : Value}

/-- Without a label the document of a filter is printed, with the warnings apart from it. -/
theorem compile_none (settings : Settings) (filter : Filter) :
    match filter.document settings.defaultRelation with
    | .ok document =>
        ∃ warnings, compile settings filter none = .ok ⟨Json.pretty document, warnings⟩
    | .error limit => compile settings filter none = .error (.digitLimit limit) := by
  unfold Filter.document Filter.clause? Compilation.value compile
  cases (filter.compile settings.defaultRelation).run with
  | error limit => rfl
  | ok result => exact ⟨_, rfl⟩

/-- What is printed of a value that a text can denote is read as that value again: nothing of it is
taken for a control sequence, and the end of its last line does not count. -/
theorem read_printed_pretty (h : value.IsReadable) :
    Json.read (printed (Json.pretty value)) = .ok value := by
  have hdenotes := Json.denotes_lines h 0
  have htext : (Json.pretty value ++ "\n").toList = (Json.pretty value).toList ++ ['\n'] :=
    String.toList_append
  have hprinted : printed (Json.pretty value) = Json.pretty value ++ "\n" := by
    refine Text.printed_of_lineChars fun c hc => ?_
    rw [htext, List.mem_append, List.mem_singleton] at hc
    rcases hc with hline | rfl
    · exact hdenotes.printable c hline
    · decide
  rw [hprinted, ← String.ofList_toList (s := Json.pretty value ++ "\n"), htext]
  exact Json.read_of_denotes hdenotes (by simp)

/-- A filter file is compiled if its data describes a filter. -/
theorem perform_compile (hpath : isCsv path = false) (hread : Json.read contents = .ok value)
    (ids : IdSupply) :
    perform settings ids (.file contents) (.compile path false none) =
      match (fileFilter settings.defaultRelation false (.ofValue value)).run ids with
      | .ok (filter, _) => compile settings filter none
      | .error _ => .error (.invalidFilterFile (tidyPath path)) := by
  have hdata : fileData path contents = .ok (.ofValue value) := by
    rw [fileData, hpath, hread]
    rfl
  simp only [perform, loadFilter, hdata, bind, Except.bind]
  cases (fileFilter settings.defaultRelation false (.ofValue value)).run ids <;> rfl

/-- A payload is answered if its data describes a filter, and finds everything otherwise. -/
theorem query_text (hvalue : value.isFilterData = true) (hread : Json.read contents = .ok value)
    (default : Relation) (ids : IdSupply) :
    Intake.query default ids (.text contents) =
      match (fileFilter default false (.ofValue value)).run ids with
      | .ok (filter, _) => filter.document default
      | .error _ => .ok matchAll := by
  have hdocument : Intake.isDocument (.ofValue value) = false := by
    cases value with
    | object fields =>
        rw [Input.ofValue, Intake.isDocument, Input.get?_ofFields, Option.isSome_map]
        simpa [Value.isFilterData] using hvalue
    | _ => rfl
  have hfilter := Intake.filter_eq_fileFilter hvalue default
  rcases Intake.load?_text hread with ⟨hgiven, hload⟩
  rw [Intake.query_eq hgiven, hload]
  refine (Intake.answer_of_not_isDocument hdocument).trans ?_
  cases hrun : (fileFilter default false (.ofValue value)).run ids <;>
    simp only [Intake.query.described, hfilter, hrun]

/-- A file and a payload with the same data, which is a list or an object that is no query document,
have the same query.  The file is compiled exactly if its data describes a filter; the text that is
printed then is that of the document that the payload is answered with, and denotes that document.
Otherwise the file is invalid, and the payload finds everything.  An integer with too many digits
stops both or none of them. -/
theorem compile_prints_query (settings : Settings) {path contents : String} {value : Value}
    (hpath : isCsv path = false) (hread : Json.read contents = .ok value)
    (hvalue : value.isFilterData = true) (ids others : IdSupply) :
    let outcome := perform settings ids (.file contents) (.compile path false none)
    let answer := Intake.query settings.defaultRelation others (.text contents)
    (∀ document, answer = .ok document →
      (exitStatus outcome = 0 ↔ value.Describes settings.defaultRelation) ∧
      ∀ output, outcome = .ok output →
        output.text = Json.pretty document ∧
          Json.read (printed output.text) = .ok document) ∧
    (¬value.Describes settings.defaultRelation →
      outcome = .error (.invalidFilterFile (tidyPath path)) ∧ exitStatus outcome = 1 ∧
        answer = .ok matchAll) ∧
    ∀ limit, outcome = .error (.digitLimit limit) ↔ answer = .error limit := by
  have hsteady := Reading.steady_fileFilter settings.defaultRelation false (.ofValue value)
    ids others
  have hreadable : ∀ filter left,
      (fileFilter settings.defaultRelation false (.ofValue value)).run ids = .ok (filter, left) →
        filter.IsReadable :=
    fun filter left => isReadable_of_fileFilter (Json.isReadable_of_read hread)
  rw [perform_compile hpath hread, query_text hvalue hread, Value.describes_iff hvalue _ ids]
  generalize (fileFilter settings.defaultRelation false (.ofValue value)).run ids = first,
    (fileFilter settings.defaultRelation false (.ofValue value)).run others = second
    at hsteady hreadable ⊢
  cases hsteady with
  | error issues more =>
      refine ⟨?_, fun _ => ⟨rfl, rfl, rfl⟩, ?_⟩
      · rintro document ⟨⟩
        simp [exitStatus, Failure.exitCode]
      · simp
  | @ok filter other hsame left rest =>
      -- The two filters differ at most in the identifiers that were drawn for them.
      have hdocument : other.document settings.defaultRelation =
          filter.document settings.defaultRelation := by
        rw [← other.document_withoutIds, ← hsame, filter.document_withoutIds]
      have hcompiled := compile_none settings filter
      dsimp only
      rw [hdocument]
      cases hfound : filter.document settings.defaultRelation with
      | ok document =>
          have hdenoted := read_printed_pretty
            (Filter.isReadable_document (hreadable filter left rfl) hfound)
          rw [hfound] at hcompiled
          rcases hcompiled with ⟨warnings, hcompiled⟩
          simp [hcompiled, exitStatus, hdenoted]
      | error limit =>
          rw [hfound] at hcompiled
          simp [hcompiled]

/-- A group whose conditions have no identifiers is printed as the document for the payload, though
the identifiers that are drawn for them differ; a list of something else is no filter. -/
theorem compile_prints_query_of_group :
    let settings : Settings := {}
    let group := Value.object [("children", .list
      [.object [("field", .text "user"), ("operator", .text "exists")],
        .object [("field", .text "host"), ("operator", .text "notExists")]])]
    let names := Value.list [.text "user"]
    let document := queryDocument (some (.junction .and
      [.primitive (.present "user"), .negation (.present "host")]))
    let outcome (data : Value) := perform settings ⟨"f", 0⟩ (.file (Json.write data))
      (.compile "filter.json" false none)
    let answer (data : Value) := Intake.query settings.defaultRelation ⟨"g", 7⟩
      (.text (Json.write data))
    exitStatus (outcome group) = 0 ∧
      (∀ output, outcome group = .ok output →
        output.text = Json.pretty document ∧ Json.read (printed output.text) = .ok document) ∧
      answer group = .ok document ∧
      outcome names = .error (.invalidFilterFile "filter.json") ∧
      exitStatus (outcome names) = 1 ∧ answer names = .ok matchAll := by
  intro settings group names document outcome answer
  have hpath : isCsv "filter.json" = false := by decide +kernel
  have hgroup : Json.read (Json.write group) = .ok group :=
    Json.read_write (Value.isReadable_of_isJson group (by decide) (by decide))
  have hnames : Json.read (Json.write names) = .ok names :=
    Json.read_write (Value.isReadable_of_isJson names (by decide) (by decide))
  have hnode : (Reading.node .and (.ofValue group)).run ⟨"f", 0⟩ = .ok (_, _) := rfl
  have hdescribes : group.Describes .and := .node rfl hnode
  have hother : ¬(Value.list [.text "user"]).Describes .and := by
    rintro ⟨h⟩
    contradiction
  have hanswer : answer group = .ok document := (query_text rfl hgroup .and ⟨"g", 7⟩).trans rfl
  rcases compile_prints_query settings hpath hgroup rfl ⟨"f", 0⟩ ⟨"g", 7⟩ with ⟨hprints, _, _⟩
  rcases compile_prints_query settings hpath hnames rfl ⟨"f", 0⟩ ⟨"g", 7⟩ with ⟨_, hstops, _⟩
  rcases hprints document hanswer with ⟨hstatus, hprinted⟩
  rcases hstops hother with ⟨hinvalid, hfailed, heverything⟩
  have htidy : tidyPath "filter.json" = "filter.json" := by decide +kernel
  rw [htidy] at hinvalid
  exact ⟨hstatus.mpr hdescribes, hprinted, hanswer, hinvalid, hfailed, heverything⟩

end CommandLine

end FilterQuery
