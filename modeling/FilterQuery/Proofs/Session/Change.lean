import FilterQuery.Proofs.Session
import FilterQuery.Proofs.Tree.Idle

/-!
# Changes of sessions

The tree of a session is edited by a call, or another tree takes its place.  Either there is a
replacement, and every listener is told, or nothing happens.  A replacement need not differ from
what it replaces: then listeners are told although the tree stays equal.

Main results:

- `change_eq`: a change replaces the tree and tells every listener of what takes its place, or does
  nothing.
- `tells_of_changes_unless_idle`: every listener is told of each tree that differs, and of no other
  tree but those that come of idle changes.
- `tells_of_equal_trees`: three idle changes that tell a listener of an equal tree.
-/

namespace FilterQuery.Session

variable {Listener : Type}

/-! ## Replacements -/

/-- What may happen to the tree of a session. -/
inductive Change where
  /-- A call edits it. -/
  | call (call : Call)
  /-- A tree of its own takes its place, or it is taken away. -/
  | set (tree : Option Tree)
  /-- It takes its own place. -/
  | keep

/-- The session after a change, and what is told to whom.  A call that fails tells nobody. -/
def change (session : Session Listener) : Change → Session Listener × List (Message Listener)
  | .call call =>
      match session.perform call.ids call.edit with
      | .ok (outcome, _) => outcome
      | .error _ => (session, [])
  | .set (some tree) => session.publish (some tree)
  | .set none => session.takeAway
  | .keep => session.publish none

/-- What takes the place of the tree of a session in the course of a change, if anything does. -/
def replacement? (session : Session Listener) : Change → Option (Option Tree)
  | .call call =>
      match call.edit.perform call.ids session.tree with
      | .ok (new, _) => new.map some
      | .error _ => none
  | .set (some tree) => some (some tree)
  | .set none => if session.tree.isSome then some none else none
  | .keep => none

/-- A change replaces the tree and tells every listener of what takes its place, or does
nothing. -/
theorem change_eq (session : Session Listener) (change : Change) :
    session.change change =
      match session.replacement? change with
      | some tree => ({ session with tree }, Message.toAll session.listeners tree)
      | none => (session, []) := by
  cases change with
  | call call =>
      simp only [Session.change, replacement?, perform]
      cases call.edit.perform call.ids session.tree with
      | error e => rfl
      | ok outcome =>
          rcases outcome with ⟨new, left⟩
          cases new <;> rfl
  | set tree =>
      cases tree with
      | some tree => rfl
      | none => cases h : session.tree <;> simp [Session.change, replacement?, takeAway, h]
  | keep => rfl

/-- The listeners of a session are those that subscribed, whatever happens to the tree. -/
theorem listeners_change (session : Session Listener) (change : Change) :
    (session.change change).1.listeners = session.listeners := by
  rw [change_eq]
  cases session.replacement? change <;> rfl

/-! ## Idle changes -/

/-- The identifiers of the tree of a session and of all that is in it. -/
def identifiers (session : Session Listener) : List String :=
  session.tree.elim [] fun tree => tree.id :: tree.nodeIds

/-- Whether no identifier is drawn for a change that occurs in the session already. -/
def DrawsNew (session : Session Listener) : Change → Prop
  | .call call => ∀ id ∈ session.drawnBy call, id ∉ session.identifiers
  | _ => True

/-- Whether a change replaces the tree of a session by an equal one: an idle edit, or a tree of its
own that is equal to it. -/
def IsIdle (session : Session Listener) : Change → Prop
  | .call call => ∃ tree, session.tree = some tree ∧ call.edit.IsIdle tree call.ids
  | .set tree => tree.isSome ∧ tree = session.tree
  | .keep => False

/-- Where there was no tree, there is one after an edit that goes through. -/
theorem replacement?_call_ne_none {session : Session Listener} (call : Call) :
    session.replacement? (.call call) ≠ some none := by
  simp only [replacement?]
  split
  · next new _ _ => cases new <;> simp
  · simp

/-- A change replaces the tree by an equal one only if it is idle, as long as every identifier that
is drawn is new. -/
theorem isIdle_of_replacement {session : Session Listener} {change : Change}
    (hnew : session.DrawsNew change) (h : session.replacement? change = some session.tree) :
    session.IsIdle change := by
  cases change with
  | call call =>
      cases htree : session.tree with
      | none => exact absurd (htree ▸ h) (replacement?_call_ne_none call)
      | some tree =>
          refine ⟨tree, htree, ?_⟩
          cases hedit : tree.perform call.ids call.edit with
          | error e => simp [replacement?, htree, hedit] at h
          | ok outcome =>
              rcases outcome with ⟨new, left⟩
              have hsame : new = some tree := by
                cases new <;> simp_all [replacement?]
              subst hsame
              have hdrawn : ∀ id ∈ call.ids.drawn left, id ∉ tree.id :: tree.nodeIds := by
                simpa [DrawsNew, drawnBy, identifiers, perform, htree, hedit, Except.map] using hnew
              exact Tree.isIdle_of_perform hdrawn hedit
  | set tree =>
      cases tree with
      | some tree => exact ⟨rfl, Option.some.inj h⟩
      | none => cases htree : session.tree <;> simp [replacement?, htree] at h
  | keep => contradiction

/-- An idle change replaces the tree by an equal one, if it is well-formed. -/
theorem replacement_of_isIdle {session : Session Listener} {change : Change}
    (hwf : ∀ tree ∈ session.tree, tree.WellFormed) (h : session.IsIdle change) :
    session.replacement? change = some session.tree := by
  cases change with
  | call call =>
      rcases h with ⟨tree, htree, hidle⟩
      have hedit := Tree.perform_of_isIdle (hwf tree htree) hidle
      simp [replacement?, htree, hedit]
  | set tree =>
      rcases h with ⟨hsome, rfl⟩
      rcases Option.isSome_iff_exists.mp hsome with ⟨tree, htree⟩
      rw [htree, replacement?]
  | keep => exact h.elim

/-- Every listener is told of each tree that differs from the one before, and nobody is told of a
call that fails.  A tree that is equal to the one before is told as well, but only after an idle
change. -/
theorem tells_of_changes_unless_idle (session : Session Listener) (change : Change) :
    (∀ call e, change = .call call → session.perform call.ids call.edit = .error e →
      session.change change = (session, [])) ∧
    ((session.change change).1.tree ≠ session.tree →
      (session.change change).2 =
        Message.toAll session.listeners (session.change change).1.tree) ∧
    (session.DrawsNew change → ¬ session.IsIdle change → (session.change change).2 ≠ [] →
      (session.change change).1.tree ≠ session.tree) ∧
    ((∀ tree ∈ session.tree, tree.WellFormed) → session.IsIdle change →
      session.change change = (session, Message.toAll session.listeners session.tree)) := by
  refine ⟨?_, ?_, ?_, ?_⟩
  · rintro call e rfl hfails
    simp only [Session.change, hfails]
  · intro hdiffers
    rw [change_eq] at hdiffers ⊢
    cases hnew : session.replacement? change with
    | some tree => rfl
    | none => simp [hnew] at hdiffers
  · intro hdraws hidle htold hsame
    rw [change_eq] at htold hsame
    cases hnew : session.replacement? change with
    | some tree =>
        rw [hnew] at hsame
        exact hidle (isIdle_of_replacement hdraws (hnew.trans (congrArg some hsame)))
    | none => simp [hnew] at htold
  · intro hwf hidle
    rw [change_eq, replacement_of_isIdle hwf hidle]

/-- A listener is told of an equal tree where an update has no content, where the last node of a
group is moved to that group, and where a tree of its own is equal to the current one. -/
theorem tells_of_equal_trees :
    let tree : Tree :=
      { id := "t"
        root := some (.group "g" .and
          [.leaf (.plain { id := "a" }), .leaf (.plain { id := "b" }),
            .leaf (.plain { id := "c" })]) }
    let session : Session String := { tree := some tree, listeners := ["s"] }
    session.change (.call ⟨.modify "g" .null .null, ⟨"n", 0⟩⟩) = (session, [⟨"s", some tree⟩]) ∧
      session.change (.call ⟨.move "c" "g" (.text "AND"), ⟨"n", 0⟩⟩) =
        (session, [⟨"s", some tree⟩]) ∧
      session.change (.set (some tree)) = (session, [⟨"s", some tree⟩]) :=
  ⟨rfl, rfl, rfl⟩

end FilterQuery.Session
