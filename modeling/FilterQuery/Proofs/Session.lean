import FilterQuery.Proofs.Tree.Perform
import FilterQuery.Session

/-!
# Sessions stay well-formed

A session is edited by one call after the other.  A call that fails leaves the session as it is.
As long as every identifier that is drawn is new, the tree of the session stays well-formed,
whatever the calls ask for.

Main results:

- `wellFormed_afterCall`: one call keeps the tree well-formed, and brings in no identifier but one
  that its data states or that was drawn for it.
- `wellFormed_afterCalls`: so does every sequence of calls.
-/

namespace FilterQuery

/-- An edit that is asked of a session, and the identifiers it may draw.  Each call has a supply of
its own: what a failed call has drawn is lost. -/
structure Call where
  edit : Edit
  ids : IdSupply

namespace Session

variable {Listener : Type}

/-! ## Calls -/

/-- The session after a call; where the edit fails it is the same as before. -/
def afterCall (session : Session Listener) (call : Call) : Session Listener :=
  match session.perform call.ids call.edit with
  | .ok ((session, _), _) => session
  | .error _ => session

/-- The session after several calls. -/
def afterCalls (session : Session Listener) (calls : List Call) : Session Listener :=
  calls.foldl afterCall session

/-- The identifiers that a call draws. -/
def drawnBy (session : Session Listener) (call : Call) : List String :=
  match session.perform call.ids call.edit with
  | .ok (_, left) => call.ids.drawn left
  | .error _ => []

/-- Whether every identifier that is drawn in the course of several calls is new: it differs from
all that are known at the beginning, that the data of a call has stated so far, or that were drawn
before. -/
def DrawsNewIds (known : List String) (session : Session Listener) : List Call → Prop
  | [] => True
  | call :: rest =>
      let before := known ++ call.edit.statedId?.toList
      AreNew before (session.drawnBy call) ∧
        DrawsNewIds (before ++ session.drawnBy call) (session.afterCall call) rest

/-- Whether every identifier that is drawn is new can be checked by performing the calls. -/
instance decidableDrawsNewIds (known : List String) (session : Session Listener) :
    (calls : List Call) → Decidable (session.DrawsNewIds known calls)
  | [] => .isTrue trivial
  | call :: rest =>
      have := decidableDrawsNewIds (known ++ call.edit.statedId?.toList ++ session.drawnBy call)
        (session.afterCall call) rest
      inferInstanceAs (Decidable (AreNew (known ++ call.edit.statedId?.toList)
        (session.drawnBy call) ∧ (session.afterCall call).DrawsNewIds
          (known ++ call.edit.statedId?.toList ++ session.drawnBy call) rest))

/-! ## Well-formedness -/

/-- One call keeps the tree of a session well-formed, and brings in no identifier but one that its
data states or that was drawn for it. -/
theorem wellFormed_afterCall {session : Session Listener} {tree : Tree} {call : Call}
    {known : List String} (htree : session.tree = some tree) (hwf : tree.WellFormed)
    (hknown : tree.nodeIds ⊆ known ++ call.edit.statedId?.toList)
    (hnew : AreNew (known ++ call.edit.statedId?.toList) (session.drawnBy call)) :
    ∃ new, (session.afterCall call).tree = some new ∧ new.WellFormed ∧
      new.nodeIds ⊆ known ++ call.edit.statedId?.toList ++ session.drawnBy call := by
  have hstated : ∀ id ∈ call.edit.statedId?, id ∈ known ++ call.edit.statedId?.toList :=
    fun id hid => List.mem_append_right _ (Option.mem_toList.mpr hid)
  have hperform : session.perform call.ids call.edit =
      (tree.perform call.ids call.edit).map fun outcome =>
        (session.publish outcome.1, outcome.2) := by
    rw [perform, htree, Edit.perform_some]
  unfold afterCall drawnBy at *
  cases hedit : tree.perform call.ids call.edit with
  | error e =>
      rw [hperform, hedit]
      exact ⟨tree, htree, hwf, fun id hid => List.mem_append_left _ (hknown hid)⟩
  | ok outcome =>
      rcases outcome with ⟨result, left⟩
      rw [hperform, hedit] at hnew ⊢
      rcases Tree.sound_perform hwf hknown hstated hedit with ⟨count, rfl, hsound⟩
      simp only [Except.map, IdSupply.drawn_advance] at hnew ⊢
      cases result with
      | none => exact ⟨tree, htree, hwf, fun id hid => List.mem_append_left _ (hknown hid)⟩
      | some new =>
          rcases hsound hnew new rfl with ⟨hnewwf, hids⟩
          exact ⟨new, rfl, hnewwf, hids⟩

/-- Calls whose drawn identifiers are new keep the tree of a session well-formed, if the identifiers
in the tree are known. -/
theorem wellFormed_afterCalls_of_known {session : Session Listener} {tree : Tree}
    {calls : List Call} {known : List String} (htree : session.tree = some tree)
    (hwf : tree.WellFormed) (hknown : tree.nodeIds ⊆ known)
    (hnew : session.DrawsNewIds known calls) :
    ∃ new, (session.afterCalls calls).tree = some new ∧ new.WellFormed := by
  -- What is known grows by what each call states and draws, and always covers the tree.
  induction calls generalizing session tree known with
  | nil => exact ⟨tree, htree, hwf⟩
  | cons call rest ih =>
      rcases hnew with ⟨hcall, hrest⟩
      have hbefore : tree.nodeIds ⊆ known ++ call.edit.statedId?.toList := fun id hid =>
        List.mem_append_left _ (hknown hid)
      rcases wellFormed_afterCall htree hwf hbefore hcall with ⟨new, hnewtree, hnewwf, hids⟩
      exact ih hnewtree hnewwf hids hrest

/-- Whatever calls are made on a session with a well-formed tree, the tree is well-formed again, as
long as no identifier is drawn that occurs already. -/
theorem wellFormed_afterCalls {session : Session Listener} {tree : Tree} {calls : List Call}
    (htree : session.tree = some tree) (hwf : tree.WellFormed)
    (hnew : session.DrawsNewIds tree.nodeIds calls) :
    ∃ new, (session.afterCalls calls).tree = some new ∧ new.WellFormed :=
  wellFormed_afterCalls_of_known htree hwf (fun _ hid => hid) hnew

/-- The tree stays well-formed where a condition comes in under an identifier that is taken, a node
is moved to one that is not there, and a relation does not exist. -/
theorem wellFormed_after_taken_id_and_failures :
    ∃ new, (afterCalls ({ tree := some { id := "t" } } : Session String)
      [⟨.start (.object [("id", .text "a"), ("field", .text "x")]), ⟨"n", 1⟩⟩,
        ⟨.add (some "a") (.text "or") (.object [("id", .text "a")]), ⟨"n", 2⟩⟩,
        ⟨.move "a" "b" .null, ⟨"n", 4⟩⟩,
        ⟨.add (some "a") (.text "xor") (.object []), ⟨"n", 4⟩⟩,
        ⟨.remove "a", ⟨"n", 5⟩⟩]).tree = some new ∧ new.WellFormed :=
  wellFormed_afterCalls rfl (Tree.wellFormed_none "t") (by decide +kernel)

end Session

end FilterQuery
