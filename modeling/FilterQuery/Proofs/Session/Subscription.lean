import FilterQuery.Proofs.Run
import FilterQuery.Proofs.Session.Change

/-!
# Subscriptions

Every subscription of a session can be ended, and ended again.  The session knows its listeners
only: it ends the earliest subscription of the listener.  So the subscriptions of one listener get
in each other's way, and the listeners that are told are not always those of the subscriptions that
are left.

Main results:

- `erase_append_cons_iff`: when the earliest occurrence of a listener stands for a later one.
- `tellsLive_perform_iff`: the actions after which the listeners of the live subscriptions are told.
- `tellsLive_throughout_iff`: they are told throughout exactly when every action is safe; this is so
  if nobody subscribes twice.
- `unsubscribing_affects_others`: one listener with two subscriptions.
-/

namespace FilterQuery

/-- A subscription: whose it is, and whether it was not ended yet. -/
structure Subscription (Listener : Type) where
  listener : Listener
  isLive : Bool := true
deriving DecidableEq

/-- A session and the subscriptions that were made on it, in this order. -/
structure Subscribed (Listener : Type) where
  session : Session Listener
  subscriptions : List (Subscription Listener) := []

namespace Subscribed

variable {Listener : Type}

/-! ## Actions -/

/-- What may happen to a session and its subscriptions. -/
inductive Action (Listener : Type) where
  /-- A listener subscribes, and is told the current tree if it asks for that. -/
  | subscribe (listener : Listener) (replay : Bool)
  /-- The subscription of a number is ended; it may have been ended before. -/
  | unsubscribe (number : Nat)
  /-- Something happens to the tree. -/
  | change (change : Session.Change)

/-- The listener that subscribes, if the action is that of subscribing. -/
def Action.subscriber? : Action Listener → Option Listener
  | subscribe listener _ => some listener
  | _ => none

/-- The listeners of the subscriptions that were not ended. -/
def live (subscriptions : List (Subscription Listener)) : List Listener :=
  (subscriptions.filter (·.isLive)).map (·.listener)

/-- Whether a change that replaces the tree tells the listeners of the live subscriptions of what
takes its place, once for every subscription and in their order. -/
def TellsLive (state : Subscribed Listener) : Prop :=
  ∀ change tree, state.session.replacement? change = some tree →
    (state.session.change change).2 = Message.toAll (live state.subscriptions) tree

/-- Whether an action leaves it at that the listeners of the live subscriptions are told.  What can
go wrong is that a subscription is ended: if it was ended before, its listener must have no live
subscription.  Otherwise, if its listener has an earlier live subscription, every live subscription
between the two has to be of that listener as well. -/
def IsSafe (state : Subscribed Listener) : Action Listener → Prop
  | .unsubscribe number =>
      ∀ subscription ∈ state.subscriptions[number]?,
        if subscription.isLive then
          (live (state.subscriptions.take number)).Pairwise fun earlier later =>
            earlier = subscription.listener → later = subscription.listener
        else subscription.listener ∉ live state.subscriptions
  | _ => True

@[simp]
theorem live_append (first second : List (Subscription Listener)) :
    live (first ++ second) = live first ++ live second := by
  rw [live, List.filter_append, List.map_append, live, live]

@[simp]
theorem live_cons (subscription : Subscription Listener) (rest : List (Subscription Listener)) :
    live (subscription :: rest) =
      if subscription.isLive then subscription.listener :: live rest else live rest := by
  rw [live, List.filter_cons]
  split <;> rfl

/-- Live subscriptions are subscriptions. -/
theorem sublist_live (subscriptions : List (Subscription Listener)) :
    (live subscriptions).Sublist (subscriptions.map (·.listener)) :=
  List.filter_sublist.map _

/-- The messages that tell all of a tree say who is told. -/
theorem map_listener_toAll (listeners : List Listener) (tree : Option Tree) :
    (Message.toAll listeners tree).map (·.listener) = listeners := by
  rw [Message.toAll, List.map_map]
  exact List.map_id listeners

/-- Changes of the tree tell the listeners of the live subscriptions exactly if the session has
these listeners. -/
theorem tellsLive_iff {state : Subscribed Listener} :
    state.TellsLive ↔ state.session.listeners = live state.subscriptions := by
  constructor
  · intro h
    have htold := congrArg (List.map (·.listener)) (h (.set (some { id := "" })) _ rfl)
    rw [map_listener_toAll] at htold
    exact (map_listener_toAll state.session.listeners _).symm.trans htold
  · intro h change tree hnew
    rw [Session.change_eq, hnew, h]

/-- The subscription of a number stands between the earlier ones and the later ones. -/
theorem subscriptions_split {subscriptions : List (Subscription Listener)} {number : Nat}
    {subscription : Subscription Listener} (h : subscriptions[number]? = some subscription) :
    subscriptions = subscriptions.take number ++ subscription :: subscriptions.drop (number + 1) ∧
      ∀ other, subscriptions.set number other =
        subscriptions.take number ++ other :: subscriptions.drop (number + 1) := by
  rcases List.getElem?_eq_some_iff.mp h with ⟨hlt, rfl⟩
  constructor
  · rw [← List.drop_eq_getElem_cons hlt, List.take_append_drop]
  · intro other
    rw [List.set_eq_take_append_cons_drop, if_pos hlt]

/-- Where nobody subscribed twice, every action is safe. -/
theorem isSafe_of_nodup {state : Subscribed Listener}
    (hnodup : (state.subscriptions.map (·.listener)).Nodup) (action : Action Listener) :
    state.IsSafe action := by
  cases action with
  | unsubscribe number =>
      intro subscription hfound
      have hsplit := (subscriptions_split hfound).1
      rw [hsplit, List.map_append, List.map_cons, List.nodup_middle, List.nodup_cons,
        List.mem_append, not_or] at hnodup
      rcases hnodup.1 with ⟨hbefore, hafter⟩
      have hearlier := fun hmem => hbefore ((sublist_live _).subset hmem)
      have hlater := fun hmem => hafter ((sublist_live _).subset hmem)
      split
      · refine List.pairwise_of_forall_mem_list fun earlier hmem _ _ heq => ?_
        exact absurd (heq ▸ hmem) hearlier
      · next hended =>
          rw [hsplit, live_append, live_cons, if_neg hended, List.mem_append]
          exact not_or.mpr ⟨hearlier, hlater⟩
  | subscribe listener replay => trivial
  | change change => trivial

/-- An element moves to the front past equal elements only. -/
theorem append_cons_eq_iff {listener : Listener} {before after : List Listener} :
    before ++ listener :: after = listener :: (before ++ after) ↔
      ∀ other ∈ before, other = listener := by
  induction before with
  | nil => simp
  | cons first rest ih =>
      rw [List.forall_mem_cons, ← ih, List.cons_append, List.cons_append]
      constructor
      · intro h
        rcases List.cons.inj h with ⟨rfl, hrest⟩
        exact ⟨rfl, hrest⟩
      · rintro ⟨rfl, hrest⟩
        rw [hrest]

variable [DecidableEq Listener]

/-- The earliest occurrence of a listener can be taken out in the place of a later one exactly if
the two have nothing but that listener between them. -/
theorem erase_append_cons_iff {listener : Listener} {before after : List Listener} :
    (before ++ listener :: after).erase listener = before ++ after ↔
      before.Pairwise fun earlier later => earlier = listener → later = listener := by
  induction before with
  | nil => simp
  | cons first rest ih =>
      rw [List.pairwise_cons, List.cons_append, List.cons_append]
      by_cases hfirst : first = listener
      · subst hfirst
        rw [List.erase_cons_head, append_cons_eq_iff]
        constructor
        · intro hall
          exact ⟨fun other hother _ => hall other hother,
            List.pairwise_of_forall_mem_list fun _ _ other hother _ => hall other hother⟩
        · rintro ⟨hall, _⟩ other hother
          exact hall other hother rfl
      · rw [List.erase_cons_tail (by simpa using hfirst), List.cons_inj_right, ih]
        simp [hfirst]

/-! ## Actions -/

/-- What is left after an action. -/
def perform (state : Subscribed Listener) : Action Listener → Subscribed Listener
  | .subscribe listener replay =>
      { session := (state.session.subscribe listener replay).1
        subscriptions := state.subscriptions ++ [{ listener }] }
  | .unsubscribe number =>
      match state.subscriptions[number]? with
      | some subscription =>
          { session := state.session.unsubscribe subscription.listener
            subscriptions := state.subscriptions.set number { subscription with isLive := false } }
      | none => state
  | .change change => { state with session := (state.session.change change).1 }

/-- What is left after several actions. -/
def afterActions (state : Subscribed Listener) (actions : List (Action Listener)) :
    Subscribed Listener :=
  actions.foldl perform state

/-- An action leaves it at that the listeners of the live subscriptions are told exactly if it is
safe. -/
theorem tellsLive_perform_iff {state : Subscribed Listener} (action : Action Listener)
    (h : state.TellsLive) : (state.perform action).TellsLive ↔ state.IsSafe action := by
  rw [tellsLive_iff] at h ⊢
  cases action with
  | subscribe listener replay => simp [perform, Session.subscribe, IsSafe, h, live]
  | unsubscribe number =>
      rw [perform, IsSafe]
      cases hfound : state.subscriptions[number]? with
      | none => simpa using h
      | some subscription =>
          rcases subscriptions_split hfound with ⟨hsplit, hset⟩
          have hbefore := congrArg live hsplit
          rw [live_append, live_cons] at hbefore
          have hafter := congrArg live (hset { subscription with isLive := false })
          rw [live_append, live_cons, if_neg Bool.false_ne_true] at hafter
          simp only [Option.mem_some_iff, forall_eq', Session.unsubscribe, hafter, h]
          by_cases hlive : subscription.isLive = true
          · rw [if_pos hlive, hbefore, if_pos hlive]
            exact erase_append_cons_iff
          · rw [if_neg hlive, hbefore, if_neg hlive]
            exact List.erase_eq_self_iff
  | change change => simpa [perform, IsSafe, Session.listeners_change] using h

/-! ## Runs -/

/-- An action adds the listener that subscribes to those that did, and no other. -/
theorem listeners_perform (state : Subscribed Listener) (action : Action Listener) :
    (state.perform action).subscriptions.map (·.listener) =
      state.subscriptions.map (·.listener) ++ action.subscriber?.toList := by
  cases action with
  | subscribe listener replay => simp [perform, Action.subscriber?]
  | unsubscribe number =>
      rw [perform]
      cases hfound : state.subscriptions[number]? with
      | none => simp [Action.subscriber?]
      | some subscription =>
          rcases subscriptions_split hfound with ⟨hsplit, hset⟩
          have hsame := congrArg (List.map (·.listener)) hsplit
          rw [List.map_append, List.map_cons] at hsame
          simp only [hset, List.map_append, List.map_cons, ← hsame, Action.subscriber?,
            Option.toList_none, List.append_nil]
  | change change => simp [perform, Action.subscriber?]

/-- The listeners of all subscriptions are those that subscribed. -/
theorem listeners_afterActions (state : Subscribed Listener) (actions : List (Action Listener)) :
    (state.afterActions actions).subscriptions.map (·.listener) =
      state.subscriptions.map (·.listener) ++ actions.filterMap Action.subscriber? := by
  induction actions generalizing state with
  | nil => simp [afterActions]
  | cons action rest ih =>
      have hrest := ih (state.perform action)
      rw [listeners_perform, List.append_assoc] at hrest
      rw [afterActions, List.foldl_cons]
      refine hrest.trans ?_
      cases h : action.subscriber? <;> simp [h]

/-- The listeners of the live subscriptions are told of every replacement of the tree, throughout
any sequence of actions in which every action is safe.  If nobody subscribes twice this is so
always. -/
theorem tellsLive_throughout_iff (tree : Option Tree) (actions : List (Action Listener)) :
    ((∀ prior, prior <+: actions → (afterActions { session := { tree } } prior).TellsLive) ↔
      ∀ prior action, prior ++ [action] <+: actions →
        (afterActions { session := { tree } } prior).IsSafe action) ∧
    ((actions.filterMap Action.subscriber?).Nodup →
      ∀ prior, prior <+: actions → (afterActions { session := { tree } } prior).TellsLive) := by
  have hstart : TellsLive ({ session := { tree } } : Subscribed Listener) :=
    tellsLive_iff.mpr rfl
  have hiff :=
    Run.holds_throughout_iff (fun _ action => tellsLive_perform_iff action) hstart actions
  refine ⟨hiff, fun hnodup => hiff.mpr fun prior action hprefix => ?_⟩
  apply isSafe_of_nodup
  have hprior := (List.prefix_append prior [action]).trans hprefix
  have hlisteners := listeners_afterActions ({ session := { tree } } : Subscribed Listener) prior
  rw [List.map_nil, List.nil_append, afterActions] at hlisteners
  rw [hlisteners]
  exact hnodup.sublist (hprior.sublist.filterMap _)

/-- A listener with two subscriptions is not told of a new tree any more after one of them was ended
twice.  With another listener between the two, ending the later one leaves the wrong order. -/
theorem unsubscribing_affects_others :
    let new : Session.Change := .set (some { id := "t" })
    let start : Subscribed String := { session := { tree := none } }
    let endedTwice := start.afterActions
      [.subscribe "s" false, .subscribe "s" false, .unsubscribe 0, .unsubscribe 0]
    let between := start.afterActions
      [.subscribe "s" false, .subscribe "t" false, .subscribe "s" false, .unsubscribe 2]
    (live endedTwice.subscriptions = ["s"] ∧ (endedTwice.session.change new).2 = []) ∧
      live between.subscriptions = ["s", "t"] ∧
      (between.session.change new).2 = Message.toAll ["t", "s"] (some { id := "t" }) :=
  ⟨⟨rfl, rfl⟩, rfl, rfl⟩

end Subscribed

end FilterQuery
