import FilterQuery.Tree.Edit

/-!
# Editing sessions

A session holds one current tree and tells its listeners of everything that replaces it: a new
tree, or no tree at all.  An edit that leaves the tree as it is, or fails, tells nobody.  Listeners
are told in the order in which they subscribed, once for every time they did.

A step gives the session that is left and the messages that it sends, in this order.
-/

namespace FilterQuery

/-- What a listener is told: the tree that is current, unless it was taken away. -/
structure Message (Listener : Type) where
  listener : Listener
  tree : Option Tree

/-- The messages that tell every listener of the same tree. -/
def Message.toAll {Listener : Type} (listeners : List Listener) (tree : Option Tree) :
    List (Message Listener) :=
  listeners.map fun listener => { listener, tree }

/-- The current tree, unless it was taken away, and those who want to know about changes. -/
structure Session (Listener : Type) where
  tree : Option Tree
  listeners : List Listener := []

namespace Session

variable {Listener : Type}

/-- Puts a new tree in the place of the current one and tells every listener of it, if there is a
new one. -/
def publish (session : Session Listener) :
    Option Tree → Session Listener × List (Message Listener)
  | some tree => ({ session with tree := some tree }, Message.toAll session.listeners (some tree))
  | none => (session, [])

/-- Takes the current tree away and tells every listener.  Where there is none, nothing
changes. -/
def takeAway (session : Session Listener) : Session Listener × List (Message Listener) :=
  match session.tree with
  | some _ => ({ session with tree := none }, Message.toAll session.listeners none)
  | none => (session, [])

/-- Performs an edit and publishes what it gives. -/
def perform (session : Session Listener) (ids : IdSupply) (edit : Edit) :
    Except Error ((Session Listener × List (Message Listener)) × IdSupply) :=
  (edit.perform ids session.tree).map fun (tree, ids) => (session.publish tree, ids)

/-- Adds a listener, which is told the current tree at once if it asks for that. -/
def subscribe (session : Session Listener) (listener : Listener) (replay : Bool) :
    Session Listener × List (Message Listener) :=
  ({ session with listeners := session.listeners ++ [listener] },
    if replay then [{ listener, tree := session.tree }] else [])

/-- Ends one subscription of a listener, the earliest it has. -/
def unsubscribe [BEq Listener] (session : Session Listener) (listener : Listener) :
    Session Listener :=
  { session with listeners := session.listeners.erase listener }

end Session

end FilterQuery
