import ResourceApi.Model

/-!
# Open operations

An operation on an entity is open when every caller may perform it whatever the circumstances:
some rule that covers it allows it unconditionally, and no rule that covers it could ever deny it.
-/

namespace ResourceApi

/-- The four operations that rules speak about. -/
inductive Action where
  | create | read | update | delete
  deriving DecidableEq, Repr, Inhabited

def Action.name : Action → Text
  | .create => "create"
  | .read => "read"
  | .update => "update"
  | .delete => "delete"

/-- Which operations are open. -/
structure Openness where
  create : Bool := false
  read : Bool := false
  update : Bool := false
  delete : Bool := false
  deriving DecidableEq, Repr, Inhabited

def Openness.allows (o : Openness) : Action → Bool
  | .create => o.create
  | .read => o.read
  | .update => o.update
  | .delete => o.delete

/-- The rules of a kind that cover an operation. -/
def coveringRules (kind operation : Text) (rules : List AccessRule) : List AccessRule :=
  rules.filter fun r => r.kind == kind && r.covers operation

/-- Do the rules leave an operation open to everyone? -/
def isOpen (rules : List AccessRule) (operation : Text) : Bool :=
  (coveringRules "allow" operation rules).any (fun r => r.condition == .literal true) &&
    (coveringRules "deny" operation rules).all (fun r => r.condition == .literal false)

/-- The open operations of an entity, by its own rules. -/
def Entity.openness (e : Entity) : Openness where
  create := isOpen e.access Action.create.name
  read := isOpen e.access Action.read.name
  update := isOpen e.access Action.update.name
  delete := isOpen e.access Action.delete.name

end ResourceApi
