import Std.Data.HashMap
import MethodBody.Expr.Basic

/-!
# Names of nodes

A session gives each node a name when it is first met, and keeps it. The shape of a result shows
which of its nodes were known before and which are new.
-/

namespace MethodBody.Session

/-- The names given so far. -/
abbrev Names := Std.HashMap NodeId String

namespace Names

/-- The name of a node. -/
def nameOf (names : Names) (e : Expr) : String := names.getD e.id "?"

/-- Names a node unless it has a name. -/
def give (names : Names) (e : Expr) (name : String) : Names := names.insertIfNew e.id name

end Names

/-- A walk through a result: the names, how many nodes were new, and what was met. -/
structure Walk where
  names : Names
  found : Nat
  shape : Array String

/-- The name of a new node: the first one of a step is named for the step alone. -/
def newName (step found : Nat) : String :=
  if found = 0 then toString step else toString step ++ "." ++ toString found

/-- Names a new node and notes its kind. -/
def Walk.meet (walk : Walk) (step : Nat) (e : Expr) : Walk :=
  { names := walk.names.give e (newName step walk.found)
    found := walk.found + 1
    shape := walk.shape.push ("+" ++ e.kind.text) }

mutual

/-- Walks through an expression, a node before its children. A node that has a name is noted by it
and not entered. -/
def walk (step : Nat) (e : Expr) (before : Walk) : Walk :=
  match before.names.get? e.id with
  | some name => { before with shape := before.shape.push ("@" ++ name) }
  | none =>
    let met := before.meet step e
    match e with
    | .assign _ left right => walk step right (walk step left met)
    | .constant .. => met
    | .parameter .. => met
    | .member _ target _ => walk step target met
    | .call _ none _ args => walkAll step args met
    | .call _ (some receiver) _ args => walkAll step args (walk step receiver met)
    | .block _ _ _ statements result => walk step result (walkAll step statements met)
    | .arrayIndex _ array index => walk step index (walk step array met)
    | .newArray _ _ elements => walkAll step elements met

/-- Walks through several expressions in order. -/
def walkAll (step : Nat) : List Expr → Walk → Walk
  | [], before => before
  | e :: rest, before => walkAll step rest (walk step e before)

end

end MethodBody.Session
