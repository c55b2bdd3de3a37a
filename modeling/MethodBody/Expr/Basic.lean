import MethodBody.Literal
import MethodBody.Signature

/-!
# Expressions

The expression trees of method bodies. Every node carries the identity it was given when it was
made, so that two equal subtrees made separately can be told apart while a shared one is seen to be
shared. Identities matter to transformations only: text and code do not depend on them.
-/

namespace MethodBody

/-- The kinds of expressions. -/
inductive Kind where
  | assign
  | constant
  | parameter
  | call
  | block
  | arrayIndex
  | newArray
  | member
deriving DecidableEq, Inhabited

namespace Kind

/-- All kinds. -/
def all : List Kind :=
  [assign, constant, parameter, call, block, arrayIndex, newArray, member]

/-- The name of a kind in messages and events. -/
def text : Kind → String
  | assign => "Assign"
  | constant => "Constant"
  | parameter => "Parameter"
  | call => "Call"
  | block => "Block"
  | arrayIndex => "ArrayIndex"
  | newArray => "NewArrayInit"
  | member => "MemberAccess"

/-- The kind with a given name. -/
def ofText? (name : String) : Option Kind := all.find? (·.text == name)

/-- Different kinds have different names. -/
@[simp] theorem ofText?_text (kind : Kind) : ofText? kind.text = some kind := by
  cases kind <;> decide

end Kind

/-- The identity of a node: its position in the arena that made it. -/
abbrev NodeId := Nat

/-- An expression. Its first component is its identity. -/
inductive Expr where
  /-- Stores the value of `right` in the place that `left` describes. -/
  | assign (id : NodeId) (left right : Expr)
  | constant (id : NodeId) (value : Literal)
  /-- Reads a parameter or local variable. -/
  | parameter (id : NodeId) (var : Variable)
  /-- Reads a field of the object `target`. -/
  | member (id : NodeId) (target : Expr) (field : Field)
  /-- Invokes a method, on `receiver` if there is one. -/
  | call (id : NodeId) (receiver : Option Expr) (sig : Signature) (args : List Expr)
  /-- Evaluates the statements in order and returns the value of `result`. -/
  | block (id : NodeId) (ty : Ty) (locals : List Variable) (statements : List Expr) (result : Expr)
  /-- The element of `array` at `index`, as the target of an assignment. -/
  | arrayIndex (id : NodeId) (array index : Expr)
  /-- A new array holding the given elements. -/
  | newArray (id : NodeId) (element : Ty) (elements : List Expr)
deriving Inhabited

namespace Expr

/-- The identity of a node. -/
def id : Expr → NodeId
  | assign id _ _ => id
  | constant id _ => id
  | parameter id _ => id
  | member id _ _ => id
  | call id _ _ _ => id
  | block id _ _ _ _ => id
  | arrayIndex id _ _ => id
  | newArray id _ _ => id

/-- The kind of a node. -/
def kind : Expr → Kind
  | assign .. => .assign
  | constant .. => .constant
  | parameter .. => .parameter
  | member .. => .member
  | call .. => .call
  | block .. => .block
  | arrayIndex .. => .arrayIndex
  | newArray .. => .newArray

/-- Whether two expressions are the identical node. -/
def same (a b : Expr) : Bool := a.id == b.id

/-- Whether two lists hold the identical nodes in the same order. -/
def sameAll (as bs : List Expr) : Bool := as.map id == bs.map id

/-- Nodes are the same if they have the same identity. -/
theorem same_iff {a b : Expr} : a.same b = true ↔ a.id = b.id := by
  simp [same]

/-- Lists of nodes are the same if their identities agree, one by one. -/
theorem sameAll_iff {as bs : List Expr} : sameAll as bs = true ↔ as.map id = bs.map id := by
  simp [sameAll]

/-- The children of a node from left to right: the receiver comes before the arguments, and the
statements of a block before its result. -/
def children : Expr → List Expr
  | assign _ left right => [left, right]
  | constant .. => []
  | parameter .. => []
  | member _ target _ => [target]
  | call _ receiver _ args => receiver.toList ++ args
  | block _ _ _ statements result => statements ++ [result]
  | arrayIndex _ array index => [array, index]
  | newArray _ _ elements => elements

end Expr

end MethodBody
