import MethodBody.Expr.Basic

/-!
# Arenas and constructions

An arena holds every node made in it, in the order of making. Nodes are never changed or removed,
and a node's position is its identity. A `Construction` describes one node to be made from nodes
that exist already; carrying it out checks what the type of expressions leaves open.
-/

namespace MethodBody

/-- The nodes made so far. The tag tells arenas apart that exist side by side. -/
structure Arena where
  tag : Nat
  nodes : Array Expr
deriving Inhabited

namespace Arena

/-- An arena without nodes. -/
def empty (tag : Nat) : Arena := ⟨tag, #[]⟩

/-- Whether two values are states of one arena. -/
def sameArena (a b : Arena) : Bool := a.tag == b.tag

/-- Adds a node. Its identity is the position it takes. -/
def alloc (arena : Arena) (node : NodeId → Expr) : Expr × Arena :=
  let e := node arena.nodes.size
  (e, { arena with nodes := arena.nodes.push e })

/-- A new node has the next free identity. -/
@[simp] theorem alloc_fst (arena : Arena) (node : NodeId → Expr) :
    (arena.alloc node).1 = node arena.nodes.size := rfl

/-- A new node is added after all others. -/
@[simp] theorem alloc_nodes (arena : Arena) (node : NodeId → Expr) :
    (arena.alloc node).2.nodes = arena.nodes.push (node arena.nodes.size) := rfl

end Arena

/-- An action that may add nodes to an arena or be refused. -/
abbrev Build := EStateM BuildError Arena

namespace Build

/-- Makes a node without any check. -/
def node (make : NodeId → Expr) : Build Expr :=
  modifyGet (·.alloc make)

/-- Passes a check on, or its refusal. -/
def check (result : Except BuildError α) : Build α :=
  match result with
  | .ok a => pure a
  | .error e => throw e

/-- A constant. -/
def constant (value : Literal) : Build Expr := node (.constant · value)

/-- A string constant. -/
def string (value : String) : Build Expr := constant (.str value)

/-- A use of a declared variable. -/
def parameter (slot : UInt16) (name : String) (ty : Ty) : Build Expr :=
  node (.parameter · (.declared slot name ty))

/-- The object that the method runs on. -/
def thisObject : Build Expr := node (.parameter · .thisObject)

/-- An assignment. Whether `left` can be assigned to is left to lowering. -/
def assign (left right : Expr) : Build Expr := node (.assign · left right)

/-- An element of an array. -/
def arrayIndex (array index : Expr) : Build Expr := node (.arrayIndex · array index)

/-- A field access under names that are known to be non-empty. -/
def knownMember (target : Expr) (field : Field) : Build Expr :=
  node (.member · target field)

/-- A field access. The owner's name is checked first, then the field's. -/
def member (target : Expr) (field : Field) : Build Expr := do
  check (requireName "member owner" field.owner)
  check (requireName "member name" field.member)
  knownMember target field

/-- A call, with as many arguments as the signature has parameters. -/
def call (receiver : Option Expr) (sig : Signature) (args : List Expr) : Build Expr :=
  if args.length = sig.params.length then
    node (.call · receiver sig args)
  else
    throw (.arityMismatch sig.text sig.params.length args.length)

/-- A block that declares variables. The last of the given expressions is its result. -/
def blockWithLocals (ty : Ty) (locals : List Variable) (exprs : List Expr) : Build Expr :=
  match exprs.getLast? with
  | none => throw .emptyBlock
  | some result => node (.block · ty locals exprs.dropLast result)

/-- A block with a value of the given type. -/
def blockTyped (ty : Ty) (exprs : List Expr) : Build Expr := blockWithLocals ty [] exprs

/-- A block without a value. -/
def block (exprs : List Expr) : Build Expr := blockWithLocals .void [] exprs

/-- The largest number of elements of an array: the largest 32-bit integer. -/
def maxArrayLength : Nat := 2147483647

/-- An array literal. The element type is checked first, then the number of elements. -/
def newArray (element : Ty) (elements : List Expr) : Build Expr :=
  if element.isVoid then
    throw .voidArrayElement
  else if elements.length > maxArrayLength then
    throw (.arrayTooLarge elements.length)
  else
    node (.newArray · element elements)

end Build

/-- A signature as it is asked for, before its names are checked. -/
structure SignatureRequest where
  owner : String
  name : String
  result : Ty
  params : List Ty
deriving DecidableEq, Inhabited

/-- The requested signature, if its names are not empty. -/
def SignatureRequest.make (request : SignatureRequest) : Except BuildError Signature :=
  Signature.make request.owner request.name request.result request.params

/-- A node to be made. A single child is given by an `α` and a list of children by a `β`. -/
inductive Construction (α β : Type) where
  | constant (value : Literal)
  | string (value : String)
  | parameter (slot : UInt16) (name : String) (ty : Ty)
  | thisObject
  | member (target : α) (field : Field)
  | assign (left right : α)
  | call (receiver : Option α) (method : SignatureRequest) (args : β)
  | block (exprs : β)
  | blockTyped (ty : Ty) (exprs : β)
  | blockWithLocals (ty : Ty) (locals : List Variable) (exprs : β)
  | arrayIndex (array index : α)
  | newArray (element : Ty) (elements : β)

namespace Construction

/-- Finds the children from left to right, and fails as soon as one is not found. -/
def resolve [Monad m] (one : α → m γ) (many : β → m δ) :
    Construction α β → m (Construction γ δ)
  | constant value => pure (.constant value)
  | string value => pure (.string value)
  | parameter slot name ty => pure (.parameter slot name ty)
  | thisObject => pure .thisObject
  | member target field => return .member (← one target) field
  | assign left right => return .assign (← one left) (← one right)
  | call none method args => return .call none method (← many args)
  | call (some receiver) method args =>
    return .call (some (← one receiver)) method (← many args)
  | block exprs => return .block (← many exprs)
  | blockTyped ty exprs => return .blockTyped ty (← many exprs)
  | blockWithLocals ty locals exprs => return .blockWithLocals ty locals (← many exprs)
  | arrayIndex array index => return .arrayIndex (← one array) (← one index)
  | newArray element elements => return .newArray element (← many elements)

/-- Makes the node. The signature of a call is checked before its arguments. -/
def build : Construction Expr (List Expr) → Build Expr
  | constant value => Build.constant value
  | string value => Build.string value
  | parameter slot name ty => Build.parameter slot name ty
  | thisObject => Build.thisObject
  | member target field => Build.member target field
  | assign left right => Build.assign left right
  | call receiver method args => do
    let sig ← Build.check method.make
    Build.call receiver sig args
  | block exprs => Build.block exprs
  | blockTyped ty exprs => Build.blockTyped ty exprs
  | blockWithLocals ty locals exprs => Build.blockWithLocals ty locals exprs
  | arrayIndex array index => Build.arrayIndex array index
  | newArray element elements => Build.newArray element elements

end Construction

end MethodBody
