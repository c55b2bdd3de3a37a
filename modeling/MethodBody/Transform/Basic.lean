import MethodBody.Arena

/-!
# Transforming expressions

A transformer is asked about each node it comes to. Either it settles what stands in the node's
place, or the children are transformed. A node whose children all came back as the identical nodes
is itself the result, so all that did not change is shared between the old tree and the new one.
-/

namespace MethodBody

/-- What a transformation works on: the arena, and the memory of the transformer. -/
structure Workspace (σ : Type) where
  arena : Arena
  memory : σ

/-- Why a transformation failed. -/
inductive TransformError (ε : Type) where
  /-- The transformer gave up. -/
  | abandoned (reason : ε)
  /-- A node that had to be made anew was refused. -/
  | malformed (error : BuildError)
deriving DecidableEq

/-- A step of a transformation. Nodes made before a failure stay in the arena. -/
abbrev Transform (ε σ : Type) := EStateM (TransformError ε) (Workspace σ)

namespace Transform

variable {ε σ α : Type}

/-- Works in the arena. -/
def build (action : Build α) : Transform ε σ α := fun workspace =>
  match action workspace.arena with
  | .ok a arena => .ok a { workspace with arena }
  | .error e arena => .error (.malformed e) { workspace with arena }

/-- Gives up. -/
def abandon (reason : ε) : Transform ε σ α := throw (.abandoned reason)

/-- Updates the transformer's memory. -/
def remember (update : σ → σ) : Transform ε σ Unit :=
  modify fun workspace => { workspace with memory := update workspace.memory }

end Transform

/-- What becomes of a node. -/
inductive Verdict where
  /-- The given node, which may be the old one, stands in its place. -/
  | settle (e : Expr)
  /-- Its children are transformed. -/
  | descend

/-- Decides on nodes one by one, with a memory of type `σ` and failures of type `ε`. -/
structure Transformer (ε σ : Type) where
  judge : Expr → Transform ε σ Verdict

namespace Transformer

variable {ε σ : Type}

mutual

/-- Transforms an expression. Children are transformed from left to right. The node is made anew,
with its other parts as they were, only if a child came back as another node. -/
def apply (t : Transformer ε σ) (e : Expr) : Transform ε σ Expr := do
  match ← t.judge e with
  | .settle e' => pure e'
  | .descend =>
    match e with
    | .constant .. => pure e
    | .parameter .. => pure e
    | .assign _ left right =>
      let left' ← t.apply left
      let right' ← t.apply right
      if left'.same left && right'.same right then pure e
      else Transform.build (Build.assign left' right')
    | .member _ target field =>
      let target' ← t.apply target
      if target'.same target then pure e
      else Transform.build (Build.knownMember target' field)
    | .call _ none sig args =>
      let args' ← t.applyAll args
      if Expr.sameAll args' args then pure e
      else Transform.build (Build.call none sig args')
    | .call _ (some receiver) sig args =>
      let receiver' ← t.apply receiver
      let args' ← t.applyAll args
      if receiver'.same receiver && Expr.sameAll args' args then pure e
      else Transform.build (Build.call (some receiver') sig args')
    | .block _ ty locals statements result =>
      let statements' ← t.applyAll statements
      let result' ← t.apply result
      if Expr.sameAll statements' statements && result'.same result then pure e
      else Transform.build (Build.blockWithLocals ty locals (statements' ++ [result']))
    | .arrayIndex _ array index =>
      let array' ← t.apply array
      let index' ← t.apply index
      if array'.same array && index'.same index then pure e
      else Transform.build (Build.arrayIndex array' index')
    | .newArray _ element elements =>
      let elements' ← t.applyAll elements
      if Expr.sameAll elements' elements then pure e
      else Transform.build (Build.newArray element elements')

/-- Transforms several expressions in order. -/
def applyAll (t : Transformer ε σ) : List Expr → Transform ε σ (List Expr)
  | [] => pure []
  | e :: rest => do
    let e' ← t.apply e
    let rest' ← t.applyAll rest
    pure (e' :: rest')

end

/-- The transformer that goes through assignments and field accesses, and asks `hook` what stands in
the place of any other node it comes to. -/
def atFrontier (hook : Expr → Transform ε σ Expr) : Transformer ε σ where
  judge e :=
    match e with
    | .assign .. => pure .descend
    | .member .. => pure .descend
    | e => Verdict.settle <$> hook e

/-- Changes nothing. -/
def identity : Transformer ε σ := atFrontier pure

/-- What replaces a node where the integer constant `old` gives way to `new`. -/
def replacement (old new : Int32) (e : Expr) : Transform ε σ Expr :=
  match e with
  | .constant _ (.int n) => if n = old then Transform.build (Build.constant (.int new)) else pure e
  | e => pure e

/-- Replaces the integer constant `old` by a new constant `new`. -/
def replaceInt (old new : Int32) : Transformer ε σ := atFrontier (replacement old new)

/-- Why calls are refused where `rejectCalls` finds one. -/
inductive CallRefusal where
  | callFound
deriving DecidableEq

/-- The explanation of the refusal. -/
def CallRefusal.message : CallRefusal → String
  | .callFound => "calls are not allowed here"

/-- Fails at the first call. -/
def rejectCalls : Transformer CallRefusal σ := atFrontier fun e =>
  match e with
  | .call .. => Transform.abandon .callFound
  | e => pure e

end Transformer

end MethodBody
