import MethodBody.Transform.Basic

/-!
# Transforming by policy

A policy is a transformer described by data: which literals to replace, which variables to
substitute or to move, and which kinds of nodes to refuse, to keep, to copy or to look into.
-/

namespace MethodBody

/-- A transformer described by data. A node that replaces a variable is given by an `α`. -/
structure Policy (α : Type) where
  /-- Literals and what replaces them. The first that fits counts. -/
  replace : List (Literal × Literal)
  /-- Slots and what replaces their variables. The first that fits counts. -/
  substitute : List (UInt16 × α)
  /-- How far declared variables that are not replaced move up. -/
  shift : Nat
  /-- Kinds of leaves that are made anew where they would otherwise stay. -/
  fresh : List Kind
  /-- Kinds at which the transformation fails. -/
  reject : List Kind
  /-- Kinds that stay as they are, with all below them. -/
  stop : List Kind
  /-- Kinds beyond assignments and field accesses whose children are transformed. -/
  deep : List Kind

namespace Policy

/-- Why a transformation by policy failed. -/
inductive Failure where
  | rejected (kind : Kind)
  /-- A variable would have moved past the last slot. -/
  | slotOverflow
deriving DecidableEq

/-- The kinds of the nodes come to, in order. -/
abbrev Visits := Array Kind

/-- Finds the replacing nodes in order, and fails as soon as one is not found. -/
def resolve [Monad m] (one : α → m γ) (policy : Policy α) : m (Policy γ) := do
  let substitute ← policy.substitute.mapM fun (slot, a) => return (slot, ← one a)
  return { policy with substitute }

/-- What becomes of a variable. -/
def onVariable (policy : Policy Expr) (e : Expr) (var : Variable) :
    Transform Failure Visits Expr :=
  match policy.substitute.find? (·.1 == var.slot), var.ty with
  | some (_, replacement), _ => pure replacement
  | none, some ty =>
    if policy.shift != 0 then
      if var.slot.toNat + policy.shift < UInt16.size then
        Transform.build
          (Build.parameter (UInt16.ofNat (var.slot.toNat + policy.shift)) var.name ty)
      else
        Transform.abandon .slotOverflow
    else if policy.fresh.contains .parameter then
      Transform.build (Build.parameter var.slot var.name ty)
    else
      pure e
  | none, none =>
    if policy.fresh.contains .parameter then Transform.build Build.thisObject else pure e

/-- What becomes of a constant. -/
def onConstant (policy : Policy Expr) (e : Expr) (value : Literal) :
    Transform Failure Visits Expr :=
  match policy.replace.find? (·.1.equal value) with
  | some (_, replacement) => Transform.build (Build.constant replacement)
  | none =>
    if policy.fresh.contains .constant then Transform.build (Build.constant value) else pure e

/-- The verdict on a node that is neither refused nor kept. -/
def verdict (policy : Policy Expr) : Expr → Transform Failure Visits Verdict
  | e@(.parameter _ var) => Verdict.settle <$> policy.onVariable e var
  | e@(.constant _ value) => Verdict.settle <$> policy.onConstant e value
  | .assign .. => pure .descend
  | .member .. => pure .descend
  | e => pure (if policy.deep.contains e.kind then .descend else .settle e)

/-- The transformer that a policy describes. It remembers the kinds of the nodes it comes to. -/
def transformer (policy : Policy Expr) : Transformer Failure Visits where
  judge e := do
    Transform.remember (·.push e.kind)
    if policy.reject.contains e.kind then
      Transform.abandon (.rejected e.kind)
    else if policy.stop.contains e.kind then
      pure (.settle e)
    else
      policy.verdict e

end Policy

end MethodBody
