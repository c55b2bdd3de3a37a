import MethodBody.Expr.Basic
import Mathlib.Data.List.Basic

/-!
# Occurrences

A tree is read as the list of its occurrences: a node before all below it, and the children of a
node from left to right. A shared node occurs once for every path that leads to it. What holds of
every occurrence is stated by `Expr.Every`, which splits along the children of a node, so proofs by
induction never see the list itself.
-/

namespace MethodBody

/-- A place in a tree: the node that stands there, its distance from the root, and whether it is
the left side of an assignment. -/
structure Occurrence where
  node : Expr
  depth : Nat
  isTarget : Bool

/-- What stands in two lists put together stands in the first or in the second. -/
theorem split_append {α : Type} {xs ys before after : List α} {x : α}
    (h : xs ++ ys = before ++ x :: after) :
    (∃ rest, xs = before ++ x :: rest ∧ after = rest ++ ys) ∨
      ∃ middle, before = xs ++ middle ∧ ys = middle ++ x :: after := by
  rcases List.append_eq_append_iff.mp h with ⟨middle, hbefore, hys⟩ | ⟨middle, hxs, hafter⟩
  · exact .inr ⟨middle, hbefore, hys⟩
  · rcases List.cons_eq_append_iff.mp hafter with ⟨rfl, hys⟩ | ⟨rest, rfl, hrest⟩
    · exact .inr ⟨[], by simpa using hxs.symm, hys⟩
    · exact .inl ⟨rest, hxs, hrest⟩

namespace Expr

mutual

/-- The occurrences in an expression that itself lies at the given depth, in preorder. -/
def occurrencesAt (isTarget : Bool) (depth : Nat) : Expr → List Occurrence
  | e@(.constant ..) => [⟨e, depth, isTarget⟩]
  | e@(.parameter ..) => [⟨e, depth, isTarget⟩]
  | e@(.member _ target _) =>
    ⟨e, depth, isTarget⟩ :: target.occurrencesAt false (depth + 1)
  | e@(.assign _ left right) =>
    ⟨e, depth, isTarget⟩
      :: (left.occurrencesAt true (depth + 1) ++ right.occurrencesAt false (depth + 1))
  | e@(.call _ none _ args) => ⟨e, depth, isTarget⟩ :: occurrencesAll (depth + 1) args
  | e@(.call _ (some receiver) _ args) =>
    ⟨e, depth, isTarget⟩
      :: (receiver.occurrencesAt false (depth + 1) ++ occurrencesAll (depth + 1) args)
  | e@(.block _ _ _ statements result) =>
    ⟨e, depth, isTarget⟩
      :: (occurrencesAll (depth + 1) statements ++ result.occurrencesAt false (depth + 1))
  | e@(.arrayIndex _ array index) =>
    ⟨e, depth, isTarget⟩
      :: (array.occurrencesAt false (depth + 1) ++ index.occurrencesAt false (depth + 1))
  | e@(.newArray _ _ elements) => ⟨e, depth, isTarget⟩ :: occurrencesAll (depth + 1) elements

/-- The occurrences in several expressions that lie at one depth. -/
def occurrencesAll (depth : Nat) : List Expr → List Occurrence
  | [] => []
  | e :: rest => e.occurrencesAt false depth ++ occurrencesAll depth rest

end

/-- The occurrences in a whole tree, in preorder. -/
def occurrences (e : Expr) : List Occurrence := e.occurrencesAt false 0

/-- A child is smaller than its parent. -/
theorem sizeOf_lt_of_mem_children {c e : Expr} (hc : c ∈ e.children) : sizeOf c < sizeOf e := by
  cases e with
  | constant id value => simp [children] at hc
  | parameter id var => simp [children] at hc
  | member id target field =>
    simp only [children, List.mem_singleton] at hc
    subst hc
    simp only [member.sizeOf_spec]
    omega
  | assign id left right =>
    simp only [children, List.mem_cons, List.not_mem_nil, or_false] at hc
    rcases hc with rfl | rfl <;> simp only [assign.sizeOf_spec] <;> omega
  | arrayIndex id array index =>
    simp only [children, List.mem_cons, List.not_mem_nil, or_false] at hc
    rcases hc with rfl | rfl <;> simp only [arrayIndex.sizeOf_spec] <;> omega
  | newArray id element elements =>
    have hlt := List.sizeOf_lt_of_mem (show c ∈ elements from hc)
    simp only [newArray.sizeOf_spec]
    omega
  | call id receiver sig args =>
    simp only [children, List.mem_append, Option.mem_toList] at hc
    rcases hc with hreceiver | harg
    · subst hreceiver
      simp only [call.sizeOf_spec, Option.some.sizeOf_spec]
      omega
    · have hlt := List.sizeOf_lt_of_mem harg
      simp only [call.sizeOf_spec]
      omega
  | block id ty locals statements result =>
    simp only [children, List.mem_append, List.mem_singleton] at hc
    rcases hc with hstatement | hresult
    · have hlt := List.sizeOf_lt_of_mem hstatement
      simp only [block.sizeOf_spec]
      omega
    · subst hresult
      simp only [block.sizeOf_spec]
      omega

/-- Induction along the children of a node, whatever their number. -/
theorem children_induction {P : Expr → Prop} (step : ∀ e, (∀ c ∈ e.children, P c) → P e)
    (e : Expr) : P e :=
  step e fun c hc =>
    have := sizeOf_lt_of_mem_children hc
    children_induction step c
termination_by sizeOf e

/-- Whether an assignment can store into the place that a node describes. -/
def isAssignable (e : Expr) : Bool :=
  match e.kind with
  | .member | .arrayIndex | .parameter => true
  | _ => false

/-- Induction along the shapes that lowering tells apart. The target of an assignment is opened
together with the assignment, so that its operands come with hypotheses of their own. -/
theorem shape_induction {P : Expr → Prop}
    (constant : ∀ id value, P (.constant id value))
    (parameter : ∀ id var, P (.parameter id var))
    (member : ∀ id target field, P target → P (.member id target field))
    (arrayIndex : ∀ id array index, P (.arrayIndex id array index))
    (assignMember : ∀ id leftId target field right, P target → P right →
      P (.assign id (.member leftId target field) right))
    (assignElement : ∀ id leftId array index right, P array → P index → P right →
      P (.assign id (.arrayIndex leftId array index) right))
    (assignLocal : ∀ id leftId var right, P right → P (.assign id (.parameter leftId var) right))
    (assignOther : ∀ id left right, left.isAssignable = false → P (.assign id left right))
    (callStatic : ∀ id sig args, (∀ a ∈ args, P a) → P (.call id none sig args))
    (callVirtual : ∀ id receiver sig args, P receiver → (∀ a ∈ args, P a) →
      P (.call id (some receiver) sig args))
    (newArray : ∀ id element elements, (∀ x ∈ elements, P x) → P (.newArray id element elements))
    (block : ∀ id ty locals statements result, (∀ x ∈ statements, P x) → P result →
      P (.block id ty locals statements result))
    (e : Expr) : P e := by
  -- The grandchildren are needed at assignments, so the children are carried along.
  suffices h : P e ∧ ∀ c ∈ e.children, P c from h.1
  induction e using children_induction with
  | step e ih =>
    refine ⟨?_, fun c hc => (ih c hc).1⟩
    cases e with
    | constant id value => exact constant id value
    | parameter id var => exact parameter id var
    | member id target field => exact member id target field (ih target (by simp [children])).1
    | arrayIndex id array index => exact arrayIndex id array index
    | call id receiver sig args =>
      have hargs : ∀ a ∈ args, P a := fun a ha => (ih a (by simp [children, ha])).1
      cases receiver with
      | none => exact callStatic id sig args hargs
      | some receiver =>
        exact callVirtual id receiver sig args (ih receiver (by simp [children])).1 hargs
    | newArray id element elements =>
      exact newArray id element elements fun x hx => (ih x hx).1
    | block id ty locals statements result =>
      exact block id ty locals statements result
        (fun x hx => (ih x (by simp [children, hx])).1) (ih result (by simp [children])).1
    | assign id left right =>
      have hright := (ih right (by simp [children])).1
      have hbelow := (ih left (by simp [children])).2
      cases left with
      | member leftId target field =>
        exact assignMember id leftId target field right (hbelow target (by simp [children])) hright
      | arrayIndex leftId array index =>
        exact assignElement id leftId array index right (hbelow array (by simp [children]))
          (hbelow index (by simp [children])) hright
      | parameter leftId var => exact assignLocal id leftId var right hright
      | assign leftId l r => exact assignOther id _ right rfl
      | constant leftId value => exact assignOther id _ right rfl
      | call leftId receiver sig args => exact assignOther id _ right rfl
      | block leftId ty locals statements result => exact assignOther id _ right rfl
      | newArray leftId element elements => exact assignOther id _ right rfl

/-- The occurrences in several expressions, one expression after the other. -/
theorem occurrencesAll_eq (depth : Nat) (es : List Expr) :
    occurrencesAll depth es = es.flatMap (occurrencesAt false depth) := by
  induction es with
  | nil => rfl
  | cons e rest ih => rw [occurrencesAll, List.flatMap_cons, ih]

/-- Which nodes occur in an expression does not depend on where the expression itself stands. -/
theorem map_node_occurrencesAt (e : Expr) (target target' : Bool) (depth depth' : Nat) :
    (e.occurrencesAt target depth).map Occurrence.node =
      (e.occurrencesAt target' depth').map Occurrence.node := by
  induction e using children_induction generalizing target target' depth depth' with
  | step e ih =>
    have hall (es : List Expr) (hes : ∀ x ∈ es, x ∈ e.children) :
        (occurrencesAll (depth + 1) es).map Occurrence.node =
          (occurrencesAll (depth' + 1) es).map Occurrence.node := by
      simp only [occurrencesAll_eq, List.map_flatMap]
      exact List.flatMap_congr fun x hx => ih x (hes x hx) false false _ _
    cases e with
    | constant id value => rfl
    | parameter id var => rfl
    | member id target field =>
      simp only [occurrencesAt, List.map_cons]
      rw [ih target (by simp [children]) false false (depth + 1) (depth' + 1)]
    | assign id left right =>
      simp only [occurrencesAt, List.map_cons, List.map_append]
      rw [ih left (by simp [children]) true true (depth + 1) (depth' + 1),
        ih right (by simp [children]) false false (depth + 1) (depth' + 1)]
    | arrayIndex id array index =>
      simp only [occurrencesAt, List.map_cons, List.map_append]
      rw [ih array (by simp [children]) false false (depth + 1) (depth' + 1),
        ih index (by simp [children]) false false (depth + 1) (depth' + 1)]
    | newArray id element elements =>
      simp only [occurrencesAt, List.map_cons]
      rw [hall elements fun x hx => hx]
    | block id ty locals statements result =>
      simp only [occurrencesAt, List.map_cons, List.map_append]
      rw [hall statements fun x hx => by simp [children, hx],
        ih result (by simp [children]) false false (depth + 1) (depth' + 1)]
    | call id receiver sig args =>
      have hargs := hall args fun x hx => by simp [children, hx]
      cases receiver with
      | none => simp only [occurrencesAt, List.map_cons, hargs]
      | some receiver =>
        simp only [occurrencesAt, List.map_cons, List.map_append, hargs]
        rw [ih receiver (by simp [children]) false false (depth + 1) (depth' + 1)]

/-- The statement `P` holds of every node that occurs in the expression. -/
def Every (P : Expr → Prop) (e : Expr) : Prop := ∀ o ∈ e.occurrences, P o.node

section Every

variable {P : Expr → Prop}

/-- What holds of every node holds wherever the expression stands in a larger tree. -/
theorem every_iff_at (e : Expr) (target : Bool) (depth : Nat) :
    e.Every P ↔ ∀ o ∈ e.occurrencesAt target depth, P o.node := by
  have hmap (os : List Occurrence) : (∀ o ∈ os, P o.node) ↔ ∀ x ∈ os.map Occurrence.node, P x := by
    simp
  rw [Every, occurrences, hmap, hmap, map_node_occurrencesAt e false target 0 depth]

/-- What holds of every node in several expressions holds in each of them. -/
theorem forall_occurrencesAll {depth : Nat} {es : List Expr} :
    (∀ o ∈ occurrencesAll depth es, P o.node) ↔ ∀ x ∈ es, x.Every P := by
  simp only [occurrencesAll_eq, List.mem_flatMap, forall_exists_index, and_imp]
  constructor
  · intro h x hx
    exact (every_iff_at x false depth).mpr fun o ho => h o x hx ho
  · intro h o x hx ho
    exact (every_iff_at x false depth).mp (h x hx) o ho

/-- What holds of every node holds of the root and of every node in the children. -/
theorem every_iff (e : Expr) : e.Every P ↔ P e ∧ ∀ c ∈ e.children, c.Every P := by
  have hat (x : Expr) (target : Bool) := (every_iff_at (P := P) x target 1).symm
  cases e with
  | constant id value => simp [Every, occurrences, occurrencesAt, children]
  | parameter id var => simp [Every, occurrences, occurrencesAt, children]
  | member id target field =>
    simp [Every.eq_def _ (Expr.member ..), occurrences, occurrencesAt, children, hat]
  | assign id left right =>
    simp [Every.eq_def _ (Expr.assign ..), occurrences, occurrencesAt, children, hat, or_imp,
      forall_and]
  | arrayIndex id array index =>
    simp [Every.eq_def _ (Expr.arrayIndex ..), occurrences, occurrencesAt, children, hat, or_imp,
      forall_and]
  | newArray id element elements =>
    simp [Every.eq_def _ (Expr.newArray ..), occurrences, occurrencesAt, children,
      forall_occurrencesAll]
  | block id ty locals statements result =>
    simp [Every.eq_def _ (Expr.block ..), occurrences, occurrencesAt, children, hat, or_imp,
      forall_and, forall_occurrencesAll]
  | call id receiver sig args =>
    cases receiver with
    | none =>
      simp [Every.eq_def _ (Expr.call ..), occurrences, occurrencesAt, children,
        forall_occurrencesAll]
    | some receiver =>
      simp [Every.eq_def _ (Expr.call ..), occurrences, occurrencesAt, children, hat, or_imp,
        forall_and, forall_occurrencesAll]

variable {id : NodeId}

/-- There is only one node in a constant. -/
@[simp] theorem every_constant {value : Literal} :
    (constant id value).Every P ↔ P (constant id value) := by
  rw [every_iff]
  simp [children]

/-- There is only one node in a variable. -/
@[simp] theorem every_parameter {var : Variable} :
    (parameter id var).Every P ↔ P (parameter id var) := by
  rw [every_iff]
  simp [children]

/-- The nodes in a field access are the access itself and those in its target. -/
@[simp] theorem every_member {target : Expr} {field : Field} :
    (member id target field).Every P ↔ P (member id target field) ∧ target.Every P := by
  rw [every_iff]
  simp [children]

/-- The nodes in an assignment are the assignment itself and those in its sides. -/
@[simp] theorem every_assign {left right : Expr} :
    (assign id left right).Every P ↔ P (assign id left right) ∧ left.Every P ∧ right.Every P := by
  rw [every_iff]
  simp [children]

/-- The nodes in an element are the element itself and those in the array and in the index. -/
@[simp] theorem every_arrayIndex {array index : Expr} :
    (arrayIndex id array index).Every P ↔
      P (arrayIndex id array index) ∧ array.Every P ∧ index.Every P := by
  rw [every_iff]
  simp [children]

/-- The nodes in a call are the call itself and those in its receiver and its arguments. -/
@[simp] theorem every_call {receiver : Option Expr} {sig : Signature} {args : List Expr} :
    (call id receiver sig args).Every P ↔
      P (call id receiver sig args) ∧ (∀ r ∈ receiver, r.Every P) ∧ ∀ a ∈ args, a.Every P := by
  rw [every_iff]
  simp [children, or_imp, forall_and]

/-- The nodes in an array literal are the literal itself and those in its elements. -/
@[simp] theorem every_newArray {element : Ty} {elements : List Expr} :
    (newArray id element elements).Every P ↔
      P (newArray id element elements) ∧ ∀ x ∈ elements, x.Every P := by
  rw [every_iff]
  simp [children]

/-- The nodes in a block are the block itself and those in its statements and its result. -/
@[simp] theorem every_block {ty : Ty} {locals : List Variable} {statements : List Expr}
    {result : Expr} :
    (block id ty locals statements result).Every P ↔
      P (block id ty locals statements result) ∧ (∀ x ∈ statements, x.Every P) ∧
        result.Every P := by
  rw [every_iff]
  simp [children, or_imp, forall_and]

/-- Two statements hold of every node together if each of them does. -/
theorem Every.and {Q : Expr → Prop} {e : Expr} (hP : e.Every P) (hQ : e.Every Q) :
    e.Every fun x => P x ∧ Q x := fun o ho => ⟨hP o ho, hQ o ho⟩

end Every

end Expr

end MethodBody
