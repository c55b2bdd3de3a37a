import MethodBody.Proofs.Generated
import MethodBody.Proofs.Stream

/-!
# Which instruction comes from which node

Lowering turns every node into instructions of its own and neither drops, repeats nor moves any.
Most nodes are finished by one instruction, which stands after those of all nodes below, so that
these instructions follow the postorder of the tree. Array literals alone begin with their
instructions, which follow the preorder, and have some for each element. `Expr.Inventory` says what
of each kind is in the code.
-/

namespace MethodBody

namespace Expr

mutual

/-- The occurrences in an expression that itself lies at the given depth, in postorder: a node comes
after all below it. -/
def postorderAt (isTarget : Bool) (depth : Nat) : Expr → List Occurrence
  | e@(.constant ..) => [⟨e, depth, isTarget⟩]
  | e@(.parameter ..) => [⟨e, depth, isTarget⟩]
  | e@(.member _ target _) => target.postorderAt false (depth + 1) ++ [⟨e, depth, isTarget⟩]
  | e@(.assign _ left right) =>
    left.postorderAt true (depth + 1) ++ right.postorderAt false (depth + 1)
      ++ [⟨e, depth, isTarget⟩]
  | e@(.call _ none _ args) => postorderAll (depth + 1) args ++ [⟨e, depth, isTarget⟩]
  | e@(.call _ (some receiver) _ args) =>
    receiver.postorderAt false (depth + 1) ++ postorderAll (depth + 1) args
      ++ [⟨e, depth, isTarget⟩]
  | e@(.block _ _ _ statements result) =>
    postorderAll (depth + 1) statements ++ result.postorderAt false (depth + 1)
      ++ [⟨e, depth, isTarget⟩]
  | e@(.arrayIndex _ array index) =>
    array.postorderAt false (depth + 1) ++ index.postorderAt false (depth + 1)
      ++ [⟨e, depth, isTarget⟩]
  | e@(.newArray _ _ elements) => postorderAll (depth + 1) elements ++ [⟨e, depth, isTarget⟩]

/-- The occurrences in several expressions that lie at one depth, in postorder. -/
def postorderAll (depth : Nat) : List Expr → List Occurrence
  | [] => []
  | e :: rest => e.postorderAt false depth ++ postorderAll depth rest

end

/-- The occurrences in a whole tree, in postorder. -/
def postorder (e : Expr) : List Occurrence := e.postorderAt false 0

end Expr

namespace Occurrence

/-- The value of a constant. -/
def literal? (o : Occurrence) : Option Literal :=
  match o.node with
  | .constant _ value => some value
  | _ => none

/-- The slot of a variable that is read. -/
def loaded? (o : Occurrence) : Option UInt16 :=
  match o.node with
  | .parameter _ var => if o.isTarget then none else some var.slot
  | _ => none

/-- The slot of a variable that is assigned to. -/
def stored? (o : Occurrence) : Option UInt16 :=
  match o.node with
  | .assign _ (.parameter _ var) _ => some var.slot
  | _ => none

/-- The field that is read. -/
def fieldRead? (o : Occurrence) : Option Field :=
  match o.node with
  | .member _ _ field => if o.isTarget then none else some field
  | _ => none

/-- The field that is assigned to. -/
def fieldWritten? (o : Occurrence) : Option Field :=
  match o.node with
  | .assign _ (.member _ _ field) _ => some field
  | _ => none

/-- Whether an array element is assigned to. -/
def storesElement (o : Occurrence) : Bool :=
  match o.node with
  | .assign _ (.arrayIndex ..) _ => true
  | _ => false

/-- The invocation that a call asks for: a virtual one if there is a receiver. -/
def invoke? (o : Occurrence) : Option Instruction :=
  match o.node with
  | .call _ (some _) sig _ => some (.invokeVirtual sig)
  | .call _ none sig _ => some (.invokeStatic sig)
  | _ => none

/-- The return of a block: one without a value if the block is void. -/
def return? (o : Occurrence) : Option Instruction :=
  match o.node with
  | .block _ ty _ _ _ => some (if ty.isVoid then .returnVoid else .returnValue)
  | _ => none

/-- The element type of an array literal. -/
def arrayType? (o : Occurrence) : Option Ty :=
  match o.node with
  | .newArray _ element _ => some element
  | _ => none

/-- The elements of an array literal. -/
def elements (o : Occurrence) : List Expr :=
  match o.node with
  | .newArray _ _ elements => elements
  | _ => []

/-- The instruction that a node is finished by. An array literal is begun and not finished by its
instructions, and a left side gives none of its own. -/
def closing? (o : Occurrence) : Option Instruction :=
  match o.node with
  | .constant _ value => some (.pushLiteral value)
  | .parameter _ var => if o.isTarget then none else some (.loadLocal var.slot)
  | .member _ _ field => if o.isTarget then none else some (.getField field)
  | .assign _ (.parameter _ var) _ => some (.storeLocal var.slot)
  | .assign _ (.member _ _ field) _ => some (.putField field)
  | .assign _ (.arrayIndex ..) _ => some .storeArrayElement
  | .assign .. => none
  | .call _ (some _) sig _ => some (.invokeVirtual sig)
  | .call _ none sig _ => some (.invokeStatic sig)
  | .block _ ty _ _ _ => some (if ty.isVoid then .returnVoid else .returnValue)
  | .arrayIndex .. => none
  | .newArray .. => none

end Occurrence

namespace Instruction

/-- The literal that is pushed. -/
def literal? : Instruction → Option Literal
  | pushLiteral value => some value
  | _ => none

/-- The slot of the variable that is loaded. -/
def loaded? : Instruction → Option UInt16
  | loadLocal slot => some slot
  | _ => none

/-- The slot of the variable that is stored to. -/
def stored? : Instruction → Option UInt16
  | storeLocal slot => some slot
  | _ => none

/-- The field that is read. -/
def fieldRead? : Instruction → Option Field
  | getField field => some field
  | _ => none

/-- The field that is written. -/
def fieldWritten? : Instruction → Option Field
  | putField field => some field
  | _ => none

/-- The element type of the array that is made. -/
def arrayType? : Instruction → Option Ty
  | newArray element => some element
  | _ => none

/-- Whether a method is invoked. -/
def isInvoke : Instruction → Bool
  | invokeVirtual _ => true
  | invokeStatic _ => true
  | _ => false

/-- Whether only the node that it finishes can give the instruction. Array literals give the
others. -/
def isClosing : Instruction → Bool
  | pushInt _ => false
  | newArray _ => false
  | dupArrayRef => false
  | storeArrayElement => false
  | _ => true

/-- Numbers are pushed by array literals on their way. -/
@[simp] theorem isClosing_pushInt (n : Int32) : (pushInt n).isClosing = false := rfl

/-- Arrays are made by array literals on their way. -/
@[simp] theorem isClosing_newArray (element : Ty) : (newArray element).isClosing = false := rfl

/-- References are duplicated by array literals on their way. -/
@[simp] theorem isClosing_dupArrayRef : dupArrayRef.isClosing = false := rfl

/-- Elements are stored by array literals on their way, and not by assignments alone. -/
@[simp] theorem isClosing_storeArrayElement : storeArrayElement.isClosing = false := rfl

end Instruction

/-- What the code of an expression consists of, kind by kind. -/
structure Expr.Inventory (e : Expr) (code : List Instruction) : Prop where
  /-- The constants are pushed from left to right. -/
  literals : code.filterMap Instruction.literal? = e.occurrences.filterMap Occurrence.literal?
  /-- The variables that are read are loaded from left to right. -/
  loads : code.filterMap Instruction.loaded? = e.occurrences.filterMap Occurrence.loaded?
  /-- Stores into variables come in postorder. -/
  stores : code.filterMap Instruction.stored? = e.postorder.filterMap Occurrence.stored?
  /-- Stores into fields come in postorder. -/
  fieldWrites :
    code.filterMap Instruction.fieldWritten? = e.postorder.filterMap Occurrence.fieldWritten?
  /-- Fields that are not assigned to are read in postorder. -/
  fieldReads : code.filterMap Instruction.fieldRead? = e.postorder.filterMap Occurrence.fieldRead?
  /-- Methods are invoked in postorder, virtually if there is a receiver. -/
  invokes : code.filter Instruction.isInvoke = e.postorder.filterMap Occurrence.invoke?
  /-- Arrays are made in preorder. -/
  arrays : code.filterMap Instruction.arrayType? = e.occurrences.filterMap Occurrence.arrayType?
  /-- The reference to an array is duplicated once for each element of an array literal. -/
  dups : code.count .dupArrayRef = (e.occurrences.flatMap Occurrence.elements).length
  /-- An element is stored for each element of an array literal and each assignment to one. -/
  elementStores : code.count .storeArrayElement =
    (e.occurrences.flatMap Occurrence.elements).length +
      e.occurrences.countP Occurrence.storesElement
  /-- Blocks return in postorder, without a value if they are void. -/
  returns : code.filter Instruction.isReturn = e.postorder.filterMap Occurrence.return?
  /-- The code of a block ends with its return. -/
  ends : ∀ id ty locals statements result, e = .block id ty locals statements result →
    code.getLast? = some (if ty.isVoid then .returnVoid else .returnValue)

namespace Expr

/-- What relates preorder to postorder: it passes from the parts to their sequence, and from all
below a node to the node, which comes first in one and last in the other. Below a constant or a
variable there is nothing. -/
theorem orders_induction {R : List Occurrence → List Occurrence → Prop} (nil : R [] [])
    (append : ∀ {pre pre' post post'}, R pre post → R pre' post' → R (pre ++ pre') (post ++ post'))
    (node : ∀ o pre post,
      (o.node.kind = .constant ∨ o.node.kind = .parameter → pre = [] ∧ post = []) →
        R pre post → R (o :: pre) (post ++ [o]))
    (e : Expr) (isTarget : Bool) (depth : Nat) :
    R (e.occurrencesAt isTarget depth) (e.postorderAt isTarget depth) := by
  induction e using children_induction generalizing isTarget depth with
  | step e ih =>
    have hall (es : List Expr) (hes : ∀ x ∈ es, x ∈ e.children) (depth : Nat) :
        R (occurrencesAll depth es) (postorderAll depth es) := by
      induction es with
      | nil => exact nil
      | cons x rest ihrest =>
        exact append (ih x (hes x (by simp)) false depth)
          (ihrest fun y hy => hes y (by simp [hy]))
    cases e with
    | constant id value => exact node _ [] [] (fun _ => ⟨rfl, rfl⟩) nil
    | parameter id var => exact node _ [] [] (fun _ => ⟨rfl, rfl⟩) nil
    | member id target field =>
      exact node _ _ _ (by simp [kind]) (ih target (by simp [children]) false (depth + 1))
    | assign id left right =>
      exact node _ _ _ (by simp [kind]) (append (ih left (by simp [children]) true (depth + 1))
        (ih right (by simp [children]) false (depth + 1)))
    | arrayIndex id array index =>
      exact node _ _ _ (by simp [kind]) (append (ih array (by simp [children]) false (depth + 1))
        (ih index (by simp [children]) false (depth + 1)))
    | newArray id element elements =>
      exact node _ _ _ (by simp [kind]) (hall elements (fun x hx => hx) (depth + 1))
    | block id ty locals statements result =>
      exact node _ _ _ (by simp [kind])
        (append (hall statements (fun x hx => by simp [children, hx]) (depth + 1))
          (ih result (by simp [children]) false (depth + 1)))
    | call id receiver sig args =>
      have hargs := hall args (fun x hx => by simp [children, hx]) (depth + 1)
      cases receiver with
      | none => exact node _ _ _ (by simp [kind]) hargs
      | some receiver =>
        exact node _ _ _ (by simp [kind])
          (append (ih receiver (by simp [children]) false (depth + 1)) hargs)

/-- Preorder and postorder list the same occurrences. -/
theorem postorder_perm (e : Expr) : e.postorder.Perm e.occurrences := by
  refine orders_induction (R := fun pre post => post.Perm pre) .nil (fun h h' => h.append h') ?_ e
    false 0
  intro o pre post _ h
  exact (List.perm_append_singleton o post).trans (h.cons o)

/-- Constants and variables stand in the same order in both. -/
theorem filterMap_postorder_of_leaf {β : Type} {f : Occurrence → Option β}
    (hf : ∀ o, ¬ (o.node.kind = .constant ∨ o.node.kind = .parameter) → f o = none) (e : Expr) :
    e.postorder.filterMap f = e.occurrences.filterMap f := by
  refine orders_induction (R := fun pre post => post.filterMap f = pre.filterMap f) rfl
    (fun h h' => by rw [List.filterMap_append, List.filterMap_append, h, h']) ?_ e false 0
  intro o pre post hleaf h
  by_cases ho : o.node.kind = .constant ∨ o.node.kind = .parameter
  · obtain ⟨rfl, rfl⟩ := hleaf ho
    rfl
  · simp [hf o ho, h]

end Expr

namespace Occurrence

/-- A node other than an array literal makes no array. -/
theorem arrayType?_eq_none {o : Occurrence} (ho : o.node.kind ≠ .newArray) :
    o.arrayType? = none := by
  unfold arrayType?
  split
  · simp_all [Expr.kind]
  · rfl

/-- Only array literals have elements. -/
theorem elements_eq_nil {o : Occurrence} (ho : o.node.kind ≠ .newArray) : o.elements = [] := by
  unfold elements
  split
  · simp_all [Expr.kind]
  · rfl

/-- No array is made by what a node is finished by. -/
theorem filterMap_arrayType?_closing (o : Occurrence) :
    o.closing?.toList.filterMap Instruction.arrayType? = [] := by
  unfold closing?
  split <;> (try split) <;> rfl

/-- No node is closed by duplicating a reference. -/
theorem count_dup_closing (o : Occurrence) :
    o.closing?.toList.count Instruction.dupArrayRef = 0 := by
  unfold closing?
  split <;> (try split) <;> rfl

/-- Only an assignment to an element is closed by storing an element. -/
theorem count_store_closing (o : Occurrence) :
    o.closing?.toList.count Instruction.storeArrayElement = if o.storesElement then 1 else 0 := by
  obtain ⟨node, depth, isTarget⟩ := o
  cases node with
  | parameter | member => cases isTarget <;> rfl
  | assign id left right => cases left <;> rfl
  | call id receiver sig args => cases receiver <;> rfl
  | block id ty locals statements result =>
    simp only [closing?, storesElement]
    split <;> rfl
  | constant | arrayIndex | newArray => rfl

/-- An instruction, if there is one, does what an occurrence asks for and nothing else. -/
structure Obeys (instruction? : Option Instruction) (o : Occurrence) : Prop where
  literal : instruction?.bind Instruction.literal? = o.literal?
  load : instruction?.bind Instruction.loaded? = o.loaded?
  store : instruction?.bind Instruction.stored? = o.stored?
  fieldWrite : instruction?.bind Instruction.fieldWritten? = o.fieldWritten?
  fieldRead : instruction?.bind Instruction.fieldRead? = o.fieldRead?
  invoke : instruction?.bind (Option.guard Instruction.isInvoke) = o.invoke?
  returning : instruction?.bind (Option.guard Instruction.isReturn) = o.return?

/-- What finishes a node does what the node asks for. -/
theorem obeys_closing? (o : Occurrence) : Obeys o.closing? o := by
  obtain ⟨node, depth, isTarget⟩ := o
  cases node with
  | constant | arrayIndex | newArray => exact ⟨rfl, rfl, rfl, rfl, rfl, rfl, rfl⟩
  | parameter | member => cases isTarget <;> exact ⟨rfl, rfl, rfl, rfl, rfl, rfl, rfl⟩
  | assign id left right => cases left <;> exact ⟨rfl, rfl, rfl, rfl, rfl, rfl, rfl⟩
  | call id receiver sig args => cases receiver <;> exact ⟨rfl, rfl, rfl, rfl, rfl, rfl, rfl⟩
  | block id ty locals statements result =>
    cases ty <;> exact ⟨rfl, rfl, rfl, rfl, rfl, rfl, rfl⟩

end Occurrence

/-- The code holds what the occurrences ask for, which are given in preorder and in postorder, and
beside it the instructions for `extra` elements of an array literal that is not among them. -/
structure Yields (extra : Nat) (code : List Instruction) (pre post : List Occurrence) : Prop where
  closing : code.filter Instruction.isClosing =
    (post.filterMap Occurrence.closing?).filter Instruction.isClosing
  arrays : code.filterMap Instruction.arrayType? = pre.filterMap Occurrence.arrayType?
  dups : code.count .dupArrayRef = (pre.flatMap Occurrence.elements).length + extra
  elementStores : code.count .storeArrayElement =
    (pre.flatMap Occurrence.elements).length + pre.countP Occurrence.storesElement + extra

namespace Yields

variable {extra extra' : Nat} {code code' : List Instruction}
  {pre pre' post post' : List Occurrence}

/-- Nothing yields nothing. -/
theorem nil : Yields 0 [] [] [] := ⟨rfl, rfl, rfl, rfl⟩

/-- What is done in turn yields what each of its parts yields. -/
theorem append (h : Yields extra code pre post) (h' : Yields extra' code' pre' post') :
    Yields (extra + extra') (code ++ code') (pre ++ pre') (post ++ post') where
  closing := by simp [h.closing, h'.closing]
  arrays := by simp [h.arrays, h'.arrays]
  dups := by
    simp only [List.count_append, h.dups, h'.dups, List.flatMap_append, List.length_append]
    omega
  elementStores := by
    simp only [List.count_append, h.elementStores, h'.elementStores, List.flatMap_append,
      List.length_append, List.countP_append]
    omega

/-- A node that is no array literal adds the instruction that finishes it, if there is one. -/
theorem node (h : Yields extra code pre post) {o : Occurrence} (ho : o.node.kind ≠ .newArray) :
    Yields extra (code ++ o.closing?.toList) (o :: pre) (post ++ [o]) where
  closing := by cases hclosing : o.closing? <;> simp [h.closing, hclosing]
  arrays := by
    rw [List.filterMap_append, o.filterMap_arrayType?_closing, h.arrays, List.append_nil,
      List.filterMap_cons_none (Occurrence.arrayType?_eq_none ho)]
  dups := by
    rw [List.count_append, o.count_dup_closing, h.dups, List.flatMap_cons,
      Occurrence.elements_eq_nil ho]
    rfl
  elementStores := by
    rw [List.count_append, o.count_store_closing, h.elementStores, List.flatMap_cons,
      Occurrence.elements_eq_nil ho, List.nil_append, List.countP_cons]
    omega

/-- The instructions around an element of an array literal. -/
theorem element (h : Yields extra code pre post) (position : Int32) :
    Yields (extra + 1) (.dupArrayRef :: .pushInt position :: code ++ [.storeArrayElement])
      pre post where
  closing := by simp [h.closing]
  arrays := by simp [List.filterMap_cons, Instruction.arrayType?, h.arrays]
  dups := by simp [h.dups, Nat.add_assoc]
  elementStores := by simp [h.elementStores, Nat.add_assoc]

/-- An array literal begins with its instructions and accounts for those of its elements. -/
theorem literal {elements : List Expr} (h : Yields elements.length code pre post) (id : NodeId)
    (element : Ty) (length : Int32) (depth : Nat) (isTarget : Bool) :
    Yields 0 (.pushInt length :: .newArray element :: code)
      (⟨.newArray id element elements, depth, isTarget⟩ :: pre)
      (post ++ [⟨.newArray id element elements, depth, isTarget⟩]) where
  closing := by simp [h.closing, Occurrence.closing?]
  arrays := by simp [List.filterMap_cons, Instruction.arrayType?, h.arrays, Occurrence.arrayType?]
  dups := by
    simp only [ne_eq, reduceCtorEq, not_false_eq_true, List.count_cons_of_ne, h.dups,
      Occurrence.elements, List.flatMap_cons, List.length_append]
    omega
  elementStores := by
    simp only [ne_eq, reduceCtorEq, not_false_eq_true, List.count_cons_of_ne, h.elementStores,
      Occurrence.elements, List.flatMap_cons, List.length_append, Occurrence.storesElement,
      Bool.false_eq_true, List.countP_cons_of_neg]
    omega

/-- What can be read only off instructions that finish nodes comes in the postorder of the nodes. -/
theorem filterMap_eq {β : Type} {f : Instruction → Option β} {g : Occurrence → Option β}
    (h : Yields extra code pre post)
    (hf : ∀ n element, f (.pushInt n) = none ∧ f (.newArray element) = none ∧
      f .dupArrayRef = none ∧ f .storeArrayElement = none)
    (hg : ∀ o : Occurrence, o.closing?.bind f = g o) : code.filterMap f = post.filterMap g := by
  have hother (i : Instruction) (hi : i.isClosing = false) : f i = none := by
    cases i with
    | pushInt n => exact (hf n .void).1
    | newArray element => exact (hf 0 element).2.1
    | dupArrayRef => exact (hf 0 .void).2.2.1
    | storeArrayElement => exact (hf 0 .void).2.2.2
    | pushLiteral | loadLocal | storeLocal | getField | putField | invokeVirtual | invokeStatic
    | returnValue | returnVoid => cases hi
  have hdrop (is : List Instruction) :
      (is.filter Instruction.isClosing).filterMap f = is.filterMap f := by
    rw [List.filterMap_filter]
    refine List.filterMap_congr fun i _ => ?_
    cases hi : i.isClosing with
    | true => simp
    | false => simp [hother i hi]
  calc code.filterMap f
    _ = (code.filter Instruction.isClosing).filterMap f := (hdrop code).symm
    _ = (post.filterMap Occurrence.closing?).filterMap f := by rw [h.closing, hdrop]
    _ = post.filterMap g := by
      rw [List.filterMap_filterMap]
      exact List.filterMap_congr fun o _ => hg o

end Yields

namespace Expr

/-- Several expressions yield what they ask for if each of them does. -/
theorem yields_codeAll {es : List Expr} {depth : Nat}
    (hes : ∀ x ∈ es, Yields 0 x.code (x.occurrencesAt false depth) (x.postorderAt false depth)) :
    Yields 0 (codeAll es) (occurrencesAll depth es) (postorderAll depth es) := by
  induction es with
  | nil => exact .nil
  | cons x rest ih =>
    rw [codeAll, occurrencesAll, postorderAll]
    exact (hes x (by simp)).append (ih fun y hy => hes y (by simp [hy]))

/-- So do the elements of an array literal, with the instructions around each of them. -/
theorem yields_codeElements {es : List Expr} {depth : Nat}
    (hes : ∀ x ∈ es, Yields 0 x.code (x.occurrencesAt false depth) (x.postorderAt false depth))
    (position : Nat) :
    Yields es.length (codeElements position es) (occurrencesAll depth es)
      (postorderAll depth es) := by
  induction es generalizing position with
  | nil => exact .nil
  | cons x rest ih =>
    have hx := (hes x (by simp)).element (Int32.ofNat position)
    have hrest := ih (fun y hy => hes y (by simp [hy])) (position + 1)
    have hall := hx.append hrest
    rw [List.length_cons, Nat.add_comm, codeElements, occurrencesAll, postorderAll]
    simpa using hall

/-- The code of an expression yields what its occurrences ask for. -/
theorem Lowers.yields {e : Expr} {limit depth : Nat} (h : e.Lowers limit depth) :
    Yields 0 e.code (e.occurrencesAt false depth) (e.postorderAt false depth) := by
  induction e using shape_induction generalizing depth with
  | arrayIndex id array index => exact absurd h not_lowers_arrayIndex
  | assignOther id left right hleft => exact absurd h (not_lowers_assign hleft)
  | constant id value =>
    exact Yields.nil.node (o := ⟨.constant id value, depth, false⟩) (by simp [kind])
  | parameter id var =>
    exact Yields.nil.node (o := ⟨.parameter id var, depth, false⟩) (by simp [kind])
  | member id target field ih =>
    obtain ⟨-, htarget⟩ := lowers_member.mp h
    rw [code, occurrencesAt, postorderAt]
    exact (ih htarget).node (o := ⟨.member id target field, depth, false⟩) (by simp [kind])
  | assignMember id leftId target field right iht ihr =>
    obtain ⟨-, htarget, hright⟩ := lowers_assign_member.mp h
    have hleft := (iht htarget).node
      (o := ⟨.member leftId target field, depth + 1, true⟩) (by simp [kind])
    have hall := (hleft.append (ihr hright)).node
      (o := ⟨.assign id (.member leftId target field) right, depth, false⟩) (by simp [kind])
    simpa [code, occurrencesAt, postorderAt, Occurrence.closing?] using hall
  | assignElement id leftId array index right iha ihi ihr =>
    obtain ⟨-, harray, hindex, hright⟩ := lowers_assign_arrayIndex.mp h
    have hleft := ((iha harray).append (ihi hindex)).node
      (o := ⟨.arrayIndex leftId array index, depth + 1, true⟩) (by simp [kind])
    have hall := (hleft.append (ihr hright)).node
      (o := ⟨.assign id (.arrayIndex leftId array index) right, depth, false⟩) (by simp [kind])
    simpa [code, occurrencesAt, postorderAt, Occurrence.closing?] using hall
  | assignLocal id leftId var right ih =>
    obtain ⟨-, hright⟩ := lowers_assign_parameter.mp h
    have hleft := Yields.nil.node (o := ⟨.parameter leftId var, depth + 1, true⟩) (by simp [kind])
    have hall := (hleft.append (ih hright)).node
      (o := ⟨.assign id (.parameter leftId var) right, depth, false⟩) (by simp [kind])
    simpa [code, occurrencesAt, postorderAt, Occurrence.closing?] using hall
  | callStatic id sig args ih =>
    obtain ⟨-, hargs⟩ := lowers_call_none.mp h
    have hall := yields_codeAll fun a ha => ih a ha (hargs a ha)
    rw [code, occurrencesAt, postorderAt]
    exact hall.node (o := ⟨.call id none sig args, depth, false⟩) (by simp [kind])
  | callVirtual id receiver sig args ihr ih =>
    obtain ⟨-, hreceiver, hargs⟩ := lowers_call_some.mp h
    have hall := yields_codeAll fun a ha => ih a ha (hargs a ha)
    rw [code, occurrencesAt, postorderAt]
    exact ((ihr hreceiver).append hall).node
      (o := ⟨.call id (some receiver) sig args, depth, false⟩) (by simp [kind])
  | newArray id element elements ih =>
    obtain ⟨-, helements⟩ := lowers_newArray.mp h
    have hall := yields_codeElements (fun x hx => ih x hx (helements x hx)) 0
    rw [code, occurrencesAt, postorderAt]
    exact hall.literal id element _ depth false
  | block id ty locals statements result ih ihr =>
    obtain ⟨-, hstatements, hresult⟩ := lowers_block.mp h
    have hall := yields_codeAll fun x hx => ih x hx (hstatements x hx)
    rw [code, occurrencesAt, postorderAt]
    exact (hall.append (ihr hresult)).node
      (o := ⟨.block id ty locals statements result, depth, false⟩) (by simp [kind])

/-- What the occurrences in an expression ask for is the inventory of its code. -/
theorem inventory_of_yields {e : Expr} (h : Yields 0 e.code e.occurrences e.postorder) :
    e.Inventory e.code where
  literals := by
    rw [h.filterMap_eq (fun _ _ => ⟨rfl, rfl, rfl, rfl⟩) fun o => o.obeys_closing?.literal]
    refine filterMap_postorder_of_leaf (fun o ho => ?_) e
    unfold Occurrence.literal?
    split
    · simp_all [kind]
    · rfl
  loads := by
    rw [h.filterMap_eq (fun _ _ => ⟨rfl, rfl, rfl, rfl⟩) fun o => o.obeys_closing?.load]
    refine filterMap_postorder_of_leaf (fun o ho => ?_) e
    unfold Occurrence.loaded?
    split
    · simp_all [kind]
    · rfl
  stores := h.filterMap_eq (fun _ _ => ⟨rfl, rfl, rfl, rfl⟩) fun o => o.obeys_closing?.store
  fieldWrites :=
    h.filterMap_eq (fun _ _ => ⟨rfl, rfl, rfl, rfl⟩) fun o => o.obeys_closing?.fieldWrite
  fieldReads :=
    h.filterMap_eq (fun _ _ => ⟨rfl, rfl, rfl, rfl⟩) fun o => o.obeys_closing?.fieldRead
  invokes := by
    rw [← List.filterMap_eq_filter]
    exact h.filterMap_eq (fun _ _ => ⟨rfl, rfl, rfl, rfl⟩) fun o => o.obeys_closing?.invoke
  arrays := h.arrays
  dups := h.dups
  elementStores := h.elementStores
  returns := by
    rw [← List.filterMap_eq_filter]
    exact h.filterMap_eq (fun _ _ => ⟨rfl, rfl, rfl, rfl⟩) fun o => o.obeys_closing?.returning
  ends := by
    rintro id ty locals statements result rfl
    simp [code]

/-- No node is lost, repeated or moved by a lowering that goes through. What a recorder is given is
accounted for, kind by kind, by the occurrences in the tree, of which preorder and postorder list
the same. Every other sink is given the same instructions. -/
theorem compile_inventory (e : Expr) (limit : Nat) (hok : (e.compile limit).error? = none) :
    let emitted := (e.compile limit).sink.instructions.toList
    e.Inventory emitted ∧ e.postorder.Perm e.occurrences ∧
      ∀ (σ : Type) (sink : Sink σ) (start : σ),
        (e.lowerInto sink start limit).error? = none ∧
          (e.lowerInto sink start limit).sink = sink.feed start emitted := by
  have hlowers : e.Lowers limit 0 := by rwa [error?_compile] at hok
  have hcode := instructions_compile_eq_code hok
  refine ⟨?_, e.postorder_perm, fun σ sink start => ?_⟩
  · rw [hcode]
    exact inventory_of_yields hlowers.yields
  · rw [lowerInto_eq, hcode, hlowers.instructions_eq]
    exact ⟨hlowers, rfl⟩

end Expr

namespace Sample

/-- An array literal after a statement. One of its elements assigns to an element of another array,
and the other one is a whole method body. -/
def nested : Expr :=
  .block 9 .int [] [store "xs"] (.newArray 8 .int [store "xs", body "xs"])

end Sample

/-- The sample has five elements in four array literals, and three assignments to elements. -/
theorem Expr.compile_inventory_nested :
    let emitted := (Sample.nested.compile 6).sink.instructions.toList
    (Sample.nested.compile 6).error? = none ∧
      emitted.filterMap Instruction.loaded? = [1, 0, 1, 0, 1, 0] ∧
      emitted.filterMap Instruction.arrayType? = [.int, .int, .int, .int] ∧
      emitted.count .dupArrayRef = 5 ∧ emitted.count .storeArrayElement = 8 ∧
      emitted.filter Instruction.isReturn = [.returnVoid, .returnValue] := by
  have hok : (Sample.nested.compile 6).error? = none := by decide
  obtain ⟨hinventory, -, -⟩ := compile_inventory Sample.nested 6 hok
  exact ⟨hok, hinventory.loads, hinventory.arrays, hinventory.dups, hinventory.elementStores,
    hinventory.returns⟩

end MethodBody
