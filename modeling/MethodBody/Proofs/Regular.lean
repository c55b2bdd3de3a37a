import MethodBody.Proofs.Generated

/-!
# Regular expressions

A regular expression holds no block, can be lowered, and has as many arguments at each call as the
signature asks for. `Expr.Regular` has one case for each form of code, and says of all operands what
a statement needs of them. `Expr.RegularRoot` adds method bodies, whose block is at the root. What
was made by constructions and compiles is one or the other, so that statements about compiled code
are proved by induction on this.
-/

namespace MethodBody.Expr

/-- Whether an expression has a value. An assignment has none, nor has a call of a method without
result. -/
def hasValue : Expr → Bool
  | .constant .. => true
  | .parameter .. => true
  | .member .. => true
  | .newArray .. => true
  | .call _ _ sig _ => sig.returnsValue
  | .assign .. => false
  | .block .. => false
  | .arrayIndex .. => false

/-- The operands of a node: the expressions whose values it uses. The array and the index of an
element that is assigned to are operands of the assignment. -/
def operands : Expr → List Expr
  | .constant .. => []
  | .parameter .. => []
  | .member _ target _ => [target]
  | .assign _ (.arrayIndex _ array index) right => [array, index, right]
  | .assign _ _ right => [right]
  | .call _ receiver _ args => receiver.toList ++ args
  | .block _ ty _ _ result => if ty.isVoid then [] else [result]
  | .arrayIndex .. => []
  | .newArray _ _ elements => elements

/-- The node is not a block. -/
def NotBlock (e : Expr) : Prop := e.kind ≠ .block

/-- All operands of the node have values. -/
def OperandsValued (e : Expr) : Prop := ∀ o ∈ e.operands, o.hasValue = true

/-- The expressions without blocks that can be lowered at some depth, where `Q` holds of all
operands. There is one case for each form of code. -/
inductive Regular (Q : Expr → Prop) : Expr → Prop where
  | constant {id : NodeId} {value : Literal} : Regular Q (.constant id value)
  | parameter {id : NodeId} {var : Variable} : Regular Q (.parameter id var)
  | member {id : NodeId} {target : Expr} {field : Field} (htarget : Regular Q target)
      (hQ : Q target) : Regular Q (.member id target field)
  | assignMember {id leftId : NodeId} {target right : Expr} {field : Field}
      (htarget : Regular Q target) (hright : Regular Q right) (hQ : Q target) (hQ' : Q right) :
      Regular Q (.assign id (.member leftId target field) right)
  | assignElement {id leftId : NodeId} {array index right : Expr} (harray : Regular Q array)
      (hindex : Regular Q index) (hright : Regular Q right) (hQ : Q array) (hQ' : Q index)
      (hQ'' : Q right) : Regular Q (.assign id (.arrayIndex leftId array index) right)
  | assignLocal {id leftId : NodeId} {var : Variable} {right : Expr} (hright : Regular Q right)
      (hQ : Q right) : Regular Q (.assign id (.parameter leftId var) right)
  | callStatic {id : NodeId} {sig : Signature} {args : List Expr}
      (hargs : ∀ a ∈ args, Regular Q a) (hQ : ∀ a ∈ args, Q a)
      (harity : args.length = sig.params.length) : Regular Q (.call id none sig args)
  | callVirtual {id : NodeId} {receiver : Expr} {sig : Signature} {args : List Expr}
      (hreceiver : Regular Q receiver) (hargs : ∀ a ∈ args, Regular Q a) (hQ : Q receiver)
      (hQ' : ∀ a ∈ args, Q a) (harity : args.length = sig.params.length) :
      Regular Q (.call id (some receiver) sig args)
  | newArray {id : NodeId} {element : Ty} {elements : List Expr}
      (helements : ∀ x ∈ elements, Regular Q x) (hQ : ∀ x ∈ elements, Q x)
      (hlength : elements.length ≤ Build.maxArrayLength) :
      Regular Q (.newArray id element elements)

/-- Regular expressions have code. -/
theorem Regular.code_ne_nil {Q : Expr → Prop} {e : Expr} (h : Regular Q e) : e.code ≠ [] := by
  cases h <;> simp [code]

/-- An expression without blocks can be lowered only if it is regular, given that its nodes are
sound and `Q` holds of all operands. -/
theorem Lowers.regular {Q : Expr → Prop} {e : Expr} {limit depth : Nat}
    (hlowers : e.Lowers limit depth)
    (h : e.Every fun x => (x.Sound ∧ x.NotBlock) ∧ ∀ o ∈ x.operands, Q o) : Regular Q e := by
  induction e using shape_induction generalizing depth with
  | arrayIndex id array index => exact absurd hlowers not_lowers_arrayIndex
  | assignOther id left right hleft => exact absurd hlowers (not_lowers_assign hleft)
  | constant id value => exact .constant
  | parameter id var => exact .parameter
  | member id target field ih =>
    obtain ⟨-, htarget⟩ := lowers_member.mp hlowers
    obtain ⟨⟨-, hQ⟩, hbelow⟩ := every_member.mp h
    exact .member (ih htarget hbelow) (hQ target (by simp [operands]))
  | assignMember id leftId target field right iht ihr =>
    obtain ⟨-, htarget, hright⟩ := lowers_assign_member.mp hlowers
    obtain ⟨⟨-, hQ⟩, hleft, hbelow⟩ := every_assign.mp h
    obtain ⟨⟨-, hQ'⟩, hbelow'⟩ := every_member.mp hleft
    exact .assignMember (iht htarget hbelow') (ihr hright hbelow) (hQ' target (by simp [operands]))
      (hQ right (by simp [operands]))
  | assignElement id leftId array index right iha ihi ihr =>
    obtain ⟨-, harray, hindex, hright⟩ := lowers_assign_arrayIndex.mp hlowers
    obtain ⟨⟨-, hQ⟩, hleft, hbelow⟩ := every_assign.mp h
    obtain ⟨-, ha, hi⟩ := every_arrayIndex.mp hleft
    exact .assignElement (iha harray ha) (ihi hindex hi) (ihr hright hbelow)
      (hQ array (by simp [operands])) (hQ index (by simp [operands]))
      (hQ right (by simp [operands]))
  | assignLocal id leftId var right ih =>
    obtain ⟨-, hright⟩ := lowers_assign_parameter.mp hlowers
    obtain ⟨⟨-, hQ⟩, -, hbelow⟩ := every_assign.mp h
    exact .assignLocal (ih hright hbelow) (hQ right (by simp [operands]))
  | callStatic id sig args ih =>
    obtain ⟨-, hargs⟩ := lowers_call_none.mp hlowers
    obtain ⟨⟨⟨hsound, -⟩, hQ⟩, -, hbelow⟩ := every_call.mp h
    exact .callStatic (fun a ha => ih a ha (hargs a ha) (hbelow a ha))
      (fun a ha => hQ a (by simp [operands, ha])) hsound.2.2
  | callVirtual id receiver sig args ihr ih =>
    obtain ⟨-, hreceiver, hargs⟩ := lowers_call_some.mp hlowers
    obtain ⟨⟨⟨hsound, -⟩, hQ⟩, hr, hbelow⟩ := every_call.mp h
    exact .callVirtual (ihr hreceiver (hr receiver rfl))
      (fun a ha => ih a ha (hargs a ha) (hbelow a ha)) (hQ receiver (by simp [operands]))
      (fun a ha => hQ a (by simp [operands, ha])) hsound.2.2
  | newArray id element elements ih =>
    obtain ⟨-, helements⟩ := lowers_newArray.mp hlowers
    obtain ⟨⟨⟨hsound, -⟩, hQ⟩, hbelow⟩ := every_newArray.mp h
    exact .newArray (fun x hx => ih x hx (helements x hx) (hbelow x hx)) (fun x hx => hQ x hx)
      hsound.2
  | block id ty locals statements result =>
    obtain ⟨⟨⟨-, hblock⟩, -⟩, -⟩ := every_block.mp h
    exact absurd rfl hblock

/-- The trees with blocks at most at the root that can be lowered: a regular expression, or a method
body of regular expressions. The result of a body that is not void is an operand too. -/
inductive RegularRoot (Q : Expr → Prop) : Expr → Prop where
  | expr {e : Expr} (he : e.NotBlock) (h : Regular Q e) : RegularRoot Q e
  | body {id : NodeId} {ty : Ty} {locals : List Variable} {statements : List Expr} {result : Expr}
      (hstatements : ∀ x ∈ statements, Regular Q x) (hresult : Regular Q result)
      (hQ : ty.isVoid = false → Q result) :
      RegularRoot Q (.block id ty locals statements result)

/-- What constructions make, with blocks at most at the root, compiles only if it is regular. -/
theorem BuilderMade.regularRoot {Q : Expr → Prop} {e : Expr} {limit : Nat} (hmade : e.BuilderMade)
    (hblocks : ∀ c ∈ e.children, c.Every NotBlock)
    (hoperands : e.Every fun x => ∀ o ∈ x.operands, Q o)
    (hok : (e.compile limit).error? = none) : RegularRoot Q e := by
  rw [error?_compile] at hok
  have hlowers : e.Lowers limit 0 := hok
  have hsound := hmade.every_sound
  by_cases he : e.NotBlock
  · have hnone : e.Every NotBlock := (every_iff e).mpr ⟨he, hblocks⟩
    exact .expr he (hlowers.regular ((hsound.and hnone).and hoperands))
  · cases e with
    | block id ty locals statements result =>
      obtain ⟨-, hstatements, hresult⟩ := lowers_block.mp hlowers
      have hbelow (c : Expr) (hc : c ∈ (block id ty locals statements result).children) :=
        ((((every_iff _).mp hsound).2 c hc).and (hblocks c hc)).and
          (((every_iff _).mp hoperands).2 c hc)
      refine .body (fun x hx => (hstatements x hx).regular (hbelow x ?_))
        (hresult.regular (hbelow result ?_)) fun hvoid => ?_
      · simp [children, hx]
      · simp [children]
      · exact ((every_iff _).mp hoperands).1 result (by simp [operands, hvoid])
    | _ => exact absurd (by simp [NotBlock, kind]) he

end MethodBody.Expr

namespace MethodBody.Sample

/-- The statement of the sample holds no block. -/
theorem every_notBlock_store (name : String) : (store name).Every Expr.NotBlock := by
  simp [store, element, array, zero, sum, self, literal, Expr.NotBlock, Expr.kind]

/-- All operands in the sample have values. -/
theorem every_operandsValued_store (name : String) : (store name).Every Expr.OperandsValued := by
  simp [store, element, array, zero, sum, self, literal, Expr.OperandsValued, Expr.operands,
    Expr.hasValue, total, Signature.returnsValue, Ty.isVoid]

/-- The one block of the sample body is its root. -/
theorem every_notBlock_children_body (name : String) :
    ∀ c ∈ (body name).children, c.Every Expr.NotBlock := by
  simpa [body, Expr.children] using every_notBlock_store name

end MethodBody.Sample
