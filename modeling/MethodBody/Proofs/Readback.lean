import MethodBody.Proofs.Regular
import Mathlib.Data.List.Induction

/-!
# Reading code back

The code of an expression is a postfix form of it: every operand comes before the instruction that
uses it. `Readback.expr?` reads a tree off any code by keeping the trees that are complete so far on
a stack. Read so, compiled code gives the tree that it was made from as far as code can show it,
which is `Expr.erase`. So two trees with the same code differ in nothing else.
-/

namespace MethodBody

namespace Expr

/-- A variable of which only the slot is known. -/
def slotOnly (slot : UInt16) : Variable := ⟨slot, "", none⟩

mutual

/-- What code shows of an expression. Identities are dropped, of a variable only its slot is kept,
and of a block neither its variables nor its type, but whether it is void. -/
def erase : Expr → Expr
  | .assign _ left right => .assign 0 left.erase right.erase
  | .constant _ value => .constant 0 value
  | .parameter _ var => .parameter 0 (slotOnly var.slot)
  | .member _ target field => .member 0 target.erase field
  | .call _ none sig args => .call 0 none sig (eraseAll args)
  | .call _ (some receiver) sig args => .call 0 (some receiver.erase) sig (eraseAll args)
  | .block _ ty _ statements result =>
    .block 0 (if ty.isVoid then .void else .int) [] (eraseAll statements) result.erase
  | .arrayIndex _ array index => .arrayIndex 0 array.erase index.erase
  | .newArray _ element elements => .newArray 0 element (eraseAll elements)

/-- What code shows of several expressions. -/
def eraseAll : List Expr → List Expr
  | [] => []
  | e :: rest => e.erase :: eraseAll rest

end

/-- Erasing keeps the number of expressions. -/
theorem length_eraseAll (es : List Expr) : (eraseAll es).length = es.length := by
  induction es with
  | nil => rfl
  | cons e rest ih => rw [eraseAll, List.length_cons, List.length_cons, ih]

end Expr

/-- What the reader keeps on its stack: trees that are complete so far, and the numbers of array
literals, whose values follow from where they stand. -/
inductive Readback.Item where
  | tree (e : Expr)
  | number

namespace Readback

/-- Takes the top `n` trees off the stack, in the order in which they were read. -/
def takeTrees : Nat → List Item → Option (List Expr × List Item)
  | 0, stack => some ([], stack)
  | n + 1, .tree e :: stack => (takeTrees n stack).map fun (es, rest) => (es ++ [e], rest)
  | _, _ => none

/-- Reads one instruction. A store into an array belongs to an array literal if a number stands
before the value that is stored, and is an assignment if a tree does. A return closes the method
body, whose statements are all that was read. -/
def step : Instruction → List Item → Option (List Item)
  | .pushLiteral value, stack => some (.tree (.constant 0 value) :: stack)
  | .loadLocal slot, stack => some (.tree (.parameter 0 (Expr.slotOnly slot)) :: stack)
  | .storeLocal slot, .tree right :: stack =>
    some (.tree (.assign 0 (.parameter 0 (Expr.slotOnly slot)) right) :: stack)
  | .getField field, .tree target :: stack => some (.tree (.member 0 target field) :: stack)
  | .putField field, .tree right :: .tree target :: stack =>
    some (.tree (.assign 0 (.member 0 target field) right) :: stack)
  | .pushInt _, stack => some (.number :: stack)
  | .newArray element, .number :: stack => some (.tree (.newArray 0 element []) :: stack)
  | .dupArrayRef, stack => some stack
  | .storeArrayElement, .tree value :: .number :: .tree (.newArray _ element elements) :: stack =>
    some (.tree (.newArray 0 element (elements ++ [value])) :: stack)
  | .storeArrayElement, .tree right :: .tree index :: .tree array :: stack =>
    some (.tree (.assign 0 (.arrayIndex 0 array index) right) :: stack)
  | .invokeStatic sig, stack =>
    (takeTrees sig.params.length stack).map fun (args, rest) =>
      .tree (.call 0 none sig args) :: rest
  | .invokeVirtual sig, stack =>
    (takeTrees sig.params.length stack).bind fun
      | (args, .tree receiver :: rest) => some (.tree (.call 0 (some receiver) sig args) :: rest)
      | _ => none
  | .returnVoid, stack => close .void stack
  | .returnValue, stack => close .int stack
  | _, _ => none
where
  /-- Makes a method body of all trees on the stack. -/
  close (ty : Ty) (stack : List Item) : Option (List Item) :=
    (takeTrees stack.length stack).bind fun (exprs, _) =>
      exprs.getLast?.map fun result => [.tree (.block 0 ty [] exprs.dropLast result)]

/-- Reads instructions one after the other. -/
def read (instructions : List Instruction) (stack : List Item) : Option (List Item) :=
  instructions.foldlM (fun stack i => step i stack) stack

/-- The tree that some code reads as. -/
def expr? (instructions : List Instruction) : Option Expr :=
  match read instructions [] with
  | some [.tree e] => some e
  | _ => none

/-- Reading two lists in turn reads the second from where the first leads. -/
theorem read_append (xs ys : List Instruction) (stack : List Item) :
    read (xs ++ ys) stack = (read xs stack).bind (read ys) := by
  unfold read
  rw [List.foldlM_append]
  rfl

/-- The first instruction is read, and the others from where it leads. -/
theorem read_cons (i : Instruction) (rest : List Instruction) (stack : List Item) :
    read (i :: rest) stack = (step i stack).bind (read rest) := rfl

/-- Reading one instruction is one step. -/
theorem read_singleton (i : Instruction) (stack : List Item) : read [i] stack = step i stack := by
  rw [read_cons]
  cases step i stack <;> rfl

/-- Trees that were read one after the other are taken off in that order. -/
theorem takeTrees_reverse_append (es : List Expr) (stack : List Item) :
    takeTrees es.length ((es.map Item.tree).reverse ++ stack) = some (es, stack) := by
  induction es using List.reverseRecOn generalizing stack with
  | nil => rfl
  | append_singleton es e ih =>
    have hstack : ((es ++ [e]).map Item.tree).reverse ++ stack =
        .tree e :: ((es.map Item.tree).reverse ++ stack) := by simp
    rw [hstack, List.length_append, List.length_singleton, takeTrees, ih]
    rfl

/-- A call without a receiver takes the trees that were read last. -/
theorem step_invokeStatic {sig : Signature} {args : List Expr}
    (hlength : args.length = sig.params.length) (stack : List Item) :
    step (.invokeStatic sig) ((args.map Item.tree).reverse ++ stack) =
      some (.tree (.call 0 none sig args) :: stack) := by
  change (takeTrees sig.params.length _).map _ = _
  rw [← hlength, takeTrees_reverse_append]
  rfl

/-- A call with a receiver takes the trees that were read last, and the one below them. -/
theorem step_invokeVirtual {sig : Signature} {args : List Expr}
    (hlength : args.length = sig.params.length) (receiver : Expr) (stack : List Item) :
    step (.invokeVirtual sig) ((args.map Item.tree).reverse ++ .tree receiver :: stack) =
      some (.tree (.call 0 (some receiver) sig args) :: stack) := by
  change (takeTrees sig.params.length _).bind _ = _
  rw [← hlength, takeTrees_reverse_append]
  rfl

/-- The code of the expression is read as a single tree, whatever was read before. -/
def Reads (e : Expr) : Prop := ∀ stack, read e.code stack = some (.tree e.erase :: stack)

/-- Expressions that are read as single trees are read as so many trees. -/
theorem read_codeAll {es : List Expr} (hes : ∀ e ∈ es, Reads e) (stack : List Item) :
    read (Expr.codeAll es) stack =
      some (((Expr.eraseAll es).map Item.tree).reverse ++ stack) := by
  induction es generalizing stack with
  | nil => rfl
  | cons e rest ih =>
    have hrest := ih (fun x hx => hes x (by simp [hx])) (.tree e.erase :: stack)
    rw [Expr.codeAll, read_append, hes e (by simp), Option.bind_some, hrest, Expr.eraseAll]
    simp

/-- The elements of an array literal are read into the tree of the literal, one after the other. -/
theorem read_codeElements {es : List Expr} (hes : ∀ e ∈ es, Reads e) (position : Nat)
    (element : Ty) (before : List Expr) (stack : List Item) :
    read (Expr.codeElements position es) (.tree (.newArray 0 element before) :: stack) =
      some (.tree (.newArray 0 element (before ++ Expr.eraseAll es)) :: stack) := by
  induction es generalizing position before with
  | nil => simp [Expr.codeElements, Expr.eraseAll, read]
  | cons e rest ih =>
    have hrest := ih (fun x hx => hes x (by simp [hx])) (position + 1) (before ++ [e.erase])
    -- The literal so far and the position wait on the stack while the element is read.
    have helement := hes e (by simp) (.number :: .tree (.newArray 0 element before) :: stack)
    have hvalue : read (.dupArrayRef :: .pushInt (Int32.ofNat position) :: e.code)
        (.tree (.newArray 0 element before) :: stack) =
          some (.tree e.erase :: .number :: .tree (.newArray 0 element before) :: stack) := helement
    rw [List.append_assoc] at hrest
    rw [Expr.codeElements, read_append, hvalue, Expr.eraseAll]
    exact hrest

/-- The code of a regular expression is read as what it shows of the expression. -/
theorem reads_of_regular {Q : Expr → Prop} {e : Expr} (h : e.Regular Q) : Reads e := by
  induction h with
  | constant => exact fun _ => rfl
  | parameter => exact fun _ => rfl
  | member _ _ ih =>
    intro stack
    rw [Expr.code, read_append, ih, Option.bind_some, read_singleton, Expr.erase]
    rfl
  | assignMember _ _ _ _ iht ihr =>
    intro stack
    rw [Expr.code, read_append, read_append, iht, Option.bind_some, ihr, Option.bind_some,
      read_singleton, Expr.erase, Expr.erase]
    rfl
  | assignElement _ _ _ _ _ _ iha ihi ihr =>
    intro stack
    rw [Expr.code, read_append, read_append, read_append, iha, Option.bind_some, ihi,
      Option.bind_some, ihr, Option.bind_some, read_singleton, Expr.erase, Expr.erase]
    rfl
  | assignLocal _ _ ih =>
    intro stack
    rw [Expr.code, read_append, ih, Option.bind_some, read_singleton, Expr.erase, Expr.erase]
    rfl
  | @callStatic id sig args _ _ harity ih =>
    intro stack
    have hlength := (Expr.length_eraseAll args).trans harity
    rw [Expr.code, read_append, read_codeAll ih, Option.bind_some, read_singleton,
      step_invokeStatic hlength, Expr.erase]
  | @callVirtual id receiver sig args _ _ _ _ harity ihr ih =>
    intro stack
    have hlength := (Expr.length_eraseAll args).trans harity
    rw [Expr.code, read_append, read_append, ihr, Option.bind_some, read_codeAll ih,
      Option.bind_some, read_singleton, step_invokeVirtual hlength, Expr.erase]
  | @newArray id element elements _ _ _ ih =>
    intro stack
    have helements := read_codeElements ih 0 element [] stack
    rw [Expr.code, Expr.erase]
    exact helements

/-- A return makes a method body of all that was read. -/
theorem close_reverse (ty : Ty) (statements : List Expr) (result : Expr) :
    step.close ty (.tree result :: (statements.map Item.tree).reverse) =
      some [.tree (.block 0 ty [] statements result)] := by
  have hstack : Item.tree result :: (statements.map Item.tree).reverse =
      ((statements ++ [result]).map Item.tree).reverse ++ [] := by simp
  have hlength : (Item.tree result :: (statements.map Item.tree).reverse).length =
      (statements ++ [result]).length := by simp
  rw [step.close, hlength, hstack, takeTrees_reverse_append]
  simp

/-- A method body is read as what its code shows if its statements and its result are. -/
theorem expr?_code_block {id : NodeId} {ty : Ty} {locals : List Variable} {statements : List Expr}
    {result : Expr} (hstatements : ∀ x ∈ statements, Reads x) (hresult : Reads result) :
    expr? (Expr.block id ty locals statements result).code =
      some (Expr.block id ty locals statements result).erase := by
  have hread : read (Expr.codeAll statements ++ result.code) [] =
      some (.tree result.erase :: ((Expr.eraseAll statements).map Item.tree).reverse) := by
    rw [read_append, read_codeAll hstatements, Option.bind_some, hresult, List.append_nil]
  have hreturn : step (if ty.isVoid then .returnVoid else .returnValue)
      (.tree result.erase :: ((Expr.eraseAll statements).map Item.tree).reverse) =
        some [.tree (Expr.block id ty locals statements result).erase] := by
    rw [Expr.erase]
    cases ty.isVoid with
    | true => exact close_reverse .void _ _
    | false => exact close_reverse .int _ _
  rw [expr?, Expr.code, read_append, hread, Option.bind_some, read_singleton, hreturn]

/-- Compiled code is read as what it shows of the tree, if blocks stand at the root only. -/
theorem expr?_compile {e : Expr} {limit : Nat} (hmade : e.BuilderMade)
    (hblocks : ∀ c ∈ e.children, c.Every Expr.NotBlock)
    (hok : (e.compile limit).error? = none) :
    expr? (e.compile limit).sink.instructions.toList = some e.erase := by
  have hroot : e.RegularRoot fun _ => True :=
    hmade.regularRoot hblocks (fun _ _ _ _ => trivial) hok
  rw [Expr.instructions_compile_eq_code hok]
  cases hroot with
  | expr _ h => rw [expr?, reads_of_regular h []]
  | body hstatements hresult _ =>
    exact expr?_code_block (fun x hx => reads_of_regular (hstatements x hx))
      (reads_of_regular hresult)

end Readback

/-- Code loses nothing of a tree but names and declared types. If two trees, each with blocks at its
root only, compile to the same instructions, under whatever limits, they agree in all that code can
show: in everything but identities, the names and types of variables, and the variables and the type
of a block, of which it is known whether it is void. -/
theorem Expr.erase_eq_of_compile_eq (e₁ e₂ : Expr) (limit₁ limit₂ : Nat)
    (hmade₁ : e₁.BuilderMade) (hmade₂ : e₂.BuilderMade)
    (hblocks₁ : ∀ c ∈ e₁.children, c.Every NotBlock)
    (hblocks₂ : ∀ c ∈ e₂.children, c.Every NotBlock)
    (hok₁ : (e₁.compile limit₁).error? = none) (hok₂ : (e₂.compile limit₂).error? = none)
    (hsame : (e₁.compile limit₁).sink.instructions = (e₂.compile limit₂).sink.instructions) :
    e₁.erase = e₂.erase := by
  have hread₁ := Readback.expr?_compile hmade₁ hblocks₁ hok₁
  have hread₂ := Readback.expr?_compile hmade₂ hblocks₂ hok₂
  rw [hsame, hread₂] at hread₁
  exact (Option.some.inj hread₁).symm

/-- Two copies of the sample body that name the parameter differently. -/
theorem Expr.erase_eq_of_compile_eq_body :
    let e₁ := Sample.body "xs"
    let e₂ := Sample.body "ys"
    e₁.BuilderMade ∧ e₂.BuilderMade ∧ (∀ c ∈ e₁.children, c.Every NotBlock) ∧
      (∀ c ∈ e₂.children, c.Every NotBlock) ∧ (e₁.compile 4).error? = none ∧
      (e₂.compile 7).error? = none ∧
      (e₁.compile 4).sink.instructions = (e₂.compile 7).sink.instructions ∧
      e₁.erase = e₂.erase := by
  have hok₁ : ((Sample.body "xs").compile 4).error? = none := by decide
  have hok₂ : ((Sample.body "ys").compile 7).error? = none := by decide
  have hsame : ((Sample.body "xs").compile 4).sink.instructions =
      ((Sample.body "ys").compile 7).sink.instructions := rfl
  have hmade := Sample.builderMade_body
  have hblocks := Sample.every_notBlock_children_body
  exact ⟨hmade "xs", hmade "ys", hblocks "xs", hblocks "ys", hok₁, hok₂, hsame,
    erase_eq_of_compile_eq _ _ 4 7 (hmade "xs") (hmade "ys") (hblocks "xs") (hblocks "ys")
      hok₁ hok₂ hsame⟩

end MethodBody
