import MethodBody.Instruction

/-!
# Stack machines and the meaning of expressions

A `Machine` interprets the operations of method bodies over any values and states. It gives
instructions a meaning, by running them on an operand stack as their stack notation says, and it
gives expressions a meaning of their own, by evaluating operands from left to right without any
stack. Running code needs operands to be there and evaluating needs operands to have values; both
are undefined otherwise.
-/

namespace MethodBody

universe u

/-- An interpretation of the operations over values `V` and states `S`. Each operation may read and
change the state. The result of a call counts only if its signature declares one. -/
structure Machine (V S : Type u) where
  literal : Literal → V
  int : Int → V
  localValue : UInt16 → S → V
  storeLocal : UInt16 → V → S → S
  getField : Field → V → S → V × S
  putField : Field → V → V → S → S
  newArray : Ty → V → S → V × S
  storeElement : V → V → V → S → S
  invokeVirtual : Signature → V → List V → S → V × S
  invokeStatic : Signature → List V → S → V × S

/-- Where the run of a method stands. The top of the operand stack comes first. -/
inductive Config (V S : Type u) where
  | running (stack : List V) (state : S)
  | returned (value? : Option V) (state : S)

namespace Machine

variable {V S : Type u}

/-- Takes the top `n` values off a stack, in the order in which they were pushed. -/
def takeTop (n : Nat) (stack : List V) : Option (List V × List V) :=
  if n ≤ stack.length then some ((stack.take n).reverse, stack.drop n) else none

/-- What a call leaves behind: the value, if the signature declares a result. -/
def resultOf (sig : Signature) (value : V) : Option V :=
  if sig.returnsValue then some value else none

/-- One instruction. It is undefined if operands are missing. A return leaves nothing of the
stack. -/
def step (m : Machine V S) : Instruction → List V → S → Option (Config V S)
  | .pushLiteral literal, stack, s => some (.running (m.literal literal :: stack) s)
  | .loadLocal slot, stack, s => some (.running (m.localValue slot s :: stack) s)
  | .storeLocal slot, value :: stack, s => some (.running stack (m.storeLocal slot value s))
  | .getField field, object :: stack, s =>
    let (value, s') := m.getField field object s
    some (.running (value :: stack) s')
  | .putField field, value :: object :: stack, s =>
    some (.running stack (m.putField field object value s))
  | .newArray element, length :: stack, s =>
    let (array, s') := m.newArray element length s
    some (.running (array :: stack) s')
  | .storeArrayElement, value :: index :: array :: stack, s =>
    some (.running stack (m.storeElement array index value s))
  | .dupArrayRef, array :: stack, s => some (.running (array :: array :: stack) s)
  | .pushInt n, stack, s => some (.running (m.int n.toInt :: stack) s)
  | .invokeVirtual sig, stack, s =>
    (takeTop sig.params.length stack).bind fun
      | (args, receiver :: rest) =>
        let (value, s') := m.invokeVirtual sig receiver args s
        some (.running ((resultOf sig value).toList ++ rest) s')
      | _ => none
  | .invokeStatic sig, stack, s =>
    (takeTop sig.params.length stack).map fun (args, rest) =>
      let (value, s') := m.invokeStatic sig args s
      .running ((resultOf sig value).toList ++ rest) s'
  | .returnValue, value :: _, s => some (.returned (some value) s)
  | .returnVoid, _, s => some (.returned none s)
  | _, _, _ => none

/-- Runs instructions one after the other. After a return there is nothing left to run. -/
def run (m : Machine V S) : List Instruction → Config V S → Option (Config V S)
  | [], config => some config
  | i :: rest, .running stack s => (m.step i stack s).bind (m.run rest)
  | _ :: _, .returned _ _ => none

/-- Evaluation changes the state, and may be undefined. -/
abbrev Effect (S : Type u) := StateT S Option

/-- The value of an operand, which it must have. -/
def demand (value? : Option V) : Effect S V := fun s => value?.map (·, s)

mutual

/-- Evaluates an expression. The value is missing if the expression has none. -/
def eval (m : Machine V S) : Expr → Effect S (Option V)
  | .constant _ literal => pure (some (m.literal literal))
  | .parameter _ var => return some (m.localValue var.slot (← get))
  | .member _ target field => do
    let object ← demand (← m.eval target)
    let value ← modifyGet (m.getField field object)
    return some value
  | .assign _ (.member _ target field) right => do
    let object ← demand (← m.eval target)
    let value ← demand (← m.eval right)
    modify (m.putField field object value)
    return none
  | .assign _ (.arrayIndex _ array index) right => do
    let array ← demand (← m.eval array)
    let index ← demand (← m.eval index)
    let value ← demand (← m.eval right)
    modify (m.storeElement array index value)
    return none
  | .assign _ (.parameter _ var) right => do
    let value ← demand (← m.eval right)
    modify (m.storeLocal var.slot value)
    return none
  | .assign _ _ _ => failure
  | .call _ none sig args => do
    let values ← m.evalAll args
    let value ← modifyGet (m.invokeStatic sig values)
    return resultOf sig value
  | .call _ (some receiver) sig args => do
    let object ← demand (← m.eval receiver)
    let values ← m.evalAll args
    let value ← modifyGet (m.invokeVirtual sig object values)
    return resultOf sig value
  | .newArray _ element elements => do
    let array ← modifyGet (m.newArray element (m.int elements.length))
    m.fill array 0 elements
    return some array
  | .block .. => failure
  | .arrayIndex .. => failure

/-- Evaluates operands from left to right. -/
def evalAll (m : Machine V S) : List Expr → Effect S (List V)
  | [] => pure []
  | e :: rest => do
    let value ← demand (← m.eval e)
    let values ← m.evalAll rest
    return value :: values

/-- Evaluates expressions and stores each into an array, from the given position on. -/
def fill (m : Machine V S) (array : V) (position : Nat) : List Expr → Effect S PUnit
  | [] => pure ⟨⟩
  | e :: rest => do
    let value ← demand (← m.eval e)
    modify (m.storeElement array (m.int position) value)
    m.fill array (position + 1) rest

end

/-- Evaluates statements in order. Their values are dropped. -/
def execAll (m : Machine V S) : List Expr → Effect S PUnit
  | [] => pure ⟨⟩
  | e :: rest => do
    let _ ← m.eval e
    m.execAll rest

/-- How a whole tree ends: with its value, or by returning from the method. -/
inductive Ending (V : Type u) where
  | value (value? : Option V)
  | returned (value? : Option V)

/-- Evaluates a whole tree. A block at the root is a method body: it returns the value of its
result, or no value if it is void. -/
def evalRoot (m : Machine V S) : Expr → Effect S (Ending V)
  | .block _ ty _ statements result => do
    m.execAll statements
    let value? ← m.eval result
    if ty.isVoid then
      return .returned none
    else
      return .returned (some (← demand value?))
  | e => return .value (← m.eval e)

/-- Where a run stands that began on the given stack and ended so: a value is left on top, and a
return leaves nothing of the stack. -/
def Ending.config (ending : Ending V) (stack : List V) (s : S) : Config V S :=
  match ending with
  | .value value? => .running (value?.toList ++ stack) s
  | .returned value? => .returned value? s

end Machine

end MethodBody
