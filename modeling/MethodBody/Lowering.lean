import MethodBody.Sink

/-!
# Lowering

Lowering walks an expression from left to right and hands the instructions that compute it to a
sink. It stops at the first node that cannot be lowered; what the sink was given until then stays
given. Every node on the way is reported, and nodes nested too deep are refused.
-/

namespace MethodBody

/-- The reasons for which an expression has no code. -/
inductive LowerError where
  | invalidAssignmentTarget (kind : Kind)
  /-- A node of this kind in a place where it has no meaning; `context` says which places. -/
  | unsupportedNode (kind : Kind) (context : String)
  | nestingTooDeep (depth maxDepth : Nat)
deriving DecidableEq

/-- The one-line explanation of a failed lowering. -/
def LowerError.message : LowerError → String
  | .invalidAssignmentTarget kind => "cannot assign to " ++ kind.text ++ " expression"
  | .unsupportedNode kind context =>
    kind.text ++ " expression is not supported " ++ context
  | .nestingTooDeep depth maxDepth =>
    "expression nesting depth " ++ toString depth ++ " exceeds limit of " ++ toString maxDepth

/-- A lowering under way: the state of the sink and the events so far. -/
structure Progress (σ : Type) where
  sink : σ
  events : Array Event

/-- A step of lowering. What the sink was given survives a failure. -/
abbrev Lower (σ : Type) := EStateM LowerError (Progress σ)

namespace Lower

variable {σ : Type}

/-- Reports an event. -/
def report (event : Event) : Lower σ Unit :=
  modify fun p => { p with events := p.events.push event }

/-- Hands an instruction to the sink. -/
def put (sink : Sink σ) (instruction : Instruction) : Lower σ Unit :=
  modify fun ⟨state, events⟩ =>
    let (state, reported) := sink.accept state instruction
    ⟨state, events ++ reported⟩

/-- Comes to a node: refuses it if it lies deeper than the limit, and reports it otherwise. -/
def enter (limit : Nat) (kind : Kind) (depth : Nat) : Lower σ Unit :=
  if limit < depth then do
    report (.nestingLimit kind depth)
    throw (.nestingTooDeep depth limit)
  else
    report (.visit kind depth)

/-- Reports how many variables a block declares, if it declares any. -/
def reportLocals (locals : List Variable) : Lower σ Unit :=
  if locals.isEmpty then pure () else report (.blockLocals locals.length)

/-- The places where an array element cannot stand. -/
def elementContext : String := "outside the left side of an assignment"

mutual

/-- Lowers the expression that lies at the given depth.

The target of an assignment is not read: of a field or an element only the operands are lowered,
before the value, and a variable needs none. -/
def emit (sink : Sink σ) (limit : Nat) : Expr → Nat → Lower σ Unit
  | .constant _ value, depth => do
    enter limit .constant depth
    put sink (.pushLiteral value)
  | .parameter _ var, depth => do
    enter limit .parameter depth
    put sink (.loadLocal var.slot)
  | .member _ target field, depth => do
    enter limit .member depth
    emit sink limit target (depth + 1)
    put sink (.getField field)
  | .arrayIndex _ _ _, depth => do
    enter limit .arrayIndex depth
    throw (.unsupportedNode .arrayIndex elementContext)
  | .assign _ (.member _ target field) right, depth => do
    enter limit .assign depth
    enter limit .member (depth + 1)
    emit sink limit target (depth + 2)
    emit sink limit right (depth + 1)
    put sink (.putField field)
  | .assign _ (.arrayIndex _ array index) right, depth => do
    enter limit .assign depth
    enter limit .arrayIndex (depth + 1)
    emit sink limit array (depth + 2)
    emit sink limit index (depth + 2)
    emit sink limit right (depth + 1)
    put sink .storeArrayElement
  | .assign _ (.parameter _ var) right, depth => do
    enter limit .assign depth
    emit sink limit right (depth + 1)
    put sink (.storeLocal var.slot)
  | .assign _ left _, depth => do
    enter limit .assign depth
    report (.rejectedTarget left.kind)
    throw (.invalidAssignmentTarget left.kind)
  | .call _ none sig args, depth => do
    enter limit .call depth
    emitAll sink limit args (depth + 1)
    put sink (.invokeStatic sig)
  | .call _ (some receiver) sig args, depth => do
    enter limit .call depth
    emit sink limit receiver (depth + 1)
    emitAll sink limit args (depth + 1)
    put sink (.invokeVirtual sig)
  | .newArray _ element elements, depth => do
    enter limit .newArray depth
    put sink (.pushInt (Int32.ofNat elements.length))
    put sink (.newArray element)
    emitElements sink limit elements 0 (depth + 1)
  | .block _ ty locals statements result, depth => do
    enter limit .block depth
    reportLocals locals
    emitAll sink limit statements (depth + 1)
    emit sink limit result (depth + 1)
    put sink (if ty.isVoid then .returnVoid else .returnValue)

/-- Lowers several expressions in order, all at one depth. -/
def emitAll (sink : Sink σ) (limit : Nat) : List Expr → Nat → Lower σ Unit
  | [], _ => pure ()
  | e :: rest, depth => do
    emit sink limit e depth
    emitAll sink limit rest depth

/-- Stores expressions into the array on top of the stack, from the given position on. -/
def emitElements (sink : Sink σ) (limit : Nat) : List Expr → Nat → Nat → Lower σ Unit
  | [], _, _ => pure ()
  | e :: rest, position, depth => do
    put sink .dupArrayRef
    put sink (.pushInt (Int32.ofNat position))
    emit sink limit e depth
    put sink .storeArrayElement
    emitElements sink limit rest (position + 1) depth

end

/-- Lowers an expression as a root. -/
def visit (sink : Sink σ) (limit : Nat) (e : Expr) : Lower σ Unit :=
  emit sink limit e 0

/-- Lowers a whole method body into a recorder, and reports where it begins and how it ends. -/
def body (limit : Nat) (e : Expr) : Lower Code Unit := do
  report (.started e.kind)
  visit Code.sink limit e
  let code := (← get).sink
  report (.finished code.length code.maxStack code.maxLocals)

end Lower

/-- The depth limit where none is given. -/
def defaultMaxDepth : Nat := 1000

/-- What came of a lowering: whether it failed, the sink as it was left, and the events. -/
structure Outcome (σ : Type) where
  error? : Option LowerError
  sink : σ
  events : Array Event

/-- Runs a lowering from a state of the sink. -/
def Lower.run {σ : Type} (action : Lower σ Unit) (start : σ) : Outcome σ :=
  match EStateM.run action ⟨start, #[]⟩ with
  | .ok _ p => ⟨none, p.sink, p.events⟩
  | .error e p => ⟨some e, p.sink, p.events⟩

namespace Expr

/-- Hands the code of an expression to a sink. -/
def lowerInto {σ : Type} (e : Expr) (sink : Sink σ) (start : σ) (limit : Nat) : Outcome σ :=
  (Lower.visit sink limit e).run start

/-- Compiles an expression as a method body. -/
def compile (e : Expr) (limit : Nat) : Outcome Code :=
  (Lower.body limit e).run Code.empty

end Expr

end MethodBody
