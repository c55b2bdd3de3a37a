import MethodBody.Instruction

/-!
# Events

What building, lowering and recording report while they work.
-/

namespace MethodBody

/-- How urgent an event is. -/
inductive Level where
  | trace
  | debug
  | warn
deriving DecidableEq

/-- The name of a level. -/
def Level.text : Level → String
  | trace => "TRACE"
  | debug => "DEBUG"
  | warn => "WARN"

/-- Something worth reporting. -/
inductive Event where
  | rejectedName (what : String)
  | rejectedArity (method : String) (found : Nat)
  | rejectedBlock
  | rejectedElementType
  /-- The lowering of a method body began. -/
  | started (kind : Kind)
  | visit (kind : Kind) (depth : Nat)
  | nestingLimit (kind : Kind) (depth : Nat)
  | rejectedTarget (kind : Kind)
  | blockLocals (count : Nat)
  /-- The lowering of a method body succeeded. -/
  | finished (instructions maxStack maxLocals : Nat)
  /-- An instruction took more operands than the stack held. -/
  | underflow (instruction : Instruction) (depth : Nat)
deriving DecidableEq

namespace Event

/-- The level at which an event is reported. -/
def level : Event → Level
  | rejectedName _ => .trace
  | rejectedArity _ _ => .trace
  | rejectedBlock => .trace
  | rejectedElementType => .trace
  | started _ => .debug
  | visit _ _ => .trace
  | nestingLimit _ _ => .debug
  | rejectedTarget _ => .debug
  | blockLocals _ => .trace
  | finished _ _ _ => .debug
  | underflow _ _ => .warn

/-- The headline of an event. -/
def message : Event → String
  | rejectedName _ => "Rejected empty name"
  | rejectedArity _ _ => "Rejected call arity"
  | rejectedBlock => "Rejected empty block"
  | rejectedElementType => "Rejected void array element type"
  | started _ => "Compiling method body"
  | visit _ _ => "visit"
  | nestingLimit _ _ => "Nesting limit reached"
  | rejectedTarget _ => "Rejected assignment target"
  | blockLocals _ => "Block declares locals"
  | finished _ _ _ => "Compiled method body"
  | underflow _ _ => "Operand stack underflow"

/-- The named details of an event. -/
def fields : Event → List (String × String)
  | rejectedName what => [("what", what)]
  | rejectedArity method found => [("signature", method), ("found", toString found)]
  | rejectedBlock => []
  | rejectedElementType => []
  | started kind => [("kind", kind.text)]
  | visit kind depth => [("kind", kind.text), ("depth", toString depth)]
  | nestingLimit kind depth => [("kind", kind.text), ("depth", toString depth)]
  | rejectedTarget kind => [("kind", kind.text)]
  | blockLocals count => [("locals", toString count)]
  | finished instructions maxStack maxLocals =>
    [("instructions", toString instructions), ("max_stack_size", toString maxStack),
      ("max_locals", toString maxLocals)]
  | underflow instruction depth => [("instruction", instruction.text), ("depth", toString depth)]

end Event

/-- The event that reports a refused construction. A literal that is too long is not reported. -/
def BuildError.event? : BuildError → Option Event
  | .emptyBlock => some .rejectedBlock
  | .voidArrayElement => some .rejectedElementType
  | .arrayTooLarge _ => none
  | .arityMismatch method _ found => some (.rejectedArity method found)
  | .emptyName what => some (.rejectedName what)

end MethodBody
