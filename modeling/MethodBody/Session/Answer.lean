import MethodBody.Session.Command

/-!
# Answers

What a session answers to its commands.
-/

namespace MethodBody.Session

/-- A node seen from outside, its children given by their names. -/
inductive View where
  | assign (left right : String)
  | constant (value : Literal)
  | parameter (var : Variable)
  | member (target : String) (field : Field)
  | call (receiver : Option String) (sig : Signature) (args : List String)
  | block (ty : Ty) (locals : List Variable) (statements : List String) (result : String)
  | arrayIndex (array index : String)
  | newArray (element : Ty) (elements : List String)

/-- The view of a node under a naming of nodes. -/
def View.ofExpr (name : Expr → String) : Expr → View
  | .assign _ left right => .assign (name left) (name right)
  | .constant _ value => .constant value
  | .parameter _ var => .parameter var
  | .member _ target field => .member (name target) field
  | .call _ receiver sig args => .call (receiver.map name) sig (args.map name)
  | .block _ ty locals statements result => .block ty locals (statements.map name) (name result)
  | .arrayIndex _ array index => .arrayIndex (name array) (name index)
  | .newArray _ element elements => .newArray element (elements.map name)

/-- Why a step has no result. -/
inductive Failure where
  /-- The command could not be read. -/
  | unreadable
  /-- Something referred to does not exist. -/
  | missing
  | problem (problem : Problem)
  | callRefused (refusal : Transformer.CallRefusal)
  /-- A transformation by policy failed after the given visits. -/
  | policy (failure : Policy.Failure) (visits : List Kind)
deriving DecidableEq

/-- The measures of recorded code. -/
structure CodeSummary where
  length : Nat
  depth : Nat
  maxStack : Nat
  maxLocals : Nat
deriving DecidableEq

/-- The measures of a code. -/
def CodeSummary.ofCode (code : Code) : CodeSummary :=
  ⟨code.length, code.depth, code.maxStack, code.maxLocals⟩

/-- The answer to a command. -/
inductive Answer where
  | failed (failure : Failure)
  /-- A chain failed in the given round, counted from one. -/
  | failedInRound (failure : Failure) (round : Nat)
  | built (kind : Kind) (text : Option String)
  | chained (kind : Kind) (name : String)
  /-- A transformation succeeded. The shape lists the nodes of the result down to those known
  before. -/
  | transformed (same : Bool) (shape : List String) (text : Option String)
      (visits : Option (List Kind))
  | text (text : String)
  | inspected (kind : Kind) (name : String) (view : View)
  | same (same : Bool)
  | arenas (same other : Bool)
  | compiled (code : CodeSummary) (instructions : List String) (listing : Option String)
  /-- Code went into the current recorder, all of it or up to the problem. -/
  | emitted (problem : Option LowerError) (code : CodeSummary) (instructions : List String)
  | counted (problem : Option LowerError) (tally : Tally)
  | recorded (code : CodeSummary) (instruction : Instruction)
  | code (code : CodeSummary)
  | listing (text : String)
  | equal (equal : Bool)
  | diagnosis (diagnostic : Diagnostic)
  /-- There was no problem yet. -/
  | noProblem

/-- The answer to a command, with what was reported meanwhile. -/
structure Reply where
  answer : Answer
  events : List Event

end MethodBody.Session
