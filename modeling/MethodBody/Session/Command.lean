import MethodBody.Diagnostic
import MethodBody.Transform.Policy

/-!
# Commands

What a session can be asked to do. Commands refer to nodes by the step that made them.
-/

namespace MethodBody.Session

/-- A reference to a node. -/
inductive Ref where
  /-- The node that the step with this number made. -/
  | step (index : Nat)
  /-- Inside a chain, the node of the round before. -/
  | previous
deriving DecidableEq

/-- Part of a list of nodes: one node several times over. -/
structure Repeat where
  ref : Ref
  times : Nat
deriving DecidableEq

/-- A node to be made from referenced nodes. -/
abbrev Request := Construction Ref (List Repeat)

/-- The transformers that a session offers. -/
inductive TransformerChoice where
  | identity
  | replaceInt (old new : Int32)
  | rejectCalls
  | policy (policy : Policy Ref)

/-- An instruction to be recorded, its signature yet to be checked if it has one. -/
inductive InstructionRequest where
  | ready (instruction : Instruction)
  | invokeVirtual (method : SignatureRequest)
  | invokeStatic (method : SignatureRequest)

/-- The requested instruction. -/
def InstructionRequest.make : InstructionRequest → Except BuildError Instruction
  | ready instruction => .ok instruction
  | invokeVirtual method => method.make.map .invokeVirtual
  | invokeStatic method => method.make.map .invokeStatic

/-- One step of a session. -/
inductive Command where
  /-- Makes a node. -/
  | build (request : Request) (quiet : Bool)
  /-- Makes nodes one after the other by the same request, each from the one before. A request that
  could not be read fails in its first round. -/
  | chain (base : Ref) (rounds : Nat) (request : Option Request)
  | transform (node : Ref) (choice : TransformerChoice) (quiet : Bool)
  | display (node : Ref)
  | inspect (node : Ref)
  | same (a b : Ref)
  | compareArenas
  | compile (node : Ref) (maxDepth : Nat) (listing : Bool)
  | emit (node : Ref) (maxDepth : Nat)
  | count (node : Ref) (maxDepth : Nat)
  | record (instruction : InstructionRequest)
  | newCode
  | list
  | save (name : String)
  | load (name : String)
  | compareSaved (name : String)
  | compareInstructions (a b : Nat)
  | diagnose
  | render (style : Style)

end MethodBody.Session
