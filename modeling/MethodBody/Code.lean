import MethodBody.Event

/-!
# Recorded code

A `Code` records instructions and follows the height of the operand stack, so that the size of the
frame is known once the method is complete.
-/

namespace MethodBody

/-- Instructions with the frame they need. -/
structure Code where
  instructions : Array Instruction
  /-- The number of slots for variables. -/
  maxLocals : Nat
  /-- The greatest height of the operand stack after any instruction. -/
  maxStack : Nat
  /-- The height of the operand stack after the last instruction. -/
  depth : Nat
deriving DecidableEq, Inhabited

namespace Code

/-- No instructions yet. -/
def empty : Code := ⟨#[], 0, 0, 0⟩

/-- The number of instructions. -/
def length (code : Code) : Nat := code.instructions.size

/-- Appends an instruction. Operands that are missing count as zero, and a return empties the
stack. -/
def record (code : Code) (instruction : Instruction) : Code :=
  let effect := instruction.effect
  let left := if instruction.isReturn then 0 else code.depth - effect.pops
  let depth := left + effect.pushes
  { instructions := code.instructions.push instruction
    maxLocals := max code.maxLocals instruction.frameSize
    maxStack := max code.maxStack depth
    depth }

/-- An instruction is recorded after all others. -/
@[simp] theorem instructions_record (code : Code) (instruction : Instruction) :
    (code.record instruction).instructions = code.instructions.push instruction := rfl

/-- Recording makes the code longer by one. -/
@[simp] theorem length_record (code : Code) (instruction : Instruction) :
    (code.record instruction).length = code.length + 1 := by
  simp [length]

/-- The warning that recording an instruction gives: it takes more operands than there are. -/
def warning? (code : Code) (instruction : Instruction) : Option Event :=
  if instruction.effect.pops > code.depth then some (.underflow instruction code.depth) else none

/-- Equality by value: all that is recorded agrees, instructions as `Instruction.equal` says. -/
def equal (a b : Code) : Bool :=
  a.instructions.size == b.instructions.size
    && (a.instructions.toList.zip b.instructions.toList).all (fun p => p.1.equal p.2)
    && a.maxLocals == b.maxLocals && a.maxStack == b.maxStack && a.depth == b.depth

/-- The instructions from position `start` on. -/
def since (code : Code) (start : Nat) : List Instruction :=
  code.instructions.toList.drop start

/-- An address, right-aligned in four columns or as wide as it needs. -/
def address (n : Nat) : String :=
  let digits := toString n
  String.ofList (List.replicate (4 - digits.length) ' ') ++ digits

/-- The lines of a listing, the first one at address `start`. -/
def lines (start : Nat) : List Instruction → String
  | [] => ""
  | instruction :: rest =>
    "    " ++ address start ++ "  " ++ instruction.text ++ "\n" ++ lines (start + 1) rest

/-- The listing of a method: the frame it needs and its instructions with their addresses. -/
def listing (code : Code) : String :=
  "Code \x7b\n  max_locals: " ++ toString code.maxLocals
    ++ "\n  max_stack_size: " ++ toString code.maxStack
    ++ "\n  instructions: [\n" ++ lines 0 code.instructions.toList ++ "  ]\n\x7d"

end Code

end MethodBody
