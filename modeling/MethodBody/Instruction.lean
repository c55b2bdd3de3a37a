import MethodBody.Expr.Basic

/-!
# Instructions

The instructions of the stack machine that method bodies are lowered to.
-/

namespace MethodBody

/-- How many operands an instruction takes off the stack and how many values it leaves. -/
structure StackEffect where
  pops : Nat
  pushes : Nat
deriving DecidableEq

/-- An instruction of the stack machine. -/
inductive Instruction where
  | pushLiteral (value : Literal)
  | loadLocal (slot : UInt16)
  | storeLocal (slot : UInt16)
  | getField (field : Field)
  | putField (field : Field)
  | newArray (element : Ty)
  | storeArrayElement
  | dupArrayRef
  | pushInt (n : Int32)
  | invokeVirtual (sig : Signature)
  | invokeStatic (sig : Signature)
  | returnValue
  | returnVoid
deriving DecidableEq, Inhabited

namespace Instruction

/-- The text of an instruction: its mnemonic and its operand. -/
def text : Instruction → String
  | pushLiteral value => "push-literal " ++ value.text
  | loadLocal slot => "load-local " ++ toString slot.toNat
  | storeLocal slot => "store-local " ++ toString slot.toNat
  | getField field => "get-field " ++ field.text
  | putField field => "put-field " ++ field.text
  | newArray element => "new-array " ++ element.text
  | storeArrayElement => "store-array-element"
  | dupArrayRef => "dup-array-ref"
  | pushInt n => "push-int " ++ toString n.toInt
  | invokeVirtual sig => "invoke-virtual " ++ sig.text
  | invokeStatic sig => "invoke-static " ++ sig.text
  | returnValue => "return-value"
  | returnVoid => "return-void"

/-- What a call leaves on the stack. -/
def resultSize (sig : Signature) : Nat := if sig.returnsValue then 1 else 0

/-- The effect of an instruction on the height of the stack. Duplicating a reference counts as a
push alone: the reference below it stays where it is. -/
def effect : Instruction → StackEffect
  | pushLiteral _ => ⟨0, 1⟩
  | loadLocal _ => ⟨0, 1⟩
  | storeLocal _ => ⟨1, 0⟩
  | getField _ => ⟨1, 1⟩
  | putField _ => ⟨2, 0⟩
  | newArray _ => ⟨1, 1⟩
  | storeArrayElement => ⟨3, 0⟩
  | dupArrayRef => ⟨0, 1⟩
  | pushInt _ => ⟨0, 1⟩
  | invokeVirtual sig => ⟨sig.params.length + 1, resultSize sig⟩
  | invokeStatic sig => ⟨sig.params.length, resultSize sig⟩
  | returnValue => ⟨1, 0⟩
  | returnVoid => ⟨0, 0⟩

/-- Whether control leaves the method here. -/
def isReturn : Instruction → Bool
  | returnValue => true
  | returnVoid => true
  | _ => false

/-- Whether the instruction writes a variable, a field or an array element. -/
def isStore : Instruction → Bool
  | storeLocal _ => true
  | putField _ => true
  | storeArrayElement => true
  | _ => false

/-- The size of the smallest frame that has the slot an instruction uses, zero if it uses none. -/
def frameSize : Instruction → Nat
  | loadLocal slot => slot.toNat + 1
  | storeLocal slot => slot.toNat + 1
  | _ => 0

/-- Equality by value: literals compare as `Literal.equal` does and all else exactly. -/
def equal : Instruction → Instruction → Bool
  | pushLiteral a, pushLiteral b => a.equal b
  | a, b => a == b

end Instruction

end MethodBody
