import MethodBody.BuildError
import MethodBody.Ty

/-!
# Method signatures, fields and variables

What calls, field accesses and local variables refer to.
-/

namespace MethodBody

/-- The method that a call invokes. -/
structure Signature where
  owner : String
  name : String
  result : Ty
  params : List Ty
deriving DecidableEq, Inhabited

namespace Signature

/-- A signature whose owner and name are not empty. The owner is checked first. -/
def make (owner name : String) (result : Ty) (params : List Ty) : Except BuildError Signature := do
  requireName "method owner" owner
  requireName "method name" name
  return { owner, name, result, params }

/-- The text of a signature: qualified name, parameter types, result type. -/
def text (sig : Signature) : String :=
  sig.owner ++ "." ++ sig.name ++ "(" ++ ", ".intercalate (sig.params.map Ty.text) ++ ") -> "
    ++ sig.result.text

/-- Whether a call leaves a value. -/
def returnsValue (sig : Signature) : Bool := !sig.result.isVoid

end Signature

/-- A field of an object, with the type it is accessed at. -/
structure Field where
  owner : String
  member : String
  ty : Ty
deriving DecidableEq, Inhabited

/-- The text of a field: qualified name and type. -/
def Field.text (field : Field) : String :=
  field.owner ++ "." ++ field.member ++ ":" ++ field.ty.text

/-- A parameter or local variable, by its slot in the frame. -/
structure Variable where
  slot : UInt16
  name : String
  /-- The declared type. The object that the method runs on has none. -/
  ty : Option Ty
deriving DecidableEq, Inhabited

namespace Variable

/-- A variable with a declared type. -/
def declared (slot : UInt16) (name : String) (ty : Ty) : Variable := ⟨slot, name, some ty⟩

/-- The object that the method runs on. -/
def thisObject : Variable := ⟨0, "this", none⟩

/-- Whether the variable is the object that the method runs on: slot zero, no declared type. -/
def isThis (v : Variable) : Bool := v.slot == 0 && v.ty.isNone

/-- The text of a variable: its slot, its name and its type if it declares one. -/
def text (v : Variable) : String :=
  "$" ++ toString v.slot.toNat ++ ":" ++ v.name
    ++ match v.ty with
      | some ty => ":" ++ ty.text
      | none => ""

end Variable

end MethodBody
