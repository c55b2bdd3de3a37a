/-!
# Value types

The types that fields, variables, array literals and method signatures declare, and their
one-line text.
-/

namespace MethodBody

/-- The declared type of a value. `void` is the type of what yields no value. -/
inductive Ty where
  | void
  | boolean
  | int
  | long
  | float
  | double
  /-- An object type. Any name is admitted, also the empty one and one spelled like a primitive. -/
  | reference (name : String)
  | array (element : Ty)
deriving DecidableEq, Inhabited

namespace Ty

/-- The text of a type: a primitive by its keyword, an object type by its bare name, an array by
its element type followed by brackets. -/
def text : Ty → String
  | void => "void"
  | boolean => "boolean"
  | int => "int"
  | long => "long"
  | float => "float"
  | double => "double"
  | reference name => name
  | array element => element.text ++ "[]"

/-- Whether the type is `void` itself. An array of `void` is not. -/
def isVoid : Ty → Bool
  | void => true
  | _ => false

/-- The type of the elements, for an array type. -/
def element? : Ty → Option Ty
  | array element => some element
  | _ => none

end Ty

end MethodBody
