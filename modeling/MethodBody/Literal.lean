import MethodBody.Binary.Shortest
import MethodBody.Text.Quoted

/-!
# Literals

The constants that an expression can hold. A floating-point literal is kept as its bits, so `=` on
literals tells apart all that can be told apart, while `Literal.equal` compares by value.
-/

namespace MethodBody

/-- A constant value. -/
inductive Literal where
  | null
  | bool (value : Bool)
  | int (value : Int32)
  | long (value : Int64)
  /-- A 32-bit floating-point number, by its bits. -/
  | float (bits : UInt32)
  /-- A 64-bit floating-point number, by its bits. -/
  | double (bits : UInt64)
  | str (value : String)
deriving DecidableEq, Inhabited

namespace Literal

/-- The text of a literal. A long ends in `L` and a 32-bit float in `f`; a string is quoted. -/
def text : Literal → String
  | null => "null"
  | bool value => if value then "true" else "false"
  | int value => toString value.toInt
  | long value => toString value.toInt ++ "L"
  | float bits => (Binary.single.decode bits.toNat).text ++ "f"
  | double bits => (Binary.double.decode bits.toNat).text
  | str value => Text.quoted value

/-- Equality by value. Literals of different kinds differ, and floating-point numbers compare
numerically, so this is not reflexive. -/
def equal : Literal → Literal → Bool
  | null, null => true
  | bool a, bool b => a == b
  | int a, int b => a == b
  | long a, long b => a == b
  | float a, float b => (Binary.single.decode a.toNat).equal (Binary.single.decode b.toNat)
  | double a, double b => (Binary.double.decode a.toNat).equal (Binary.double.decode b.toNat)
  | str a, str b => a == b
  | _, _ => false

end Literal

end MethodBody
