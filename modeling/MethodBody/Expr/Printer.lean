import MethodBody.Expr.Basic

/-!
# The text of expressions

Expressions are written as parenthesised lists, operator first. Names are written as they are and
only string literals are quoted.
-/

namespace MethodBody.Expr

/-- The local variables that a block declares, in brackets, or nothing if it declares none. -/
def localsText (locals : List Variable) : String :=
  if locals.isEmpty then "" else " [" ++ " ".intercalate (locals.map Variable.text) ++ "]"

mutual

/-- The text of an expression. -/
def text : Expr → String
  | assign _ left right => "(= " ++ left.text ++ " " ++ right.text ++ ")"
  | constant _ value => value.text
  | parameter _ var => var.text
  | member _ target field => "(. " ++ target.text ++ " " ++ field.text ++ ")"
  | call _ none sig args => "(call " ++ sig.text ++ spaced args ++ ")"
  | call _ (some receiver) sig args =>
    "(call " ++ sig.text ++ " on " ++ receiver.text ++ spaced args ++ ")"
  | block _ ty locals statements result =>
    "(block:" ++ ty.text ++ localsText locals ++ spaced statements ++ " " ++ result.text ++ ")"
  | arrayIndex _ array index => "([] " ++ array.text ++ " " ++ index.text ++ ")"
  | newArray _ element elements =>
    "(new " ++ element.text ++ "[" ++ toString elements.length ++ "]" ++ spaced elements ++ ")"

/-- The texts of several expressions, each after a space. -/
def spaced : List Expr → String
  | [] => ""
  | e :: rest => " " ++ e.text ++ spaced rest

end

end MethodBody.Expr
