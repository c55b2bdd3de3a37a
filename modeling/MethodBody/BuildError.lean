/-!
# Rejected constructions

Why a signature or a node could not be made.
-/

namespace MethodBody

/-- The reasons for which a construction is refused. -/
inductive BuildError where
  | emptyBlock
  | voidArrayElement
  /-- An array literal with `length` elements, more than an array can hold. -/
  | arrayTooLarge (length : Nat)
  /-- A call of `method`, given by its text, with the wrong number of arguments. -/
  | arityMismatch (method : String) (expected found : Nat)
  /-- An empty name; `what` says which one. -/
  | emptyName (what : String)
deriving DecidableEq

/-- The one-line explanation of a refusal. -/
def BuildError.message : BuildError → String
  | .emptyBlock => "block must contain at least one expression"
  | .voidArrayElement => "array element type must not be void"
  | .arrayTooLarge length =>
    "array literal has " ++ toString length ++ " elements, more than an array can hold"
  | .arityMismatch method expected found =>
    "call to " ++ method ++ " passes " ++ toString found
      ++ " argument(s) but the signature declares " ++ toString expected
  | .emptyName what => what ++ " must not be empty"

/-- Refuses an empty name; `what` names its role in the explanation. -/
def requireName (what name : String) : Except BuildError Unit :=
  if name = "" then .error (.emptyName what) else .ok ()

end MethodBody
