import MethodBody.Lowering
import MethodBody.Text.Hanging

/-!
# Diagnostics

A problem is described by a message, a code, often a hint, and the problem behind it where one is
wrapped. Rendering lays this out as a short report, with or without colour.
-/

namespace MethodBody

/-- What can go wrong between making a tree and having its code. -/
inductive Problem where
  | malformed (error : BuildError)
  | lowering (error : LowerError)
deriving DecidableEq

/-- The description of a problem. -/
structure Diagnostic where
  message : String
  code : String
  help? : Option String
  /-- The message of the wrapped problem. -/
  source? : Option String
deriving DecidableEq

namespace Problem

/-- The explanation of a problem by itself, where it arose. -/
def detail : Problem → String
  | malformed error => error.message
  | lowering error => error.message

/-- The description of a problem. -/
def diagnostic : Problem → Diagnostic
  | malformed error =>
    { message := "malformed expression tree: " ++ error.message
      code := "exprtree::malformed_ir"
      help? := some "fix the arguments passed to the builder; no node was created"
      source? := some error.message }
  | lowering error =>
    { message := error.message
      code :=
        match error with
        | .invalidAssignmentTarget _ => "exprtree::invalid_assignment_target"
        | .unsupportedNode _ _ => "exprtree::unsupported_node"
        | .nestingTooDeep _ _ => "exprtree::nesting_too_deep"
      help? :=
        match error with
        | .invalidAssignmentTarget _ =>
          some "assign to a member access, an array element or a parameter/local"
        | .unsupportedNode _ _ => none
        | .nestingTooDeep _ _ =>
          some "raise GeneratorOptions::max_depth or split the method body"
      source? := none }

end Problem

/-- How the marks of a report are set off from its text. -/
structure Style where
  alarm : String → String
  hint : String → String

namespace Style

/-- Text only. -/
def plain : Style := ⟨fun mark => mark, fun mark => mark⟩

/-- A mark in the given terminal colour. -/
def inColor (color mark : String) : String := "\x1b[" ++ color ++ "m" ++ mark ++ "\x1b[0m"

/-- Red for what is wrong and cyan for what may help. -/
def color : Style := ⟨inColor "31", inColor "36"⟩

end Style

/-- The report of a diagnostic: its code, then the message, the wrapped problem and the hint, each
behind a mark of its own. A message of several lines is continued along a bar, all else under an
indent as wide as the mark. -/
def Diagnostic.render (style : Style) (d : Diagnostic) : String :=
  style.alarm d.code ++ "\n\n"
    ++ Text.hanging ("  " ++ style.alarm "×" ++ " ") ("  " ++ style.alarm "│" ++ " ") d.message
    ++ (match d.source? with
      | some source => Text.hanging (style.alarm "  ╰─▶ ") (style.alarm "      ") source
      | none => "")
    ++ (match d.help? with
      | some help => Text.hanging (style.hint "  help: ") "        " help
      | none => "")

end MethodBody
