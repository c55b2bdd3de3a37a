/-!
# Hanging text

Text of one or more lines that stands behind a mark. The first line follows the mark, every other
line follows an indent that continues it, and no line keeps the spaces at its end.
-/

namespace MethodBody.Text

/-- A line without the spaces at its end. Other blanks, such as tabs, stay. -/
def trimEndSpaces (line : String) : String :=
  String.ofList (line.toList.reverse.dropWhile (· == ' ')).reverse

/-- The lines of `text`, each ended: the first one behind `first` and the others behind `rest`. A
mark or indent is written in full also where its line is empty. -/
def hanging (first rest text : String) : String :=
  let ended (lead line : String) := lead ++ trimEndSpaces line ++ "\n"
  match text.splitOn "\n" with
  | [] => ended first ""
  | line :: lines => ended first line ++ String.join (lines.map (ended rest))

end MethodBody.Text
