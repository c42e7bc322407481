/-!
# Physical lines

A text is a sequence of lines, each ended by a line feed, which the last line may lack. A carriage
return right before a line feed belongs to the line's end. `lines_append` says that the lines up to
a line feed do not depend on what follows it.
-/

namespace LedgerBench.Text

/-- A line without a carriage return at its end. -/
def withoutReturn (line : List Char) : List Char :=
  if line.getLast? = some '\r' then line.dropLast else line

/-- The lines of a text that is cut at its line feeds: a last piece that is empty is no line. -/
def linesOfPieces (pieces : List (List Char)) : List (List Char) :=
  let last := pieces.getLastD []
  pieces.dropLast.map withoutReturn ++ if last.isEmpty then [] else [last]

/-- The lines of a text. -/
def lines (text : List Char) : List (List Char) := linesOfPieces (text.splitOn '\n')

/-- The empty text has no lines. -/
theorem lines_nil : lines [] = [] := rfl

/-- A text up to a line feed has the same lines whatever follows. -/
theorem lines_append (a b : List Char) :
    lines (a ++ '\n' :: b) = lines (a ++ ['\n']) ++ lines b := by
  have hb : b.splitOn '\n' ≠ [] := List.splitOn_ne_nil '\n' b
  have hcut (c : List Char) : (a ++ '\n' :: c).splitOn '\n' = a.splitOn '\n' ++ c.splitOn '\n' :=
    List.splitOn_append_cons_self a c
  have hlast : (a.splitOn '\n' ++ b.splitOn '\n').getLastD [] = (b.splitOn '\n').getLastD [] := by
    rw [List.getLastD_eq_getLast?, List.getLastD_eq_getLast?, List.getLast?_append,
      List.getLast?_eq_some_getLast hb]
    rfl
  -- the cut at the line feed leaves the last piece to `b`
  unfold lines linesOfPieces
  simp only [hcut, hlast, List.dropLast_append_of_ne_nil hb, List.map_append, List.append_assoc]
  simp

end LedgerBench.Text
