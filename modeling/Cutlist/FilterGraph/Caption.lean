/-!
# Captions inside a filter

A caption is written between single quotes in a filter that stands in a filter
graph. The characters with a meaning to the filter get a backslash, and a line
break is written as a backslash and an `n`. Each substitution runs over the
result of those before it, backslashes first, so that no backslash is doubled
twice.
-/

namespace Cutlist.FilterGraph.Caption

/-- The text with every occurrence of a character replaced. -/
def substitute (c : Char) (replacement : List Char) (cs : List Char) :
    List Char :=
  cs.flatMap fun x => if x == c then replacement else [x]

/-- What is replaced, in order. -/
def substitutions : List (Char × List Char) :=
  [('\\', ['\\', '\\']), (':', ['\\', ':']), ('\'', ['\\', '\'']),
    (',', ['\\', ',']), ('%', ['\\', '%']), ('\n', ['\\', 'n'])]

/-- The caption as it stands between the quotes. -/
def escape (cs : List Char) : List Char :=
  substitutions.foldl
    (fun cs (c, replacement) => substitute c replacement cs) cs

/-- The caption as it stands between the quotes. -/
def escaped (s : String) : String := String.ofList (escape s.toList)

end Cutlist.FilterGraph.Caption
