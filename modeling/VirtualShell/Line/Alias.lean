import VirtualShell.Line.Tokens
import VirtualShell.OrderedMap

/-!
# Aliases

When the first token of a line is an alias, its first occurrence in the line gives way to the
expansion and the line is cut into tokens again. This happens once, not again for the result, and
not when the line begins with a quotation mark.
-/

namespace VirtualShell.Line

open Text

/-- Replaces the first occurrence of one text in another. -/
def replaceFirst (old new : List Char) : List Char → List Char
  | [] => if old = [] then new else []
  | c :: s =>
    if old.isPrefixOf (c :: s) then new ++ (c :: s).drop old.length
    else c :: replaceFirst old new s

/-- A line with its leading alias expanded; `none` if it begins with none. -/
def expandAlias? (aliases : OrderedMap String String) (line : String) : Option String :=
  if (trimLeft line.toList).head? = some '"' then none
  else do
    let first ← (tokenize line).head?
    let expansion ← aliases.get? first
    return String.ofList (replaceFirst first.toList expansion.toList line.toList)

/-- The tokens of a line after one level of alias expansion. -/
def expandedTokens (aliases : OrderedMap String String) (line : String) : List String :=
  tokenize ((expandAlias? aliases line).getD line)

end VirtualShell.Line
