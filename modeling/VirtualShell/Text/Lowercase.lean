import VirtualShell.Text.CaseTable

/-!
# Lower case

The full lowercase form of a text. Two characters are special: a capital I with a dot becomes two
characters, and a capital sigma at the end of a word takes its final form.
-/

namespace VirtualShell.Text

/-- Membership of a code point in a list of inclusive ranges. -/
def inRanges (ranges : List (Nat × Nat)) (c : Char) : Bool :=
  ranges.any fun r => r.1 ≤ c.toNat && c.toNat ≤ r.2

/-- The lowercase form of one character outside of any context. -/
def lowercaseChar (c : Char) : Char :=
  match lowercaseRuns.find? fun r =>
      r.1 ≤ c.toNat && c.toNat ≤ r.2.1 && (c.toNat - r.1) % r.2.2.1 == 0 with
  | some r => Char.ofNat (r.2.2.2 + (c.toNat - r.1))
  | none => c

/-- After the case-ignorable characters in front comes a cased one. -/
def startsCased (s : List Char) : Bool :=
  match s.dropWhile (inRanges caseIgnorableRanges) with
  | c :: _ => inRanges casedRanges c
  | [] => false

/-- Lowercases the characters `s` that follow `before`, which is held in reverse. -/
def lowercaseAfter (before : List Char) : List Char → List Char
  | [] => []
  | c :: s =>
    let image :=
      if c = '\u0130' then ['i', '\u0307']
      else if c = '\u03A3' then
        [if startsCased before && !startsCased s then '\u03C2' else '\u03C3']
      else [lowercaseChar c]
    image ++ lowercaseAfter (c :: before) s

/-- The lowercase form of a text. -/
def lowercase (s : String) : String := String.ofList (lowercaseAfter [] s.toList)

end VirtualShell.Text
