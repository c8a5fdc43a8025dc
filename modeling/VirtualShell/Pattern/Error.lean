/-!
# Why a pattern is refused

Every fault of a pattern and its wording.
-/

namespace VirtualShell.Pattern

/-- A fault of a pattern. -/
inductive PatternError where
  | tooDeep | tooLarge
  | unclosedGroup | unopenedGroup | groupQuestionAtEnd | lookAround
  | groupNameMissing | groupNameInvalid | groupNameUnclosed | groupNameEmpty | groupNameRepeated
  | flagsEmpty | flagUnknown | flagNegatedTwice | flagRepeated | flagsUnclosed | flagsEndNegated
  | decimalMissing | decimalTooLarge
  | hexMissing | hexTooShort | hexBadDigit | hexNoChar
  | bracedHexUnclosed | bracedHexBadDigit | bracedHexEmpty | bracedHexNoChar
  | escapeAtEnd | backReference | unicodeClass | escapeUnknown
  | repeatNothing | countNothing
  | countUnclosed | countUnclosedAfterLeast | countUnclosedAfterComma | countUnclosedAfterMost
  | countBadEnd | countReversed
  | wordEdgeOrCountUnclosed | wordEdgeUnclosed | wordEdgeUnknown
  | classUnclosed | classUnclosedAfterNegation | classUnclosedAfterDash
  | classUnclosedAfterBracket | classUnclosedAfterItem
  | classNested | classIntersection | classDifference | classSymmetricDifference
  | classRangeEnd | classRangeReversed | classItem
  deriving DecidableEq, Repr

/-- The wording of a fault. -/
def PatternError.message : PatternError → String
  | tooDeep => "pattern has too much nesting"
  | tooLarge => "compiled regex exceeded size limit"
  | unclosedGroup => "found open group without closing ')'"
  | unopenedGroup => "found closing ')' without matching '('"
  | groupQuestionAtEnd => "expected closing ')', but got end of pattern"
  | lookAround => "look-around is not supported"
  | groupNameMissing => "expected capture group name, but got end of pattern"
  | groupNameInvalid => "invalid group name"
  | groupNameUnclosed => "expected end of capture group name, but got end of pattern"
  | groupNameEmpty => "empty capture group names are not allowed"
  | groupNameRepeated => "duplicate capture group name"
  | flagsEmpty => "empty flag directive '(?)' is not allowed"
  | flagUnknown => "unrecognized inline flag"
  | flagNegatedTwice => "inline flag negation cannot be repeated"
  | flagRepeated => "duplicate inline flag is not allowed"
  | flagsUnclosed => "expected ':' or ')' to end inline flags, but got end of pattern"
  | flagsEndNegated => "inline flags cannot end with negation directive"
  | decimalMissing => "expected decimal number, but found no digits"
  | decimalTooLarge => "got invalid decimal number"
  | hexMissing => "expected hexadecimal number, but saw end of pattern first"
  | hexTooShort => "expected fixed length hexadecimal number, but saw end of pattern first"
  | hexBadDigit => "expected fixed length hexadecimal number, but got non-hex digit"
  | hexNoChar => "got invalid fixed length hexadecimal number"
  | bracedHexUnclosed =>
    "expected hexadecimal number, but saw end of pattern before closing brace"
  | bracedHexBadDigit => "expected hexadecimal number in braces, but got non-hex digit"
  | bracedHexEmpty => "expected hexadecimal number in braces, but got no digits"
  | bracedHexNoChar => "got invalid hexadecimal number in braces"
  | escapeAtEnd => "saw start of escape sequence, but saw end of pattern before it finished"
  | backReference => "backreferences are not supported"
  | unicodeClass => "Unicode character classes are not supported"
  | escapeUnknown => "unrecognized escape sequence"
  | repeatNothing => "uncounted repetition operator must be applied to a sub-expression"
  | countNothing => "counted repetition operator must be applied to a sub-expression"
  | countUnclosed => "found unclosed counted repetition operator"
  | countUnclosedAfterLeast => "found incomplete and unclosed counted repetition operator"
  | countUnclosedAfterComma =>
    "found counted repetition operator with a comma that is unclosed"
  | countUnclosedAfterMost => "found counted repetition with min and max that is unclosed"
  | countBadEnd => "expected closing brace for counted repetition, but got something else"
  | countReversed => "found counted repetition with a min bigger than its max"
  | wordEdgeOrCountUnclosed =>
    "found start of special word boundary or repetition without an end"
  | wordEdgeUnclosed =>
    "special word boundary assertion is unclosed or has an invalid character"
  | wordEdgeUnknown => "special word boundary assertion is unrecognized"
  | classUnclosed => "found unclosed character class"
  | classUnclosedAfterNegation => "negated character class has no closing bracket"
  | classUnclosedAfterDash => "non-empty character class has no closing bracket after dash"
  | classUnclosedAfterBracket =>
    "character class begins with literal ']' but has no closing bracket"
  | classUnclosedAfterItem => "non-empty character class has no closing bracket"
  | classNested => "nested character classes are not supported"
  | classIntersection => "character class intersection is not supported"
  | classDifference => "character class difference is not supported"
  | classSymmetricDifference => "character class symmetric difference is not supported"
  | classRangeEnd => "character class ranges must start and end with a single character"
  | classRangeReversed => "invalid range in character class"
  | classItem => "invalid escape sequence in character class"

end VirtualShell.Pattern
