import Mathlib.Data.List.Infix
import VirtualShell.Pattern.Reader
import VirtualShell.Proofs.Pattern.Classes
import VirtualShell.Proofs.Pattern.Matching

/-!
# Patterns for texts

A text is quoted by a backslash in front of each of its signs that mean something in a pattern. Read
without regard to the case of letters, what is quoted is the sequence of its characters and nothing else
(`read_quote`), whether the flag is set beforehand or by a directive in front (`read_directive_quote`);
only its size can be too large. This sequence occurs in the lines that hold the text
(`matchesLine_literal`).
-/

namespace VirtualShell.Pattern

/-- The flags of a search without regard to case. -/
def anyCase : Flags := { ignoreCase := true }

/-- The pattern for a text: its characters one after another, letters in both cases. -/
def literal (text : List Char) : Regex := .ofSequence (text.map anyCase.char)

/-- A line holds a text: somewhere in the line its characters stand next to each other, ASCII letters in
either case. -/
def Holds (text line : List Char) : Prop := text.map Char.toLower <:+: line.map Char.toLower

instance (text line : List Char) : Decidable (Holds text line) :=
  inferInstanceAs (Decidable (_ <:+: _))

/-! ## Reading -/

section Reading

variable {f : Flags} {c : Char} {names : List (List Char)} {branches parts : List Regex}

theorem escape_of_isMeta (hc : isMeta c = true) (r : List Char) : escape f (c :: r) = .ok (f.char c, r) := by
  have hall : "\\.+*?()|[]\x7b\x7d^$#&-~".toList.all (fun c => !c.isDigit && c != 'p' && c != 'P' &&
      c != 'b' && (hexCount? c).isNone && (letterClass? c).isNone && (letterAnchor? c).isNone &&
      (letterChar? c).isNone && isEscapable c) = true := by decide
  have hplain := List.all_eq_true.1 hall c (by simpa [isMeta] using hc)
  simp only [Bool.and_eq_true, Bool.not_eq_true', bne_iff_ne, Option.isNone_iff_eq_none] at hplain
  obtain ⟨⟨⟨⟨⟨⟨⟨⟨h₁, h₂⟩, h₃⟩, h₄⟩, h₅⟩, h₆⟩, h₇⟩, h₈⟩, h₉⟩ := hplain
  simp [escape, h₁, h₂, h₃, h₄, h₅, h₆, h₇, h₈, h₉]

/-- A sign behind a backslash is read as itself. -/
theorem level_escaped (hskip : f.skipBlanks = false) (hc : isMeta c = true) (depth fuel : Nat)
    (r : List Char) : level depth (fuel + 1) ⟨'\\' :: c :: r, f, names⟩ branches parts =
      level depth fuel ⟨r, f, names⟩ branches (parts ++ [f.char c]) := by
  rw [level]
  simp [Flags.skip, hskip, escape_of_isMeta hc]

/-- A character that means nothing in a pattern is read as itself. -/
theorem level_plain (hskip : f.skipBlanks = false) (hc : isMeta c = false) (depth fuel : Nat)
    (r : List Char) : level depth (fuel + 1) ⟨c :: r, f, names⟩ branches parts =
      level depth fuel ⟨r, f, names⟩ branches (parts ++ [f.char c]) := by
  have hne : ∀ d, isMeta d = true → c ≠ d := by
    rintro d hd rfl
    rw [hc] at hd
    cases hd
  rw [level]
  simp only [Flags.skip, hskip, Bool.false_eq_true, if_false]
  split
  · next heq => cases heq
  iterate 6 · next heq => exact absurd (List.cons.inj heq).1 (hne _ rfl)
  · next heq =>
    obtain ⟨rfl, rfl⟩ := List.cons.inj heq
    simp [hne '?' rfl, hne '*' rfl, hne '+' rfl, hne '.' rfl, hne '^' rfl, hne '$' rfl]

theorem level_quote (hskip : f.skipBlanks = false) {text : List Char} {fuel : Nat}
    (hfuel : text.length < fuel) (depth : Nat) :
    level depth fuel ⟨quote text, f, names⟩ branches parts =
      .ok (.ofChoice (branches ++ [.ofSequence (parts ++ text.map f.char)]), ⟨[], f, names⟩) := by
  induction text generalizing fuel parts with
  | nil =>
    obtain ⟨fuel, rfl⟩ := Nat.exists_eq_add_one_of_ne_zero (Nat.ne_of_gt hfuel)
    rw [level]
    simp [quote, Flags.skip, hskip]
  | cons c text ih =>
    obtain ⟨fuel, rfl⟩ := Nat.exists_eq_add_one_of_ne_zero (Nat.ne_zero_of_lt hfuel)
    have hrest : level depth fuel ⟨quote text, f, names⟩ branches (parts ++ [f.char c]) =
        .ok (.ofChoice (branches ++ [.ofSequence (parts ++ [f.char c] ++ text.map f.char)]),
          ⟨[], f, names⟩) := ih (Nat.lt_of_succ_lt_succ hfuel)
    rw [List.append_assoc, List.singleton_append, ← List.map_cons (f := f.char)] at hrest
    rw [quote, List.flatMap_cons, ← quote]
    split
    · next hc => exact (level_escaped hskip hc depth fuel _).trans hrest
    · next hc => exact (level_plain hskip (by simpa using hc) depth fuel _).trans hrest

theorem depth_literal (text : List Char) : (literal text).depth ≤ Regex.depthLimit := by
  have hchar : ∀ c, (anyCase.char c).depth = 0 := by
    intro c
    unfold Flags.char
    split <;> rfl
  have hall : ∀ text : List Char, Regex.depthOfAll (text.map anyCase.char) = 0 := by
    intro text
    induction text with
    | nil => rfl
    | cons c text ih => rw [List.map_cons, Regex.depthOfAll, hchar, ih, Nat.max_self]
  have hone : (literal text).depth ≤ 1 := by
    match text with
    | [] => exact Nat.zero_le 1
    | [c] => exact Nat.le_trans (Nat.le_of_eq (hchar c)) (Nat.zero_le 1)
    | c :: d :: text => exact Nat.le_of_eq (congrArg (· + 1) (hall (c :: d :: text)))
  exact Nat.le_trans hone (by decide)

/-- Each character takes one state, which for a letter has two ranges. -/
theorem size_literal_le (text : List Char) : (literal text).size ≤ 32 + 48 * text.length := by
  have hchar : ∀ c, (anyCase.char c).size ≤ 48 := by
    intro c
    unfold Flags.char
    split
    · have hranges := CharClass.length_foldCase_le ⟨[(c.toNat, c.toNat)]⟩
      rw [List.length_singleton] at hranges
      rw [Regex.size, Regex.stateSize]
      omega
    · rw [Regex.size]
      exact Nat.le_add_right 32 16
  have hall : ∀ text : List Char, Regex.sizeOfAll (text.map anyCase.char) ≤ 48 * text.length := by
    intro text
    induction text with
    | nil => exact Nat.le_refl 0
    | cons c text ih =>
      have hc := hchar c
      rw [List.map_cons, Regex.sizeOfAll, List.length_cons]
      omega
  match text with
  | [] => exact Nat.le_refl 32
  | [c] => exact Nat.le_trans (hchar c) (Nat.le_add_left 48 32)
  | c :: d :: text => exact Nat.le_trans (hall (c :: d :: text)) (Nat.le_add_left _ 32)

theorem length_le_length_quote (text : List Char) : text.length ≤ (quote text).length := by
  induction text with
  | nil => exact Nat.le_refl 0
  | cons c text ih =>
    rw [quote, List.flatMap_cons, ← quote, List.length_append, List.length_cons]
    have hpos : 0 < (if isMeta c then ['\\', c] else [c]).length := by split <;> simp
    omega

/-- A quoted text is read as the pattern for the text, and refused only if that is too large. -/
theorem read_quote (text : List Char) : Pattern.read anyCase (quote text) =
    if (literal text).size + 3 * Regex.stateSize ≤ Regex.sizeLimit then .ok (literal text)
    else .error .tooLarge := by
  have hlevel : level 0 ((quote text).length + 1) ⟨quote text, anyCase, []⟩ [] [] =
      .ok (literal text, ⟨[], anyCase, []⟩) :=
    level_quote rfl (Nat.lt_succ_of_le (length_le_length_quote text)) 0
  rw [Pattern.read, hlevel]
  change (if (literal text).depth > Regex.depthLimit then .error .tooDeep
    else if (literal text).size + 3 * Regex.stateSize > Regex.sizeLimit then .error .tooLarge
    else .ok (literal text) : Except PatternError Regex) = _
  rw [if_neg (Nat.not_lt.2 (depth_literal text))]
  split
  · next hlarge => rw [if_neg (Nat.not_le.2 hlarge)]
  · next hfits => rw [if_pos (Nat.not_lt.1 hfits)]

/-- The flag may be set beforehand or by a directive in front. -/
theorem read_directive_quote (text : List Char) :
    Pattern.read {} ("(?i)".toList ++ quote text) = Pattern.read anyCase (quote text) := by
  have hdirective : ∀ fuel (r : List Char),
      level 0 (fuel + 1) ⟨'(' :: '?' :: 'i' :: ')' :: r, {}, []⟩ [] [] =
        level 0 fuel ⟨r, anyCase, []⟩ [] [] := by
    intro fuel r
    rw [level]
    simp [Flags.skip, opening, flagLetters, Flags.set?, anyCase]
  have hlevel : ∀ fuel, text.length < fuel → level 0 fuel ⟨quote text, anyCase, []⟩ [] [] =
      .ok (literal text, ⟨[], anyCase, []⟩) := fun fuel hfuel => level_quote rfl hfuel 0
  have hlength := length_le_length_quote text
  have hlonger : ("(?i)".toList ++ quote text).length = (quote text).length + 4 := by simp
  rw [Pattern.read, Pattern.read, hlonger, hlevel _ (by omega)]
  change level 0 (_ + 1) ⟨'(' :: '?' :: 'i' :: ')' :: quote text, {}, []⟩ [] [] >>= _ = _
  rw [hdirective, hlevel _ (by omega)]

end Reading

/-! ## Matching -/

section Matching

variable {chars : Array Char} {i j : Nat}

theorem spans_char (c : Char) : (anyCase.char c).Spans chars i j ↔
    j = i + 1 ∧ ∃ d, chars[i]? = some d ∧ d.toLower = c.toLower := by
  unfold Flags.char
  split
  · next hc =>
    have hc : c.isAlpha = true := hc
    simp only [← CharClass.contains_foldCase_letter hc]
    constructor
    · rintro ⟨⟩
      exact ⟨rfl, _, ‹_›, ‹_›⟩
    · rintro ⟨rfl, d, hd, hk⟩
      exact .oneOf hd hk
  · next hc =>
    have hc : ¬ c.isAlpha = true := hc
    have hlower : ∀ d : Char, d.toLower = c.toLower ↔ d = c := by
      intro d
      rw [CharClass.isAlpha_iff] at hc
      rw [← Char.toNat_inj, ← Char.toNat_inj, CharClass.toNat_toLower, CharClass.toNat_toLower]
      grind
    simp only [hlower]
    constructor
    · rintro ⟨⟩
      exact ⟨rfl, c, ‹_›, rfl⟩
    · rintro ⟨rfl, d, hd, rfl⟩
      exact .char hd

theorem spans_ofSequence {ps : List Regex} :
    (Regex.ofSequence ps).Spans chars i j ↔ Regex.SpansAll chars ps i j := by
  match ps with
  | [] =>
    rw [Regex.spansAll_nil_iff, Regex.ofSequence]
    exact ⟨by rintro ⟨⟩; rfl, by rintro rfl; exact .empty i⟩
  | [p] => simp [Regex.ofSequence, Regex.spansAll_cons_iff, Regex.spansAll_nil_iff]
  | p :: q :: ps => exact ⟨by rintro ⟨⟩; assumption, .sequence⟩

variable {text line : List Char}

theorem cons_prefix_drop_iff {α : Type} {a : α} {as bs : List α} :
    a :: as <+: bs.drop i ↔ bs[i]? = some a ∧ as <+: bs.drop (i + 1) := by
  rw [← List.drop_drop, ← List.head?_drop]
  cases bs.drop i with
  | nil => simp
  | cons b rest => simp [List.cons_prefix_cons, eq_comm]

/-- The pattern for a text spans an occurrence of it. -/
theorem spans_literal : (literal text).Spans line.toArray i j ↔
    j = i + text.length ∧ text.map Char.toLower <+: (line.map Char.toLower).drop i := by
  rw [literal, spans_ofSequence]
  induction text generalizing i with
  | nil => simp [Regex.spansAll_nil_iff, eq_comm]
  | cons c text ih =>
    rw [List.map_cons, Regex.spansAll_cons_iff]
    simp only [spans_char, ih, List.map_cons, cons_prefix_drop_iff]
    constructor
    · rintro ⟨_, ⟨rfl, d, hd, hlower⟩, rfl, hrest⟩
      refine ⟨?_, ?_, hrest⟩
      · rw [List.length_cons, Nat.add_assoc, Nat.add_comm 1]
      · rw [List.getElem?_toArray] at hd
        rw [List.getElem?_map, hd, Option.map_some, hlower]
    · rintro ⟨rfl, hc, hrest⟩
      rw [List.getElem?_map, Option.map_eq_some_iff] at hc
      obtain ⟨d, hd, hlower⟩ := hc
      refine ⟨i + 1, ⟨rfl, d, by simpa using hd, hlower⟩, ?_, hrest⟩
      rw [List.length_cons, Nat.add_assoc, Nat.add_comm 1]

/-- The pattern for a text occurs in the lines that hold the text. -/
theorem matchesLine_literal : (literal text).matchesLine line = true ↔ Holds text line := by
  have hreached : (literal text).matchesLine line = true ↔
      ∃ i, i ≤ line.length ∧ text.map Char.toLower <+: (line.map Char.toLower).drop i := by
    simp only [Regex.matchesLine_iff, spans_literal]
    exact ⟨fun ⟨i, _, hi, _, hprefix⟩ => ⟨i, hi, hprefix⟩,
      fun ⟨i, hi, hprefix⟩ => ⟨i, _, hi, rfl, hprefix⟩⟩
  rw [hreached, Holds, List.infix_iff_prefix_suffix]
  constructor
  · rintro ⟨i, -, hprefix⟩
    exact ⟨_, hprefix, List.drop_suffix i _⟩
  · rintro ⟨rest, hprefix, hsuffix⟩
    refine ⟨(line.map Char.toLower).length - rest.length, ?_, ?_⟩
    · rw [List.length_map]
      exact Nat.sub_le _ _
    · rwa [← List.suffix_iff_eq_drop.1 hsuffix]

end Matching

end VirtualShell.Pattern
