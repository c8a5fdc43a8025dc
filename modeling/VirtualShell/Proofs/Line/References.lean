import Mathlib.Data.List.TakeWhile
import VirtualShell.Line.Variables
import VirtualShell.Proofs.Text.Numerals

/-!
# A text as pieces

A text with references to variables is a row of pieces (`Piece`): references in the two forms, and
characters and beginnings of references that are only copied. Which piece stands at a place is told by
what follows it (`Piece.Fits`): a name is always the longest one that stands there. Every text
consists of pieces in just one way (`existsUnique_decomposes`), and these are the pieces that the
scanner finds (`Decomposes.parts_eq`). So the expansion of a text is that of its pieces, one behind the
other, and a text may be cut between two pieces (`expandVariables_of_decomposes`).
-/

namespace VirtualShell.Line

open Text

/-! ## The longest name -/

/-- The name at the front of a text that is the longest, or nothing if no name stands there. -/
structure IsLongestName (name text : List Char) : Prop where
  front : name <+: text
  isName : name = [] ∨ isName name = true
  longest : ∀ other, Line.isName other = true → other <+: text → other.length ≤ name.length

variable {name rest s : List Char}

theorem ne_nil_of_isName (h : isName name = true) : name ≠ [] := by
  rintro rfl
  cases h

theorem isName_nameAt (h : nameAt s ≠ []) : isName (nameAt s) = true := by
  cases s with
  | nil => exact absurd rfl h
  | cons c s =>
    by_cases hstarts : startsName c = true
    · rw [nameAt, if_pos hstarts, isName, hstarts, Bool.true_and]
      exact List.all_eq_true.2 fun d hd => List.mem_takeWhile_imp hd
    · exact absurd (if_neg hstarts) h

/-- The scanner takes a name up to a character that cannot go on it. -/
theorem nameAt_append (hname : isName name = true)
    (hrest : ∀ c, rest.head? = some c → continuesName c = false) : nameAt (name ++ rest) = name := by
  cases name with
  | nil => cases hname
  | cons c s =>
    obtain ⟨hstarts, hcontinues⟩ := Bool.and_eq_true_iff.1 hname
    rw [List.cons_append, nameAt, if_pos hstarts,
      takeWhile_append_of_head? (List.all_eq_true.1 hcontinues) hrest]

theorem nameAt_prefix (s : List Char) : nameAt s <+: s := by
  cases s with
  | nil => exact List.prefix_refl []
  | cons c s =>
    rw [nameAt]
    split
    · exact (List.prefix_cons_inj c).2 (List.takeWhile_prefix _)
    · exact List.nil_prefix

/-- The scanner finds a name that is at least as long as any other. -/
theorem length_le_nameAt (hname : isName name = true) (h : name <+: s) :
    name.length ≤ (nameAt s).length := by
  obtain ⟨rest, rfl⟩ := h
  cases name with
  | nil => exact Nat.zero_le _
  | cons c cs =>
    obtain ⟨hstarts, hcontinues⟩ := Bool.and_eq_true_iff.1 hname
    rw [List.cons_append, nameAt, if_pos hstarts,
      List.takeWhile_append_of_pos (List.all_eq_true.1 hcontinues)]
    simp

theorem isLongestName_nameAt (s : List Char) : IsLongestName (nameAt s) s where
  front := nameAt_prefix s
  isName := (em (nameAt s = [])).imp id isName_nameAt
  longest _ hname h := length_le_nameAt hname h

theorem IsLongestName.length_le {other : List Char} (h : IsLongestName name s)
    (h' : IsLongestName other s) : other.length ≤ name.length := by
  rcases h'.isName with rfl | hname
  · exact Nat.zero_le _
  · exact h.longest other hname h'.front

/-- The scanner finds the longest name. -/
theorem IsLongestName.nameAt_eq (h : IsLongestName name s) : nameAt s = name := by
  have h' := isLongestName_nameAt s
  have hfront : nameAt s <+: name :=
    List.prefix_of_prefix_length_le h'.front h.front (h.length_le h')
  exact hfront.eq_of_length_le (h'.length_le h)

/-- A text begins with its longest name. -/
theorem exists_longestName (s : List Char) :
    ∃ name rest, s = name ++ rest ∧ IsLongestName name (name ++ rest) := by
  obtain ⟨rest, hrest⟩ := nameAt_prefix s
  refine ⟨nameAt s, rest, hrest.symm, ?_⟩
  rw [hrest]
  exact isLongestName_nameAt s

/-- A name stays the longest one if less of the text follows it. -/
theorem IsLongestName.of_append {more : List Char}
    (h : IsLongestName name (name ++ (rest ++ more))) : IsLongestName name (name ++ rest) where
  front := List.prefix_append name rest
  isName := h.isName
  longest other hname hother := h.longest other hname (by
    rw [← List.append_assoc]
    exact hother.trans (List.prefix_append _ more))

/-! ## Pieces -/

/-- A piece of a text with references. -/
inductive Piece where
  /-- A character other than the dollar sign. -/
  | char (c : Char)
  /-- A dollar sign that begins no reference. -/
  | dollar
  /-- A reference without braces. -/
  | bare (name : List Char)
  /-- A reference in braces. -/
  | braced (name : List Char)
  /-- Braces without a name in them. -/
  | emptyBraces
  /-- A dollar sign, an opening brace and what there is of a name, without the closing brace. -/
  | unclosed (name : List Char)
  deriving DecidableEq, Repr

namespace Piece

/-- The characters of a piece. -/
def text : Piece → List Char
  | char c => [c]
  | dollar => ['$']
  | bare name => '$' :: name
  | braced name => '$' :: '\x7b' :: (name ++ ['\x7d'])
  | emptyBraces => ['$', '\x7b', '\x7d']
  | unclosed name => '$' :: '\x7b' :: name

/-- The name of the variable that a piece refers to. -/
def name? : Piece → Option (List Char)
  | bare name => some name
  | braced name => some name
  | _ => none

/-- What a piece turns into: a reference into the value, anything else into itself. -/
def value (env : OrderedMap String String) (p : Piece) : List Char :=
  match p.name? with
  | some name => ((env.get? (String.ofList name)).getD "").toList
  | none => p.text

/-- A piece can stand before a text. Names are as long as they can be, and a piece that is copied is
not the beginning of a longer one. -/
def Fits (rest : List Char) : Piece → Prop
  | char c => c ≠ '$'
  | dollar => rest.head? ≠ some '\x7b' ∧ IsLongestName [] rest
  | bare name => name ≠ [] ∧ IsLongestName name (name ++ rest)
  | braced name => isName name = true
  | emptyBraces => True
  | unclosed name => rest.head? ≠ some '\x7d' ∧ IsLongestName name (name ++ rest)

end Piece

/-- A text consists of pieces, each of which fits what follows it. -/
inductive Decomposes : List Piece → List Char → Prop
  | nil : Decomposes [] []
  | cons {p : Piece} {pieces : List Piece} {rest : List Char} (hp : p.Fits rest)
      (hrest : Decomposes pieces rest) : Decomposes (p :: pieces) (p.text ++ rest)

/-! ## Checking a decomposition -/

theorem isLongestName_iff : IsLongestName name s ↔ nameAt s = name :=
  ⟨IsLongestName.nameAt_eq, fun h => h ▸ isLongestName_nameAt s⟩

instance : Decidable (IsLongestName name s) := decidable_of_iff _ isLongestName_iff.symm

instance (p : Piece) : Decidable (p.Fits rest) :=
  match p with
  | .char c => inferInstanceAs (Decidable (c ≠ '$'))
  | .dollar => inferInstanceAs (Decidable (rest.head? ≠ some '\x7b' ∧ IsLongestName [] rest))
  | .bare name => inferInstanceAs (Decidable (name ≠ [] ∧ IsLongestName name (name ++ rest)))
  | .braced name => inferInstanceAs (Decidable (isName name = true))
  | .emptyBraces => inferInstanceAs (Decidable True)
  | .unclosed name =>
    inferInstanceAs (Decidable (rest.head? ≠ some '\x7d' ∧ IsLongestName name (name ++ rest)))

theorem Decomposes.flatMap_text {pieces : List Piece} (h : Decomposes pieces s) :
    pieces.flatMap Piece.text = s := by
  induction h with
  | nil => rfl
  | cons hp hrest ih => rw [List.flatMap_cons, ih]

theorem decomposes_cons_iff {p : Piece} {pieces : List Piece} :
    Decomposes (p :: pieces) s ↔ p.Fits (pieces.flatMap Piece.text) ∧
      Decomposes pieces (pieces.flatMap Piece.text) ∧ p.text ++ pieces.flatMap Piece.text = s := by
  constructor
  · intro h
    cases h with
    | cons hp hrest =>
      rw [hrest.flatMap_text]
      exact ⟨hp, hrest, rfl⟩
  · rintro ⟨hp, hrest, rfl⟩
    exact .cons hp hrest

theorem decomposes_nil_iff : Decomposes [] s ↔ s = [] :=
  ⟨fun h => h.flatMap_text.symm, fun h => h ▸ .nil⟩

instance decidableDecomposes : ∀ pieces s, Decidable (Decomposes pieces s)
  | [], _ => decidable_of_iff _ decomposes_nil_iff.symm
  | _ :: pieces, _ =>
    have := decidableDecomposes pieces
    decidable_of_iff _ decomposes_cons_iff.symm

/-! ## The pieces that the scanner finds -/

namespace Piece

/-- What the scanner makes of a piece. -/
def part (p : Piece) : Part :=
  match p.name? with
  | some name => .variable name
  | none => .copy p.text

theorem expand_part (env : OrderedMap String String) (p : Piece) :
    p.part.expand env = p.value env := by
  cases p <;> rfl

end Piece

/-- Behind a dollar sign without a brace the scanner takes a name. -/
theorem nextPart_dollar (h : s.head? ≠ some '\x7b') :
    nextPart '$' s = if (nameAt s).isEmpty then (.copy ['$'], s)
      else (.variable (nameAt s), s.drop (nameAt s).length) := by
  unfold nextPart
  rw [if_neg (by decide)]
  split
  · exact absurd rfl h
  · rfl

/-- The scanner takes a name in braces. -/
theorem nextPart_reference (h : isName name = true) (rest : List Char) :
    nextPart '$' ('\x7b' :: (name ++ '\x7d' :: rest)) = (.variable name, rest) := by
  have hfound : nameAt (name ++ '\x7d' :: rest) = name :=
    nameAt_append h (by rintro c ⟨⟩; decide)
  have hne : ¬ name.isEmpty = true := by simpa using ne_nil_of_isName h
  unfold nextPart
  rw [if_neg (by decide)]
  simp only [hfound, List.drop_left, if_neg hne]

/-- A name behind an opening brace that is not closed. -/
theorem nextPart_unclosed (h : nameAt (name ++ rest) = name) (hrest : rest.head? ≠ some '\x7d') :
    nextPart '$' ('\x7b' :: (name ++ rest)) = (.copy ('$' :: '\x7b' :: name), rest) := by
  unfold nextPart
  rw [if_neg (by decide)]
  simp only [h, List.drop_left]
  split
  · exact absurd rfl hrest
  · rfl

theorem head?_ne_brace (h : isName name = true) (rest : List Char) :
    (name ++ rest).head? ≠ some '\x7b' := by
  cases name with
  | nil => cases h
  | cons c cs =>
    have hstarts : startsName c = true := (Bool.and_eq_true_iff.1 h).1
    rintro ⟨⟩
    exact absurd hstarts (by decide)

/-- The scanner takes a piece that fits off the front of a text. -/
theorem Piece.Fits.nextPart_eq {p : Piece} (h : p.Fits rest) :
    ∃ c s, p.text ++ rest = c :: s ∧ nextPart c s = (p.part, rest) := by
  cases p with
  | char c =>
    refine ⟨c, rest, rfl, ?_⟩
    unfold nextPart
    exact if_pos h
  | dollar =>
    refine ⟨'$', rest, rfl, ?_⟩
    rw [nextPart_dollar h.1, h.2.nameAt_eq]
    rfl
  | bare name =>
    obtain ⟨hne, hlongest⟩ := h
    have hname : isName name = true := hlongest.isName.resolve_left hne
    refine ⟨'$', name ++ rest, rfl, ?_⟩
    rw [nextPart_dollar (head?_ne_brace hname rest), hlongest.nameAt_eq, List.drop_left,
      if_neg (by simpa using hne)]
    rfl
  | braced name =>
    exact ⟨'$', '\x7b' :: (name ++ '\x7d' :: rest), by simp [text], nextPart_reference h rest⟩
  | emptyBraces => exact ⟨'$', '\x7b' :: '\x7d' :: rest, rfl, rfl⟩
  | unclosed name =>
    exact ⟨'$', '\x7b' :: (name ++ rest), rfl, nextPart_unclosed h.2.nameAt_eq h.1⟩

/-- What the scanner takes off the front of a text is a piece that fits. -/
theorem exists_fits_nextPart (c : Char) (s : List Char) :
    ∃ p : Piece, p.Fits (nextPart c s).2 ∧ p.text ++ (nextPart c s).2 = c :: s := by
  by_cases hc : c = '$'
  · subst hc
    by_cases hbrace : s.head? = some '\x7b'
    · obtain ⟨r, rfl⟩ := List.head?_eq_some_iff.1 hbrace
      obtain ⟨name, rest, rfl, hlongest⟩ := exists_longestName r
      by_cases hclosed : rest.head? = some '\x7d'
      · obtain ⟨rest, rfl⟩ := List.head?_eq_some_iff.1 hclosed
        rcases hlongest.isName with rfl | hname
        · exact ⟨.emptyBraces, trivial, rfl⟩
        · rw [nextPart_reference hname]
          exact ⟨.braced name, hname, by simp [Piece.text]⟩
      · rw [nextPart_unclosed hlongest.nameAt_eq hclosed]
        exact ⟨.unclosed name, ⟨hclosed, hlongest⟩, rfl⟩
    · obtain ⟨name, rest, rfl, hlongest⟩ := exists_longestName s
      rw [nextPart_dollar hbrace, hlongest.nameAt_eq, List.drop_left]
      by_cases hname : name = []
      · subst hname
        exact ⟨.dollar, ⟨hbrace, hlongest⟩, rfl⟩
      · rw [if_neg (by simpa using hname)]
        exact ⟨.bare name, ⟨hname, hlongest⟩, rfl⟩
  · have hnext : nextPart c s = (.copy [c], s) := by
      unfold nextPart
      exact if_pos hc
    rw [hnext]
    exact ⟨.char c, hc, rfl⟩

/-- The pieces of a text are the ones that the scanner finds. -/
theorem Decomposes.parts_eq {pieces : List Piece} (h : Decomposes pieces s) :
    parts s = pieces.map Piece.part := by
  induction h with
  | nil => rw [parts, List.map_nil]
  | cons hp hrest ih =>
    obtain ⟨c, s, hs, hnext⟩ := hp.nextPart_eq
    rw [hs, parts, hnext, ih, List.map_cons]

theorem exists_decomposes (s : List Char) : ∃ pieces, Decomposes pieces s := by
  fun_induction parts s with
  | case1 => exact ⟨[], .nil⟩
  | case2 c s ih =>
    obtain ⟨p, hp, htext⟩ := exists_fits_nextPart c s
    obtain ⟨pieces, hpieces⟩ := ih
    refine ⟨p :: pieces, ?_⟩
    rw [← htext]
    exact .cons hp hpieces

/-! ## The pieces are told by the text -/

/-- The piece with a given text that the scanner makes something of. -/
def Piece.ofPart (text : List Char) : Part → Piece
  | .variable name => if text = '$' :: name then .bare name else .braced name
  | .copy _ =>
    if text.head? ≠ some '$' then .char (text.headD '$')
    else if text = ['$'] then .dollar
    else if text = ['$', '\x7b', '\x7d'] then .emptyBraces
    else .unclosed (text.drop 2)

theorem Piece.Fits.ofPart_eq {p : Piece} (h : p.Fits rest) : ofPart p.text p.part = p := by
  cases p with
  | char c => exact if_pos (fun hc => h (Option.some.inj hc))
  | dollar => rfl
  | bare name => exact if_pos rfl
  | braced name =>
    refine if_neg fun htext => ?_
    have hlength : (braced name).text.length = name.length + 1 := congrArg List.length htext
    simp only [text, List.length_cons, List.length_append] at hlength
    omega
  | emptyBraces => rfl
  | unclosed name =>
    have hname : name ≠ ['\x7d'] := by
      rintro rfl
      exact absurd h.2.isName (by decide)
    simp [ofPart, part, name?, text, hname]

/-- The pieces of a text are unique. -/
theorem Decomposes.unique {pieces pieces' : List Piece} (h : Decomposes pieces s)
    (h' : Decomposes pieces' s) : pieces = pieces' := by
  induction h generalizing pieces' with
  | nil =>
    generalize hs : ([] : List Char) = s at h'
    cases h' with
    | nil => rfl
    | cons hq _ =>
      obtain ⟨c, t, ht, -⟩ := hq.nextPart_eq
      rw [ht] at hs
      cases hs
  | @cons p pieces rest hp hrest ih =>
    generalize hs : p.text ++ rest = s at h'
    obtain ⟨c, t, ht, hnext⟩ := hp.nextPart_eq
    cases h' with
    | nil =>
      rw [ht] at hs
      cases hs
    | @cons q pieces' rest' hq hrest' =>
      obtain ⟨c', t', ht', hnext'⟩ := hq.nextPart_eq
      obtain ⟨rfl, rfl⟩ := List.cons.inj (ht'.symm.trans (hs.symm.trans ht))
      obtain ⟨hpart, rfl⟩ := Prod.mk.inj (hnext'.symm.trans hnext)
      have htext : q.text = p.text := List.append_cancel_right hs.symm
      have hpq : p = q := by rw [← hp.ofPart_eq, ← hq.ofPart_eq, htext, hpart]
      rw [hpq, ih hrest']

theorem existsUnique_decomposes (s : List Char) : ∃! pieces, Decomposes pieces s := by
  obtain ⟨pieces, h⟩ := exists_decomposes s
  exact ⟨pieces, h, fun _ h' => h'.unique h⟩

/-! ## Cutting a text between two pieces -/

theorem head?_ne_of_append {c : Char} {more : List Char} (h : (rest ++ more).head? ≠ some c) :
    rest.head? ≠ some c := by
  cases rest with
  | nil => exact nofun
  | cons d rest => exact h

/-- A piece that fits a text fits the beginnings of the text. -/
theorem Piece.Fits.of_append {p : Piece} {more : List Char} (h : p.Fits (rest ++ more)) :
    p.Fits rest := by
  cases p with
  | char c => exact h
  | dollar =>
    have hlongest : IsLongestName [] ([] ++ (rest ++ more)) := h.2
    exact ⟨head?_ne_of_append h.1, hlongest.of_append⟩
  | bare name => exact ⟨h.1, h.2.of_append⟩
  | braced name => exact h
  | emptyBraces => trivial
  | unclosed name => exact ⟨head?_ne_of_append h.1, h.2.of_append⟩

/-- A text that is cut between two pieces leaves two texts with the pieces that they had. -/
theorem Decomposes.of_append {front back : List Piece} (h : Decomposes (front ++ back) s) :
    Decomposes front (front.flatMap Piece.text) ∧ Decomposes back (back.flatMap Piece.text) := by
  induction front generalizing s with
  | nil =>
    rw [← h.flatMap_text] at h
    exact ⟨.nil, h⟩
  | cons p front ih =>
    rw [List.cons_append] at h
    cases h with
    | cons hp hrest =>
      obtain ⟨hfront, hback⟩ := ih hrest
      rw [← hrest.flatMap_text, List.flatMap_append] at hp
      exact ⟨.cons hp.of_append hfront, hback⟩

/-! ## Expansion -/

/-- A reference to a variable stands somewhere in a text. -/
def HasReference (s : List Char) : Prop :=
  ∃ name, isName name = true ∧ ('$' :: name <:+: s ∨ '$' :: '\x7b' :: (name ++ ['\x7d']) <:+: s)

theorem Decomposes.fits_of_mem {pieces : List Piece} (h : Decomposes pieces s) {p : Piece}
    (hmem : p ∈ pieces) : ∃ rest, p.Fits rest := by
  induction h with
  | nil => cases hmem
  | cons hp _ ih =>
    rcases List.mem_cons.1 hmem with rfl | hmem
    · exact ⟨_, hp⟩
    · exact ih hmem

/-- Without a reference in the text no piece is one. -/
theorem Decomposes.name?_eq_none {pieces : List Piece} (h : Decomposes pieces s)
    (hs : ¬HasReference s) {p : Piece} (hmem : p ∈ pieces) : p.name? = none := by
  obtain ⟨rest, hp⟩ := h.fits_of_mem hmem
  have hfound : p.text <:+: s := by
    rw [← h.flatMap_text]
    exact List.infix_of_mem_flatten (List.mem_map_of_mem hmem)
  cases p with
  | bare name => exact absurd ⟨name, hp.2.isName.resolve_left hp.1, .inl hfound⟩ hs
  | braced name => exact absurd ⟨name, hp, .inr hfound⟩ hs
  | _ => rfl

/-- The pieces of a text expand one behind the other. -/
theorem expandVariables_eq {text : String} {pieces : List Piece}
    (h : Decomposes pieces text.toList) (env : OrderedMap String String) :
    expandVariables env text = String.ofList (pieces.flatMap (Piece.value env)) := by
  unfold expandVariables
  rw [h.parts_eq, List.flatMap_map]
  simp only [Piece.expand_part]

theorem Piece.value_of_name?_eq_none {p : Piece} (h : p.name? = none)
    (env : OrderedMap String String) : p.value env = p.text := by
  rw [value, h]

/-- A text without references expands to itself. -/
theorem expandVariables_of_not_hasReference {text : String} (h : ¬HasReference text.toList)
    (env : OrderedMap String String) : expandVariables env text = text := by
  obtain ⟨pieces, hpieces⟩ := exists_decomposes text.toList
  have hvalue : pieces.flatMap (Piece.value env) = pieces.flatMap Piece.text :=
    List.flatMap_congr fun p hp => Piece.value_of_name?_eq_none (hpieces.name?_eq_none h hp) env
  rw [expandVariables_eq hpieces, hvalue, hpieces.flatMap_text, String.ofList_toList]

theorem expandVariables_of_not_mem {text : String} (h : '$' ∉ text.toList)
    (env : OrderedMap String String) : expandVariables env text = text := by
  refine expandVariables_of_not_hasReference ?_ env
  rintro ⟨name, -, hfound | hfound⟩
  · exact h (hfound.subset List.mem_cons_self)
  · exact h (hfound.subset List.mem_cons_self)

/-- A text that is cut between two pieces expands one side at a time. -/
theorem expandVariables_append {a b : String} {front back : List Piece}
    (h : Decomposes (front ++ back) (a ++ b).toList) (ha : a.toList = front.flatMap Piece.text)
    (env : OrderedMap String String) :
    expandVariables env (a ++ b) = expandVariables env a ++ expandVariables env b := by
  have hb : b.toList = back.flatMap Piece.text := by
    have htext := h.flatMap_text
    rw [List.flatMap_append, ← ha, String.toList_append] at htext
    exact (List.append_cancel_left htext).symm
  obtain ⟨hfront, hback⟩ := h.of_append
  rw [← ha] at hfront
  rw [← hb] at hback
  rw [expandVariables_eq h, expandVariables_eq hfront, expandVariables_eq hback,
    List.flatMap_append, String.ofList_append]

theorem HasReference.any_startsName (h : HasReference s) : s.any startsName = true := by
  obtain ⟨name, hname, hfound⟩ := h
  cases name with
  | nil => cases hname
  | cons c name =>
    have hmem : c ∈ s := by rcases hfound with h | h <;> exact h.subset (by simp)
    exact List.any_eq_true.2 ⟨c, hmem, (Bool.and_eq_true_iff.1 hname).1⟩

/-- A text decomposes in one way, and the decomposition tells what the text expands to. -/
theorem expandVariables_of_decomposes (text : String) :
    (∃! pieces, Decomposes pieces text.toList) ∧
    ∀ pieces, Decomposes pieces text.toList → ∀ env,
      expandVariables env text = String.ofList (pieces.flatMap (Piece.value env)) ∧
      (¬HasReference text.toList → expandVariables env text = text) ∧
      ∀ front back a b, pieces = front ++ back → text = a ++ b →
        a.toList = front.flatMap Piece.text →
        expandVariables env text = expandVariables env a ++ expandVariables env b := by
  refine ⟨existsUnique_decomposes _, fun pieces h env => ⟨expandVariables_eq h env, ?_, ?_⟩⟩
  · exact fun hnone => expandVariables_of_not_hasReference hnone env
  · rintro front back a b rfl rfl ha
    exact expandVariables_append h ha env

/-- References behind dollar signs and in braces, and braces around other texts than names. -/
theorem expandVariables_of_decomposes_of_nested :
    (expandVariables (OrderedMap.empty.insert "A" "$B") "$$A$\x7b$A\x7d$\x7bA-b\x7d$\x7bA\x7d$" =
        "$$B$\x7b$B\x7d$\x7bA-b\x7d$B$" ∧
      expandVariables (OrderedMap.empty.insert "A" "$B") "$$A$\x7b$A\x7d$\x7bA-b\x7d$\x7bA\x7d$" =
        expandVariables (OrderedMap.empty.insert "A" "$B") "$$A$\x7b$A\x7d" ++
          expandVariables (OrderedMap.empty.insert "A" "$B") "$\x7bA-b\x7d$\x7bA\x7d$") ∧
    ∀ env, expandVariables env "$ $\x7b\x7d$\x7b1\x7d$\x7b" = "$ $\x7b\x7d$\x7b1\x7d$\x7b" := by
  have hnested := (expandVariables_of_decomposes "$$A$\x7b$A\x7d$\x7bA-b\x7d$\x7bA\x7d$").2
    [.dollar, .bare ['A'], .unclosed [], .bare ['A'], .char '\x7d', .unclosed ['A'], .char '-',
      .char 'b', .char '\x7d', .braced ['A'], .dollar] (by decide) (OrderedMap.empty.insert "A" "$B")
  have hplain := (expandVariables_of_decomposes "$ $\x7b\x7d$\x7b1\x7d$\x7b").2
    [.dollar, .char ' ', .emptyBraces, .unclosed [], .char '1', .char '\x7d', .unclosed []]
    (by decide)
  refine ⟨⟨hnested.1.trans (by decide), ?_⟩, fun env => (hplain env).2.1 ?_⟩
  · exact hnested.2.2 [.dollar, .bare ['A'], .unclosed [], .bare ['A'], .char '\x7d'] _ _ _ rfl
      (by decide) (by decide)
  · exact fun h => absurd h.any_startsName (by decide)

end VirtualShell.Line
