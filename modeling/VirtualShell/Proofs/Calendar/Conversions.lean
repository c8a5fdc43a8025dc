import VirtualShell.Proofs.Calendar.Rendering
import VirtualShell.Proofs.Text.Numerals

/-!
# The language of date formats

A format is a row of characters and of conversions behind percent signs. The grammar of this language
is `Reads`, with the pieces that a format stands for; the reader of formats accepts the formats of the
grammar and no other text (`ofText?_eq_some_iff`).

What is read cannot always be written: there is a conversion for an offset that may lack its minutes,
`%#z`, which only a reader of dates understands. A format is written, for whatever instant, unless it
holds this conversion in the place of one of its parts (`Reads.render?_eq_none_iff`); the same
characters behind another percent sign are none of its parts.
-/

namespace VirtualShell.Calendar.Format

open Piece Text

/-! ## The grammar -/

/-- The conversions of more than one character, apart from those with a sign for the filling. -/
def longForms : List (List Char × Piece) :=
  [([':', 'z'], .offset "+00:00"), ([':', ':', 'z'], .offset "+00:00:00"),
    ([':', ':', ':', 'z'], .offset "+00"), (['.', 'f'], .fraction),
    (['.', '3', 'f'], .digits true 3), (['.', '6', 'f'], .digits true 6),
    (['.', '9', 'f'], .digits true 9), (['3', 'f'], .digits false 3),
    (['6', 'f'], .digits false 6), (['9', 'f'], .digits false 9)]

/-- The filling that a sign in front of a conversion asks for. -/
def fill? : Char → Option Fill
  | '-' => some .nothing
  | '0' => some .zeros
  | '_' => some .blanks
  | _ => none

/-- The conversions without a sign for the filling, by what follows the percent sign. -/
inductive Plain : List Char → List Piece → Prop
  | letter {c : Char} {pieces : List Piece} (h : letter? c = some pieces) : Plain [c] pieces
  | long {spec : List Char} {piece : Piece} (h : (spec, piece) ∈ longForms) : Plain spec [piece]

/-- All conversions. A sign for the filling stands only before a conversion for a single number. -/
inductive Conversion : List Char → List Piece → Prop
  | plain {spec : List Char} {pieces : List Piece} (h : Plain spec pieces) : Conversion spec pieces
  | filled {sign : Char} {fill own : Fill} {spec : List Char} {q : Quantity}
    (hsign : fill? sign = some fill) (h : Plain spec [.number q own]) :
    Conversion (sign :: spec) [.number q fill]
  | loose : Conversion ['#', 'z'] [.looseOffset]

/-- A format is a row of characters and conversions. -/
inductive Reads : List Char → List Piece → Prop
  | nil : Reads [] []
  | character {c : Char} {rest : List Char} {more : List Piece} (hc : c ≠ '%')
    (hrest : Reads rest more) : Reads (c :: rest) (char c :: more)
  | conversion {spec rest : List Char} {pieces more : List Piece} (h : Conversion spec pieces)
    (hrest : Reads rest more) : Reads ('%' :: (spec ++ rest)) (pieces ++ more)

/-- The text is a format. -/
def Readable (s : List Char) : Prop := ∃ pieces, Reads s pieces

/-- One of the parts of the format is the offset that may lack its minutes. -/
def HoldsLooseOffset (s : List Char) : Prop :=
  ∃ before after, s = before ++ '%' :: '#' :: 'z' :: after ∧ Readable before ∧ Readable after

/-! ## Reading -/

variable {c : Char} {s r spec : List Char} {pieces : List Piece}

theorem plain?_long : ∀ e ∈ longForms, ∀ r, plain? (e.1 ++ r) = some ([e.2], r) := by
  simp [longForms, plain?]

theorem plain?_letter (h : letter? c = some pieces) (r : List Char) :
    plain? (c :: r) = some (pieces, r) := by
  unfold plain?
  split
  case h_11 heq =>
    cases heq
    rw [h, Option.map_some]
  -- the longer conversions begin with no letter
  all_goals next heq => cases heq <;> cases h

theorem exists_plain_of_long (spec : List Char) {piece : Piece} {r' : List Char}
    (hmem : (spec, piece) ∈ longForms) (h : some ([piece], r) = some (pieces, r')) :
    ∃ spec', Plain spec' pieces ∧ spec ++ r = spec' ++ r' := by
  cases h
  exact ⟨spec, .long hmem, rfl⟩

theorem plain?_eq_some_iff :
    plain? s = some (pieces, r) ↔ ∃ spec, Plain spec pieces ∧ s = spec ++ r := by
  constructor
  · intro h
    unfold plain? at h
    split at h
    · exact exists_plain_of_long [':', ':', ':', 'z'] (by simp [longForms]) h
    · exact exists_plain_of_long [':', ':', 'z'] (by simp [longForms]) h
    · exact exists_plain_of_long [':', 'z'] (by simp [longForms]) h
    · exact exists_plain_of_long ['.', 'f'] (by simp [longForms]) h
    · exact exists_plain_of_long ['.', '3', 'f'] (by simp [longForms]) h
    · exact exists_plain_of_long ['.', '6', 'f'] (by simp [longForms]) h
    · exact exists_plain_of_long ['.', '9', 'f'] (by simp [longForms]) h
    · exact exists_plain_of_long ['3', 'f'] (by simp [longForms]) h
    · exact exists_plain_of_long ['6', 'f'] (by simp [longForms]) h
    · exact exists_plain_of_long ['9', 'f'] (by simp [longForms]) h
    · obtain ⟨letters, hletter, heq⟩ := Option.map_eq_some_iff.1 h
      cases heq
      exact ⟨[_], .letter hletter, rfl⟩
    · cases h
  · rintro ⟨spec, h, rfl⟩
    cases h with
    | letter h => exact plain?_letter h r
    | long h => exact plain?_long _ h r

theorem filled?_eq_some_iff {fill : Fill} : filled? fill s = some (pieces, r) ↔
    ∃ q own, plain? s = some ([.number q own], r) ∧ pieces = [.number q fill] := by
  constructor
  · intro h
    unfold filled? at h
    split at h
    · next q own r' hplain =>
      cases h
      exact ⟨q, own, hplain, rfl⟩
    · cases h
  · rintro ⟨q, own, hplain, rfl⟩
    rw [filled?, hplain]

/-- No conversion without a sign begins with one. -/
theorem Plain.head (h : Plain spec pieces) :
    ∃ c rest, spec = c :: rest ∧ fill? c = none ∧ c ≠ '#' := by
  cases h with
  | @letter c _ h =>
    refine ⟨c, [], rfl, ?_, ?_⟩
    · unfold fill?
      split <;> first | cases h | rfl
    · rintro rfl
      cases h
  | @long spec piece h =>
    have hall : ∀ e ∈ longForms, ∃ c rest, e.1 = c :: rest ∧ fill? c = none ∧ c ≠ '#' := by
      simp [longForms, fill?]
    exact hall _ h

theorem conversion?_of_fill? {sign : Char} {fill : Fill} (h : fill? sign = some fill) (r : List Char) :
    conversion? (sign :: r) = filled? fill r := by
  unfold fill? at h
  split at h <;> cases h <;> rfl

theorem conversion?_of_head (hc : fill? c = none) (hne : c ≠ '#') (r : List Char) :
    conversion? (c :: r) = plain? (c :: r) := by
  unfold conversion?
  split
  · next heq => cases heq; cases hc
  · next heq => cases heq; cases hc
  · next heq => cases heq; cases hc
  · next heq => cases heq; exact absurd rfl hne
  · rfl

/-- A conversion is read off a text if the text begins with one of the grammar. -/
theorem conversion?_eq_some_iff :
    conversion? s = some (pieces, r) ↔ ∃ spec, Conversion spec pieces ∧ s = spec ++ r := by
  have hfilled : ∀ {sign : Char} {fill : Fill} {rest : List Char}, fill? sign = some fill →
      filled? fill rest = some (pieces, r) →
      ∃ spec, Conversion spec pieces ∧ sign :: rest = spec ++ r := by
    intro sign fill rest hsign h
    obtain ⟨q, own, hplain, rfl⟩ := filled?_eq_some_iff.1 h
    obtain ⟨spec, hspec, rfl⟩ := plain?_eq_some_iff.1 hplain
    exact ⟨sign :: spec, .filled hsign hspec, rfl⟩
  constructor
  · intro h
    unfold conversion? at h
    split at h
    · exact hfilled rfl h
    · exact hfilled rfl h
    · exact hfilled rfl h
    · cases h
      exact ⟨['#', 'z'], .loose, rfl⟩
    · obtain ⟨spec, hspec, rfl⟩ := plain?_eq_some_iff.1 h
      exact ⟨spec, .plain hspec, rfl⟩
  · rintro ⟨spec, h, rfl⟩
    cases h with
    | plain h =>
      obtain ⟨c, rest, rfl, hfill, hne⟩ := h.head
      rw [List.cons_append, conversion?_of_head hfill hne]
      exact plain?_eq_some_iff.2 ⟨c :: rest, h, rfl⟩
    | @filled sign fill own spec q hsign h =>
      rw [List.cons_append, conversion?_of_fill? hsign]
      exact filled?_eq_some_iff.2 ⟨q, own, plain?_eq_some_iff.2 ⟨spec, h, rfl⟩, rfl⟩
    | loose => rfl

/-! ## Formats -/

theorem read?_nil (fuel : Nat) : read? fuel [] = some [] := by
  cases fuel <;> rfl

theorem read?_percent (fuel : Nat) (s : List Char) : read? (fuel + 1) ('%' :: s) =
    conversion? s >>= fun p => read? fuel p.2 >>= fun more => some (p.1 ++ more) := rfl

theorem read?_cons (hc : c ≠ '%') (fuel : Nat) (s : List Char) : read? (fuel + 1) (c :: s) =
    read? fuel s >>= fun more => some (char c :: more) := by
  rw [read?]
  · rfl
  · exact hc

theorem length_le_of_conversion? (h : conversion? s = some (pieces, r)) : r.length ≤ s.length := by
  obtain ⟨spec, -, rfl⟩ := conversion?_eq_some_iff.1 h
  rw [List.length_append]
  omega

theorem reads_nil_iff : Reads [] pieces ↔ pieces = [] := by
  constructor
  · intro h
    cases h
    rfl
  · rintro rfl
    exact .nil

theorem reads_percent_iff : Reads ('%' :: s) pieces ↔
    ∃ first rest more, conversion? s = some (first, rest) ∧ Reads rest more ∧
      pieces = first ++ more := by
  constructor
  · intro h
    cases h with
    | character hc => exact absurd rfl hc
    | @conversion spec rest first more h hrest =>
      exact ⟨first, rest, more, conversion?_eq_some_iff.2 ⟨spec, h, rfl⟩, hrest, rfl⟩
  · rintro ⟨first, rest, more, h, hrest, rfl⟩
    obtain ⟨spec, hspec, rfl⟩ := conversion?_eq_some_iff.1 h
    exact .conversion hspec hrest

theorem reads_cons_iff (hc : c ≠ '%') :
    Reads (c :: s) pieces ↔ ∃ more, Reads s more ∧ pieces = char c :: more := by
  constructor
  · intro h
    cases h with
    | character _ hrest => exact ⟨_, hrest, rfl⟩
    | conversion => exact absurd rfl hc
  · rintro ⟨more, hrest, rfl⟩
    exact .character hc hrest

/-- With as many steps as it has characters, a format of the grammar is read, and only such a text.
The induction is on the number of steps. -/
theorem read?_eq_some_iff {fuel : Nat} (hfuel : s.length ≤ fuel) :
    read? fuel s = some pieces ↔ Reads s pieces := by
  induction fuel generalizing s pieces with
  | zero =>
    rw [List.eq_nil_of_length_eq_zero (Nat.le_zero.1 hfuel), reads_nil_iff, read?_nil,
      Option.some.injEq, eq_comm]
  | succ fuel ih =>
    cases s with
    | nil => rw [reads_nil_iff, read?_nil, Option.some.injEq, eq_comm]
    | cons c s =>
      have hrest : s.length ≤ fuel := Nat.le_of_succ_le_succ hfuel
      by_cases hc : c = '%'
      · subst hc
        rw [reads_percent_iff, read?_percent]
        constructor
        · intro h
          obtain ⟨⟨first, rest⟩, hfirst, h⟩ := exists_of_bind_eq_some h
          obtain ⟨more, hmore, h⟩ := exists_of_bind_eq_some h
          cases h
          exact ⟨first, rest, more, hfirst,
            (ih (Nat.le_trans (length_le_of_conversion? hfirst) hrest)).1 hmore, rfl⟩
        · rintro ⟨first, rest, more, hfirst, hmore, rfl⟩
          have hread := (ih (Nat.le_trans (length_le_of_conversion? hfirst) hrest)).2 hmore
          exact (bind_of_eq_some hfirst _).trans (bind_of_eq_some hread _)
      · rw [reads_cons_iff hc, read?_cons hc]
        constructor
        · intro h
          obtain ⟨more, hmore, h⟩ := exists_of_bind_eq_some h
          cases h
          exact ⟨more, (ih hrest).1 hmore, rfl⟩
        · rintro ⟨more, hmore, rfl⟩
          exact bind_of_eq_some ((ih hrest).2 hmore) _

theorem ofText?_eq_some_iff {s : String} : ofText? s = some pieces ↔ Reads s.toList pieces :=
  read?_eq_some_iff (Nat.le_refl _)

namespace Reads

theorem unique {more : List Piece} (h : Reads s pieces) (h' : Reads s more) : pieces = more := by
  have hread := (read?_eq_some_iff (Nat.le_refl _)).2 h
  rw [(read?_eq_some_iff (Nat.le_refl _)).2 h', Option.some.injEq] at hread
  exact hread.symm

theorem append {more : List Piece} (h : Reads s pieces) (h' : Reads r more) :
    Reads (s ++ r) (pieces ++ more) := by
  induction h with
  | nil => exact h'
  | character hc _ ih => exact .character hc ih
  | @conversion spec rest first more h _ ih =>
    rw [List.cons_append, List.append_assoc, List.append_assoc]
    exact .conversion h ih

end Reads

/-! ## The offset that cannot be written -/

theorem not_mem_letter? (h : letter? c = some pieces) : .looseOffset ∉ pieces := by
  unfold letter? at h
  split at h <;> cases h <;> simp [slashed, longClock, clock, zeros, blanks, char]

theorem Conversion.eq_of_mem (h : Conversion spec pieces) (hmem : .looseOffset ∈ pieces) :
    spec = ['#', 'z'] := by
  cases h with
  | plain h =>
    cases h with
    | letter h => exact absurd hmem (not_mem_letter? h)
    | @long spec piece h =>
      have hall : ∀ e ∈ longForms, .looseOffset ≠ e.2 := by simp [longForms]
      exact absurd (List.mem_singleton.1 hmem) (hall _ h)
  | filled => simp at hmem
  | loose => rfl

/-- The induction is on the parts of the format. -/
theorem Reads.holdsLooseOffset (h : Reads s pieces) (hmem : .looseOffset ∈ pieces) :
    HoldsLooseOffset s := by
  induction h with
  | nil => cases hmem
  | @character c rest more hc _ ih =>
    obtain ⟨before, after, rfl, ⟨p, hp⟩, hafter⟩ := ih (by simpa [char] using hmem)
    exact ⟨c :: before, after, rfl, ⟨_, .character hc hp⟩, hafter⟩
  | @conversion spec rest first more hspec hrest ih =>
    rcases List.mem_append.1 hmem with hmem | hmem
    · rw [hspec.eq_of_mem hmem]
      exact ⟨[], rest, rfl, ⟨[], .nil⟩, ⟨more, hrest⟩⟩
    · obtain ⟨before, after, rfl, ⟨p, hp⟩, hafter⟩ := ih hmem
      exact ⟨'%' :: (spec ++ before), after, by simp, ⟨_, .conversion hspec hp⟩, hafter⟩

/-- A format holds the offset that may lack its minutes if that is among its pieces. -/
theorem holdsLooseOffset_iff :
    HoldsLooseOffset s ↔ ∃ pieces, Reads s pieces ∧ .looseOffset ∈ pieces := by
  constructor
  · rintro ⟨before, after, rfl, ⟨p, hp⟩, ⟨q, hq⟩⟩
    have hall : Reads (before ++ '%' :: '#' :: 'z' :: after) (p ++ ([.looseOffset] ++ q)) :=
      hp.append (.conversion .loose hq)
    exact ⟨_, hall, by simp⟩
  · rintro ⟨pieces, h, hmem⟩
    exact h.holdsLooseOffset hmem

theorem Reads.mem_looseOffset_iff (h : Reads s pieces) :
    .looseOffset ∈ pieces ↔ HoldsLooseOffset s := by
  rw [holdsLooseOffset_iff]
  constructor
  · intro hmem
    exact ⟨pieces, h, hmem⟩
  · rintro ⟨more, hmore, hmem⟩
    rwa [h.unique hmore]

instance : DecidablePred HoldsLooseOffset := fun s =>
  decidable_of_iff ((read? s.length s).any (·.contains .looseOffset) = true) <| by
    simp [holdsLooseOffset_iff, Option.any_eq_true, read?_eq_some_iff]

/-- A format is written for an instant unless it holds the offset that may lack its minutes. -/
theorem Reads.render?_eq_none_iff (h : Reads s pieces) (t : Instant) :
    render? t pieces = none ↔ HoldsLooseOffset s := by
  rw [Format.render?_eq_none_iff, h.mem_looseOffset_iff]

end VirtualShell.Calendar.Format
