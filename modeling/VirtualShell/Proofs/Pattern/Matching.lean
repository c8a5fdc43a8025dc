import Mathlib.Logic.Function.Iterate
import VirtualShell.Pattern.Match

/-!
# What a pattern reaches

The places that a pattern reaches from a set of places are those that it spans to from one of them
(`Regex.mem_advance`), so that a line matches when the pattern spans from one of its places to another
(`Regex.matchesLine_iff`). The sets of a repetition are complete after a bounded number of rounds: a
pattern that goes on leaves at most one place behind in each round, and one that stays where it is may
do so once more or once less (`Regex.spansTimes_iff_of_lt`).
-/

namespace VirtualShell.Pattern

variable {chars : Array Char} {p : Regex} {ps : List Regex} {i j k n m : Nat} {places : List Nat}

/-! ## Sets of places -/

theorem mem_stepOver {ok : Char → Bool} : j ∈ stepOver chars ok places ↔
    ∃ i ∈ places, j = i + 1 ∧ ∃ d, chars[i]? = some d ∧ ok d = true := by
  have hstep : ∀ i, (if (chars[i]?).any ok then some (i + 1) else none) = some j ↔
      j = i + 1 ∧ ∃ d, chars[i]? = some d ∧ ok d = true := by
    intro i
    cases chars[i]? with
    | none => simp
    | some d => cases hok : ok d <;> simp [hok, eq_comm (a := j)]
  simp only [stepOver, List.mem_filterMap, hstep]

theorem mem_unite {as bs : List Nat} : j ∈ unite as bs ↔ j ∈ as ∨ j ∈ bs := by
  induction as, bs using unite.induct with
  | case1 bs => simp [unite]
  | case2 as hne => cases as <;> simp [unite]
  | case3 a as b bs hlt ih => simp [unite, hlt, ih, or_assoc]
  | case4 a as b bs hnlt hlt ih =>
    rw [unite, if_neg hnlt, if_pos hlt, List.mem_cons, ih, List.mem_cons (a := j) (b := b),
      or_left_comm]
  | case5 a as b bs hnlt hnlt' ih =>
    obtain rfl : a = b := by omega
    rw [unite, if_neg hnlt, if_neg hnlt', List.mem_cons, ih, List.mem_cons (a := j) (l := as),
      List.mem_cons (a := j) (l := bs), or_or_or_comm, or_self]

/-- Once nothing changes, it makes no difference how often a function is applied. -/
theorem settle_eq_iterate {α : Type} [BEq α] [LawfulBEq α] (f : α → α) (n : Nat) (x : α) :
    settle f n x = f^[n] x := by
  induction n generalizing x with
  | zero => rfl
  | succ n ih =>
    rw [settle, Function.iterate_succ_apply]
    split
    · next hsame =>
      rw [eq_of_beq hsame, Function.iterate_fixed (eq_of_beq hsame)]
    · exact ih (f x)

/-! ## From place to place -/

namespace Regex

/-- A pattern stays where it is, or it goes on to a place in the line. -/
def GoesOn (chars : Array Char) (i j : Nat) : Prop := i = j ∨ i < j ∧ j ≤ chars.size

theorem GoesOn.trans (hij : GoesOn chars i j) (hjk : GoesOn chars j k) : GoesOn chars i k := by
  unfold GoesOn at *
  omega

theorem goesOn_of_getElem? {c : Char} (hc : chars[i]? = some c) : GoesOn chars i (i + 1) := by
  obtain ⟨hlt, -⟩ := Array.getElem?_eq_some_iff.1 hc
  exact Or.inr ⟨Nat.lt_succ_self i, hlt⟩

theorem spansTimes_zero_iff : SpansTimes chars p 0 i j ↔ i = j := by
  constructor
  · rintro ⟨⟩
    rfl
  · rintro rfl
    exact .zero p i

theorem spansTimes_succ_iff :
    SpansTimes chars p (n + 1) i k ↔ ∃ j, p.Spans chars i j ∧ SpansTimes chars p n j k := by
  constructor
  · rintro ⟨⟩
    exact ⟨_, ‹_›, ‹_›⟩
  · rintro ⟨j, hfirst, hrest⟩
    exact .succ hfirst hrest

theorem spansAll_nil_iff : SpansAll chars [] i j ↔ i = j := by
  constructor
  · rintro ⟨⟩
    rfl
  · rintro rfl
    exact .nil i

theorem spansAll_cons_iff :
    SpansAll chars (p :: ps) i k ↔ ∃ j, p.Spans chars i j ∧ SpansAll chars ps j k := by
  constructor
  · rintro ⟨⟩
    exact ⟨_, ‹_›, ‹_›⟩
  · rintro ⟨j, hfirst, hrest⟩
    exact .cons hfirst hrest

theorem goesOn_spansTimes (hp : ∀ i j, p.Spans chars i j → GoesOn chars i j)
    (h : SpansTimes chars p n i j) : GoesOn chars i j := by
  induction n generalizing i with
  | zero => exact Or.inl (spansTimes_zero_iff.1 h)
  | succ n ih =>
    obtain ⟨k, hfirst, hrest⟩ := spansTimes_succ_iff.1 h
    exact (hp i k hfirst).trans (ih hrest)

mutual

theorem goesOn_of_spans : ∀ (p : Regex) (i j : Nat), p.Spans chars i j → GoesOn chars i j
  | .empty, i, j, h => by
    cases h
    exact Or.inl rfl
  | .char c, i, j, h => by
    cases h with
    | char hc => exact goesOn_of_getElem? hc
  | .oneOf k, i, j, h => by
    cases h with
    | oneOf hc hk => exact goesOn_of_getElem? hc
  | .anchor a, i, j, h => by
    cases h
    exact Or.inl rfl
  | .repeated least most p, i, j, h => by
    cases h with
    | repeated hleast hmost htimes =>
      exact goesOn_spansTimes (goesOn_of_spans p) htimes
  | .group p, i, j, h => by
    cases h with
    | group h => exact goesOn_of_spans p i j h
  | .sequence ps, i, j, h => by
    cases h with
    | sequence h => exact goesOn_of_spansAll ps i j h
  | .choice ps, i, j, h => by
    cases h with
    | choice hp h => exact goesOn_of_mem ps _ hp i j h

theorem goesOn_of_spansAll :
    ∀ (ps : List Regex) (i j : Nat), SpansAll chars ps i j → GoesOn chars i j
  | [], i, j, h => Or.inl (spansAll_nil_iff.1 h)
  | p :: ps, i, j, h => by
    obtain ⟨k, hfirst, hrest⟩ := spansAll_cons_iff.1 h
    exact (goesOn_of_spans p i k hfirst).trans (goesOn_of_spansAll ps k j hrest)

theorem goesOn_of_mem :
    ∀ (ps : List Regex), ∀ p ∈ ps, ∀ (i j : Nat), p.Spans chars i j → GoesOn chars i j
  | q :: ps, p, hp, i, j, h => by
    rcases List.mem_cons.1 hp with heq | hp
    · exact goesOn_of_spans q i j (heq ▸ h)
    · exact goesOn_of_mem ps p hp i j h

end

/-! ## Repetitions -/

theorem spansTimes_add :
    SpansTimes chars p (n + m) i k ↔ ∃ j, SpansTimes chars p n i j ∧ SpansTimes chars p m j k := by
  induction n generalizing i with
  | zero => simp [spansTimes_zero_iff]
  | succ n ih =>
    rw [Nat.add_right_comm, spansTimes_succ_iff]
    simp only [ih, spansTimes_succ_iff]
    exact ⟨fun ⟨a, hfirst, b, hrest, hlast⟩ => ⟨b, ⟨a, hfirst, hrest⟩, hlast⟩,
      fun ⟨b, ⟨a, hfirst, hrest⟩, hlast⟩ => ⟨a, hfirst, b, hrest, hlast⟩⟩

theorem spansTimes_of_loop (hloop : p.Spans chars i i) (n : Nat) : SpansTimes chars p n i i := by
  induction n with
  | zero => exact .zero p i
  | succ n ih => exact .succ hloop ih

/-- A repetition goes on in every round, or it stays somewhere, and then it may do so more often or not
at all. -/
theorem spansTimes_cases (h : SpansTimes chars p n i j) :
    i + n ≤ j ∧ (n = 0 ∨ j ≤ chars.size) ∨
      ∃ n', n = n' + 1 ∧ ∀ m, n' ≤ m → SpansTimes chars p m i j := by
  induction n generalizing i with
  | zero => exact Or.inl ⟨Nat.le_of_eq (spansTimes_zero_iff.1 h), Or.inl rfl⟩
  | succ n ih =>
    obtain ⟨k, hfirst, hrest⟩ := spansTimes_succ_iff.1 h
    rcases ih hrest with ⟨hle, hsize⟩ | ⟨n', rfl, hany⟩
    · rcases goesOn_of_spans p i k hfirst with rfl | ⟨hlt, hk⟩
      · refine Or.inr ⟨n, rfl, fun m hm => ?_⟩
        obtain ⟨extra, rfl⟩ := Nat.exists_eq_add_of_le' hm
        exact spansTimes_add.2 ⟨i, spansTimes_of_loop hfirst extra, hrest⟩
      · refine Or.inl ⟨by omega, Or.inr ?_⟩
        rcases hsize with rfl | hsize
        · rwa [← spansTimes_zero_iff.1 hrest]
        · exact hsize
    · refine Or.inr ⟨n' + 1, rfl, fun m hm => ?_⟩
      obtain ⟨m, rfl⟩ := Nat.exists_eq_add_of_le' (Nat.le_trans (Nat.le_add_left 1 n') hm)
      exact .succ hfirst (hany m (by omega))

/-- Behind as many rounds as the line has places it makes no difference how many there are. -/
theorem spansTimes_iff_of_lt (hn : chars.size < n) (hm : chars.size < m) :
    SpansTimes chars p n i j ↔ SpansTimes chars p m i j := by
  have hfewer : ∀ {n}, chars.size < n → SpansTimes chars p n i j →
      SpansTimes chars p (chars.size + 1) i j := by
    intro n hn h
    induction n with
    | zero => exact absurd hn (Nat.not_lt_zero _)
    | succ n ih =>
      rcases Nat.lt_or_ge chars.size n with hlt | hge
      · rcases spansTimes_cases h with ⟨hle, hzero | hsize⟩ | ⟨n', heq, hany⟩
        · cases hzero
        · omega
        · exact ih hlt (hany n (Nat.le_of_eq (Nat.succ.inj heq).symm))
      · obtain rfl : n = chars.size := by omega
        exact h
  have hmore : ∀ {n}, chars.size < n → SpansTimes chars p (chars.size + 1) i j →
      SpansTimes chars p n i j := by
    intro n hn h
    rcases spansTimes_cases h with ⟨hle, hzero | hsize⟩ | ⟨n', heq, hany⟩
    · cases hzero
    · omega
    · exact hany n (by omega)
  exact ⟨fun h => hmore hm (hfewer hn h), fun h => hmore hn (hfewer hm h)⟩

theorem spansTimes_rounds :
    SpansTimes chars p (rounds chars n) i j ↔ SpansTimes chars p n i j := by
  unfold rounds
  rcases Nat.le_total n (chars.size + 1) with hle | hle
  · rw [Nat.min_eq_left hle]
  · rw [Nat.min_eq_right hle]
    exact spansTimes_iff_of_lt (Nat.lt_succ_self _) hle

/-- What can be reached in up to some rounds can be reached in few. -/
theorem exists_spansTimes_rounds :
    (∃ k ≤ rounds chars n, SpansTimes chars p k i j) ↔ ∃ k ≤ n, SpansTimes chars p k i j := by
  constructor
  · rintro ⟨k, hk, h⟩
    exact ⟨k, Nat.le_trans hk (Nat.min_le_left _ _), h⟩
  · rintro ⟨k, hk, h⟩
    exact ⟨rounds chars k, by unfold rounds; omega, spansTimes_rounds.2 h⟩

/-- So it is for what is repeated beyond the least count. -/
theorem exists_spansTimes_further {least : Nat} {most : Option Nat} :
    (∃ k ≤ (match most with
        | some most => rounds chars (most - least)
        | none => chars.size + 1), SpansTimes chars p k i j) ↔
      ∃ k, (∀ m, most = some m → k ≤ m - least) ∧ SpansTimes chars p k i j := by
  cases most with
  | some m => simpa using exists_spansTimes_rounds
  | none =>
    constructor
    · rintro ⟨k, -, h⟩
      exact ⟨k, nofun, h⟩
    · rintro ⟨k, -, h⟩
      exact ⟨rounds chars k, Nat.min_le_right _ _, spansTimes_rounds.2 h⟩

section Repeat

variable {step : List Nat → List Nat}
  (hstep : ∀ places j, j ∈ step places ↔ ∃ i ∈ places, p.Spans chars i j)
include hstep

theorem mem_iterate : j ∈ step^[n] places ↔ ∃ i ∈ places, SpansTimes chars p n i j := by
  induction n generalizing places with
  | zero => simp [spansTimes_zero_iff]
  | succ n ih =>
    rw [Function.iterate_succ_apply, ih]
    simp only [hstep, spansTimes_succ_iff]
    exact ⟨fun ⟨k, ⟨i, hi, hfirst⟩, hrest⟩ => ⟨i, hi, k, hfirst, hrest⟩,
      fun ⟨i, hi, k, hfirst, hrest⟩ => ⟨k, ⟨i, hi, hfirst⟩, hrest⟩⟩

theorem mem_iterate_unite : j ∈ (fun ps => unite ps (step ps))^[n] places ↔
    ∃ i ∈ places, ∃ k ≤ n, SpansTimes chars p k i j := by
  induction n generalizing places with
  | zero => simp [spansTimes_zero_iff]
  | succ n ih =>
    rw [Function.iterate_succ_apply, ih]
    simp only [mem_unite, hstep]
    constructor
    · rintro ⟨k, hk | ⟨i, hi, hfirst⟩, m, hm, hrest⟩
      · exact ⟨k, hk, m, Nat.le_succ_of_le hm, hrest⟩
      · exact ⟨i, hi, m + 1, Nat.succ_le_succ hm, .succ hfirst hrest⟩
    · rintro ⟨i, hi, m, hm, h⟩
      cases m with
      | zero => exact ⟨i, Or.inl hi, 0, Nat.zero_le n, h⟩
      | succ m =>
        obtain ⟨k, hfirst, hrest⟩ := spansTimes_succ_iff.1 h
        exact ⟨k, Or.inr ⟨i, hi, hfirst⟩, m, Nat.le_of_succ_le_succ hm, hrest⟩

theorem mem_repeatStep {least : Nat} {most : Option Nat} :
    j ∈ repeatStep chars least most step places ↔
      ∃ i ∈ places, (Regex.repeated least most p).Spans chars i j := by
  have hspans : ∀ i, (Regex.repeated least most p).Spans chars i j ↔
      ∃ a, SpansTimes chars p least i a ∧
        ∃ k, (∀ m, most = some m → k ≤ m - least) ∧ SpansTimes chars p k a j := by
    intro i
    constructor
    · rintro ⟨⟩
      rename_i n hleast hmost htimes
      obtain ⟨k, rfl⟩ := Nat.exists_eq_add_of_le hleast
      obtain ⟨a, hfirst, hrest⟩ := spansTimes_add.1 htimes
      exact ⟨a, hfirst, k, fun m hm => by have := hmost m hm; omega, hrest⟩
    · rintro ⟨a, hfirst, k, hk, hrest⟩
      refine .repeated (Nat.le_add_right least k) (fun m hm => ?_) (spansTimes_add.2 ⟨a, hfirst, hrest⟩)
      have := hk m hm
      omega
  unfold repeatStep
  rw [settle_eq_iterate, settle_eq_iterate, mem_iterate_unite hstep]
  simp only [mem_iterate hstep, spansTimes_rounds, hspans]
  constructor
  · rintro ⟨a, ⟨i, hi, hfirst⟩, hrest⟩
    exact ⟨i, hi, a, hfirst, exists_spansTimes_further.1 hrest⟩
  · rintro ⟨i, hi, a, hfirst, hrest⟩
    exact ⟨a, ⟨i, hi, hfirst⟩, exists_spansTimes_further.2 hrest⟩

end Repeat

/-! ## All patterns -/

mutual

/-- The places that a pattern reaches are those that it spans to. -/
theorem mem_advance : ∀ (p : Regex) (places : List Nat) (j : Nat),
    j ∈ p.advance chars places ↔ ∃ i ∈ places, p.Spans chars i j
  | .empty, places, j => by
    rw [advance]
    constructor
    · intro hj
      exact ⟨j, hj, .empty j⟩
    · rintro ⟨i, hi, ⟨⟩⟩
      exact hi
  | .char c, places, j => by
    rw [advance, mem_stepOver]
    constructor
    · rintro ⟨i, hi, rfl, d, hd, heq⟩
      exact ⟨i, hi, .char (eq_of_beq heq ▸ hd)⟩
    · rintro ⟨i, hi, ⟨⟩⟩
      exact ⟨i, hi, rfl, c, ‹_›, beq_self_eq_true c⟩
  | .oneOf k, places, j => by
    rw [advance, mem_stepOver]
    constructor
    · rintro ⟨i, hi, rfl, d, hd, hk⟩
      exact ⟨i, hi, .oneOf hd hk⟩
    · rintro ⟨i, hi, ⟨⟩⟩
      exact ⟨i, hi, rfl, _, ‹_›, ‹_›⟩
  | .anchor a, places, j => by
    rw [advance, List.mem_filter]
    constructor
    · rintro ⟨hj, ha⟩
      exact ⟨j, hj, .anchor ha⟩
    · rintro ⟨i, hi, ⟨⟩⟩
      exact ⟨hi, ‹_›⟩
  | .repeated least most p, places, j => by
    rw [advance]
    exact mem_repeatStep (mem_advance p)
  | .group p, places, j => by
    rw [advance, mem_advance p]
    exact ⟨fun ⟨i, hi, h⟩ => ⟨i, hi, .group h⟩, by rintro ⟨i, hi, ⟨⟩⟩; exact ⟨i, hi, ‹_›⟩⟩
  | .sequence ps, places, j => by
    rw [advance, mem_advanceThrough ps]
    exact ⟨fun ⟨i, hi, h⟩ => ⟨i, hi, .sequence h⟩, by rintro ⟨i, hi, ⟨⟩⟩; exact ⟨i, hi, ‹_›⟩⟩
  | .choice ps, places, j => by
    rw [advance, mem_advanceByAny ps]
    exact ⟨fun ⟨i, hi, p, hp, h⟩ => ⟨i, hi, .choice hp h⟩,
      by rintro ⟨i, hi, ⟨⟩⟩; exact ⟨i, hi, _, ‹_›, ‹_›⟩⟩

theorem mem_advanceThrough : ∀ (ps : List Regex) (places : List Nat) (j : Nat),
    j ∈ advanceThrough chars ps places ↔ ∃ i ∈ places, SpansAll chars ps i j
  | [], places, j => by simp [advanceThrough, spansAll_nil_iff]
  | p :: ps, places, j => by
    rw [advanceThrough, mem_advanceThrough ps]
    simp only [mem_advance p, spansAll_cons_iff]
    exact ⟨fun ⟨k, ⟨i, hi, hfirst⟩, hrest⟩ => ⟨i, hi, k, hfirst, hrest⟩,
      fun ⟨i, hi, k, hfirst, hrest⟩ => ⟨k, ⟨i, hi, hfirst⟩, hrest⟩⟩

theorem mem_advanceByAny : ∀ (ps : List Regex) (places : List Nat) (j : Nat),
    j ∈ advanceByAny chars ps places ↔ ∃ i ∈ places, ∃ p ∈ ps, p.Spans chars i j
  | [], places, j => by simp [advanceByAny]
  | p :: ps, places, j => by
    rw [advanceByAny, mem_unite, mem_advance p, mem_advanceByAny ps]
    simp only [List.mem_cons, or_and_right, exists_or, exists_eq_left]
    constructor
    · rintro (⟨i, hi, h⟩ | ⟨i, hi, h⟩)
      · exact ⟨i, hi, Or.inl h⟩
      · exact ⟨i, hi, Or.inr h⟩
    · rintro ⟨i, hi, h | h⟩
      · exact Or.inl ⟨i, hi, h⟩
      · exact Or.inr ⟨i, hi, h⟩

end

/-- A line matches when the pattern spans from one of its places to another. -/
theorem matchesLine_iff {line : List Char} :
    p.matchesLine line = true ↔ ∃ i j, i ≤ line.length ∧ p.Spans line.toArray i j := by
  rw [matchesLine, Bool.not_eq_true', List.isEmpty_eq_false_iff_exists_mem]
  simp only [mem_advance, List.mem_range, Nat.lt_succ_iff]
  exact ⟨fun ⟨j, i, hi, h⟩ => ⟨i, j, hi, h⟩, fun ⟨i, j, hi, h⟩ => ⟨j, i, hi, h⟩⟩

end Regex

end VirtualShell.Pattern
