import Mathlib.Data.List.Basic
import VirtualShell.Text.Lines

/-!
# Cutting a text into pieces

A list of texts is a cut (`Cut`) if each of them ends in its only line feed; the last alone may have
none, and then it is not empty. The pieces of a text are the one cut that concatenates to it
(`pieces_eq_iff`), so that a text that is put together from a cut falls into the same pieces again.
From this: the first pieces of a text hold as many line feeds as there are of them, and `head` and
`tail` share the text between them wherever it is cut (`head_append_tail`).
-/

namespace VirtualShell.Text

/-- Each text of a list ends in its only line feed, but for a last one that may have none. -/
inductive Cut : List (List Char) → Prop
  | nil : Cut []
  | last {a : List Char} : a ≠ [] → '\n' ∉ a → Cut [a]
  | cons {a : List Char} {ps : List (List Char)} : '\n' ∉ a → Cut ps → Cut ((a ++ ['\n']) :: ps)

variable {s a : List Char} {ps : List (List Char)} {n : Nat}

theorem cut_pieces (s : List Char) : Cut (pieces s) := by
  fun_induction pieces s with
  | case1 => exact .nil
  | case2 s ih => exact .cons (a := []) (by simp) ih
  | case3 c s hc hnil ih => exact .last (by simp) (by simpa [eq_comm] using hc)
  | case4 c s hc p ps hps ih =>
    rw [hps] at ih
    have hne : ¬ '\n' = c := fun h => hc h.symm
    cases ih with
    | last hp hnot => exact .last (by simp) (by simp [hne, hnot])
    | cons hnot hrest => exact .cons (a := c :: _) (by simp [hne, hnot]) hrest

namespace Cut

theorem ne_nil (h : Cut ps) : ∀ p ∈ ps, p ≠ [] := by
  induction h with
  | nil => simp
  | last ha _ => simpa using ha
  | cons _ _ ih => simpa using ih

/-- Each text of a cut is a cut by itself. -/
theorem of_mem (h : Cut ps) : ∀ p ∈ ps, Cut [p] := by
  induction h with
  | nil => simp
  | last ha hnot => simpa using Cut.last ha hnot
  | cons hnot _ ih => exact List.forall_mem_cons.2 ⟨.cons hnot .nil, ih⟩

theorem pieces_flatten (h : Cut ps) : pieces ps.flatten = ps := by
  induction h with
  | nil => rfl
  | last ha hnot =>
    rw [List.flatten_cons, List.flatten_nil, List.append_nil, pieces_of_not_mem hnot ha]
  | cons hnot _ ih =>
    rw [List.flatten_cons, List.append_assoc, List.singleton_append, pieces_append_newline hnot, ih]

/-- As long as a piece is left, each piece so far has brought one line feed. -/
theorem count_take (h : Cut ps) (hn : n < ps.length) : (ps.take n).flatten.count '\n' = n := by
  induction h generalizing n with
  | nil => cases hn
  | last _ _ =>
    obtain rfl : n = 0 := by simpa using hn
    rfl
  | @cons a ps hnot _ ih =>
    cases n with
    | zero => rfl
    | succ n =>
      rw [List.take_succ_cons, List.flatten_cons, List.count_append, List.count_append,
        List.count_eq_zero.2 hnot, ih (by simpa using hn), List.count_singleton_self]
      omega

end Cut

theorem cut_cons_iff {p : List Char} : Cut (p :: ps) ↔
    p ≠ [] ∧ '\n' ∉ p.dropLast ∧ (ps = [] ∨ p.getLast? = some '\n') ∧ Cut ps := by
  constructor
  · intro h
    cases h with
    | last hp hnot => exact ⟨hp, fun h => hnot ((List.dropLast_sublist _).subset h), Or.inl rfl, .nil⟩
    | cons hnot hrest => exact ⟨by simp, by simpa using hnot, Or.inr (by simp), hrest⟩
  · rintro ⟨hp, hnot, hlast, hrest⟩
    by_cases hend : p.getLast? = some '\n'
    · rw [← List.dropLast_append_getLast? '\n' hend]
      exact .cons hnot hrest
    · obtain rfl := hlast.resolve_right hend
      refine .last hp fun hmem => ?_
      rw [← List.dropLast_append_getLast hp, List.mem_append, List.mem_singleton] at hmem
      rcases hmem with hmem | heq
      · exact hnot hmem
      · exact hend (by rw [List.getLast?_eq_some_getLast hp, ← heq])

theorem Cut.flatten_eq_nil_iff (h : Cut ps) : ps.flatten = [] ↔ ps = [] := by
  constructor
  · intro hnil
    rw [← h.pieces_flatten, hnil]
    rfl
  · rintro rfl
    rfl

/-- Two cuts behind one another are a cut if the first text ends in a line feed, or one is empty. -/
theorem cut_append_iff {qs : List (List Char)} (h : Cut ps) : Cut (ps ++ qs) ↔
    Cut qs ∧ (ps.flatten = [] ∨ qs.flatten = [] ∨ ps.flatten.getLast? = some '\n') := by
  induction h with
  | nil => simp
  | @last a ha hnot =>
    have hend : ¬ a.getLast? = some '\n' := fun h => hnot (List.mem_of_getLast? h)
    have hflat : [a].flatten = a := by simp
    rw [List.singleton_append, cut_cons_iff, hflat]
    constructor
    · rintro ⟨-, -, hqs, hrest⟩
      exact ⟨hrest, Or.inr (Or.inl (hrest.flatten_eq_nil_iff.2 (hqs.resolve_right hend)))⟩
    · rintro ⟨hrest, hjoint⟩
      have hnil := (hjoint.resolve_left ha).resolve_right hend
      exact ⟨ha, fun h => hnot ((List.dropLast_sublist a).subset h),
        Or.inl (hrest.flatten_eq_nil_iff.1 hnil), hrest⟩
  | @cons a ps hnot _ ih =>
    have hend : ((a ++ ['\n']) :: ps).flatten.getLast? = some '\n' ↔
        ps.flatten = [] ∨ ps.flatten.getLast? = some '\n' := by
      rw [List.flatten_cons, List.getLast?_append]
      cases hps : ps.flatten.getLast? with
      | none => simp [List.getLast?_eq_none_iff.1 hps]
      | some c =>
        have hne : ps.flatten ≠ [] := fun h => by simp [h] at hps
        simp [hne]
    rw [List.cons_append, cut_cons_iff, hend, ih, List.dropLast_concat, List.getLast?_concat]
    simp [hnot, or_left_comm]

theorem flatten_flatMap_pieces (texts : List (List Char)) :
    (texts.flatMap pieces).flatten = texts.flatten := by
  induction texts with
  | nil => rfl
  | cons c texts ih =>
    rw [List.flatMap_cons, List.flatten_append, flatten_pieces, ih, List.flatten_cons]

/-- The pieces of several texts, put behind one another, are a cut if each text ends in a line feed, or
it is empty, or all that follow it are. -/
theorem cut_flatMap_pieces_iff {texts : List (List Char)} : Cut (texts.flatMap pieces) ↔
    texts.Pairwise fun c d => c = [] ∨ d = [] ∨ c.getLast? = some '\n' := by
  induction texts with
  | nil => exact iff_of_true .nil .nil
  | cons c texts ih =>
    rw [List.flatMap_cons, cut_append_iff (cut_pieces c), flatten_pieces, flatten_flatMap_pieces,
      List.flatten_eq_nil_iff, ih, List.pairwise_cons, and_comm]
    refine and_congr_left fun _ => ?_
    constructor
    · rintro (hc | hrest | hc) d hd
      · exact Or.inl hc
      · exact Or.inr (Or.inl (hrest d hd))
      · exact Or.inr (Or.inr hc)
    · intro h
      by_cases hrest : ∀ d ∈ texts, d = []
      · exact Or.inr (Or.inl hrest)
      · obtain ⟨d, hd, hne⟩ := not_forall₂.1 hrest
        exact (h d hd).imp_right fun h => Or.inr (h.resolve_left hne)

/-- A text without a line feed in front brings no piece of its own when something follows. -/
theorem length_pieces_append (ha : '\n' ∉ a) (hs : s ≠ []) :
    (pieces (a ++ s)).length = (pieces s).length := by
  induction a with
  | nil => rfl
  | cons c a ih =>
    obtain ⟨hc, ha⟩ : ¬ '\n' = c ∧ '\n' ∉ a := by simpa using ha
    rw [← ih ha, List.cons_append, pieces, if_neg fun h => hc h.symm]
    split
    · next hnil =>
      have hflat := flatten_pieces (a ++ s)
      rw [hnil, List.flatten_nil] at hflat
      simp [hs] at hflat
    · next hcons => rw [hcons, List.length_cons, List.length_cons]

/-- Single pieces behind one another fall into no more pieces than there are of them, and into as many
only if they are a cut. -/
theorem length_pieces_flatten (h : ∀ p ∈ ps, Cut [p]) :
    (pieces ps.flatten).length ≤ ps.length ∧
      ((pieces ps.flatten).length = ps.length → Cut ps) := by
  induction ps with
  | nil => exact ⟨Nat.le_refl 0, fun _ => .nil⟩
  | cons p ps ih =>
    obtain ⟨hle, heq⟩ := ih fun q hq => h q (List.mem_cons_of_mem _ hq)
    rw [List.flatten_cons, List.length_cons]
    cases h p List.mem_cons_self with
    | cons hnot _ =>
      rw [List.append_assoc, List.singleton_append, pieces_append_newline hnot, List.length_cons]
      exact ⟨by omega, fun hlen => .cons hnot (heq (by omega))⟩
    | last hp hnot =>
      by_cases hrest : ps.flatten = []
      · have hps : ps = [] := by
          by_contra hne
          obtain ⟨q, qs, rfl⟩ := List.exists_cons_of_ne_nil hne
          have hq := (h q (by simp)).ne_nil q (by simp)
          simp [hq] at hrest
        subst hps
        exact ⟨by simp [pieces_of_not_mem hnot hp], fun _ => .last hp hnot⟩
      · rw [length_pieces_append hnot hrest]
        exact ⟨by omega, fun hlen => by omega⟩

/-- The pieces of a text are the only cut of it. -/
theorem pieces_eq_iff : pieces s = ps ↔ Cut ps ∧ ps.flatten = s := by
  constructor
  · rintro rfl
    exact ⟨cut_pieces s, flatten_pieces s⟩
  · rintro ⟨h, rfl⟩
    exact h.pieces_flatten

/-- A text that is cut behind a line feed has the pieces of both parts. -/
theorem pieces_append (h : a.getLast? = some '\n') (s : List Char) :
    pieces (a ++ s) = pieces a ++ pieces s := by
  refine pieces_eq_iff.2 ⟨(cut_append_iff (cut_pieces a)).2 ⟨cut_pieces s, ?_⟩, ?_⟩
  · exact Or.inr (Or.inr (by rwa [flatten_pieces]))
  · rw [List.flatten_append, flatten_pieces, flatten_pieces]

/-- A carriage return with a line feed stands in a text only where a piece ends in it. -/
theorem Cut.crlf_infix_iff (h : Cut ps) :
    ['\r', '\n'] <:+: ps.flatten ↔ ∃ p ∈ ps, ['\r', '\n'] <:+ p := by
  constructor
  · induction h with
    | nil =>
      intro hin
      exact absurd hin.length_le (by simp)
    | last _ hnot =>
      intro hin
      exact absurd (hin.subset (by simp : '\n' ∈ ['\r', '\n'])) (by simpa using hnot)
    | @cons a ps hnot _ ih =>
      rintro ⟨before, after, hsplit⟩
      rw [List.flatten_cons, List.append_assoc, List.append_assoc] at hsplit
      rcases List.append_eq_append_iff.1 hsplit with ⟨m, rfl, hm⟩ | ⟨m, rfl, hm⟩
      · cases m with
        | nil => simp at hm
        | cons x m =>
          obtain ⟨hx, htail⟩ := List.cons.inj hm
          subst hx
          cases m with
          | nil => exact ⟨_, List.mem_cons_self, before, by simp⟩
          | cons y m =>
            obtain ⟨hy, -⟩ := List.cons.inj htail
            exact absurd (by simp [← hy]) hnot
      · cases m with
        | nil => simp at hm
        | cons x m =>
          obtain ⟨p, hp, hend⟩ := ih ⟨m, after, by simpa using (List.cons.inj hm).2.symm⟩
          exact ⟨p, List.mem_cons_of_mem _ hp, hend⟩
  · rintro ⟨p, hp, hend⟩
    exact hend.isInfix.trans (List.infix_of_mem_flatten hp)

theorem crlf_infix_iff :
    ['\r', '\n'] <:+: s ↔ ∃ p ∈ pieces s, ['\r', '\n'] <:+ p := by
  rw [← (cut_pieces s).crlf_infix_iff, flatten_pieces]

theorem length_lines (s : List Char) : (lines s).length = (pieces s).length :=
  List.length_map ..

/-! ## The beginnings and ends of texts -/

theorem head_of_length_le (h : (pieces s).length ≤ n) : head n s = s := by
  rw [head, List.take_of_length_le h, flatten_pieces]

theorem tail_of_length_le (h : (pieces s).length ≤ n) : tail n s = s := by
  rw [tail, Nat.sub_eq_zero_of_le h, List.drop_zero, flatten_pieces]

theorem head_isPrefix (n : Nat) (s : List Char) : head n s <+: s :=
  ⟨((pieces s).drop n).flatten, by
    rw [head, ← List.flatten_append, List.take_append_drop, flatten_pieces]⟩

/-- The first pieces and those that are left make up the text. -/
theorem head_append_tail (h : n ≤ (pieces s).length) :
    head n s ++ tail ((pieces s).length - n) s = s := by
  rw [head, tail, Nat.sub_sub_self h, ← List.flatten_append, List.take_append_drop, flatten_pieces]

/-- Where a piece is left out, the beginning is not the whole text. -/
theorem head_ne_self (h : n < (pieces s).length) : head n s ≠ s := by
  intro hwhole
  have hrest : ((pieces s).drop n).flatten = [] := by
    have hsplit := head_append_tail (Nat.le_of_lt h)
    rw [hwhole, tail, Nat.sub_sub_self (Nat.le_of_lt h)] at hsplit
    exact List.append_right_eq_self.1 hsplit
  have hleft := List.getElem_mem (Nat.lt_of_lt_of_eq (Nat.sub_pos_of_lt h) List.length_drop.symm)
  have hempty := List.flatten_eq_nil_iff.1 hrest _ hleft
  exact (cut_pieces s).ne_nil _ (List.mem_of_mem_drop hleft) hempty

theorem count_head (h : n < (pieces s).length) : (head n s).count '\n' = n :=
  (cut_pieces s).count_take h

end VirtualShell.Text
