/-!
# Lines

A text is cut after each line feed. A piece keeps its line feed; a line is a piece without its
ending, which is a line feed or a carriage return with a line feed. A text that comes in bit by bit
gives its lines one at a time. Main statements: the pieces concatenate to the text
(`flatten_pieces`), and taking lines one at a time gives all lines (`lines_of_takeLine?`).
-/

namespace VirtualShell.Text

/-- The pieces of a text, each but the last ending in its only line feed. -/
def pieces : List Char → List (List Char)
  | [] => []
  | c :: s =>
    if c = '\n' then [c] :: pieces s
    else match pieces s with
      | [] => [[c]]
      | p :: ps => (c :: p) :: ps

/-- A piece without its line ending. A carriage return counts only before a line feed. -/
def stripEnding (p : List Char) : List Char :=
  if p.getLast? = some '\n' then
    let q := p.dropLast
    if q.getLast? = some '\r' then q.dropLast else q
  else p

/-- The lines of a text; a last line without a line feed is a line too. -/
def lines (s : List Char) : List (List Char) := (pieces s).map stripEnding

theorem flatten_pieces (s : List Char) : (pieces s).flatten = s := by
  induction s with
  | nil => rfl
  | cons c s ih =>
    unfold pieces
    split
    · simp [ih]
    · split
      · next h => simp_all
      · next h => rw [h] at ih; simpa using ih

/-- The first `n` pieces of a text. -/
def head (n : Nat) (s : List Char) : List Char := ((pieces s).take n).flatten

/-- The last `n` pieces of a text. -/
def tail (n : Nat) (s : List Char) : List Char :=
  ((pieces s).drop ((pieces s).length - n)).flatten

/-- Takes the first line off a text, or `none` at its end. -/
def takeLine? (s : List Char) : Option (List Char × List Char) :=
  if s.isEmpty then none
  else
    let line := s.takeWhile (· ≠ '\n')
    match s.dropWhile (· ≠ '\n') with
    | [] => some (line, [])
    | _ :: rest => some (if line.getLast? = some '\r' then line.dropLast else line, rest)

theorem length_lt_of_takeLine? {s line rest : List Char} (h : takeLine? s = some (line, rest)) :
    rest.length < s.length := by
  unfold takeLine? at h
  split at h
  · contradiction
  · next hs =>
    have hpos : 0 < s.length := List.length_pos_iff.2 fun h => by simp [h] at hs
    split at h
    · cases h; simpa using hpos
    · next hd =>
      cases h
      have := (List.dropWhile_suffix (fun c => decide (c ≠ '\n')) (l := s)).length_le
      rw [hd] at this
      simp only [List.length_cons] at this
      omega

theorem pieces_of_not_mem {s : List Char} (h : '\n' ∉ s) (hs : s ≠ []) : pieces s = [s] := by
  induction s with
  | nil => contradiction
  | cons c s ih =>
    obtain ⟨hc, hs'⟩ : ¬ c = '\n' ∧ '\n' ∉ s := by
      simpa [List.mem_cons, eq_comm] using h
    rw [pieces, if_neg hc]
    cases s with
    | nil => rfl
    | cons d s => rw [ih hs' (by simp)]

theorem pieces_append_newline {s : List Char} (h : '\n' ∉ s) (rest : List Char) :
    pieces (s ++ '\n' :: rest) = (s ++ ['\n']) :: pieces rest := by
  induction s with
  | nil => simp [pieces]
  | cons c s ih =>
    obtain ⟨hc, hs⟩ : ¬ c = '\n' ∧ '\n' ∉ s := by
      simpa [List.mem_cons, eq_comm] using h
    rw [List.cons_append, pieces, if_neg hc, ih hs]
    rfl

theorem lines_of_takeLine?_eq_none {s : List Char} (h : takeLine? s = none) : lines s = [] := by
  unfold takeLine? at h
  split at h
  · next hs => rw [List.isEmpty_iff.1 hs]; rfl
  · split at h <;> contradiction

theorem not_mem_takeWhile_ne (c : Char) (s : List Char) : c ∉ s.takeWhile (· ≠ c) := fun h => by
  simpa using List.all_eq_true.1 List.all_takeWhile c h

/-- The lines of a text are its first line and those of the rest. -/
theorem lines_of_takeLine? {s line rest : List Char} (h : takeLine? s = some (line, rest)) :
    lines s = line :: lines rest := by
  have hsplit := List.takeWhile_append_dropWhile (p := fun c => decide (c ≠ '\n')) (l := s)
  have hline := not_mem_takeWhile_ne '\n' s
  have hhead := List.head?_dropWhile_not (fun c => decide (c ≠ '\n')) s
  simp only [takeLine?] at h
  split at h
  · contradiction
  · next hs =>
    have hne : s ≠ [] := fun h => by simp [h] at hs
    generalize s.takeWhile (fun c => decide (c ≠ '\n')) = a at h hsplit hline
    generalize s.dropWhile (fun c => decide (c ≠ '\n')) = d at h hsplit hhead
    subst hsplit
    split at h
    · cases h
      rw [List.append_nil] at hne ⊢
      have hlast : line.getLast? ≠ some '\n' := fun h => hline (List.mem_of_getLast? h)
      simp [lines, pieces_of_not_mem hline hne, stripEnding, hlast, pieces]
    · next c r =>
      have hc : c = '\n' := by simpa using hhead
      subst hc
      cases h
      simp [lines, pieces_append_newline hline, stripEnding]

end VirtualShell.Text
