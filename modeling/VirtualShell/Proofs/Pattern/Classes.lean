import Mathlib.Data.List.Basic
import VirtualShell.Pattern.CharClass

/-!
# Members of classes

Putting ranges in order and joining them changes nothing about the characters that they have
(`contains_ofRanges`). From this: the class that stands for an ASCII letter in both cases has the
characters whose lowercase form is that of the letter (`contains_foldCase_letter`).
-/

namespace VirtualShell.Pattern

namespace CharClass

variable {c d : Char}

/-- A range has a code point. -/
def Has (r : Nat × Nat) (n : Nat) : Prop := r.1 ≤ n ∧ n ≤ r.2

theorem contains_iff {k : CharClass} : k.contains c = true ↔ ∃ r ∈ k.ranges, Has r c.toNat := by
  simp [contains, Has]

/-- A range that is joined with ranges behind it has what one or another of them has. -/
theorem has_push_iff {r : Nat × Nat} {rs : List (Nat × Nat)} (h : ∀ s ∈ rs, r.1 ≤ s.1) (n : Nat) :
    (∃ s ∈ push r rs, Has s n) ↔ Has r n ∨ ∃ s ∈ rs, Has s n := by
  induction rs generalizing r with
  | nil => simp [push]
  | cons s rs ih =>
    rw [List.forall_mem_cons] at h
    rw [push]
    split
    · next hmeet =>
      have hjoined : Has (r.1, max r.2 s.2) n ↔ Has r n ∨ Has s n := by
        simp only [Has]
        omega
      rw [ih (r := (r.1, max r.2 s.2)) h.2, hjoined, List.exists_mem_cons_iff, or_assoc]
    · rw [List.exists_mem_cons_iff]

theorem fst_le_of_mem_push {r : Nat × Nat} {rs : List (Nat × Nat)} {m : Nat} (hr : m ≤ r.1)
    (h : ∀ s ∈ rs, m ≤ s.1) : ∀ s ∈ push r rs, m ≤ s.1 := by
  induction rs generalizing r with
  | nil => simpa [push] using hr
  | cons s rs ih =>
    rw [List.forall_mem_cons] at h
    rw [push]
    split
    · exact ih hr h.2
    · exact List.forall_mem_cons.2 ⟨hr, List.forall_mem_cons.2 h⟩

/-- Ranges in order may be joined. -/
theorem has_foldr_push_iff {rs : List (Nat × Nat)} (h : rs.Pairwise fun r s => r.1 ≤ s.1) (n : Nat) :
    ((∃ s ∈ rs.foldr push [], Has s n) ↔ ∃ s ∈ rs, Has s n) ∧
      ∀ m, (∀ s ∈ rs, m ≤ s.1) → ∀ s ∈ rs.foldr push [], m ≤ s.1 := by
  induction rs with
  | nil => simp
  | cons r rs ih =>
    obtain ⟨hr, hrs⟩ := List.pairwise_cons.1 h
    obtain ⟨hhas, hle⟩ := ih hrs
    refine ⟨?_, fun m hm => ?_⟩
    · rw [List.foldr_cons, has_push_iff (hle r.1 hr), hhas, List.exists_mem_cons_iff]
    · rw [List.forall_mem_cons] at hm
      exact fst_le_of_mem_push hm.1 (hle m hm.2)

/-- The class of some ranges has what one or another of them has. -/
theorem contains_ofRanges {rs : List (Nat × Nat)} :
    (ofRanges rs).contains c = true ↔ ∃ r ∈ rs, Has r c.toNat := by
  have hsorted : (rs.mergeSort fun a b => a.1 < b.1 || (a.1 == b.1 && a.2 ≤ b.2)).Pairwise
      fun a b => (a.1 < b.1 || (a.1 == b.1 && a.2 ≤ b.2)) = true :=
    List.pairwise_mergeSort (by simp; omega) (by simp; omega) rs
  have hfirst := hsorted.imp (S := fun r s => r.1 ≤ s.1) (by simp; omega)
  rw [contains_iff, ofRanges, (has_foldr_push_iff hfirst _).1]
  simp only [List.mem_mergeSort]

theorem length_push_le (r : Nat × Nat) (rs : List (Nat × Nat)) :
    (push r rs).length ≤ rs.length + 1 := by
  induction rs generalizing r with
  | nil => exact Nat.le_refl 1
  | cons s rs ih =>
    rw [push]
    split
    · exact Nat.le_succ_of_le (ih _)
    · exact Nat.le_refl _

/-- The class of some ranges has no more ranges than these. -/
theorem length_ofRanges_le (rs : List (Nat × Nat)) : (ofRanges rs).ranges.length ≤ rs.length := by
  have hfoldr : ∀ rs : List (Nat × Nat), (rs.foldr push []).length ≤ rs.length := by
    intro rs
    induction rs with
    | nil => exact Nat.le_refl 0
    | cons r rs ih => exact Nat.le_trans (length_push_le r _) (Nat.succ_le_succ ih)
  exact Nat.le_trans (hfoldr _) (Nat.le_of_eq (List.length_mergeSort _))

theorem length_foldCase_le (k : CharClass) : (foldCase k).ranges.length ≤ 2 * k.ranges.length := by
  refine Nat.le_trans (length_ofRanges_le _) ?_
  rw [List.length_append, Nat.two_mul]
  exact Nat.add_le_add_left (List.length_filterMap_le _ _) _

theorem toNat_toLower (c : Char) :
    c.toLower.toNat = if 65 ≤ c.toNat ∧ c.toNat ≤ 90 then c.toNat + 32 else c.toNat := by
  have hupper : (c.val ≥ 'A'.val ∧ c.val ≤ 'Z'.val) ↔ 65 ≤ c.toNat ∧ c.toNat ≤ 90 := by
    simp [UInt32.le_iff_toNat_le]
  unfold Char.toLower
  simp only [hupper]
  split
  · next h =>
    have hlt : c.toNat + 32 < UInt32.size := by simp [UInt32.size]; omega
    simp [Char.toNat_mk, UInt32.toNat_add]
    omega
  · rfl

theorem isAlpha_iff : c.isAlpha = true ↔
    (65 ≤ c.toNat ∧ c.toNat ≤ 90) ∨ (97 ≤ c.toNat ∧ c.toNat ≤ 122) := by
  have hletter : c.isAlpha = (decide (c.val ≥ 'A'.val ∧ c.val ≤ 'Z'.val) ||
      (decide (c.val ≥ 'a'.val) && decide (c.val ≤ 'z'.val))) := rfl
  simp [hletter, UInt32.le_iff_toNat_le]

/-- The class that stands for a letter in both cases. -/
theorem contains_foldCase_letter (hc : c.isAlpha = true) :
    (foldCase ⟨[(c.toNat, c.toNat)]⟩).contains d = true ↔ d.toLower = c.toLower := by
  rw [← Char.toNat_inj, toNat_toLower, toNat_toLower, foldCase, contains_ofRanges]
  have hc := isAlpha_iff.1 hc
  have hfold : foldRange? (c.toNat, c.toNat) =
      if 97 ≤ c.toNat then some (c.toNat - 32, c.toNat - 32)
      else some (c.toNat + 32, c.toNat + 32) := by
    unfold foldRange?
    grind
  rw [List.filterMap_cons, List.filterMap_nil, hfold]
  split
  · next heq => split at heq <;> cases heq
  · next r heq =>
    simp only [List.singleton_append, List.mem_cons, List.not_mem_nil, or_false, exists_eq_or_imp,
      exists_eq_left, Has]
    grind

end CharClass

end VirtualShell.Pattern
