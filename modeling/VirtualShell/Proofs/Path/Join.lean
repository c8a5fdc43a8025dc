import Mathlib.Data.List.Basic
import VirtualShell.Path

/-!
# Joined paths

What `join` and `isWithin` do, seen on characters. A path puts its *stem* in front of the slash of
every path beneath it: the root puts nothing there, every other path itself. On paths of this form
the name can be read off again (`join_inj`), and lying beneath a path means to begin with its stem
and a slash (`isWithin_iff`).
-/

namespace VirtualShell.Path

/-- What stands before the slash in the paths beneath a path. -/
def stem (path : String) : List Char := if path = "/" then [] else path.toList

@[simp] theorem stem_root : stem "/" = [] := rfl

theorem stem_of_ne_root {path : String} (h : path ≠ "/") : stem path = path.toList := if_neg h

@[simp] theorem toList_join (parent name : String) :
    (join parent name).toList = stem parent ++ '/' :: name.toList := by
  unfold join stem
  split <;> simp

/-- A list is determined by its stem and its name where the name holds no slash. -/
theorem append_slash_inj {a b x y : List Char} (hx : '/' ∉ x) (hy : '/' ∉ y)
    (h : a ++ '/' :: x = b ++ '/' :: y) : a = b ∧ x = y := by
  have hrev : x.reverse ++ '/' :: a.reverse = y.reverse ++ '/' :: b.reverse := by
    have := congrArg List.reverse h
    simpa using this
  have htake : ∀ (u v : List Char), '/' ∉ u → (u ++ '/' :: v).takeWhile (· ≠ '/') = u := by
    intro u v hu
    rw [List.takeWhile_append_of_pos]
    · simp
    · intro c hc
      simpa using fun e : c = '/' => hu (e ▸ hc)
  have hxy : x.reverse = y.reverse := by
    rw [← htake x.reverse a.reverse (by simpa using hx), hrev,
      htake y.reverse b.reverse (by simpa using hy)]
  have hxy' : x = y := List.reverse_injective hxy
  subst hxy'
  exact ⟨List.append_cancel_right h, rfl⟩

/-- The stem of an absolute path determines it. -/
theorem stem_inj {p q : String} (hp : p.toList ≠ []) (hq : q.toList ≠ []) (h : stem p = stem q) :
    p = q := by
  unfold stem at h
  split at h <;> split at h
  · next h₁ h₂ => rw [h₁, h₂]
  · exact absurd h.symm hq
  · exact absurd h hp
  · exact String.toList_injective h

/-- A joined path tells the directory and the name, if the name can stand in a path. -/
theorem join_inj {p q m n : String} (hp : p.toList ≠ []) (hq : q.toList ≠ [])
    (hm : '/' ∉ m.toList) (hn : '/' ∉ n.toList) (h : join p m = join q n) : p = q ∧ m = n := by
  have hchars : stem p ++ '/' :: m.toList = stem q ++ '/' :: n.toList := by
    rw [← toList_join, ← toList_join, h]
  obtain ⟨hstem, hname⟩ := append_slash_inj hm hn hchars
  exact ⟨stem_inj hp hq hstem, String.toList_injective hname⟩

theorem length_lt_length_join {p n : String} (hn : n.toList ≠ []) :
    p.toList.length < (join p n).toList.length := by
  have hpos := List.length_pos_iff.2 hn
  rw [toList_join]
  unfold stem
  split
  · next h => subst h; simp; omega
  · simp

theorem two_le_length_join {p n : String} (hn : n.toList ≠ []) :
    2 ≤ (join p n).toList.length := by
  have hpos := List.length_pos_iff.2 hn
  simp only [toList_join, List.length_append, List.length_cons]
  omega

theorem join_ne_root {p n : String} (hn : n.toList ≠ []) : join p n ≠ "/" := by
  intro h
  have hlen := two_le_length_join (p := p) hn
  rw [h] at hlen
  exact absurd hlen (by decide)

theorem stripFront?_eq_some {front text rest : String} :
    stripFront? front text = some rest ↔ text.toList = front.toList ++ rest.toList := by
  unfold stripFront?
  split
  · next h =>
    obtain ⟨r, hr⟩ := List.isPrefixOf_iff_prefix.1 h
    rw [← hr, List.drop_left, Option.some.injEq, List.append_cancel_left_eq]
    constructor
    · rintro rfl; simp
    · rintro rfl; simp
  · next h =>
    constructor
    · intro hf; cases hf
    · intro ht
      exact absurd (List.isPrefixOf_iff_prefix.2 ⟨rest.toList, ht.symm⟩) h

/-- A path lies within another one if it is that path or begins with its stem and a slash. -/
theorem isWithin_iff {path ancestor : String} (habs : path.toList.head? = some '/') :
    isWithin path ancestor = true ↔
      path = ancestor ∨ ∃ rest, path.toList = stem ancestor ++ '/' :: rest := by
  unfold isWithin
  by_cases hroot : ancestor = "/"
  · subst hroot
    obtain ⟨rest, hrest⟩ := List.head?_eq_some_iff.1 habs
    simp [hrest]
  · rw [stem_of_ne_root hroot]
    simp only [Bool.or_eq_true, beq_iff_eq, hroot, false_or]
    refine or_congr_right ?_
    split
    · next rest h =>
      rw [stripFront?_eq_some] at h
      simp only [beq_iff_eq, h, List.append_cancel_left_eq]
      exact List.head?_eq_some_iff
    · next h =>
      refine iff_of_false (by simp) ?_
      rintro ⟨r, hr⟩
      have hsome : stripFront? ancestor path = some (String.ofList ('/' :: r)) :=
        stripFront?_eq_some.2 (by simpa using hr)
      rw [hsome] at h
      cases h

@[simp] theorem isWithin_self (path : String) : isWithin path path = true := by
  simp [isWithin]

theorem isWithin_trans {a b c : String} (ha : a.toList.head? = some '/')
    (hb : b.toList.head? = some '/') (hab : isWithin a b = true) (hbc : isWithin b c = true) :
    isWithin a c = true := by
  rw [isWithin_iff ha] at hab ⊢
  rw [isWithin_iff hb] at hbc
  rcases hab with rfl | ⟨r, hr⟩
  · exact hbc
  · rcases hbc with rfl | ⟨q, hq⟩
    · exact Or.inr ⟨r, hr⟩
    · refine Or.inr ?_
      by_cases hroot : b = "/"
      · have hstem : stem c = [] := by
          have hlen := congrArg List.length hq
          rw [hroot] at hlen
          simp only [List.length_append, List.length_cons] at hlen
          have hone : "/".toList.length = 1 := rfl
          exact List.eq_nil_of_length_eq_zero (by omega)
        exact ⟨r, by rw [hr, hroot, hstem, stem_root]⟩
      · refine ⟨q ++ '/' :: r, ?_⟩
        rw [hr, stem_of_ne_root hroot, hq]
        simp

end VirtualShell.Path
