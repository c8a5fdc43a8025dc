import Mathlib.Data.List.Induction
import VirtualShell.Host.Basic

/-!
# Ways through the host's files

A path is followed move by move, and a symbolic link that it meets puts the moves of its target in
front of those that are left. What is shown about ways goes by the cases of one move (`way_induct`): a
way goes on where its first part ends (`way_append`), it does not depend on how many links it might
still follow (`way_add`), and it depends on nothing but what stands at the names that it looks up
(`way_congr`). A link whose way comes to an end does not lead through itself
(`not_mem_names_of_link`).
-/

namespace VirtualShell

namespace Way

@[simp] theorem through_names (p : Place) (w : Way) : (w.through p).names = p :: w.names := rfl

@[simp] theorem through_outcome (p : Place) (w : Way) : (w.through p).outcome = w.outcome := rfl

theorem andThen_of_ok {w : Way} {next : Place → Nat → Way} {p : Place} {links : Nat}
    (hw : w.outcome = .ok (p, links)) :
    w.andThen next = ⟨w.names ++ (next p links).names, (next p links).outcome⟩ := by
  rw [andThen, hw]

theorem andThen_of_error {w : Way} {next : Place → Nat → Way} {e : HostError}
    (hw : w.outcome = .error e) : w.andThen next = w := by
  rw [andThen, hw]

theorem through_andThen (p : Place) (w : Way) (next : Place → Nat → Way) :
    (w.through p).andThen next = (w.andThen next).through p := by
  cases hw : w.outcome with
  | error e => rw [andThen_of_error hw, andThen_of_error (w := w.through p) hw]
  | ok r => rw [andThen_of_ok hw, andThen_of_ok (w := w.through p) hw]; rfl

/-- A way that goes on to an end has come to the end of its first part. -/
theorem exists_of_andThen_eq_ok {w : Way} {next : Place → Nat → Way} {r : Place × Nat}
    (h : (w.andThen next).outcome = .ok r) :
    ∃ p links, w.outcome = .ok (p, links) ∧ (next p links).outcome = .ok r := by
  cases hw : w.outcome with
  | error e =>
    rw [andThen_of_error hw, hw] at h
    cases h
  | ok q =>
    rw [andThen_of_ok hw] at h
    exact ⟨q.1, q.2, rfl, h⟩

end Way

namespace Host

open HostPath (nameLimit Move)

variable {h h' : Host} {n m : Nat} {p q r : Place} {name : String} {target : HostPath}
  {moves : List Move}

/-- Every directory, file and link stands in a directory, and every number is that of something that
was made. -/
structure IsTree (h : Host) : Prop where
  inDirectory : ∀ p name, h.at? (p ++ [name]) ≠ none → h.at? p = some .directory
  numbered : ∀ p i, h.numbers.get? p = some i → i < h.entries.length

theorem at?_of_above (hp : p <+: h.here) : h.at? p = some .directory :=
  if_pos (List.isPrefixOf_iff_prefix.2 hp)

theorem isTree_bare (here : Place) : (bare here).IsTree := by
  refine ⟨fun p name hsome => ?_, fun p i hi => ?_⟩
  · have hprefix : p ++ [name] <+: here := by
      by_contra hno
      rw [at?, bare, if_neg (fun h => hno (List.isPrefixOf_iff_prefix.1 h))] at hsome
      exact hsome rfl
    exact at?_of_above ((List.prefix_append p [name]).trans hprefix)
  · cases hi

theorem at?_start (h : Host) (path : HostPath) : h.at? (path.start h.here) = some .directory := by
  refine at?_of_above ?_
  unfold HostPath.start
  split
  · exact List.nil_prefix
  · exact List.prefix_rfl

theorem at?_target_start (hp : h.at? p = some .directory) (target : HostPath) :
    h.at? (target.start p) = some .directory := by
  unfold HostPath.start
  split
  · exact at?_of_above List.nil_prefix
  · exact hp

theorem IsTree.directory_of_dropLast (htree : h.IsTree) (hp : h.at? p ≠ none) :
    h.at? p.dropLast = some .directory := by
  cases p using List.reverseRecOn with
  | nil => exact at?_of_above List.nil_prefix
  | append_singleton p name =>
    rw [List.dropLast_concat]
    exact htree.inDirectory p name hp

/-- Where nothing stands, nothing stands below. -/
theorem IsTree.at?_append_eq_none (htree : h.IsTree) (hp : h.at? p = none) (below : List String) :
    h.at? (p ++ below) = none := by
  induction below using List.reverseRecOn with
  | nil => rwa [List.append_nil]
  | append_singleton below name ih =>
    by_contra hsome
    rw [← List.append_assoc] at hsome
    rw [htree.inDirectory _ name hsome] at ih
    cases ih

/-! ## One move -/

/-- What follows behind a link. -/
def behind (h : Host) : Nat → Place → List Move → Way
  | 0 => fun _ _ => .broken .refused
  | n + 1 => h.way n

@[simp] theorem way_nil (h : Host) (n : Nat) (p : Place) : h.way n p [] = ⟨[], .ok (p, n)⟩ := by
  cases n <;> rfl

theorem way_cons (h : Host) (n : Nat) (p : Place) (move : Move) (moves : List Move) :
    h.way n p (move :: moves) =
      match h.at? p with
      | none => .broken .missing
      | some .directory =>
        match move with
        | .stay => h.way n p moves
        | .up => h.way n p.dropLast moves
        | .down name =>
          if nameLimit < name.utf8ByteSize then .broken .refused
          else match h.at? (p ++ [name]) with
            | some (.link target) =>
              (h.behind n (target.start p) (target.moves ++ moves)).through (p ++ [name])
            | _ => (h.way n (p ++ [name]) moves).through (p ++ [name])
      | some _ => .broken .refused := by
  cases n <;> rfl

theorem way_of_none (hp : h.at? p = none) (move : Move) :
    h.way n p (move :: moves) = .broken .missing := by
  rw [way_cons, hp]

theorem way_of_ne {e : HostEntry} (hp : h.at? p = some e) (he : e ≠ .directory) (move : Move) :
    h.way n p (move :: moves) = .broken .refused := by
  rw [way_cons, hp]
  cases e with
  | directory => exact absurd rfl he
  | content bytes | link target => rfl

section Directory

variable (hp : h.at? p = some .directory)
include hp

theorem way_stay : h.way n p (.stay :: moves) = h.way n p moves := by rw [way_cons, hp]

theorem way_up : h.way n p (.up :: moves) = h.way n p.dropLast moves := by rw [way_cons, hp]

theorem way_of_longName (hlong : nameLimit < name.utf8ByteSize) :
    h.way n p (.down name :: moves) = .broken .refused := by
  rw [way_cons, hp]
  exact if_pos hlong

theorem way_down (hshort : ¬ nameLimit < name.utf8ByteSize)
    (hlink : ∀ target, h.at? (p ++ [name]) ≠ some (.link target)) :
    h.way n p (.down name :: moves) = (h.way n (p ++ [name]) moves).through (p ++ [name]) := by
  rw [way_cons, hp]
  dsimp only
  rw [if_neg hshort]
  split
  · next target ht => exact absurd ht (hlink target)
  · rfl

theorem way_link (hshort : ¬ nameLimit < name.utf8ByteSize)
    (hlink : h.at? (p ++ [name]) = some (.link target)) :
    h.way (n + 1) p (.down name :: moves) =
      (h.way n (target.start p) (target.moves ++ moves)).through (p ++ [name]) := by
  rw [way_cons, hp]
  dsimp only
  rw [if_neg hshort, hlink]
  rfl

theorem way_spent (hshort : ¬ nameLimit < name.utf8ByteSize)
    (hlink : h.at? (p ++ [name]) = some (.link target)) :
    h.way 0 p (.down name :: moves) = (Way.broken .refused).through (p ++ [name]) := by
  rw [way_cons, hp]
  dsimp only
  rw [if_neg hshort, hlink]
  rfl

/-- A name is looked up, whatever stands there. -/
theorem mem_names_of_down (hshort : ¬ nameLimit < name.utf8ByteSize) :
    p ++ [name] ∈ (h.way n p (.down name :: moves)).names := by
  by_cases hlink : ∃ target, h.at? (p ++ [name]) = some (.link target)
  · obtain ⟨target, hlink⟩ := hlink
    cases n with
    | zero => rw [way_spent hp hshort hlink]; exact List.mem_cons_self
    | succ n => rw [way_link hp hshort hlink]; exact List.mem_cons_self
  · rw [way_down hp hshort fun target ht => hlink ⟨target, ht⟩]
    exact List.mem_cons_self

/-- Links with the same target in one directory lead to the same end. -/
theorem outcome_of_sameLink {name' : String} (hshort : ¬ nameLimit < name.utf8ByteSize)
    (hshort' : ¬ nameLimit < name'.utf8ByteSize)
    (hlink : h.at? (p ++ [name]) = some (.link target))
    (hlink' : h.at? (p ++ [name']) = some (.link target)) :
    (h.way n p (.down name :: moves)).outcome = (h.way n p (.down name' :: moves)).outcome := by
  cases n with
  | zero => rw [way_spent hp hshort hlink, way_spent hp hshort' hlink']; rfl
  | succ n => rw [way_link hp hshort hlink, way_link hp hshort' hlink']; rfl

end Directory

/-- The cases of a way: it is at its end, or it takes one move, which goes wrong or leaves a way with
fewer moves, or one behind a link. -/
@[elab_as_elim]
theorem way_induct (h : Host) {motive : Nat → Place → List Move → Prop}
    (nil : ∀ n p, motive n p [])
    (missing : ∀ n p move moves, h.at? p = none → motive n p (move :: moves))
    (blocked : ∀ n p e move moves, h.at? p = some e → e ≠ .directory → motive n p (move :: moves))
    (stay : ∀ n p moves, h.at? p = some .directory → motive n p moves → motive n p (.stay :: moves))
    (up : ∀ n p moves, h.at? p = some .directory → motive n p.dropLast moves →
      motive n p (.up :: moves))
    (long : ∀ n p name moves, h.at? p = some .directory → nameLimit < name.utf8ByteSize →
      motive n p (.down name :: moves))
    (spent : ∀ p name target moves, h.at? p = some .directory → ¬ nameLimit < name.utf8ByteSize →
      h.at? (p ++ [name]) = some (.link target) → motive 0 p (.down name :: moves))
    (link : ∀ n p name target moves, h.at? p = some .directory → ¬ nameLimit < name.utf8ByteSize →
      h.at? (p ++ [name]) = some (.link target) →
      motive n (target.start p) (target.moves ++ moves) → motive (n + 1) p (.down name :: moves))
    (down : ∀ n p name moves, h.at? p = some .directory → ¬ nameLimit < name.utf8ByteSize →
      (∀ target, h.at? (p ++ [name]) ≠ some (.link target)) → motive n (p ++ [name]) moves →
      motive n p (.down name :: moves))
    (n : Nat) (p : Place) (moves : List Move) : motive n p moves := by
  -- the links that may be followed get fewer, and between two links the moves do
  have hcases : ∀ n, (∀ k p moves, k < n → motive k p moves) → ∀ moves p, motive n p moves := by
    intro n hfewer moves
    induction moves with
    | nil => exact nil n
    | cons move moves ih =>
      intro p
      cases hp : h.at? p with
      | none => exact missing n p move moves hp
      | some e =>
        by_cases he : e = .directory
        · subst he
          cases move with
          | stay => exact stay n p moves hp (ih p)
          | up => exact up n p moves hp (ih _)
          | down name =>
            by_cases hlong : nameLimit < name.utf8ByteSize
            · exact long n p name moves hp hlong
            · by_cases hlink : ∃ target, h.at? (p ++ [name]) = some (.link target)
              · obtain ⟨target, hlink⟩ := hlink
                cases n with
                | zero => exact spent p name target moves hp hlong hlink
                | succ n =>
                  exact link n p name target moves hp hlong hlink (hfewer n _ _ (Nat.lt_succ_self n))
              · exact down n p name moves hp hlong (fun target ht => hlink ⟨target, ht⟩) (ih _)
        · exact blocked n p e move moves hp he
  induction n using Nat.strongRecOn generalizing p moves with
  | ind n ih => exact hcases n (fun k p moves hk => ih k hk p moves) moves p

/-! ## Ways after one another -/

theorem way_append (h : Host) (n : Nat) (p : Place) (a b : List Move) :
    h.way n p (a ++ b) = (h.way n p a).andThen fun q m => h.way m q b := by
  induction n, p, a using h.way_induct with
  | nil n p => rw [way_nil, Way.andThen_of_ok rfl]; rfl
  | missing n p move moves hp =>
    rw [List.cons_append, way_of_none hp, way_of_none hp]
    rfl
  | blocked n p e move moves hp he =>
    rw [List.cons_append, way_of_ne hp he, way_of_ne hp he]
    rfl
  | stay n p moves hp ih => rw [List.cons_append, way_stay hp, way_stay hp, ih]
  | up n p moves hp ih => rw [List.cons_append, way_up hp, way_up hp, ih]
  | long n p name moves hp hlong =>
    rw [List.cons_append, way_of_longName hp hlong, way_of_longName hp hlong]
    rfl
  | spent p name target moves hp hshort hlink =>
    rw [List.cons_append, way_spent hp hshort hlink, way_spent hp hshort hlink]
    rfl
  | link n p name target moves hp hshort hlink ih =>
    rw [List.cons_append, way_link hp hshort hlink, way_link hp hshort hlink, ← List.append_assoc,
      ih, Way.through_andThen]
  | down n p name moves hp hshort hlink ih =>
    rw [List.cons_append, way_down hp hshort hlink, way_down hp hshort hlink, ih,
      Way.through_andThen]

theorem way_append_of_ok {a : List Move} (ha : (h.way n p a).outcome = .ok (q, m))
    (b : List Move) : h.way n p (a ++ b) =
      ⟨(h.way n p a).names ++ (h.way m q b).names, (h.way m q b).outcome⟩ := by
  rw [way_append, Way.andThen_of_ok ha]

/-- The first part of a way looks up names of the whole. -/
theorem names_subset_append (h : Host) (n : Nat) (p : Place) (a b : List Move) :
    (h.way n p a).names ⊆ (h.way n p (a ++ b)).names := by
  rw [way_append]
  cases ha : (h.way n p a).outcome with
  | error e => rw [Way.andThen_of_error ha]; exact List.Subset.refl _
  | ok r => rw [Way.andThen_of_ok ha]; exact List.subset_append_left _ _

/-- A part of a way comes to an end if the whole does. -/
theorem exists_of_way_append {a b : List Move} {r : Place × Nat}
    (hway : (h.way n p (a ++ b)).outcome = .ok r) :
    ∃ q m, (h.way n p a).outcome = .ok (q, m) ∧ (h.way m q b).outcome = .ok r := by
  rw [way_append] at hway
  exact Way.exists_of_andThen_eq_ok hway

theorem links_le_of_way (hway : (h.way n p moves).outcome = .ok (q, m)) : m ≤ n := by
  induction n, p, moves using h.way_induct with
  | nil n p =>
    rw [way_nil] at hway
    cases hway
    exact Nat.le_refl _
  | missing n p move moves hp => rw [way_of_none hp] at hway; cases hway
  | blocked n p e move moves hp he => rw [way_of_ne hp he] at hway; cases hway
  | stay n p moves hp ih => exact ih (way_stay hp ▸ hway)
  | up n p moves hp ih => exact ih (way_up hp ▸ hway)
  | long n p name moves hp hlong => rw [way_of_longName hp hlong] at hway; cases hway
  | spent p name target moves hp hshort hlink =>
    rw [way_spent hp hshort hlink] at hway
    cases hway
  | link n p name target moves hp hshort hlink ih =>
    rw [way_link hp hshort hlink] at hway
    exact Nat.le_succ_of_le (ih hway)
  | down n p name moves hp hshort hlink ih =>
    rw [way_down hp hshort hlink] at hway
    exact ih hway

/-- A way that comes to an end does so also if more links may be followed. -/
theorem way_add (hway : (h.way n p moves).outcome = .ok (q, m)) (k : Nat) :
    h.way (n + k) p moves = ⟨(h.way n p moves).names, .ok (q, m + k)⟩ := by
  induction n, p, moves using h.way_induct with
  | nil n p =>
    rw [way_nil] at hway ⊢
    cases hway
    rw [way_nil]
  | missing n p move moves hp => rw [way_of_none hp] at hway; cases hway
  | blocked n p e move moves hp he => rw [way_of_ne hp he] at hway; cases hway
  | stay n p moves hp ih =>
    rw [way_stay hp] at hway ⊢
    rw [way_stay hp, ih hway]
  | up n p moves hp ih =>
    rw [way_up hp] at hway ⊢
    rw [way_up hp, ih hway]
  | long n p name moves hp hlong => rw [way_of_longName hp hlong] at hway; cases hway
  | spent p name target moves hp hshort hlink =>
    rw [way_spent hp hshort hlink] at hway
    cases hway
  | link n p name target moves hp hshort hlink ih =>
    rw [way_link hp hshort hlink] at hway ⊢
    rw [Nat.add_right_comm, way_link hp hshort hlink, ih hway]
    rfl
  | down n p name moves hp hshort hlink ih =>
    rw [way_down hp hshort hlink] at hway ⊢
    rw [way_down hp hshort hlink, ih hway]
    rfl

/-- However many links may be followed, a way that comes to an end comes to the same one. -/
theorem end_unique {n' m' : Nat} {q' : Place} (hway : (h.way n p moves).outcome = .ok (q, m))
    (hway' : (h.way n' p moves).outcome = .ok (q', m')) (hle : n' ≤ n) :
    q = q' ∧ n - n' = m - m' ∧ m' ≤ m := by
  obtain ⟨k, rfl⟩ := Nat.exists_eq_add_of_le hle
  rw [way_add hway' k] at hway
  cases hway
  exact ⟨rfl, by omega, Nat.le_add_right _ _⟩

/-! ## The names on a way -/

/-- A name that is looked up on a way is looked up in a directory, and the way goes on from there. -/
theorem exists_of_mem_names (hr : r ∈ (h.way n p moves).names) :
    ∃ m dir name rest, m ≤ n ∧ r = dir ++ [name] ∧ h.at? dir = some .directory ∧
      ¬ nameLimit < name.utf8ByteSize ∧
      (h.way n p moves).outcome = (h.way m dir (.down name :: rest)).outcome := by
  induction n, p, moves using h.way_induct with
  | nil n p => rw [way_nil] at hr; cases hr
  | missing n p move moves hp => rw [way_of_none hp] at hr; cases hr
  | blocked n p e move moves hp he => rw [way_of_ne hp he] at hr; cases hr
  | stay n p moves hp ih =>
    rw [way_stay hp] at hr ⊢
    exact ih hr
  | up n p moves hp ih =>
    rw [way_up hp] at hr ⊢
    exact ih hr
  | long n p name moves hp hlong => rw [way_of_longName hp hlong] at hr; cases hr
  | spent p name target moves hp hshort hlink =>
    rw [way_spent hp hshort hlink] at hr
    obtain rfl := List.mem_singleton.1 hr
    exact ⟨0, p, name, moves, Nat.le_refl 0, rfl, hp, hshort, rfl⟩
  | link n p name target moves hp hshort hlink ih =>
    rw [way_link hp hshort hlink] at hr
    rcases List.mem_cons.1 hr with rfl | hr
    · exact ⟨n + 1, p, name, moves, Nat.le_refl _, rfl, hp, hshort, rfl⟩
    · obtain ⟨m, dir, name', rest, hm, rfl, hdir, hshort', hout⟩ := ih hr
      refine ⟨m, dir, name', rest, Nat.le_succ_of_le hm, rfl, hdir, hshort', ?_⟩
      rw [way_link hp hshort hlink]
      exact hout
  | down n p name moves hp hshort hlink ih =>
    rw [way_down hp hshort hlink] at hr
    rcases List.mem_cons.1 hr with rfl | hr
    · exact ⟨n, p, name, moves, Nat.le_refl _, rfl, hp, hshort, rfl⟩
    · obtain ⟨m, dir, name', rest, hm, rfl, hdir, hshort', hout⟩ := ih hr
      refine ⟨m, dir, name', rest, hm, rfl, hdir, hshort', ?_⟩
      rw [way_down hp hshort hlink]
      exact hout

/-- Where nothing stands at a name, the way ends: with success if it was the last one. -/
theorem outcome_of_mem_names_of_none (hr : r ∈ (h.way n p moves).names) (hnone : h.at? r = none) :
    (h.way n p moves).outcome = .error .missing ∨
      ∃ m, (h.way n p moves).outcome = .ok (r, m) := by
  obtain ⟨m, dir, name, rest, -, rfl, hdir, hshort, hout⟩ := exists_of_mem_names hr
  have hlink : ∀ target, h.at? (dir ++ [name]) ≠ some (.link target) := by simp [hnone]
  rw [hout, way_down hdir hshort hlink, Way.through_outcome]
  cases rest with
  | nil => exact Or.inr ⟨m, by rw [way_nil]⟩
  | cons move rest => exact Or.inl (by rw [way_of_none hnone]; rfl)

/-- A way ends at the last name that was looked up, or at a directory. -/
theorem end_cases (htree : h.IsTree) (hway : (h.way n p moves).outcome = .ok (q, m)) :
    q ∈ (h.way n p moves).names ∨ q = p ∨ h.at? q = some .directory := by
  induction n, p, moves using h.way_induct with
  | nil n p =>
    rw [way_nil] at hway
    cases hway
    exact Or.inr (Or.inl rfl)
  | missing n p move moves hp => rw [way_of_none hp] at hway; cases hway
  | blocked n p e move moves hp he => rw [way_of_ne hp he] at hway; cases hway
  | stay n p moves hp ih =>
    rw [way_stay hp] at hway ⊢
    exact ih hway
  | up n p moves hp ih =>
    rw [way_up hp] at hway ⊢
    rcases ih hway with hmem | rfl | hdir
    · exact Or.inl hmem
    · exact Or.inr (Or.inr (htree.directory_of_dropLast (by simp [hp])))
    · exact Or.inr (Or.inr hdir)
  | long n p name moves hp hlong => rw [way_of_longName hp hlong] at hway; cases hway
  | spent p name target moves hp hshort hlink =>
    rw [way_spent hp hshort hlink] at hway
    cases hway
  | link n p name target moves hp hshort hlink ih =>
    rw [way_link hp hshort hlink] at hway ⊢
    rcases ih hway with hmem | rfl | hdir
    · exact Or.inl (List.mem_cons_of_mem _ hmem)
    · exact Or.inr (Or.inr (at?_target_start hp target))
    · exact Or.inr (Or.inr hdir)
  | down n p name moves hp hshort hlink ih =>
    rw [way_down hp hshort hlink] at hway ⊢
    rcases ih hway with hmem | rfl | hdir
    · exact Or.inl (List.mem_cons_of_mem _ hmem)
    · exact Or.inl List.mem_cons_self
    · exact Or.inr (Or.inr hdir)

/-- A link whose way comes to an end does not lead through itself: it would do so again and again, and
each time one link less may be followed. -/
theorem not_mem_names_of_link (hp : h.at? p = some .directory)
    (hlink : h.at? (p ++ [name]) = some (.link target))
    (hway : (h.way n (target.start p) target.moves).outcome = .ok (q, m)) :
    p ++ [name] ∉ (h.way n (target.start p) target.moves).names := by
  intro hmem
  obtain ⟨k, dir, name', rest, hk, heq, -, hshort, hout⟩ := exists_of_mem_names hmem
  obtain ⟨rfl, hname⟩ := List.append_inj' heq rfl
  cases hname
  rw [hway] at hout
  cases k with
  | zero =>
    rw [way_spent hp hshort hlink] at hout
    cases hout
  | succ k =>
    rw [way_link hp hshort hlink, Way.through_outcome] at hout
    obtain ⟨q', m', hfirst, hrest⟩ := exists_of_way_append hout.symm
    obtain ⟨-, hspent, -⟩ := end_unique hway hfirst (by omega)
    have hle := links_le_of_way hrest
    omega

/-! ## Ways in two hosts -/

/-- No way goes on from a place: there is nothing, or a file. -/
def IsLeaf (h : Host) (p : Place) : Prop :=
  h.at? p ≠ some .directory ∧ ∀ target, h.at? p ≠ some (.link target)

/-- A place is as good for a way in another host: the same stands there, or the way comes to its end
and the place can only be that end. -/
def Fits (h h' : Host) (w : Way) (r : Place) : Prop :=
  h'.at? r = h.at? r ∨ (∃ e, w.outcome = .ok e) ∧ h.IsLeaf r ∧ h'.IsLeaf r

theorem Fits.at?_eq {move : Move} (hfits : h.Fits h' (h.way n p (move :: moves)) p) :
    h'.at? p = h.at? p := by
  refine hfits.resolve_right ?_
  rintro ⟨⟨e, hok⟩, hleaf, -⟩
  cases hp : h.at? p with
  | none => rw [way_of_none hp] at hok; cases hok
  | some entry => rw [way_of_ne hp fun he => hleaf.1 (he ▸ hp)] at hok; cases hok

/-- A way depends only on what stands at the names that it looks up. -/
theorem way_congr (htree : h.IsTree)
    (hdirs : ∀ r, h.at? r = some .directory → h'.at? r = some .directory)
    (hp : h.Fits h' (h.way n p moves) p)
    (hnames : ∀ r ∈ (h.way n p moves).names, h.Fits h' (h.way n p moves) r) :
    h'.way n p moves = h.way n p moves := by
  have hdirectory : ∀ {w : Way} {r}, h.at? r = some .directory → h.Fits h' w r :=
    fun hr => Or.inl ((hdirs _ hr).trans hr.symm)
  induction n, p, moves using h.way_induct with
  | nil n p => rw [way_nil, way_nil]
  | missing n p move moves hnone =>
    rw [way_of_none hnone, way_of_none (hp.at?_eq.trans hnone)]
  | blocked n p e move moves he hne =>
    rw [way_of_ne he hne, way_of_ne (hp.at?_eq.trans he) hne]
  | stay n p moves hdir ih =>
    rw [way_stay hdir] at hnames ⊢
    rw [way_stay (hdirs p hdir), ih (hdirectory hdir) hnames]
  | up n p moves hdir ih =>
    rw [way_up hdir] at hnames ⊢
    rw [way_up (hdirs p hdir)]
    exact ih (hdirectory (htree.directory_of_dropLast (by simp [hdir]))) hnames
  | long n p name moves hdir hlong =>
    rw [way_of_longName hdir hlong, way_of_longName (hdirs p hdir) hlong]
  | spent p name target moves hdir hshort hlink =>
    rw [way_spent hdir hshort hlink] at hnames ⊢
    have hsame : h'.at? (p ++ [name]) = some (.link target) := by
      rcases hnames _ List.mem_cons_self with hsame | ⟨⟨e, hok⟩, -⟩
      · rw [hsame, hlink]
      · cases hok
    rw [way_spent (hdirs p hdir) hshort hsame]
  | link n p name target moves hdir hshort hlink ih =>
    rw [way_link hdir hshort hlink] at hnames ⊢
    have hsame : h'.at? (p ++ [name]) = some (.link target) := by
      rcases hnames _ List.mem_cons_self with hsame | ⟨-, hleaf, -⟩
      · rw [hsame, hlink]
      · exact absurd hlink (hleaf.2 target)
    rw [way_link (hdirs p hdir) hshort hsame, ih (hdirectory (at?_target_start hdir target))
      fun r hr => hnames r (List.mem_cons_of_mem _ hr)]
  | down n p name moves hdir hshort hlink ih =>
    rw [way_down hdir hshort hlink] at hnames ⊢
    have hfits := hnames _ List.mem_cons_self
    have hlink' : ∀ target, h'.at? (p ++ [name]) ≠ some (.link target) := by
      rcases hfits with hsame | ⟨-, -, hleaf⟩
      · rwa [hsame]
      · exact hleaf.2
    rw [way_down (hdirs p hdir) hshort hlink', ih hfits
      fun r hr => hnames r (List.mem_cons_of_mem _ hr)]

end Host

end VirtualShell
