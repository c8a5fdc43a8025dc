import VirtualShell.Proofs.Tree.Acceptance
import VirtualShell.Proofs.Tree.Starter
import VirtualShell.Snapshot
import VirtualShell.Tree.Fresh

/-!
# The count of the reachable nodes

The check of a stored tree counts, on a graph that nobody vouches for, what a traversal from the root
takes. Where the passes before it find no defect the graph is a tree all the same: the count ends and
comes out right (`pending_counting`, `taken_counting_perm`). So the check ends for every decoded tree,
also when its traversal is taken as the loop that it is and not as a bounded walk (`examined_iff`), and
it never reports nodes that cannot be reached (`defect?_ne_unreachable`).
-/

namespace VirtualShell

namespace FileTree

variable {t : FileTree}

/-- The tree with its root as the current directory. The passes before the last read nothing of the
current directory. -/
def atRoot (t : FileTree) : FileTree := { t with cwd := t.root }

theorem consistent_atRoot (h : t.linkDefect? = none) : t.atRoot.Consistent := by
  obtain ⟨hkey, ⟨r, hr, hnone, hpath, hdir⟩, hparent, hchildren⟩ := linkDefect?_eq_none_iff.1 h
  exact consistent_of_passes (t := t.atRoot) hkey ⟨r, hr, hnone, hpath, hdir⟩ hparent hchildren
    ⟨r, hr, hdir⟩

/-- The traversal that counts the nodes: a stack, on which the last child lies on top. -/
def counting (t : FileTree) (k : Nat) : Traversal :=
  (Traversal.turn t List.reverse)^[k] (.start t.root)

/-- When the count is over it has taken every node once. -/
theorem taken_counting_perm (h : t.linkDefect? = none) {k : Nat}
    (hend : (t.counting k).pending = []) : (t.counting k).taken.Perm t.ids := by
  have hc := consistent_atRoot h
  obtain ⟨r, hr, -⟩ := hc.root_ok
  -- its turns read nothing of the current directory
  have hu : Traversal.Underway t.atRoot List.reverse t.root (t.counting k) :=
    (Traversal.underway_start hr).iterate hc List.reverse_perm k
  have hperm : (t.counting k).taken.Perm t.atRoot.ids := hu.taken_perm hc hend
  exact hperm

/-- The count is over after as many turns as there are nodes. -/
theorem pending_counting (h : t.linkDefect? = none) : (t.counting t.nodes.size).pending = [] :=
  Traversal.pending_iterate_start (consistent_atRoot h) List.reverse_perm t.root

theorem reachDefect?_of_linkDefect? (h : t.linkDefect? = none) : t.reachDefect? = none := by
  have hsame : t.atRoot.preorder (t.nodes.size + 1) [t.root] =
      t.preorder (t.nodes.size + 1) [t.root] := preorder_congr _ fun _ _ _ _ => rfl
  have hnone := reachDefect?_eq_none (consistent_atRoot h)
  unfold reachDefect? at hnone ⊢
  rwa [← hsame]

/-! ## The check as a whole -/

/-- The check of a tree with its count as a loop: it answers only if the loop ends. -/
inductive Examined (t : FileTree) : Option Defect → Prop
  | linked {d : Defect} (h : t.linkDefect? = some d) : Examined t (some d)
  | short {k : Nat} (h : t.linkDefect? = none) (hend : (t.counting k).pending = [])
      (hcount : (t.counting k).taken.length ≠ t.nodes.size) : Examined t (some .unreachable)
  | whole {k : Nat} (h : t.linkDefect? = none) (hend : (t.counting k).pending = [])
      (hcount : (t.counting k).taken.length = t.nodes.size) : Examined t t.cwdDefect?

theorem keyDefect?_ne_unreachable (e : NodeId × Node) : keyDefect? e ≠ some .unreachable := by
  unfold keyDefect?
  split <;> simp

theorem rootDefect?_ne_unreachable : t.rootDefect? ≠ some .unreachable := by
  unfold rootDefect?
  split
  · simp
  · split <;> simp

theorem parentDefect?_ne_unreachable (n : Node) : t.parentDefect? n ≠ some .unreachable := by
  unfold parentDefect?
  split
  · split <;> simp
  · split
    · simp
    · split_ifs <;> simp

theorem childDefect?_ne_unreachable (n : Node) (names : List String) (children : List NodeId) :
    t.childDefect? n names children ≠ some .unreachable := by
  induction children generalizing names with
  | nil => simp [childDefect?]
  | cons c rest ih =>
    unfold childDefect?
    split
    · simp
    · split_ifs
      · simp
      · simp
      · exact ih _

/-- The passes before the count report other defects. -/
theorem linkDefect?_ne_unreachable : t.linkDefect? ≠ some .unreachable := by
  intro h
  rw [linkDefect?, Option.or_eq_some_iff, Option.or_eq_some_iff, Option.or_eq_some_iff] at h
  rcases h with ((hkey | ⟨-, hroot⟩) | ⟨-, hparent⟩) | ⟨-, hchild⟩
  · obtain ⟨e, -, he⟩ := List.exists_of_findSome?_eq_some hkey
    exact keyDefect?_ne_unreachable e he
  · exact rootDefect?_ne_unreachable hroot
  · obtain ⟨n, -, hn⟩ := List.exists_of_findSome?_eq_some hparent
    exact parentDefect?_ne_unreachable n hn
  · obtain ⟨n, -, hn⟩ := List.exists_of_findSome?_eq_some hchild
    exact childDefect?_ne_unreachable n [] n.children hn

theorem cwdDefect?_ne_unreachable : t.cwdDefect? ≠ some .unreachable := by
  unfold cwdDefect?
  split
  · split <;> simp
  · simp

/-- The count decides nothing. -/
theorem defect?_eq_or (t : FileTree) : t.defect? = (t.linkDefect?).or t.cwdDefect? := by
  rw [defect?_eq]
  cases h : t.linkDefect? with
  | some d => rfl
  | none => rw [reachDefect?_of_linkDefect? h, Option.or_none]

theorem defect?_ne_unreachable : t.defect? ≠ some .unreachable := by
  rw [defect?_eq_or, ne_eq, Option.or_eq_some_iff]
  rintro (h | ⟨-, h⟩)
  · exact linkDefect?_ne_unreachable h
  · exact cwdDefect?_ne_unreachable h

/-- The check with its loop ends for every tree, with the answer of the check that bounds it. -/
theorem examined_iff {r : Option Defect} : t.Examined r ↔ r = t.defect? := by
  rw [defect?_eq_or]
  constructor
  · rintro (h | ⟨h, hend, hcount⟩ | ⟨h, -, -⟩)
    · rw [h, Option.some_or]
    · exact absurd ((taken_counting_perm h hend).length_eq.trans length_ids) hcount
    · rw [h, Option.none_or]
  · rintro rfl
    cases h : t.linkDefect? with
    | some d =>
      rw [Option.some_or]
      exact .linked h
    | none =>
      have hend := pending_counting h
      rw [Option.none_or]
      exact .whole h hend ((taken_counting_perm h hend).length_eq.trans length_ids)

/-- Where the passes before it find no defect, the traversal of a stored tree ends and takes every
node once, so that the count comes out right. The check therefore ends for every stored tree and
does not report unreachable nodes, nor does the reading of any text. -/
theorem counted_of_linkDefect? :
    (∀ t : FileTree, t.linkDefect? = none →
      let s := t.counting t.nodes.size
      s.pending = [] ∧ s.taken.Nodup ∧ (∀ x, x ∈ s.taken ↔ ∃ n, t.node? x = some n) ∧
        s.taken.length = t.nodes.size) ∧
    (∀ (t : FileTree) (r : Option Defect), t.Examined r ↔ r = t.defect?) ∧
    (∀ t : FileTree, t.defect? ≠ some .unreachable) ∧
    ∀ text : String, ofSnapshot text ≠ .error (.inconsistent .unreachable) := by
  refine ⟨fun t h => ?_, fun _ _ => examined_iff, fun _ => defect?_ne_unreachable, fun text => ?_⟩
  · have hend := pending_counting h
    have hperm := taken_counting_perm h hend
    refine ⟨hend, hperm.nodup_iff.2 t.nodes.nodup_keys, fun x => ?_, ?_⟩
    · rw [hperm.mem_iff, mem_ids]
    · rw [hperm.length_eq, length_ids]
  · intro htext
    unfold ofSnapshot accept at htext
    split at htext
    · split at htext
      · next hd =>
        cases htext
        exact defect?_ne_unreachable hd
      · cases htext
    · cases htext

/-- A tree whose current directory is missing passes all that is checked before the count, which is
right; it is refused for its current directory. -/
theorem counted_of_linkDefect?_without_directory :
    let t := { seed ⟨.still ⟨0, 0⟩, .counting⟩ with cwd := ⟨"nowhere"⟩ }
    t.linkDefect? = none ∧ (t.counting t.nodes.size).pending = [] ∧
      (t.counting t.nodes.size).taken.length = t.nodes.size ∧
      t.Examined (some .badCurrentDirectory) := by
  intro t
  have hlink : t.linkDefect? = none := by
    obtain ⟨hkey, hroot, hparent, hchildren, -⟩ :=
      defect?_eq_none_iff_passes.1 (defect?_eq_none_iff.2 (consistent_seed ⟨.still ⟨0, 0⟩, .counting⟩))
    exact linkDefect?_eq_none_iff.2 ⟨hkey, hroot, hparent, hchildren⟩
  obtain ⟨hend, -, -, hcount⟩ := counted_of_linkDefect?.1 t hlink
  have hcwd : t.cwdDefect? = some .badCurrentDirectory := by decide
  refine ⟨hlink, hend, hcount, (counted_of_linkDefect?.2.1 t _).2 ?_⟩
  rw [defect?_eq_or, hlink, Option.none_or, hcwd]

end FileTree

end VirtualShell
