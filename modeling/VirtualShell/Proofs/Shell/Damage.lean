import VirtualShell.Proofs.Shell.Removal
import VirtualShell.Proofs.Shell.Replies
import VirtualShell.Proofs.Tree.Starter
import VirtualShell.Tree.Fresh

/-!
# What `rm` reports

Damage is reported from the path of an operand, before anything is removed; what is removed is a
part of the tree. That the two fit together is `damage_runRm`: the reports of `rm` are those that
its operands call for, each read at its turn, and whatever goes from the area of the system or from
the home directory was reported for the operand that removed it. The link is that a node which goes
lies beneath the path of the operand. If it also lies beneath a protected area, then of that path
and the area one lies beneath the other.
-/

namespace VirtualShell.Command

open FileTree

/-- An operand at its turn, with the trees before and after it. -/
structure Turn where
  before : FileTree
  operand : String
  after : FileTree

/-- A path is an area, or it lies beneath it or above it. -/
def Touches (path area : String) : Prop := Path.Beneath path area ∨ Path.Beneath area path

instance (path area : String) : Decidable (Touches path area) :=
  inferInstanceAs (Decidable (_ ∨ _))

namespace Removal

/-- The turns of some operands, one after another. -/
def turns (r : Removal) (p : Progress) : List String → List Turn
  | [] => []
  | operand :: rest =>
    ⟨p.tree, operand, (r.remove p operand).tree⟩ :: r.turns (r.remove p operand) rest

/-- What an operand is to be reported for: nothing if it names no node, the root, or a directory
that is not to be removed, and else the damage to the first area that its path touches. -/
def due (r : Removal) (turn : Turn) : List Int :=
  match turn.before.find? turn.operand with
  | none => []
  | some n =>
    if n.id = turn.before.root ∨ (n.isDirectory = true ∧ r.recursive = false) then []
    else if Touches (turn.before.resolve turn.operand) systemDir then [-15]
    else if Touches (turn.before.resolve turn.operand) Path.home then [-5]
    else []

end Removal

/-! ## One operand -/

theorem normal_systemDir : Path.Normal systemDir := ⟨["system"], by decide, by decide⟩

theorem onOneLine_iff {path area : String} (hp : Path.Normal path) (ha : Path.Normal area) :
    onOneLine path area = true ↔ Touches path area := by
  rw [onOneLine, Bool.or_eq_true, Path.isWithin_iff_beneath hp ha, Path.isWithin_iff_beneath ha hp]
  rfl

theorem damageOf_eq {path : String} (hp : Path.Normal path) : (damageOf path).toList =
    if Touches path systemDir then [-15] else if Touches path Path.home then [-5] else [] := by
  unfold damageOf
  simp only [onOneLine_iff hp normal_systemDir, onOneLine_iff hp Path.normal_home]
  split_ifs <;> rfl

/-- The root alone has no parent. -/
theorem isNone_parent_iff {t : FileTree} (h : t.Consistent) {path : String} {n : Node}
    (hn : t.lookup? path = some n) : n.parent.isNone = true ↔ n.id = t.root := by
  have hnode := (h.lookup?_eq_some.1 hn).1
  rw [Option.isNone_iff_eq_none]
  constructor
  · intro hp
    exact h.eq_root_of_parent_eq_none hnode hp
  · intro hroot
    cases hp : n.parent with
    | none => rfl
    | some p => exact absurd hroot (h.root_ne_of_parent hnode hp)

/-- An operand adds what it is to be reported for. -/
theorem Removal.damage_remove (r : Removal) {p : Progress} (h : p.tree.Consistent)
    (operand : String) : (r.remove p operand).damage =
      p.damage ++ r.due ⟨p.tree, operand, (r.remove p operand).tree⟩ := by
  unfold due remove
  dsimp only
  rw [h.find?_resolve]
  cases hn : p.tree.find? operand with
  | none =>
    dsimp only
    split <;> simp [Progress.complain]
  | some n =>
    dsimp only
    by_cases hdir : n.isDirectory = true ∧ r.recursive = false
    · have hrefused : (n.isDirectory && !r.recursive) = true := by simp [hdir]
      rw [if_pos hrefused, if_pos (Or.inr hdir), List.append_nil]
      rfl
    · have hallowed : ¬ (n.isDirectory && !r.recursive) = true := by simpa using hdir
      rw [if_neg hallowed, Progress.damage_attempt, damageOf_eq (h.normal_resolve operand)]
      by_cases hroot : n.id = p.tree.root
      · rw [if_pos ((isNone_parent_iff h hn).2 hroot), if_pos (Or.inl hroot)]
      · rw [if_neg (mt (isNone_parent_iff h hn).1 hroot), if_neg (not_or.2 ⟨hroot, hdir⟩)]

/-- An operand with which a node goes names a node below the root that may be removed. -/
theorem Removal.exists_top (r : Removal) {p : Progress} (h : p.tree.Consistent) {operand : String}
    {id : NodeId} (hthere : (p.tree.node? id).isSome = true)
    (hgone : (r.remove p operand).tree.node? id = none) :
    ∃ top, p.tree.find? operand = some top ∧ top.id ≠ p.tree.root ∧
      ¬ (top.isDirectory = true ∧ r.recursive = false) := by
  have hstays : (r.remove p operand).tree ≠ p.tree := by
    intro hsame
    rw [hsame] at hgone
    rw [hgone] at hthere
    cases hthere
  obtain ⟨result, hresult, -⟩ := (r.tree_remove p operand).resolve_left hstays
  obtain ⟨top, parent, htop, hparent, -⟩ := delete_eq_ok hresult
  refine ⟨top, (h.find?_resolve operand).symm.trans htop, ?_, ?_⟩
  · intro hroot
    have hnone := (isNone_parent_iff h htop).2 hroot
    rw [hparent] at hnone
    cases hnone
  · intro hdir
    apply hstays
    have hrefused : (top.isDirectory && !r.recursive) = true := by simp [hdir]
    unfold remove
    dsimp only
    rw [htop]
    dsimp only
    rw [if_pos hrefused]
    rfl

/-- What goes from a protected area with an operand is reported for it. -/
theorem Removal.due_of_gone (r : Removal) {t : FileTree} {p : Progress} (h : t.Consistent)
    (hp : Pruned t p.tree) {operand : String} {id : NodeId} {n : Node}
    (hn : p.tree.node? id = some n) (hgone : (r.remove p operand).tree.node? id = none) :
    let turn : Turn := ⟨p.tree, operand, (r.remove p operand).tree⟩
    (Path.Beneath n.path systemDir → r.due turn = [-15]) ∧
      (Path.Beneath n.path Path.home → r.due turn = [-15] ∨ r.due turn = [-5]) := by
  intro turn
  have hcons := hp.consistent
  have hbelow : Path.Beneath n.path (p.tree.resolve operand) := by
    rw [← Path.isWithin_iff_beneath (hcons.normal_path hn) (hcons.normal_resolve operand)]
    exact (r.remove_spec h hp operand).2 id n hn hgone
  have htouches : ∀ area, Path.Beneath n.path area → Touches (p.tree.resolve operand) area := by
    intro area harea
    exact Path.Beneath.total hbelow harea
  obtain ⟨top, htop, hroot, hdir⟩ := r.exists_top hcons (by rw [hn]; rfl) hgone
  have hdue : r.due turn = if Touches (p.tree.resolve operand) systemDir then [-15]
      else if Touches (p.tree.resolve operand) Path.home then [-5] else [] := by
    unfold due
    rw [htop]
    exact if_neg (not_or.2 ⟨hroot, hdir⟩)
  rw [hdue]
  constructor
  · intro hsystem
    exact if_pos (htouches _ hsystem)
  · intro hhome
    rw [if_pos (htouches _ hhome)]
    split
    · exact Or.inl rfl
    · exact Or.inr rfl

/-! ## All operands -/

theorem Removal.damage_foldl (r : Removal) {t : FileTree} (h : t.Consistent)
    {operands : List String} {p : Progress} (hp : Pruned t p.tree) :
    (operands.foldl r.remove p).damage = p.damage ++ (r.turns p operands).flatMap r.due := by
  induction operands generalizing p with
  | nil => simp [turns]
  | cons operand rest ih =>
    have hp' : Pruned t (r.remove p operand).tree := (r.remove_spec h hp operand).1
    rw [List.foldl_cons, ih hp', r.damage_remove hp.consistent, turns, List.flatMap_cons,
      List.append_assoc]

/-- A node that goes while operands are removed one by one goes at the turn of one of them. -/
theorem Removal.exists_turn (r : Removal) {t : FileTree} (h : t.Consistent)
    {operands : List String} {p : Progress} (hp : Pruned t p.tree) {id : NodeId} {n : Node}
    (hn : t.node? id = some n) (hthere : (p.tree.node? id).isSome = true)
    (hgone : (operands.foldl r.remove p).tree.node? id = none) :
    ∃ turn ∈ r.turns p operands, (turn.before.node? id).isSome = true ∧
      turn.after.node? id = none ∧ (Path.Beneath n.path systemDir → r.due turn = [-15]) ∧
      (Path.Beneath n.path Path.home → r.due turn = [-15] ∨ r.due turn = [-5]) := by
  induction operands generalizing p with
  | nil =>
    rw [List.foldl_nil] at hgone
    rw [hgone] at hthere
    cases hthere
  | cons operand rest ih =>
    rw [List.foldl_cons] at hgone
    cases hnext : (r.remove p operand).tree.node? id with
    | some m =>
      have hp' : Pruned t (r.remove p operand).tree := (r.remove_spec h hp operand).1
      obtain ⟨turn, hmem, hturn⟩ := ih hp' (by rw [hnext]; rfl) hgone
      exact ⟨turn, List.mem_cons_of_mem _ hmem, hturn⟩
    | none =>
      -- it goes at this turn; its path is still the one that it had at the start
      obtain ⟨m, hm⟩ := Option.isSome_iff_exists.1 hthere
      obtain ⟨n', hn', hpath⟩ := hp.path_eq id m hm
      rw [hn, Option.some.injEq] at hn'
      rw [hn', ← hpath]
      exact ⟨_, List.mem_cons_self, hthere, hnext, r.due_of_gone h hp hm hnext⟩

/-- `rm` reports what its operands call for, each at its turn and in their order, and nothing if it
refuses its arguments. Each node that goes was there before the turn of some operand and is gone
after it. If the node lay in the area of the system, the gravest damage was reported for this operand,
and if it lay in the home directory, at least the damage to that. -/
theorem damage_runRm {w : World} (h : w.tree.Consistent) (args : List String) :
    (∀ e, args.foldlM Removal.argument ⟨false, false, []⟩ = .error e →
      (runRm args w).1.damage = [] ∧ (runRm args w).2 = w) ∧
    ∀ r, args.foldlM Removal.argument ⟨false, false, []⟩ = .ok r →
      let turns := r.turns (.start w.tree) (args.filter isRemovalOperand)
      (runRm args w).1.damage = turns.flatMap r.due ∧
      ∀ id n, w.tree.node? id = some n → (runRm args w).2.tree.node? id = none →
        ∃ turn ∈ turns, (turn.before.node? id).isSome = true ∧ turn.after.node? id = none ∧
          (Path.Beneath n.path systemDir → r.due turn = [-15]) ∧
          (Path.Beneath n.path Path.home → r.due turn = [-15] ∨ r.due turn = [-5]) := by
  constructor
  · intro e he
    unfold runRm
    rw [he]
    exact ⟨rfl, rfl⟩
  · intro r hr
    have hoperands : r.operands = args.filter isRemovalOperand := by
      have hall := operands_of_arguments hr
      rwa [List.nil_append] at hall
    have hstart : Pruned w.tree (Progress.start w.tree).tree := Pruned.refl h
    rw [← hoperands]
    unfold runRm
    rw [hr]
    dsimp only
    split
    · -- without operands nothing is removed
      next hempty =>
      rw [List.isEmpty_iff] at hempty
      rw [hempty]
      split
      all_goals
        refine ⟨rfl, fun id n hn hgone => ?_⟩
        rw [hn] at hgone
        cases hgone
    · refine ⟨r.damage_foldl h hstart, fun id n hn hgone => ?_⟩
      exact r.exists_turn h hstart hn (by rw [Progress.start, hn]; rfl) hgone

/-- A file of the home directory goes, the system's directory is read-only and stays, and the home
directory goes with the one above it. -/
theorem damage_runRm_from_seed :
    let w : World := ⟨.seed ⟨.still ⟨0, 0⟩, .counting⟩, default⟩
    let args := ["-r", "/home/user/readme.txt", "/system", "/home", "/data"]
    w.tree.Consistent ∧ (runRm args w).1.damage = [-5, -15, -5] := by
  intro w args
  have h : w.tree.Consistent := consistent_seed ⟨.still ⟨0, 0⟩, .counting⟩
  have hr : args.foldlM Removal.argument ⟨false, false, []⟩ =
      .ok ⟨true, false, ["/home/user/readme.txt", "/system", "/home", "/data"]⟩ := by
    rfl
  refine ⟨h, ?_⟩
  rw [((damage_runRm h args).2 _ hr).1]
  decide

end VirtualShell.Command
