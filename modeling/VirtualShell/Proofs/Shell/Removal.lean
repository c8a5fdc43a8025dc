import VirtualShell.Proofs.Tree.Acceptance
import VirtualShell.Proofs.Tree.Mutation
import VirtualShell.Shell

/-!
# What `rm` removes

Each operand of `rm` is read when its turn comes, against the current directory of that moment. An
earlier operand may have removed that directory, and then its parent has become the current one.
So what is removed lies beneath what the operand names at its turn (`removed_within_operand`),
and the directory it is read against is the one at the start or, when that is gone, one above it.
It need not lie beneath what an operand names at the start (`not_within_operand_at_start`).
-/

namespace VirtualShell

namespace FileTree

variable {t t₁ : FileTree}

theorem Consistent.exists_currentDirectory (h : t.Consistent) :
    ∃ n, t.node? t.cwd = some n ∧ n.path = t.currentDirectory := by
  obtain ⟨n, hn, -⟩ := h.cwd_ok
  exact ⟨n, hn, by rw [currentDirectory, hn]⟩

/-- What lies in a subtree lies within the path of its top. -/
theorem Consistent.isWithin_of_mem_subtree (h : t.Consistent) {id x : NodeId} {n m : Node}
    (hn : t.node? id = some n) (hm : t.node? x = some m) (hx : x ∈ t.subtree id) :
    Path.isWithin m.path n.path = true :=
  h.isWithin_of_reaches ((mem_subtree h hn).1 hx) hn hm

/-! ## Removing one node after another -/

/-- The second tree is left of the first one after some removals. -/
structure Pruned (t t₁ : FileTree) : Prop where
  consistent : t₁.Consistent
  path_eq : ∀ id m, t₁.node? id = some m → ∃ n, t.node? id = some n ∧ m.path = n.path
  /-- The current directory is the same, or it is gone and a directory above it has taken its
  place. -/
  cwd : t₁.cwd = t.cwd ∨ t₁.node? t.cwd = none ∧
    Path.isWithin t.currentDirectory t₁.currentDirectory = true ∧
    t₁.currentDirectory.toList.length < t.currentDirectory.toList.length

theorem Pruned.refl (h : t.Consistent) : Pruned t t :=
  ⟨h, fun _ m hm => ⟨m, hm, rfl⟩, Or.inl rfl⟩

theorem Pruned.currentDirectory_eq (hp : Pruned t t₁) (h : t.Consistent) (hcwd : t₁.cwd = t.cwd) :
    t₁.currentDirectory = t.currentDirectory := by
  obtain ⟨c, hc, hcpath⟩ := h.exists_currentDirectory
  obtain ⟨c₁, hc₁, hcpath₁⟩ := hp.consistent.exists_currentDirectory
  obtain ⟨n, hn, hpath⟩ := hp.path_eq _ c₁ hc₁
  rw [hcwd, hc, Option.some.injEq] at hn
  rw [← hcpath, ← hcpath₁, hpath, hn]

/-- A removal takes away what lies within the path that is removed. -/
theorem isWithin_of_delete (h : t.Consistent) {path : String} {r : FileTree × Nat}
    (hr : t.delete path = .ok r) {id : NodeId} {n : Node} (hn : t.node? id = some n)
    (hgone : r.1.node? id = none) : Path.isWithin n.path (t.resolve path) = true := by
  obtain ⟨top, parent, htop, -, -, rfl⟩ := delete_eq_ok hr
  obtain ⟨htopnode, htoppath⟩ := h.lookup?_eq_some.1 htop
  rw [node?_detach] at hgone
  split at hgone
  · next hmem => exact htoppath ▸ h.isWithin_of_mem_subtree htopnode hn hmem
  · rw [hn, Option.map_some] at hgone
    cases hgone

/-- After a removal nothing is at the path that was removed. -/
theorem Consistent.lookup?_delete (h : t.Consistent) {path : String} {r : FileTree × Nat}
    (hr : t.delete path = .ok r) : r.1.lookup? (t.resolve path) = none := by
  obtain ⟨n, parent, hn, -, -, rfl⟩ := delete_eq_ok hr
  obtain ⟨hnode, hpath⟩ := h.lookup?_eq_some.1 hn
  rw [FileTree.lookup?_eq_none]
  intro id m hm hmpath
  obtain ⟨hout, k, hk, rfl⟩ := node_of_detach hm
  obtain rfl : id = n.id := h.path_inj hk hnode
    ((Node.relist_path.symm.trans hmpath).trans hpath.symm)
  exact hout ((mem_subtree h hnode).2 (.refl _))

/-- One removal. If the current directory goes, its place is taken by the parent of the node that
is removed. -/
theorem Pruned.of_delete (h : t.Consistent) {path : String} {r : FileTree × Nat}
    (hr : t.delete path = .ok r) : Pruned t r.1 := by
  have hcons := h.delete hr
  obtain ⟨top, parent, htop, hparent, -, rfl⟩ := delete_eq_ok hr
  have htopnode := (h.lookup?_eq_some.1 htop).1
  have hkeep : ∀ id m, (t.detach parent top.id).node? id = some m →
      ∃ n, t.node? id = some n ∧ m.path = n.path := by
    intro id m hm
    obtain ⟨-, n, hn, rfl⟩ := node_of_detach hm
    exact ⟨n, hn, Node.relist_path⟩
  refine ⟨hcons, hkeep, ?_⟩
  by_cases hmem : t.cwd ∈ t.subtree top.id
  · have hcwd : (t.detach parent top.id).cwd = parent := by simp [detach, hmem]
    obtain ⟨c, hc, hcpath⟩ := h.exists_currentDirectory
    obtain ⟨d, hd, -, hlisted, -, -⟩ := h.parent_spec htopnode hparent
    have hreach := (mem_subtree h htopnode).1 hmem
    have hbelow : t.cwd ∈ t.subtree parent :=
      (mem_subtree h hd).2 ((Reaches.of_child hd hlisted).trans hreach)
    have hwithin := h.isWithin_of_mem_subtree hd hc hbelow
    have hshorter := h.length_lt htopnode hparent hd
    have htaller := h.length_le_of_reaches hreach htopnode hc
    have hdpath : (t.detach parent top.id).currentDirectory = d.path := by
      obtain ⟨c', hc', hcpath'⟩ := hcons.exists_currentDirectory
      obtain ⟨n, hn, hpath⟩ := hkeep _ c' hc'
      rw [hcwd, hd, Option.some.injEq] at hn
      rw [← hcpath', hpath, hn]
    rw [hdpath, ← hcpath]
    exact Or.inr ⟨by rw [node?_detach, if_pos hmem], hwithin, by omega⟩
  · exact Or.inl (by simp [detach, hmem])

theorem Pruned.node?_eq_none (hp : Pruned t t₁) {id : NodeId} (hid : t.node? id = none) :
    t₁.node? id = none := by
  cases hm : t₁.node? id with
  | none => rfl
  | some m =>
    obtain ⟨n, hn, -⟩ := hp.path_eq id m hm
    rw [hid] at hn
    cases hn

/-- What is not there is not there after removals either. -/
theorem Pruned.lookup?_eq_none (hp : Pruned t t₁) {path : String} (hnone : t.lookup? path = none) :
    t₁.lookup? path = none := by
  rw [FileTree.lookup?_eq_none] at hnone ⊢
  intro id m hm hpath
  obtain ⟨n, hn, hsame⟩ := hp.path_eq id m hm
  exact hnone id n hn (hsame.symm.trans hpath)

theorem Pruned.trans {t₂ : FileTree} (hp : Pruned t t₁) (h : t.Consistent) (hq : Pruned t₁ t₂) :
    Pruned t t₂ := by
  refine ⟨hq.consistent, fun id m hm => ?_, ?_⟩
  · obtain ⟨k, hk, hmk⟩ := hq.path_eq id m hm
    obtain ⟨n, hn, hkn⟩ := hp.path_eq id k hk
    exact ⟨n, hn, hmk.trans hkn⟩
  · rcases hp.cwd with hsame | ⟨hnone, hin, hlen⟩ <;>
      rcases hq.cwd with hsame' | ⟨hnone', hin', hlen'⟩
    · exact Or.inl (hsame'.trans hsame)
    · rw [hsame] at hnone'
      rw [hp.currentDirectory_eq h hsame] at hin' hlen'
      exact Or.inr ⟨hnone', hin', hlen'⟩
    · rw [hq.currentDirectory_eq hp.consistent hsame']
      exact Or.inr ⟨hq.node?_eq_none hnone, hin, hlen⟩
    · obtain ⟨c, hc, hcpath⟩ := h.exists_currentDirectory
      obtain ⟨c₁, hc₁, hcpath₁⟩ := hp.consistent.exists_currentDirectory
      refine Or.inr ⟨hq.node?_eq_none hnone, ?_, by omega⟩
      exact Path.isWithin_trans (hcpath ▸ h.head?_path hc)
        (hcpath₁ ▸ hp.consistent.head?_path hc₁) hin hin'

end FileTree

namespace Command

open FileTree

variable {t : FileTree}

/-! ## Operand by operand -/

/-- Removing an operand leaves the tree as it is or removes what the operand names. -/
theorem Removal.tree_remove (r : Removal) (p : Progress) (operand : String) :
    (r.remove p operand).tree = p.tree ∨
      ∃ result, p.tree.delete (p.tree.resolve operand) = .ok result ∧
        (r.remove p operand).tree = result.1 := by
  unfold Removal.remove
  dsimp only
  split
  · split <;> exact Or.inl rfl
  · split
    · exact Or.inl rfl
    · cases hd : p.tree.delete (p.tree.resolve operand) with
      | error e => exact Or.inl rfl
      | ok result => exact Or.inr ⟨result, rfl, rfl⟩

/-- One operand prunes the tree, and what goes lies within what the operand names. -/
theorem Removal.remove_spec (r : Removal) {p : Progress} (h : t.Consistent)
    (hp : Pruned t p.tree) (operand : String) :
    Pruned t (r.remove p operand).tree ∧ ∀ id n, p.tree.node? id = some n →
      (r.remove p operand).tree.node? id = none →
        Path.isWithin n.path (p.tree.resolve operand) = true := by
  rcases r.tree_remove p operand with hsame | ⟨result, hresult, htree⟩
  · rw [hsame]
    refine ⟨hp, fun id n hn hgone => ?_⟩
    rw [hn] at hgone
    cases hgone
  · rw [htree]
    refine ⟨hp.trans h (.of_delete hp.consistent hresult), fun id n hn hgone => ?_⟩
    have hwithin := isWithin_of_delete hp.consistent hresult hn hgone
    rwa [hp.consistent.resolve_resolve] at hwithin

/-- A node that goes while operands are removed one by one lies within what one of them names at
its turn. The induction finds the turn at which it goes; its path stays the same until then. -/
theorem Removal.foldl_remove_spec (r : Removal) (h : t.Consistent) {operands : List String}
    {p : Progress} (hp : Pruned t p.tree) {id : NodeId} {n : Node} (hn : t.node? id = some n)
    (hthere : (p.tree.node? id).isSome = true)
    (hgone : (operands.foldl r.remove p).tree.node? id = none) :
    ∃ before operand after, operands = before ++ operand :: after ∧
      Pruned t (before.foldl r.remove p).tree ∧
      Path.isWithin n.path ((before.foldl r.remove p).tree.resolve operand) = true := by
  induction operands generalizing p with
  | nil =>
    rw [List.foldl_nil] at hgone
    rw [hgone] at hthere
    cases hthere
  | cons operand rest ih =>
    obtain ⟨hp', hwithin⟩ := r.remove_spec h hp operand
    cases hnext : (r.remove p operand).tree.node? id with
    | none =>
      obtain ⟨m, hm⟩ := Option.isSome_iff_exists.1 hthere
      obtain ⟨n', hn', hpath⟩ := hp.path_eq id m hm
      rw [hn, Option.some.injEq] at hn'
      refine ⟨[], operand, rest, rfl, hp, ?_⟩
      rw [List.foldl_nil, hn', ← hpath]
      exact hwithin id m hm hnext
    | some m =>
      obtain ⟨before, q, after, hsplit, hrest⟩ := ih hp' (by rw [hnext]; rfl) hgone
      exact ⟨operand :: before, q, after, by rw [hsplit]; rfl, hrest⟩

/-! ## The whole command -/

/-- An argument of `rm` that is neither a long option nor a cluster of letters. -/
def isRemovalOperand (arg : String) : Bool :=
  arg ≠ "--recursive" && arg ≠ "--force" && (optionLetters? arg).isNone

theorem operands_of_letters {cs : List Char} {r₀ r : Removal}
    (h : cs.foldlM Removal.letter r₀ = .ok r) : r.operands = r₀.operands := by
  induction cs generalizing r₀ with
  | nil => cases h; rfl
  | cons c cs ih =>
    rw [List.foldlM_cons] at h
    cases hc : r₀.letter c with
    | error e => rw [hc] at h; cases h
    | ok r₁ =>
      rw [hc] at h
      have hsame : r₁.operands = r₀.operands := by
        unfold Removal.letter at hc
        split at hc <;> cases hc <;> rfl
      exact (ih h).trans hsame

theorem operands_of_argument {arg : String} {r₀ r : Removal} (h : r₀.argument arg = .ok r) :
    r.operands = r₀.operands ++ [arg].filter isRemovalOperand := by
  unfold Removal.argument at h
  split_ifs at h with hr hf
  · cases h
    simp [isRemovalOperand, hr]
  · cases h
    simp [isRemovalOperand, hf]
  · split at h
    · next cs hcs =>
      rw [operands_of_letters h]
      simp [isRemovalOperand, hcs]
    · next hcs =>
      cases h
      simp [isRemovalOperand, hcs, hr, hf]

/-- The options of `rm` may stand anywhere; all other arguments are operands, in their order. -/
theorem operands_of_arguments {args : List String} {r₀ r : Removal}
    (h : args.foldlM Removal.argument r₀ = .ok r) :
    r.operands = r₀.operands ++ args.filter isRemovalOperand := by
  induction args generalizing r₀ with
  | nil => cases h; simp
  | cons arg args ih =>
    rw [List.foldlM_cons] at h
    cases hc : r₀.argument arg with
    | error e => rw [hc] at h; cases h
    | ok r₁ =>
      rw [hc] at h
      rw [ih h, operands_of_argument hc, List.append_assoc, ← List.filter_append]
      rfl

/-- What `rm` removes lies within what one of its operands names at its turn. The directory against
which that operand is read is the one at the start, or that one is gone by then and the operand is
read against one above it. -/
theorem removed_within_operand {w : World} (h : w.tree.Consistent) {args : List String}
    {id : NodeId} {n : Node} (hn : w.tree.node? id = some n)
    (hgone : (runRm args w).2.tree.node? id = none) :
    ∃ r before operand after, args.foldlM Removal.argument ⟨false, false, []⟩ = .ok r ∧
      args.filter isRemovalOperand = before ++ operand :: after ∧
      let t := (before.foldl r.remove (.start w.tree)).tree
      Path.isWithin n.path (t.resolve operand) = true ∧
      (t.currentDirectory = w.tree.currentDirectory ∨ t.node? w.tree.cwd = none ∧
        Path.isWithin w.tree.currentDirectory t.currentDirectory = true ∧
        t.currentDirectory ≠ w.tree.currentDirectory) := by
  have hstays : w.tree.node? id ≠ none := by rw [hn]; exact Option.some_ne_none n
  unfold runRm at hgone
  split at hgone
  · exact absurd hgone hstays
  · next r hr =>
    split at hgone
    · split at hgone <;> exact absurd hgone hstays
    · obtain ⟨before, operand, after, hsplit, hp, hwithin⟩ :=
        r.foldl_remove_spec h (p := .start w.tree) (Pruned.refl h) hn (by rw [Progress.start, hn]; rfl)
          hgone
      have hoperands := operands_of_arguments hr
      rw [List.nil_append, hsplit] at hoperands
      refine ⟨r, before, operand, after, hr, hoperands.symm, hwithin, ?_⟩
      rcases hp.cwd with hsame | ⟨hnone, hin, hlen⟩
      · exact Or.inl (hp.currentDirectory_eq h hsame)
      · exact Or.inr ⟨hnone, hin, fun he => by rw [he] at hlen; omega⟩

/-- A tree whose current directory `/tmp/a` stands beside a file `/tmp/x`. -/
def besideFile : FileTree :=
  let node (id name path : String) (parent : Option NodeId) (content : Content) :=
    (NodeId.mk id, Node.mk ⟨id⟩ name path parent content (.forContent content ⟨0, 0⟩) false)
  { nodes := .ofList [node "0" "" "/" none (.directory [⟨"1"⟩]),
      node "1" "tmp" "/tmp" (some ⟨"0"⟩) (.directory [⟨"2"⟩, ⟨"3"⟩]),
      node "2" "a" "/tmp/a" (some ⟨"1"⟩) (.directory []),
      node "3" "x" "/tmp/x" (some ⟨"1"⟩) (.file "")]
    root := ⟨"0"⟩, cwd := ⟨"2"⟩ }

theorem consistent_besideFile : besideFile.Consistent :=
  defect?_eq_none_iff.1 (by decide)

/-- With the current directory `/tmp/a`, the operand `x` of `rm -r /tmp/a x` is `/tmp/x` at its
turn. -/
theorem removed_within_operand_after_cwd :
    besideFile.Consistent ∧ (runRm ["-r", "/tmp/a", "x"] ⟨besideFile, default⟩).2.tree.node? ⟨"3"⟩ =
      none ∧ ∃ r before operand after,
      ["-r", "/tmp/a", "x"].foldlM Removal.argument ⟨false, false, []⟩ = .ok r ∧
      ["-r", "/tmp/a", "x"].filter isRemovalOperand = before ++ operand :: after ∧
      let t := (before.foldl r.remove (.start besideFile)).tree
      Path.isWithin "/tmp/x" (t.resolve operand) = true ∧
      (t.currentDirectory = besideFile.currentDirectory ∨ t.node? besideFile.cwd = none ∧
        Path.isWithin besideFile.currentDirectory t.currentDirectory = true ∧
        t.currentDirectory ≠ besideFile.currentDirectory) := by
  have hgone : (runRm ["-r", "/tmp/a", "x"] ⟨besideFile, default⟩).2.tree.node? ⟨"3"⟩ = none := by
    decide
  refine ⟨consistent_besideFile, hgone, ?_⟩
  exact removed_within_operand (w := ⟨besideFile, default⟩) consistent_besideFile rfl hgone

/-- What is removed need not lie within what an operand names at the start: there `x` is
`/tmp/a/x`. -/
theorem not_within_operand_at_start :
    ¬ ∀ (w : World) (args : List String), w.tree.Consistent →
      ∀ id n, w.tree.node? id = some n → (runRm args w).2.tree.node? id = none →
        ∃ operand ∈ args.filter isRemovalOperand,
          Path.isWithin n.path (w.tree.resolve operand) = true := by
  intro h
  obtain ⟨operand, hmem, hwithin⟩ := h ⟨besideFile, default⟩ ["-r", "/tmp/a", "x"]
    consistent_besideFile ⟨"3"⟩ _ rfl (by decide)
  have hoperands : ["-r", "/tmp/a", "x"].filter isRemovalOperand = ["/tmp/a", "x"] := by decide
  have hnone : ∀ o ∈ ["/tmp/a", "x"],
      Path.isWithin "/tmp/x" (besideFile.resolve o) = false := by
    decide
  rw [hoperands] at hmem
  have hout := hnone operand hmem
  rw [show Path.isWithin "/tmp/x" (besideFile.resolve operand) = true from hwithin] at hout
  cases hout

end Command

end VirtualShell
