import VirtualShell.Proofs.Tree.Relabelling
import VirtualShell.Proofs.Tree.Starter

/-!
# Trees that differ in their ids

Two trees are alike if one is the other with other ids. Two id sources give two new nodes different
ids, and then the permutation that relates the trees has to be changed at the new id. That id was
not in use, so that in a consistent tree nothing else is touched (`exists_relabel_pick`). Hence a
change that is made to two alike trees by one clock, each with its own id source, is refused for both
or leaves trees that are alike (`Change.likewise_run`), and every environment begins with a tree like
that of any other (`alike_seed`).
-/

namespace VirtualShell

namespace Supply

variable {s s' : Supply} (hclock : s'.clock = s.clock)
include hclock

theorem now_eq : s'.now = s.now := congrArg Clock.now hclock

theorem clock_turn (i : Nat) : (s'.turn i).clock = (s.turn i).clock :=
  congrArg (Clock.turn · i) hclock

theorem now_turn (i : Nat) : (s'.turn i).now = (s.turn i).now := now_eq (clock_turn hclock i)

end Supply

namespace FileTree

/-- The second tree is the first one, a consistent one, with other ids. -/
structure Alike (t t' : FileTree) : Prop where
  consistent : t.Consistent
  relabelled : ∃ σ, t' = t.relabel σ

/-- Two refusals for one reason, or two results that are alike. -/
inductive Likewise : Except TreeError FileTree → Except TreeError FileTree → Prop
  | ok {t t' : FileTree} (h : t.Alike t') : Likewise (.ok t) (.ok t')
  | error (e : TreeError) : Likewise (.error e) (.error e)

variable {t t' : FileTree} {s s' : Supply}

namespace Alike

variable (h : t.Alike t')
include h

theorem currentDirectory_eq : t'.currentDirectory = t.currentDirectory := by
  obtain ⟨σ, rfl⟩ := h.relabelled
  exact currentDirectory_relabel σ t

theorem resolve_eq (input : String) : t'.resolve input = t.resolve input := by
  obtain ⟨σ, rfl⟩ := h.relabelled
  exact resolve_relabel σ t input

/-- Lookups find the same node, but for its ids. -/
theorem exists_find?_eq : ∃ σ : Equiv.Perm NodeId, ∀ path,
    t'.find? path = (t.find? path).map (·.relabel σ) := by
  obtain ⟨σ, rfl⟩ := h.relabelled
  exact ⟨σ, find?_relabel σ t⟩

theorem read_eq (path : String) : t'.read path = t.read path := by
  obtain ⟨σ, rfl⟩ := h.relabelled
  exact read_relabel σ t path

end Alike

namespace Likewise

variable {x x' : Except TreeError FileTree}

theorem bind {f f' : FileTree → Except TreeError FileTree} (h : Likewise x x')
    (hf : ∀ u u', Alike u u' → Likewise (f u) (f' u')) : Likewise (x >>= f) (x' >>= f') := by
  cases h with
  | ok hu => exact hf _ _ hu
  | error e => exact .error e

/-- A result and the same with other ids. -/
theorem of_relabel {σ : Equiv.Perm NodeId} (h : ∀ u, x = .ok u → u.Consistent)
    (hx : x' = relabel σ <$> x) : Likewise x x' := by
  subst hx
  cases x with
  | ok u => exact .ok ⟨h u rfl, σ, rfl⟩
  | error e => exact .error e

end Likewise

/-! ## The ids of a consistent tree -/

/-- Permutations that agree on the ids in use relabel a consistent tree in the same way. -/
theorem Consistent.relabel_congr (h : t.Consistent) {σ τ : Equiv.Perm NodeId}
    (heq : ∀ id ∈ t.ids, σ id = τ id) : t.relabel σ = t.relabel τ := by
  have hused : ∀ id n, t.node? id = some n → σ id = τ id := by
    intro id n hn
    exact heq id (mem_ids.2 ⟨n, hn⟩)
  have hnodes : t.nodes.relabel σ (·.relabel σ) = t.nodes.relabel τ (·.relabel τ) := by
    apply OrderedMap.relabel_congr
    rintro ⟨id, n⟩ he
    have hn : t.node? id = some n := OrderedMap.mem_entries_iff.1 he
    refine ⟨hused id n hn, Node.relabel_congr ?_ ?_ ?_⟩
    · rw [h.key_eq_id id n hn]
      exact hused id n hn
    · intro p hp
      obtain ⟨d, hd, -⟩ := h.parent_spec hn hp
      exact hused p d hd
    · intro c hc
      obtain ⟨m, hm, -⟩ := h.parent_of_mem_children hn hc
      exact hused c m hm
  obtain ⟨r, hr, -⟩ := h.root_ok
  obtain ⟨d, hd, -⟩ := h.cwd_ok
  unfold relabel
  rw [hnodes, hused t.root r hr, hused t.cwd d hd]

/-- The permutation between two alike trees can be chosen such that it takes the next id of the one
to the next id of the other. -/
theorem Consistent.exists_relabel_pick (h : t.Consistent) (σ : Equiv.Perm NodeId)
    (ids ids' : IdSource) : ∃ τ : Equiv.Perm NodeId, t.relabel σ = t.relabel τ ∧
      τ (ids.pick t.ids) = ids'.pick (t.relabel τ).ids := by
  -- the two next ids are exchanged, neither of which stands for a node
  let τ := σ.trans (Equiv.swap (σ (ids.pick t.ids)) (ids'.pick (t.relabel σ).ids))
  have hsame : t.relabel σ = t.relabel τ := by
    apply h.relabel_congr
    intro id hid
    have hold : σ id ≠ σ (ids.pick t.ids) := by
      intro he
      rw [σ.injective he] at hid
      exact ids.pick_fresh t.ids hid
    have hold' : σ id ≠ ids'.pick (t.relabel σ).ids := by
      intro he
      have hmem : σ id ∈ (t.relabel σ).ids := by
        rw [ids_relabel]
        exact List.mem_map_of_mem hid
      rw [he] at hmem
      exact ids'.pick_fresh _ hmem
    exact (Equiv.swap_apply_of_ne_of_ne hold hold').symm
  refine ⟨τ, hsame, ?_⟩
  rw [← hsame]
  exact Equiv.swap_apply_left _ _

/-! ## New nodes -/

/-- A new node in a relabelled tree, if the permutation takes the new id to the new id. -/
theorem attach_relabel {σ : Equiv.Perm NodeId} (hnow : s'.now = s.now)
    (hpick : σ (s.ids.pick t.ids) = s'.ids.pick (t.relabel σ).ids) {content : Content}
    (hcontent : content.relabel σ = content) (parent : NodeId) (parentPath name : String)
    (readOnly : Bool) :
    ((t.relabel σ).attach s' (σ parent) parentPath name content readOnly).1 =
      (t.attach s parent parentPath name content readOnly).1.relabel σ := by
  have hlisted : (t.relabel σ).modifyNode (σ parent)
      (·.mapChildren (· ++ [σ (s.ids.pick t.ids)])) =
        (t.modifyNode parent (·.mapChildren (· ++ [s.ids.pick t.ids]))).relabel σ := by
    apply modifyNode_relabel
    intro n
    apply Node.mapChildren_relabel
    intro ids
    simp
  unfold attach
  dsimp only
  rw [← hpick, hlisted, hnow]
  generalize t.modifyNode parent (·.mapChildren (· ++ [s.ids.pick t.ids])) = listed
  unfold relabel
  dsimp only
  rw [← OrderedMap.insertNew_relabel]
  simp only [Node.relabel, Option.map_some, hcontent]

theorem relabel_of_leaf {content : Content}
    (h : content = .directory [] ∨ ∃ text, content = .file text) (σ : Equiv.Perm NodeId) :
    content.relabel σ = content := by
  rcases h with rfl | ⟨text, rfl⟩ <;> rfl

/-- A new node without children beneath the same directory of two alike trees. -/
theorem Alike.attach (h : t.Alike t') (hnow : s'.now = s.now) {d d' : Node} {path : String}
    (hd : t.lookup? path = some d) (hd' : t'.lookup? path = some d') {name : String}
    {content : Content} (hleaf : content = .directory [] ∨ ∃ text, content = .file text)
    {readOnly : Bool} (hcons : (t.attach s d.id path name content readOnly).1.Consistent) :
    (t.attach s d.id path name content readOnly).1.Alike
      (t'.attach s' d'.id path name content readOnly).1 := by
  obtain ⟨σ, rfl⟩ := h.relabelled
  obtain ⟨τ, hsame, hpick⟩ := h.consistent.exists_relabel_pick σ s.ids s'.ids
  rw [hsame] at hd' ⊢
  rw [lookup?_relabel, hd, Option.map_some, Option.some.injEq] at hd'
  subst hd'
  refine ⟨hcons, τ, ?_⟩
  exact attach_relabel hnow hpick (relabel_of_leaf hleaf τ) d.id path name readOnly

theorem likewise_createEntry (h : t.Alike t') (hnow : s'.now = s.now) {content : Content}
    (hleaf : content = .directory [] ∨ ∃ text, content = .file text) (name parent : String) :
    Likewise ((·.1) <$> t.createEntry s name parent content)
      ((·.1) <$> t'.createEntry s' name parent content) := by
  obtain ⟨σ, rfl⟩ := h.relabelled
  unfold createEntry
  rw [resolve_relabel]
  dsimp only
  rw [lookup?_relabel, lookup?_relabel, Option.isSome_map]
  cases hname : validName name with
  | false => exact .error _
  | true =>
    cases hd : t.lookup? (t.resolve parent) with
    | none => exact .error _
    | some d =>
      rw [Option.map_some]
      dsimp only
      rw [Node.relabel_isDirectory]
      cases hdir : d.isDirectory with
      | false => exact .error _
      | true =>
        cases hfree : (t.lookup? (Path.join (t.resolve parent) name)).isSome with
        | true => exact .error _
        | false =>
          have hok : t.createEntry s name parent content =
              .ok (t.attach s d.id (t.resolve parent) name content false) := by
            simp [createEntry, hname, hd, hdir, hfree]
          have hd' : (t.relabel σ).lookup? (t.resolve parent) = some (d.relabel σ) := by
            rw [lookup?_relabel, hd, Option.map_some]
          exact .ok (h.attach hnow hd hd' hleaf (h.consistent.createEntry hleaf hok))

theorem likewise_createAll (h : t.Alike t') (hclock : s'.clock = s.clock)
    (missing : List (String × String)) (i : Nat) :
    Likewise (t.createAll s i missing) (t'.createAll s' i missing) := by
  induction missing generalizing t t' i with
  | nil => exact .ok h
  | cons m missing ih =>
    rw [createAll_cons, createAll_cons]
    have hfirst : Likewise ((·.1) <$> t.createDirectory (s.turn i) m.2 m.1)
        ((·.1) <$> t'.createDirectory (s'.turn i) m.2 m.1) :=
      likewise_createEntry h (Supply.now_turn hclock i) (Or.inl rfl) m.2 m.1
    exact hfirst.bind fun u u' hu => ih hu (i + 1)

/-- What is missing on the way to a path does not depend on the ids. -/
theorem likewise_createPath (h : t.Alike t') (hclock : s'.clock = s.clock) (path : String) :
    Likewise (t.createPath s path) (t'.createPath s' path) := by
  have hmissing : t'.missingBelow "/" ((Path.segments (t'.resolve path)).filter (· ≠ "")) =
      t.missingBelow "/" ((Path.segments (t.resolve path)).filter (· ≠ "")) := by
    obtain ⟨σ, rfl⟩ := h.relabelled
    rw [resolve_relabel, missingBelow_relabel]
  unfold createPath
  dsimp only
  rw [hmissing]
  cases t.missingBelow "/" ((Path.segments (t.resolve path)).filter (· ≠ "")) with
  | error e => exact .error e
  | ok missing => exact likewise_createAll h hclock missing 0

/-! ## Changes -/

theorem likewise_changeDirectory (h : t.Alike t') (path : String) :
    Likewise (t.changeDirectory path) (t'.changeDirectory path) := by
  obtain ⟨σ, rfl⟩ := h.relabelled
  exact .of_relabel (fun u hu => h.consistent.changeDirectory hu) (changeDirectory_relabel path)

theorem likewise_delete (h : t.Alike t') (path : String) :
    Likewise ((·.1) <$> t.delete path) ((·.1) <$> t'.delete path) := by
  have hkept : ∀ u, (·.1) <$> t.delete path = .ok u → u.Consistent := by
    intro u hu
    obtain ⟨r, hr, rfl⟩ := Change.map_eq_ok hu
    exact h.consistent.delete hr
  obtain ⟨σ, rfl⟩ := h.relabelled
  apply Likewise.of_relabel hkept
  rw [delete_relabel]
  cases t.delete path <;> rfl

/-- A change is refused for two alike trees for one reason or leaves trees that are alike. -/
theorem Change.likewise_run (h : t.Alike t') (hclock : s'.clock = s.clock) (c : Change) :
    Likewise (c.run s t) (c.run s' t') := by
  have hnow : s'.now = s.now := Supply.now_eq hclock
  have hkept : ∀ u, c.run s t = .ok u → u.Consistent := by
    intro u hu
    exact consistent_of_run h.consistent hu
  obtain ⟨σ, hσ⟩ := h.relabelled
  cases c with
  | createFile name parent text =>
    exact likewise_createEntry h hnow (Or.inr ⟨text, rfl⟩) name parent
  | createDirectory name parent => exact likewise_createEntry h hnow (Or.inl rfl) name parent
  | createPath path => exact likewise_createPath h hclock path
  | changeDirectory path => exact likewise_changeDirectory h path
  | delete path => exact likewise_delete h path
  | rename path name =>
    subst hσ
    exact .of_relabel hkept (rename_relabel hnow path name)
  | move source dest =>
    subst hσ
    exact .of_relabel hkept (move_relabel hnow source dest)
  | moveAs source dest name =>
    subst hσ
    exact .of_relabel hkept (moveAs_relabel hnow source dest name)
  | write path text =>
    subst hσ
    exact .of_relabel hkept (write_relabel hnow path text)
  | touch path =>
    subst hσ
    exact .of_relabel hkept (touch_relabel hnow path)

/-! ## The starter layout -/

theorem alike_empty (hnow : s'.now = s.now) : (empty s).Alike (empty s') := by
  refine ⟨consistent_empty s, Equiv.swap (s.ids.pick []) (s'.ids.pick []), ?_⟩
  have hentries : ∀ (id : NodeId) (n : Node), (OrderedMap.ofList [(id, n)]).entries = [(id, n)] :=
    fun _ _ => rfl
  unfold empty relabel
  simp only [FileTree.mk.injEq, Equiv.swap_apply_left, and_self, and_true]
  apply OrderedMap.eq_of_entries_eq
  simp [OrderedMap.relabel, hentries, Node.relabel, Content.relabel, hnow]

end FileTree

namespace Seed

open FileTree

variable {t t' : FileTree} {s s' : Supply}

/-- Planting entries that find their parents keeps trees alike. -/
theorem alike_plantAll (hclock : s'.clock = s.clock) {known : List (String × Bool)}
    {entries : List Entry} (hgrows : grows known entries = true) (h : t.Alike t')
    (hshows : t.Shows known) (i : Nat) :
    (plantAll s i t entries).Alike (plantAll s' i t' entries) := by
  induction entries generalizing t t' known i with
  | nil => exact h
  | cons e rest ih =>
    obtain ⟨hparent, hname, hnew, hleaf, hrest⟩ := grows_cons.1 hgrows
    obtain ⟨d, hd, -, hplant⟩ := e.plant_eq_attach (s := s.turn i) h.consistent hshows hparent
    obtain ⟨hcons, hshows'⟩ :=
      Entry.plant_spec (s := s.turn i) h.consistent hshows hparent hname hnew hleaf
    have hplanted : (e.plant (s.turn i) t).Alike (e.plant (s'.turn i) t') := by
      obtain ⟨σ, rfl⟩ := h.relabelled
      have hfind : t.find? e.parent = some d := by
        obtain ⟨hnode, hpath⟩ := h.consistent.lookup?_eq_some.1 hd
        rw [find?, resolve, Path.resolve_of_normal (hpath ▸ h.consistent.normal_path hnode), hd]
      have hplant' : e.plant (s'.turn i) (t.relabel σ) = ((t.relabel σ).attach (s'.turn i)
          (d.relabel σ).id e.parent e.name e.content e.readOnly).1 := by
        rw [Entry.plant, find?_relabel, hfind, Option.map_some]
      have hd' : (t.relabel σ).lookup? e.parent = some (d.relabel σ) := by
        rw [lookup?_relabel, hd, Option.map_some]
      rw [hplant] at hcons ⊢
      rw [hplant']
      exact h.attach (Supply.now_turn hclock i) hd hd' (e.content_of_isLeaf hleaf) hcons
    exact ih hrest hplanted hshows' (i + 1)

end Seed

/-- The starter layouts of two id sources are alike. -/
theorem FileTree.alike_seed {s s' : Supply} (hclock : s'.clock = s.clock) :
    (seed s).Alike (seed s') := by
  have hempty : (empty s).Alike (empty s') := alike_empty (Supply.now_eq hclock)
  have hlaid : (Seed.laidOut s).Alike (Seed.laidOut s') :=
    Seed.alike_plantAll hclock Seed.grows_layout hempty (Seed.shows_empty s) 0
  refine ⟨consistent_seed s, ?_⟩
  obtain ⟨σ, hσ⟩ := hlaid.relabelled
  refine ⟨σ, ?_⟩
  unfold seed
  generalize ht : Seed.plantAll s 0 (empty s) Seed.layout = t
  generalize ht' : Seed.plantAll s' 0 (empty s') Seed.layout = t'
  rw [← Seed.laidOut] at ht ht'
  rw [ht, ht'] at hσ
  rw [hσ]
  dsimp only
  rw [find?_relabel]
  cases t.find? Path.home <;> rfl

end VirtualShell
