import VirtualShell.Proofs.Tree.Update
import VirtualShell.Tree.Seed

/-!
# The first trees

The tree that holds only its root and the starter layout are consistent. The layout is planted
entry by entry; `Shows` keeps account of the paths that are there so far, and `grows` says of a list
of entries that each finds its parent and a free name. Whatever ids the supply gives, this depends
on the texts of the layout alone and is decided once.
-/

namespace VirtualShell

namespace FileTree

variable {t : FileTree} {s : Supply}

theorem node?_empty (s : Supply) (id : NodeId) : (empty s).node? id =
    if id = s.ids.pick [] then some {
      id := s.ids.pick [], name := "", path := "/", parent := none, content := .directory [],
      metadata := .forContent (.directory []) s.now, readOnly := false } else none := by
  rw [node?, empty, OrderedMap.ofList, List.foldl_cons, List.foldl_nil, OrderedMap.get?_insert,
    OrderedMap.get?_empty]

/-- The tree that holds only its root is consistent. -/
theorem consistent_empty (s : Supply) : (empty s).Consistent := by
  have hnode : ∀ id n, (empty s).node? id = some n → id = (empty s).root ∧ n.id = id ∧
      n.parent = none ∧ n.children = [] := by
    intro id n hn
    rw [node?_empty] at hn
    split at hn
    · next hid => cases hn; exact ⟨hid, hid.symm, rfl, rfl⟩
    · cases hn
  have hroot := node?_empty s (s.ids.pick [])
  rw [if_pos rfl] at hroot
  refine consistent_of_links ?_ ⟨_, hroot, rfl, rfl, rfl⟩ ?_ ?_ ?_ ?_ ⟨_, hroot, rfl⟩
  · intro id n hn
    exact (hnode id n hn).2.1
  · intro id n hn hne
    exact absurd (hnode id n hn).1 hne
  · intro id n hn
    rw [(hnode id n hn).2.2.2]
    exact List.nodup_nil
  · intro id n hn _ c
    rw [(hnode id n hn).2.2.2]
    refine iff_of_false List.not_mem_nil ?_
    rintro ⟨m, hm, hp⟩
    rw [(hnode c m hm).2.2.1] at hp
    cases hp
  · intro a m b m' hm _ _ hp
    exact absurd (hnode a m hm).2.2.1 hp

/-- The paths at which a tree holds nodes, each with whether it is a directory. -/
def Shows (t : FileTree) (known : List (String × Bool)) : Prop :=
  ∀ path dir, (path, dir) ∈ known ↔ ∃ n, t.lookup? path = some n ∧ n.isDirectory = dir

end FileTree

namespace Seed

open FileTree

variable {t : FileTree} {s : Supply}

/-- The path of an entry with whether it is a directory. -/
def Entry.place (e : Entry) : String × Bool :=
  (Path.join e.parent e.name, e.content == .directory [])

/-- What an entry holds has no children yet. -/
def Entry.isLeaf (e : Entry) : Bool :=
  match e.content with
  | .file _ => true
  | .directory ids => ids.isEmpty

/-- Every entry of a list finds its parent among what is known and those before it, and its path is
new. -/
def grows (known : List (String × Bool)) : List Entry → Bool
  | [] => true
  | e :: rest => known.contains (e.parent, true) && validName e.name &&
      !(known.map Prod.fst).contains e.place.1 && e.isLeaf && grows (known ++ [e.place]) rest

theorem grows_cons {known : List (String × Bool)} {e : Entry} {rest : List Entry} :
    grows known (e :: rest) = true ↔ (e.parent, true) ∈ known ∧ validName e.name = true ∧
      e.place.1 ∉ known.map Prod.fst ∧ e.isLeaf = true ∧ grows (known ++ [e.place]) rest = true := by
  simp only [grows, Bool.and_eq_true, Bool.not_eq_true', List.contains_eq_mem,
    decide_eq_true_eq, decide_eq_false_iff_not, and_assoc]

theorem Entry.content_of_isLeaf {e : Entry} (h : e.isLeaf = true) :
    e.content = .directory [] ∨ ∃ text, e.content = .file text := by
  unfold Entry.isLeaf at h
  split at h
  · next text hc => exact Or.inr ⟨text, hc⟩
  · next ids hc => exact Or.inl (by rw [hc, List.isEmpty_iff.1 h])

/-- An entry whose parent is known is put beneath the directory at the parent's path. -/
theorem Entry.plant_eq_attach (h : t.Consistent) {known : List (String × Bool)}
    (hshows : t.Shows known) {e : Entry} (hparent : (e.parent, true) ∈ known) :
    ∃ d, t.lookup? e.parent = some d ∧ d.isDirectory = true ∧
      e.plant s t = (t.attach s d.id e.parent e.name e.content e.readOnly).1 := by
  obtain ⟨d, hd, hdir⟩ := (hshows _ _).1 hparent
  obtain ⟨hnode, hpath⟩ := h.lookup?_eq_some.1 hd
  refine ⟨d, hd, hdir, ?_⟩
  rw [Entry.plant, find?, resolve, Path.resolve_of_normal (hpath ▸ h.normal_path hnode), hd]

/-- Planting an entry that finds its parent keeps the tree consistent and adds its path. -/
theorem Entry.plant_spec (h : t.Consistent) {known : List (String × Bool)}
    (hshows : t.Shows known) {e : Entry} (hparent : (e.parent, true) ∈ known)
    (hname : validName e.name = true) (hnew : e.place.1 ∉ known.map Prod.fst)
    (hleaf : e.isLeaf = true) :
    (e.plant s t).Consistent ∧ (e.plant s t).Shows (known ++ [e.place]) := by
  obtain ⟨d, hd, hdir, hplant⟩ := e.plant_eq_attach (s := s) h hshows hparent
  obtain ⟨hnode, hpath⟩ := h.lookup?_eq_some.1 hd
  have hfree : t.lookup? (Path.join e.parent e.name) = none := by
    cases hl : t.lookup? (Path.join e.parent e.name) with
    | none => rfl
    | some n =>
      have hmem := (hshows _ n.isDirectory).2 ⟨n, hl, rfl⟩
      exact absurd (List.mem_map.2 ⟨_, hmem, rfl⟩) hnew
  have hcons : (e.plant s t).Consistent := by
    rw [hplant, ← hpath]
    rw [← hpath] at hfree
    exact consistent_attach h s hnode hdir hname hfree (e.content_of_isLeaf hleaf) e.readOnly
  refine ⟨hcons, fun path dir => ?_⟩
  rw [List.mem_append, List.mem_singleton, hshows, hplant, lookup?_attach h (hplant ▸ hcons)]
  have hkind : (t.attach s d.id e.parent e.name e.content e.readOnly).2.isDirectory =
      (e.content == .directory []) := by
    rcases e.content_of_isLeaf hleaf with hc | ⟨text, hc⟩ <;> rw [hc] <;> rfl
  split
  · next hp =>
    rw [hp, hfree, Entry.place, ← hkind, Prod.mk.injEq]
    simp [eq_comm]
  · next hp =>
    have hne : (path, dir) ≠ e.place := by
      intro he
      exact hp (congrArg Prod.fst he)
    simp [hne]

theorem shows_plantAll {known : List (String × Bool)} {entries : List Entry}
    (hgrows : grows known entries = true) (h : t.Consistent) (hshows : t.Shows known) (i : Nat) :
    (plantAll s i t entries).Consistent ∧
      (plantAll s i t entries).Shows (known ++ entries.map Entry.place) := by
  induction entries generalizing t known i with
  | nil => exact ⟨h, by simpa [plantAll] using hshows⟩
  | cons e rest ih =>
    obtain ⟨hparent, hname, hnew, hleaf, hrest⟩ := grows_cons.1 hgrows
    obtain ⟨hcons, hshows'⟩ := Entry.plant_spec (s := s.turn i) h hshows hparent hname hnew hleaf
    obtain ⟨hcons', hshows''⟩ := ih hrest hcons hshows' (i + 1)
    refine ⟨hcons', ?_⟩
    simpa [plantAll] using hshows''

/-- An entry is there: at its path, with its flag and, if it is a file, with its text. -/
def Entry.Planted (e : Entry) (t : FileTree) : Prop :=
  ∃ n, t.lookup? e.place.1 = some n ∧ n.readOnly = e.readOnly ∧
    ∀ text, e.content = .file text → n.content = .file text

theorem Entry.Planted.setCwd {e : Entry} (he : e.Planted t) (id : NodeId) :
    e.Planted { t with cwd := id } := he

/-- What was planted stays when an entry with another path is planted. -/
theorem Entry.Planted.plant {e e' : Entry} {d : Node} (he : e.Planted t) (h : t.Consistent)
    (hplant : e'.plant s t = (t.attach s d.id e'.parent e'.name e'.content e'.readOnly).1)
    (hcons : (e'.plant s t).Consistent) (hne : e.place.1 ≠ e'.place.1) :
    e.Planted (e'.plant s t) := by
  obtain ⟨n, hn, hro, htext⟩ := he
  rw [hplant] at hcons ⊢
  rw [Entry.place.eq_def e'] at hne
  refine ⟨Node.relist d.id (· ++ [s.ids.pick t.ids]) n.id n, ?_, ?_, fun text hc => ?_⟩
  · rw [lookup?_attach h hcons, if_neg hne, hn, Option.map_some]
  · rw [Node.relist_readOnly, hro]
  · rw [Node.relist_of_isFile (htext text hc), htext text hc]

/-- Planting one entry after another leaves them all there. -/
theorem planted_plantAll {known : List (String × Bool)} {entries : List Entry}
    (hgrows : grows known entries = true) (h : t.Consistent) (hshows : t.Shows known) (i : Nat) :
    (∀ e : Entry, e.place ∈ known → e.Planted t → e.Planted (plantAll s i t entries)) ∧
      ∀ e ∈ entries, e.Planted (plantAll s i t entries) := by
  induction entries generalizing t known i with
  | nil => exact ⟨fun e _ he => he, by simp⟩
  | cons e' rest ih =>
    obtain ⟨hparent, hname, hnew, hleaf, hrest⟩ := grows_cons.1 hgrows
    obtain ⟨d, -, -, hplant⟩ := e'.plant_eq_attach (s := s.turn i) h hshows hparent
    obtain ⟨hcons, hshows'⟩ := Entry.plant_spec (s := s.turn i) h hshows hparent hname hnew hleaf
    obtain ⟨hold, hlater⟩ := ih hrest hcons hshows' (i + 1)
    have hself : e'.Planted (e'.plant (s.turn i) t) := by
      refine ⟨(t.attach (s.turn i) d.id e'.parent e'.name e'.content e'.readOnly).2, ?_, rfl,
        fun _ hc => hc⟩
      rw [hplant] at hcons ⊢
      rw [lookup?_attach h hcons]
      exact if_pos rfl
    refine ⟨fun e hknown he => ?_, fun e he => ?_⟩
    · refine hold e (List.mem_append_left _ hknown) (he.plant h hplant hcons fun hpath => ?_)
      exact hnew (hpath ▸ List.mem_map.2 ⟨e.place, hknown, rfl⟩)
    · rcases List.mem_cons.1 he with rfl | he
      · exact hold e (List.mem_append_right _ List.mem_cons_self) hself
      · exact hlater e he

theorem shows_empty (s : Supply) : (empty s).Shows [("/", true)] := by
  intro path dir
  rw [List.mem_singleton, Prod.mk.injEq]
  obtain ⟨r, hr, -, hrootPath, hdir⟩ := (consistent_empty s).root_ok
  have hid := (consistent_empty s).key_eq_id _ _ hr
  constructor
  · rintro ⟨rfl, rfl⟩
    exact ⟨r, (consistent_empty s).lookup?_eq_some.2 ⟨by rw [hid, hr], hrootPath⟩, hdir⟩
  · rintro ⟨n, hn, rfl⟩
    obtain ⟨hnode, rfl⟩ := (consistent_empty s).lookup?_eq_some.1 hn
    have hnr : n = r := by
      have hroot := node?_empty s n.id
      rw [hnode] at hroot
      split at hroot
      · next he =>
        have : (empty s).root = n.id := he.symm
        rw [this, hnode, Option.some.injEq] at hr
        exact hr
      · cases hroot
    exact ⟨by rw [hnr, hrootPath], by rw [hnr, hdir]⟩

/-- The starter layout before a directory becomes the current one. -/
def laidOut (s : Supply) : FileTree := plantAll s 0 (empty s) layout

theorem grows_layout : grows [("/", true)] layout = true := by decide

theorem home_mem_layout : (Path.home, true) ∈ [("/", true)] ++ layout.map Entry.place := by
  decide

theorem laidOut_spec (s : Supply) :
    (laidOut s).Consistent ∧ (laidOut s).Shows ([("/", true)] ++ layout.map Entry.place) :=
  shows_plantAll grows_layout (consistent_empty s) (shows_empty s) 0

end Seed

/-- The starter layout with the home directory as the current one. -/
theorem FileTree.seed_eq (s : Supply) : ∃ home, (Seed.laidOut s).node? home.id = some home ∧
    home.isDirectory = true ∧ seed s = { Seed.laidOut s with cwd := home.id } := by
  obtain ⟨hcons, hshows⟩ := Seed.laidOut_spec s
  obtain ⟨home, hhome, hdir⟩ := (hshows Path.home true).1 Seed.home_mem_layout
  refine ⟨home, (hcons.lookup?_eq_some.1 hhome).1, hdir, ?_⟩
  have hfind : (Seed.laidOut s).find? Path.home = some home := by
    rw [find?, resolve, Path.resolve_of_normal Path.normal_home, hhome]
  unfold seed
  generalize hlaid : Seed.plantAll s 0 (empty s) Seed.layout = t
  rw [← Seed.laidOut] at hlaid
  rw [hlaid] at hfind ⊢
  simp only [hfind]

/-- The starter layout is consistent. -/
theorem FileTree.consistent_seed (s : Supply) : (seed s).Consistent := by
  obtain ⟨home, hhome, hdir, hseed⟩ := seed_eq s
  rw [hseed]
  exact (Seed.laidOut_spec s).1.setCwd hhome hdir

/-- Every entry of the layout is there. -/
theorem FileTree.planted_seed (s : Supply) {e : Seed.Entry} (he : e ∈ Seed.layout) :
    e.Planted (seed s) := by
  obtain ⟨home, -, -, hseed⟩ := seed_eq s
  have hplanted : e.Planted (Seed.laidOut s) :=
    (Seed.planted_plantAll Seed.grows_layout (consistent_empty s) (Seed.shows_empty s) 0).2 e he
  rw [hseed]
  exact hplanted.setCwd home.id

end VirtualShell
