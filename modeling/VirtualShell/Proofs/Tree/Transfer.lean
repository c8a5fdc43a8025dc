import VirtualShell.Proofs.Tree.Mutation
import VirtualShell.Proofs.Tree.Region
import VirtualShell.Proofs.Tree.Walk

/-!
# Moving a subtree to another place

`moveAs` gives new paths to what it finds along the lists of children, by cutting off the old front
of each path. Told by paths, it succeeds in just the cases in which the node below the root, the name
and the directory allow it (`Consistent.moveAs_eq_ok_iff`), and then what extended the old path
extends the new one in the same way, while all other nodes keep their paths (`transferred_of_moveAs`).
A text is read at the new path as it was at the old one.
-/

namespace VirtualShell

open Calendar

namespace FileTree

variable {t t' : FileTree} {s : Supply}

/-! ## What a move makes of a tree -/

/-- A node before and after the node `top` at `src` has got the path `new` and the last name of it. -/
structure MovedNode (src new name : String) (top oldParent newParent : NodeId) (now : Instant)
    (m m' : Node) : Prop where
  id_eq : m'.id = m.id
  path_of_tail : ∀ rest, Path.IsTail rest → m.path = src ++ rest → m'.path = new ++ rest
  path_eq : ¬ Path.Extends m.path src → m'.path = m.path
  /-- The moved node alone has another name, parent and time of modification. -/
  place_of_top : m.id = top → m'.name = name ∧ m'.parent = some newParent ∧
    m'.metadata = { m.metadata with modified := now }
  place_eq : m.id ≠ top → m'.name = m.name ∧ m'.parent = m.parent ∧ m'.metadata = m.metadata
  /-- Both directories list it anew, if they are different. -/
  content_eq : m'.content =
    if oldParent = newParent then m.content
    else if m.id = oldParent then .directory (m.children.erase top)
    else if m.id = newParent then .directory (m.children ++ [top])
    else m.content
  readOnly_eq : m'.readOnly = m.readOnly

/-- A tree before and after the node `top`, a child of `old`, was moved into the directory `d`. -/
structure Transferred (t : FileTree) (now : Instant) (top old d : Node) (name : String)
    (t' : FileTree) : Prop where
  ids_eq : t'.ids = t.ids
  root_eq : t'.root = t.root
  cwd_eq : t'.cwd = t.cwd
  listed_once : old.children.count top.id = 1
  moved : ∀ id m, t.node? id = some m → ∃ m', t'.node? id = some m' ∧
    MovedNode top.path (Path.join d.path name) name top.id old.id d.id now m m'

@[simp] theorem ids_relocate (t : FileTree) (now : Instant) (id oldParent newParent : NodeId)
    (oldPath newPath name : String) :
    (t.relocate now id oldParent newParent oldPath newPath name).ids = t.ids := by
  unfold relocate
  dsimp only
  split_ifs
  · exact OrderedMap.keys_mapValues _ _
  · rw [ids, OrderedMap.keys_mapValues]
    exact (ids_modifyNode _ _ _).trans (ids_modifyNode _ _ _)

theorem rebase_append (old new rest : String) : rebase old new (old ++ rest) = new ++ rest := by
  apply String.toList_injective
  rw [toList_rebase String.toList_append, String.toList_append]

namespace Consistent

variable (h : t.Consistent)
include h

/-- The two directories of a move list the moved node anew. -/
theorem relisted_content {id : NodeId} {n old d m : Node} {x : NodeId} (hn : t.node? id = some n)
    (hold : t.node? old.id = some old) (hp : n.parent = some old.id)
    (hd : t.node? d.id = some d) (hdir : d.isDirectory = true) (hm : t.node? x = some m) :
    (relisted id old.id d.id x m).content =
      if old.id = d.id then m.content
      else if x = old.id then .directory (m.children.erase id)
      else if x = d.id then .directory (m.children ++ [id])
      else m.content := by
  unfold relisted
  split
  · rfl
  · next hne =>
    by_cases hxold : x = old.id
    · subst hxold
      rw [hold, Option.some.injEq] at hm
      subst hm
      obtain ⟨old', hold', hodir, -⟩ := h.parent_spec hn hp
      rw [hold, Option.some.injEq] at hold'
      subst hold'
      rw [if_pos rfl, Node.relist_of_ne hne, Node.relist_self,
        Node.mapChildren_of_isDirectory hodir, (h.children_nodup _ _ hold).erase_eq_filter]
      simp [bne, beq_eq_decide]
    · rw [if_neg hxold, Node.relist_of_ne hxold]
      by_cases hxd : x = d.id
      · subst hxd
        rw [hd, Option.some.injEq] at hm
        subst hm
        rw [if_pos rfl, Node.relist_self, Node.mapChildren_of_isDirectory hdir]
      · rw [if_neg hxd, Node.relist_of_ne hxd]

/-- A node after a move. The subtree that is moved is told by the paths that extend its own. -/
theorem movedNode_relocated {top old d m : Node} {name : String} {now : Instant} {x : NodeId}
    (hn : t.node? top.id = some top) (hold : t.node? old.id = some old)
    (hp : top.parent = some old.id) (hd : t.node? d.id = some d) (hdir : d.isDirectory = true)
    (hout : ¬ t.Reaches top.id d.id) (hm : t.node? x = some m) :
    MovedNode top.path (Path.join d.path name) name top.id old.id d.id now m
      (t.relocated now top.id old.id d.id top.path (Path.join d.path name) name x m) := by
  have hne := h.root_ne_of_parent hn hp
  have hid := h.key_eq_id x m hm
  have hin := h.mem_subtree_iff_extends hn hne hm
  have hpath : (t.relocated now top.id old.id d.id top.path (Path.join d.path name) name x m).path =
      if x ∈ t.subtree top.id then rebase top.path (Path.join d.path name) m.path else m.path :=
    relocated_path_of_consistent h hn hp hout
  refine ⟨relocated_id, ?_, ?_, ?_, ?_, ?_, relocated_readOnly⟩
  · intro rest hrest hmpath
    have hext : Path.Extends m.path top.path :=
      Path.extends_iff_exists_tail.2 ⟨rest, hrest, hmpath⟩
    rw [hpath, if_pos (hin.2 hext), hmpath, rebase_append]
  · intro hext
    rw [hpath, if_neg (mt hin.1 hext)]
  · intro htop
    rw [relocated_name, relocated_parent, relocated_metadata, ← hid]
    simp only [if_pos htop, and_self]
  · intro htop
    rw [relocated_name, relocated_parent, relocated_metadata, ← hid]
    simp only [if_neg htop, and_self]
  · rw [relocated_content, h.relisted_content hn hold hp hd hdir hm, hid]

/-- A move is refused in no other case than those that are named. -/
theorem moveAs_eq_ok_iff {source dest name : String} :
    (∃ t', t.moveAs s source dest name = .ok t') ↔
      ∃ top d, t.lookup? (t.resolve source) = some top ∧ top.id ≠ t.root ∧ top.readOnly = false ∧
        validName name = true ∧ t.lookup? (t.resolve dest) = some d ∧ d.isDirectory = true ∧
        ¬ Path.Extends (t.resolve dest) (t.resolve source) ∧
        t.lookup? (Path.join (t.resolve dest) name) = none := by
  have hwithin : ∀ {top d : Node}, t.lookup? (t.resolve source) = some top → top.id ≠ t.root →
      t.lookup? (t.resolve dest) = some d →
      (Path.isWithin (t.resolve dest) (t.resolve source) = true ↔
        Path.Extends (t.resolve dest) (t.resolve source)) := by
    intro top d htop hne hd
    obtain ⟨hn, hpath⟩ := h.lookup?_eq_some.1 htop
    obtain ⟨hdn, hdpath⟩ := h.lookup?_eq_some.1 hd
    rw [← hpath, ← hdpath]
    exact Path.isWithin_iff_extends (h.head?_path hdn) (h.path_ne_root hn hne)
  constructor
  · rintro ⟨t', hmove⟩
    obtain ⟨top, oldParent, d, htop, hp, hro, hname, hd, hdir, hout, hfree, -⟩ := moveAs_eq_ok hmove
    have hne := h.root_ne_of_parent (h.lookup?_eq_some.1 htop).1 hp
    refine ⟨top, d, htop, hne, hro, hname, hd, hdir, ?_, hfree⟩
    rw [← hwithin htop hne hd, hout]
    simp
  · rintro ⟨top, d, htop, hne, hro, hname, hd, hdir, hout, hfree⟩
    obtain ⟨oldParent, hp⟩ := h.parent_of_ne_root (h.lookup?_eq_some.1 htop).1 hne
    have hnot : Path.isWithin (t.resolve dest) (t.resolve source) = false := by
      rw [← Bool.not_eq_true, hwithin htop hne hd]
      exact hout
    refine ⟨t.relocate s.now top.id oldParent d.id (t.resolve source)
      (Path.join (t.resolve dest) name) name, ?_⟩
    simp [FileTree.moveAs, htop, hp, hro, hname, hd, hdir, hnot, hfree]

/-- The text of a file is read at its path. -/
theorem read_path {id : NodeId} {n : Node} {text : String} (hn : t.node? id = some n)
    (htext : n.content = .file text) : t.read n.path = .ok text := by
  simp only [FileTree.read, h.find?_path hn, htext]

theorem transferred_relocate {top old d : Node} {name : String} (hn : t.node? top.id = some top)
    (hold : t.node? old.id = some old) (hp : top.parent = some old.id)
    (hd : t.node? d.id = some d) (hdir : d.isDirectory = true) (hout : ¬ t.Reaches top.id d.id) :
    t.Transferred s.now top old d name (t.relocate s.now top.id old.id d.id top.path
      (Path.join d.path name) name) := by
  obtain ⟨old', hold', -, hmem, -⟩ := h.parent_spec hn hp
  rw [hold, Option.some.injEq] at hold'
  subst hold'
  refine ⟨ids_relocate _ _ _ _ _ _ _ _, root_relocate _ _ _ _ _ _ _ _, cwd_relocate _ _ _ _ _ _ _ _,
    List.count_eq_one_of_mem (h.children_nodup _ _ hold) hmem, fun x m hm => ?_⟩
  refine ⟨_, by rw [node?_relocate, hm, Option.map_some], ?_⟩
  exact h.movedNode_relocated hn hold hp hd hdir hout hm

end Consistent

/-- A move that is not refused, with what it was given and what it gave. -/
theorem Consistent.exists_transferred (h : t.Consistent) {source dest name : String}
    (hmove : t.moveAs s source dest name = .ok t') :
    ∃ top old d, t.lookup? (t.resolve source) = some top ∧
      t.lookup? (t.resolve dest) = some d ∧ d.isDirectory = true ∧
      ¬ Path.Extends d.path top.path ∧ t.lookup? (Path.join (t.resolve dest) name) = none ∧
      t.Transferred s.now top old d name t' := by
  obtain ⟨top, oldId, d, htop, hp, -, -, hd, hdir, hwithin, hfree, ht'⟩ := moveAs_eq_ok hmove
  obtain ⟨htopnode, htoppath⟩ := h.lookup?_eq_some.1 htop
  obtain ⟨hdnode, hdpath⟩ := h.lookup?_eq_some.1 hd
  obtain ⟨old, hold, -⟩ := h.parent_spec htopnode hp
  obtain rfl := h.key_eq_id _ _ hold
  have hne := h.root_ne_of_parent htopnode hp
  have hout : ¬ Path.Extends d.path top.path := by
    rw [← Path.isWithin_iff_extends (h.head?_path hdnode) (h.path_ne_root htopnode hne), hdpath,
      htoppath, hwithin]
    exact Bool.false_ne_true
  refine ⟨top, old, d, htop, hd, hdir, hout, hfree, ?_⟩
  rw [ht', ← htoppath, ← hdpath]
  exact h.transferred_relocate htopnode hold hp hdnode hdir
    (mt (h.reaches_iff_extends htopnode hne hdnode).1 hout)

/-- A file is read at its new path as it was at the old one: neither directory of the move is a
file. -/
theorem Transferred.read_eq (h : t.Consistent) (h' : t'.Consistent) {now : Instant}
    {top old d m : Node} {name rest : String} (hmoved : t.Transferred now top old d name t')
    (hold : t.node? old.id = some old) (hodir : old.isDirectory = true)
    (hd : t.node? d.id = some d) (hdir : d.isDirectory = true) (hrest : Path.IsTail rest)
    (hm : t.lookup? (top.path ++ rest) = some m) (hfile : m.isFile = true) :
    t'.read (Path.join d.path name ++ rest) = t.read (top.path ++ rest) := by
  obtain ⟨hn, hpath⟩ := h.lookup?_eq_some.1 hm
  obtain ⟨m', hm', hnode⟩ := hmoved.moved m.id m hn
  have hne : ∀ e : Node, t.node? e.id = some e → e.isDirectory = true → m.id ≠ e.id := by
    intro e he hedir hid
    rw [hid, he, Option.some.injEq] at hn
    exact Node.not_isDirectory_of_isFile hfile (hn ▸ hedir)
  have hcontent : m'.content = m.content := by
    rw [hnode.content_eq, if_neg (hne old hold hodir), if_neg (hne d hd hdir), ite_self]
  obtain ⟨text, htext⟩ : ∃ text, m.content = .file text := by
    cases hc : m.content with
    | file text => exact ⟨text, rfl⟩
    | directory ids => simp [Node.isFile, Node.isDirectory, hc] at hfile
  rw [← hnode.path_of_tail rest hrest hpath, ← hpath, h'.read_path hm' (hcontent.trans htext),
    h.read_path hn htext]

/-- A move succeeds if the source is that of a node below the root that is not read-only, the name
can stand in a path and is free in the directory, and this directory is not at or beneath the source.
Then what was at or beneath the source is at or beneath the new path, and its texts are read there. -/
theorem transferred_of_moveAs (h : t.Consistent) (s : Supply) (source dest name : String) :
    let src := t.resolve source
    let dst := t.resolve dest
    ((∃ t', t.moveAs s source dest name = .ok t') ↔
      ∃ top d, t.lookup? src = some top ∧ top.id ≠ t.root ∧ top.readOnly = false ∧
        validName name = true ∧ t.lookup? dst = some d ∧ d.isDirectory = true ∧
        ¬ Path.Extends dst src ∧ t.lookup? (Path.join dst name) = none) ∧
    ∀ t', t.moveAs s source dest name = .ok t' →
      (∃ top old d, t.lookup? src = some top ∧ t.node? old.id = some old ∧
        top.parent = some old.id ∧ t.lookup? dst = some d ∧
        t.Transferred s.now top old d name t') ∧
      ∀ rest m, Path.IsTail rest → t.lookup? (src ++ rest) = some m → m.isFile = true →
        t'.read (Path.join dst name ++ rest) = t.read (src ++ rest) := by
  dsimp only
  refine ⟨h.moveAs_eq_ok_iff, fun t' hmove => ?_⟩
  have h' := h.moveAs hmove
  obtain ⟨top, oldParent, d, htop, hp, -, -, hd, hdir, hwithin, -, ht'⟩ := moveAs_eq_ok hmove
  obtain ⟨hn, hpath⟩ := h.lookup?_eq_some.1 htop
  obtain ⟨hdn, hdpath⟩ := h.lookup?_eq_some.1 hd
  obtain ⟨old, hold, hodir, -⟩ := h.parent_spec hn hp
  have hid := h.key_eq_id _ _ hold
  subst hid
  have hout : ¬ t.Reaches top.id d.id := by
    intro hr
    have hin := h.isWithin_of_reaches hr hn hdn
    rw [hdpath, hpath, hwithin] at hin
    cases hin
  have hmoved : t.Transferred s.now top old d name t' := by
    rw [ht', ← hpath, ← hdpath]
    exact h.transferred_relocate hn hold hp hdn hdir hout
  refine ⟨⟨top, old, d, htop, hold, hp, hd, hmoved⟩, fun rest m hrest hm hfile => ?_⟩
  rw [← hpath] at hm ⊢
  rw [← hdpath]
  exact hmoved.read_eq h h' hold hodir hdn hdir hrest hm hfile

/-- In the starter layout the directory of the log moves to `/tmp/log`, and the log is read there. -/
theorem transferred_of_moveAs_logs :
    let s : Supply := ⟨.still ⟨0, 0⟩, .counting⟩
    let t := seed s
    t.Consistent ∧ Path.IsTail "/system.log" ∧
      ∃ t', t.moveAs s "/data/logs" "/tmp" "log" = .ok t' ∧
        (t'.read "/tmp/log/system.log").toOption = some Seed.logText := by
  intro s t
  have h : t.Consistent := consistent_seed s
  have htail : Path.IsTail "/system.log" := Or.inr (by decide)
  have hsrc : t.resolve "/data/logs" = "/data/logs" := by decide
  have hdst : t.resolve "/tmp" = "/tmp" := by decide
  have hlog : (t.lookup? "/data/logs/system.log").map Node.isFile = some true := by decide
  have htext : (t.read "/data/logs/system.log").toOption = some Seed.logText := by decide
  have hok : (t.moveAs s "/data/logs" "/tmp" "log").toOption.isSome = true := by decide
  obtain ⟨m, hm, hfile⟩ := Option.map_eq_some_iff.1 hlog
  cases hmove : t.moveAs s "/data/logs" "/tmp" "log" with
  | error e =>
    rw [hmove] at hok
    cases hok
  | ok t' =>
    have hread := ((transferred_of_moveAs h s "/data/logs" "/tmp" "log").2 t' hmove).2
      "/system.log" m htail (by rw [hsrc]; exact hm) hfile
    rw [hsrc, hdst] at hread
    exact ⟨h, htail, t', rfl, (congrArg Except.toOption hread).trans htext⟩

end FileTree

end VirtualShell
