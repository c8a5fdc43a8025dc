import VirtualShell.InPlace
import VirtualShell.Proofs.Tree.Evolution
import VirtualShell.Tree.Fresh

/-!
# What work in place does

Work in place answers like the operation that it stands for: on success it leaves the new tree, on a
refusal the old one (`Change.run_work`). For most operations all checks come before the first write,
and this holds on any tree. Taking out nodes one by one comes to the same as taking out all at once,
and new paths written one by one to the same as all at once, as no node of a subtree is met twice
(`Work.run_delete`, `Work.run_relocate`). That creating a path is never refused half way holds of
consistent trees only (`Work.run_createPath`).
-/

namespace VirtualShell

/-! ## Removing and changing keys one by one -/

namespace OrderedMap

variable {κ ν : Type} [DecidableEq κ]

theorem foldl_erase (m : OrderedMap κ ν) (ks : List κ) :
    ks.foldl erase m = m.filterKeys fun k => !ks.contains k := by
  apply eq_of_entries_eq
  induction ks generalizing m with
  | nil => simp [filterKeys]
  | cons k ks ih =>
    rw [List.foldl_cons, ih]
    simp only [erase, filterKeys, List.filter_filter]
    refine List.filter_congr fun e _ => ?_
    by_cases hk : e.1 = k <;> simp [hk]

/-- Keys that are changed one after another are changed at once if none of them comes twice. -/
theorem foldl_modify (m : OrderedMap κ ν) (f : ν → ν) {ks : List κ} (hks : ks.Nodup) :
    ks.foldl (fun m k => m.modify k f) m = m.mapValues fun k v => if ks.contains k then f v else v := by
  apply eq_of_entries_eq
  induction ks generalizing m with
  | nil => simp [mapValues]
  | cons k ks ih =>
    obtain ⟨hk, hrest⟩ := List.nodup_cons.1 hks
    rw [List.foldl_cons, ih _ hrest]
    simp only [modify, mapValues, List.map_map]
    refine List.map_congr_left fun e _ => ?_
    by_cases he : e.1 = k
    · simp [he, hk]
    · simp [he]

theorem mapValues_modify (m : OrderedMap κ ν) (k : κ) (f : ν → ν) (g : κ → ν → ν) :
    (m.modify k f).mapValues g = m.mapValues fun j v => g j (if j = k then f v else v) := by
  apply eq_of_entries_eq
  simp [modify, mapValues]

end OrderedMap

/-- What work in place does when it answers like a given result, of which `view` tells the new state
and the value: it leaves the new state, or the old one. -/
def settle {ε σ α ρ : Type} (view : ρ → σ × α) (s : σ) : Except ε ρ → EStateM.Result ε σ α
  | .ok r => .ok (view r).2 (view r).1
  | .error e => .error e s

section Settle

variable {ε σ α ρ : Type} {view : ρ → σ × α} {s s' : σ} {r : Except ε ρ} {e : ε}

theorem settle_eq_error (h : settle view s r = .error e s') : s' = s ∧ r = .error e := by
  cases r with
  | ok a => cases h
  | error e' =>
    cases h
    exact ⟨rfl, rfl⟩

end Settle

/-- Writes for every entry of a list, one after another. -/
theorem run_forM_modify {ε σ β : Type} (xs : List β) (f : β → σ → σ) (s : σ) :
    (xs.forM fun x => modify (f x) : EStateM ε σ PUnit).run s =
      .ok ⟨⟩ (xs.foldl (fun s x => f x s) s) := by
  induction xs generalizing s with
  | nil => rfl
  | cons x xs ih => exact ih (f x s)

namespace FileTree

variable {t : FileTree} {s : Supply} {α ρ : Type} {view : ρ → FileTree × α}

namespace Work

/-! ## Checks

Each check of the work is one of the operation, so that the two need to be compared only where the
check is passed. -/

-- not by `rfl`, so that `simp` leaves no large term for the kernel to compare
theorem run_get_bind (f : FileTree → Work α) : (get >>= f).run t = (f t).run t := by
  rw [EStateM.run_bind, EStateM.run_get]

theorem run_node_bind {path : String} {f : Node → Work α} {r : Node → Except TreeError ρ}
    (hsome : ∀ n, t.lookup? path = some n → (f n).run t = settle view t (r n)) :
    (node path >>= f).run t = settle view t (match t.lookup? path with
      | none => .error (.notFound path)
      | some n => r n) := by
  rw [EStateM.run_bind, node, run_get_bind]
  cases hl : t.lookup? path with
  | none => rfl
  | some n => exact hsome n hl

theorem run_parentOf_bind {n : Node} {operation : String} {f : NodeId → Work α}
    {r : NodeId → Except TreeError ρ}
    (hsome : ∀ p, n.parent = some p → (f p).run t = settle view t (r p)) :
    (parentOf n operation >>= f).run t = settle view t (match n.parent with
      | none => .error (.isRoot operation)
      | some p => r p) := by
  rw [EStateM.run_bind, parentOf]
  cases hp : n.parent with
  | none => rfl
  | some p => exact hsome p hp

theorem run_refuseIf_bind {c : Bool} {e : TreeError} {f : Unit → Work α} {r : Except TreeError ρ}
    (hpass : c = false → (f ()).run t = settle view t r) :
    (refuseIf c e >>= f).run t = settle view t (if c then .error e else r) := by
  cases c with
  | true => rfl
  | false => exact hpass rfl

/-! ## Operations that write last -/

theorem run_changeDirectory (path : String) :
    (changeDirectory path).run t = settle (·, ()) t (t.changeDirectory path) := by
  rw [changeDirectory, FileTree.changeDirectory, FileTree.find?, run_get_bind]
  refine run_node_bind fun n _ => ?_
  cases hdir : n.isDirectory with
  | true => rfl
  | false => rfl

theorem run_attach (parent : NodeId) (parentPath name : String) (content : Content)
    (readOnly : Bool) : (attach s parent parentPath name content readOnly).run t =
      settle id t (.ok (t.attach s parent parentPath name content readOnly)) := rfl

theorem run_createEntry (name parent : String) (content : Content) :
    (createEntry s name parent content).run t =
      settle id t (t.createEntry s name parent content) := by
  rw [createEntry, FileTree.createEntry]
  refine run_refuseIf_bind fun _ => ?_
  rw [run_get_bind]
  refine run_node_bind fun d _ => ?_
  refine run_refuseIf_bind fun _ => ?_
  rw [run_get_bind]
  refine run_refuseIf_bind fun _ => ?_
  exact run_attach d.id (t.resolve parent) name content false

theorem run_createFile (name parent text : String) :
    (createFile s name parent text).run t = settle id t (t.createFile s name parent text) :=
  run_createEntry name parent (.file text)

theorem run_createDirectory (name parent : String) :
    (createDirectory s name parent).run t = settle id t (t.createDirectory s name parent) :=
  run_createEntry name parent (.directory [])

theorem run_write (path text : String) :
    (write s path text).run t = settle (·, ()) t (t.write s path text) := by
  rw [write, FileTree.write, run_get_bind]
  refine run_node_bind fun n _ => ?_
  refine run_refuseIf_bind fun _ => ?_
  refine run_refuseIf_bind fun _ => ?_
  rfl

theorem run_touch (path : String) :
    (touch s path).run t = settle (·, ()) t (t.touch s path) := by
  rw [touch, FileTree.touch, run_get_bind]
  refine run_node_bind fun n _ => ?_
  refine run_refuseIf_bind fun _ => ?_
  rfl

/-! ## Removal -/

theorem foldl_erase_nodes (t : FileTree) (ids : List NodeId) :
    ids.foldl (fun t k => { t with nodes := t.nodes.erase k }) t =
      { t with nodes := t.nodes.filterKeys fun k => !ids.contains k } := by
  rw [← OrderedMap.foldl_erase]
  induction ids generalizing t with
  | nil => rfl
  | cons id ids ih => exact ih _

/-- The writes of a removal, one after another, take a subtree out. -/
theorem run_detach (parent id : NodeId) :
    (detach parent id (t.subtree id)).run t = .ok ⟨⟩ (t.detach parent id) := by
  have htail : ∀ u : FileTree, (do
      (t.subtree id).forM fun k => modify fun t => { t with nodes := t.nodes.erase k }
      relist parent (·.filter (· ≠ id)) : Work PUnit).run u =
      .ok ⟨⟩ (({ u with nodes := u.nodes.filterKeys fun k => !(t.subtree id).contains k } :
        FileTree).modifyNode parent (·.mapChildren (·.filter (· ≠ id)))) := by
    intro u
    rw [EStateM.run_bind, run_forM_modify, foldl_erase_nodes]
    rfl
  rw [detach, run_get_bind, FileTree.detach]
  cases hcwd : (t.subtree id).contains t.cwd with
  | true => exact htail { t with cwd := parent }
  | false => exact htail t

theorem run_delete (path : String) : (delete path).run t = settle id t (t.delete path) := by
  rw [delete, FileTree.delete, FileTree.find?, run_get_bind]
  refine run_node_bind fun n _ => ?_
  refine run_parentOf_bind fun parent _ => ?_
  dsimp only
  cases ((t.subtree n.id).filterMap t.node?).find? (·.readOnly) with
  | some locked => rfl
  | none =>
    dsimp only
    rw [EStateM.run_bind, run_detach]
    rfl

/-! ## Moving -/

theorem foldl_modifyNode (t : FileTree) (f : Node → Node) {ids : List NodeId} (hids : ids.Nodup) :
    ids.foldl (fun t k => t.modifyNode k f) t =
      { t with nodes := t.nodes.mapValues fun k n => if ids.contains k then f n else n } := by
  rw [← OrderedMap.foldl_modify _ _ hids]
  clear hids
  induction ids generalizing t with
  | nil => rfl
  | cons id ids ih => exact ih _

/-- The writes of a move, one after another, are the move, if no node of the moved subtree is met
twice. -/
theorem run_relocate {id oldParent newParent : NodeId} {oldPath newPath name : String}
    (hnodup : ((t.relistedTree id oldParent newParent).subtree id).Nodup) :
    (relocate s id oldParent newParent oldPath newPath name).run t =
      .ok ⟨⟩ (t.relocate s.now id oldParent newParent oldPath newPath name) := by
  have htail : ∀ u : FileTree, (u.subtree id).Nodup → (do
      let moved := (← get).subtree id
      modify (·.modifyNode id fun n =>
        { n with parent := some newParent, name,
                 metadata := { n.metadata with modified := s.now } })
      moved.forM fun k => modify (·.modifyNode k fun n =>
        { n with path := rebase oldPath newPath n.path }) : Work PUnit).run u =
      .ok ⟨⟩ { u with nodes := u.nodes.mapValues fun k n =>
        let n :=
          if k = id then
            { n with parent := some newParent, name,
                     metadata := { n.metadata with modified := s.now } }
          else n
        if (u.subtree id).contains k then { n with path := rebase oldPath newPath n.path } else n } := by
    intro u hu
    rw [run_get_bind, EStateM.run_bind, EStateM.run_modify]
    dsimp only
    rw [run_forM_modify, foldl_modifyNode _ _ hu, modifyNode, OrderedMap.mapValues_modify]
  rw [relocate, FileTree.relocate]
  by_cases hsame : oldParent = newParent
  · rw [relistedTree, if_pos hsame] at hnodup
    rw [if_neg (not_not.2 hsame), if_pos hsame]
    exact htail t hnodup
  · rw [relistedTree, if_neg hsame] at hnodup
    rw [if_pos hsame, if_neg hsame]
    exact htail _ hnodup

/-- In a consistent tree no node of a subtree that may be moved is met twice. -/
theorem nodup_moved (h : t.Consistent) {n d : Node} {oldParent : NodeId}
    (hn : t.node? n.id = some n) (hp : n.parent = some oldParent) (hd : t.node? d.id = some d)
    (hwithin : Path.isWithin d.path n.path = false) :
    ((t.relistedTree n.id oldParent d.id).subtree n.id).Nodup := by
  have hout : ¬ t.Reaches n.id d.id := by
    intro hr
    rw [h.isWithin_of_reaches hr hn hd] at hwithin
    cases hwithin
  rw [subtree_relistedTree h hn (h.not_reaches_parent hn hp) hout]
  exact nodup_subtree h hn

theorem run_moveAs (h : t.Consistent) (source dest name : String) :
    (moveAs s source dest name).run t = settle (·, ()) t (t.moveAs s source dest name) := by
  rw [moveAs, FileTree.moveAs, run_get_bind, run_get_bind]
  refine run_node_bind fun n hn => ?_
  refine run_parentOf_bind fun oldParent hp => ?_
  refine run_refuseIf_bind fun _ => ?_
  refine run_refuseIf_bind fun _ => ?_
  refine run_node_bind fun d hd => ?_
  refine run_refuseIf_bind fun _ => ?_
  refine run_refuseIf_bind fun hwithin => ?_
  rw [run_get_bind]
  refine run_refuseIf_bind fun _ => ?_
  obtain ⟨hnode, hpath⟩ := h.lookup?_eq_some.1 hn
  obtain ⟨hdnode, hdpath⟩ := h.lookup?_eq_some.1 hd
  rw [← hpath, ← hdpath] at hwithin
  exact run_relocate (nodup_moved h hnode hp hdnode hwithin)

theorem run_move (h : t.Consistent) (source dest : String) :
    (move s source dest).run t = settle (·, ()) t (t.move s source dest) := by
  rw [move, FileTree.move, run_get_bind]
  refine run_node_bind fun n _ => ?_
  refine run_refuseIf_bind fun _ => ?_
  exact run_moveAs h (t.resolve source) dest n.name

theorem run_rename (h : t.Consistent) (path name : String) :
    (rename s path name).run t = settle (·, ()) t (t.rename s path name) := by
  rw [rename, FileTree.rename, run_get_bind]
  exact run_moveAs h (t.resolve path) (Path.dirname (t.resolve path)) name

/-! ## Creating a path -/

theorem run_discard {w : Work α} {r : Except TreeError (FileTree × α)}
    (h : w.run t = settle id t r) :
    (discard w).run t = settle (·, ()) t ((·.1) <$> r) := by
  rw [discard, map_const, Function.comp_apply, ← bind_pure_comp, EStateM.run_bind, h]
  cases r with
  | error e => rfl
  | ok a => rfl

/-- Directories that can all be created are created one after another. -/
theorem run_createAll {missing : List (String × String)} {i : Nat} {t' : FileTree}
    (hok : t.createAll s i missing = .ok t') : (createAll s i missing).run t = .ok () t' := by
  induction missing generalizing t i with
  | nil =>
    cases hok
    rfl
  | cons m missing ih =>
    obtain ⟨r, hr, hrest⟩ := createAll_cons_eq_ok hok
    have hfirst := run_createDirectory (t := t) (s := s.turn i) m.2 m.1
    rw [hr] at hfirst
    rw [createAll, EStateM.run_bind, hfirst]
    exact ih hrest

/-- In a consistent tree a path is created as a whole, or nothing of it is. -/
theorem run_createPath (h : t.Consistent) (path : String) :
    (createPath s path).run t = settle (·, ()) t (t.createPath s path) := by
  rw [createPath, FileTree.createPath, run_get_bind]
  rcases h.missingBelow_resolve path with
    ⟨before, rest, -, hmissing, hstop⟩ | ⟨before, n, -, -, -, herr⟩
  · obtain ⟨t', ht', -⟩ := h.createAll_of_stopsAt (s := s) hstop 0
    rw [hmissing]
    change _ = settle (·, ()) t (t.createAll s 0 (missingBelow.chain (Path.ofSegments before) rest))
    rw [ht']
    exact run_createAll ht'
  · rw [herr]
    rfl

/-- In a tree that is not consistent a stray node at `/a/b` stops the creation half way. -/
example :
    let s : Supply := ⟨.still ⟨0, 0⟩, .counting⟩
    let stray : Node :=
      ⟨⟨"stray"⟩, "b", "/a/b", none, .file "", .forContent (.file "") s.now, false⟩
    let t := { empty s with nodes := (empty s).nodes.insertNew stray.id stray }
    (match (createPath s "/a/b").run t with
      | .ok _ _ => none
      | .error e t' => some (e, (t'.lookup? "/a").isSome)) =
    some (.alreadyExists "/a/b", true) := by
  decide

end Work

namespace Change

/-- A change as work in place. -/
def work (s : Supply) : Change → Work Unit
  | changeDirectory path => Work.changeDirectory path
  | createFile name parent text => discard (Work.createFile s name parent text)
  | createDirectory name parent => discard (Work.createDirectory s name parent)
  | createPath path => Work.createPath s path
  | delete path => discard (Work.delete path)
  | rename path name => Work.rename s path name
  | move source dest => Work.move s source dest
  | moveAs source dest name => Work.moveAs s source dest name
  | write path text => Work.write s path text
  | touch path => Work.touch s path

/-- On a consistent tree the work of a change leaves the changed tree, or it is refused for the same
reason as the change and leaves the tree as it was. -/
theorem run_work (h : t.Consistent) (c : Change) :
    (c.work s).run t = settle (·, ()) t (c.run s t) := by
  cases c with
  | changeDirectory path => exact Work.run_changeDirectory path
  | createFile name parent text => exact Work.run_discard (Work.run_createFile name parent text)
  | createDirectory name parent => exact Work.run_discard (Work.run_createDirectory name parent)
  | createPath path => exact Work.run_createPath h path
  | delete path => exact Work.run_discard (Work.run_delete path)
  | rename path name => exact Work.run_rename h path name
  | move source dest => exact Work.run_move h source dest
  | moveAs source dest name => exact Work.run_moveAs h source dest name
  | write path text => exact Work.run_write path text
  | touch path => exact Work.run_touch path

end Change

end FileTree

end VirtualShell
