import VirtualShell.Proofs.Calendar.StampRoundTrip
import VirtualShell.Proofs.Json.Records
import VirtualShell.Snapshot

/-!
# Stored trees read back

Every part of a tree is read back from its stored form: ids, contents, metadata, nodes, and the
tree with the order of its nodes (`FileTree.decode?_encode`). Sizes must fit in 64 bits and times be
in range; of names, paths and links nothing is asked, since decoding does not look at them.
-/

namespace VirtualShell

open Json Calendar
open Text (bind_of_eq_some)

namespace NodeId

@[simp] theorem decode?_encode (id : NodeId) : decode? id.encode = some id := rfl

theorem isPlain_encode (id : NodeId) : id.encode.IsPlain := rfl

end NodeId

namespace Content

theorem isPlain_encode (c : Content) : c.encode.IsPlain := by
  cases c with
  | file text => simp [encode, Value.isPlain_record, Value.isPlain_text]
  | directory ids =>
    simp [encode, Value.isPlain_record, Value.isPlain_text, Value.isPlain_array,
      NodeId.isPlain_encode]

theorem soundItems_encode (depth : Nat) (ids : List NodeId) :
    soundItems depth (ids.map NodeId.encode) = true := by
  induction ids with
  | nil => rfl
  | cons id ids ih => simp [soundItems, NodeId.encode, Value.text, Value.isSound, ih]

theorem isSound_encode (c : Content) {depth : Nat} (hd : 2 ≤ depth) :
    c.encode.isSound depth = true := by
  obtain ⟨depth, rfl⟩ := Nat.exists_eq_add_of_le' hd
  cases c with
  | file text => rfl
  | directory ids =>
    have hids := soundItems_encode depth ids
    simp [encode, Value.record, Value.text, Value.isSound, soundMembers, hids]

/-- The type is found among the members, and the others make the body. -/
theorem decode?_tagged {type : String} {rest : List (String × Value)} {depth : Nat}
    (hsound : (Value.record (("type", .text type) :: rest)).isSound depth = true)
    (hrest : ∀ m ∈ rest, m.1 ≠ "type") :
    decode? depth (.record (("type", .text type) :: rest)) = decodeBody? type (.record rest) := by
  have hmembers := Value.members?_record (("type", Value.text type) :: rest)
  have hpartition : (("type", Value.text type) :: rest).partition (fun m => m.1 == "type") =
      ([("type", Value.text type)], rest) := by
    rw [List.partition_eq_filter_filter, List.filter_cons_of_pos (by rfl),
      List.filter_eq_nil_iff.2 (by simpa using hrest), List.filter_cons_of_neg (by simp),
      List.filter_eq_self.2 (by simpa using hrest)]
  unfold decode?
  rw [hsound]
  rw [Value.record] at hmembers ⊢
  simp only [Bool.not_true, Bool.false_eq_true, if_false, hmembers, hpartition,
    Option.bind_eq_bind, Option.bind_some, Value.text?_text]

/-- A file or a directory is read back. -/
theorem decode?_encode (c : Content) {depth : Nat} (hd : 2 ≤ depth) :
    decode? depth c.encode = some c := by
  have hsound := c.isSound_encode hd
  cases c with
  | file text =>
    rw [encode, decode?_tagged hsound (by simp), decodeBody?, if_pos rfl,
      fields?_record _ (by simp)]
    simp [Fields.get?]
  | directory ids =>
    have hids : (ids.map NodeId.encode).mapM NodeId.decode? = some ids :=
      mapM_map_eq_some fun id _ => NodeId.decode?_encode id
    rw [encode, decode?_tagged hsound (by simp), decodeBody?, if_neg (by decide), if_pos rfl,
      fields?_record _ (by simp)]
    simp [Fields.get?, Value.items?, hids]

end Content

/-- Metadata as the stored form has them: the size is a number of 64 bits, and the times are ones
that a clock can show. -/
structure Metadata.Storable (m : Metadata) : Prop where
  size : m.size ≤ Text.countLimit
  created : m.created.IsValid
  modified : m.modified.IsValid

instance (m : Metadata) : Decidable m.Storable :=
  decidable_of_iff (m.size ≤ Text.countLimit ∧ m.created.IsValid ∧ m.modified.IsValid)
    ⟨fun h => ⟨h.1, h.2.1, h.2.2⟩, fun h => ⟨h.size, h.created, h.modified⟩⟩

namespace Metadata

theorem isPlain_encode (m : Metadata) : m.encode.IsPlain := by
  simp [encode, Value.isPlain_record, Value.isPlain_text, Value.isPlain_count]

theorem fields?_encode (m : Metadata) :
    fields? ["permissions", "owner", "group", "size", "created", "modified"] m.encode =
      some ⟨false, [some (.text m.permissions), some (.text m.owner), some (.text m.group),
        some (.count m.size), some (.text m.created.stamp), some (.text m.modified.stamp)]⟩ := by
  rw [encode, fields?_record _ (by simp)]
  simp

/-- Metadata are read back. -/
theorem decode?_encode {m : Metadata} (h : m.Storable) : decode? m.encode = some m := by
  refine (bind_of_eq_some m.fields?_encode _).trans ?_
  refine (bind_field rfl (Value.text?_text m.permissions) _).trans ?_
  refine (bind_field rfl (Value.text?_text m.owner) _).trans ?_
  refine (bind_field rfl (Value.text?_text m.group) _).trans ?_
  refine (bind_field rfl (Value.count?_count h.size) _).trans ?_
  refine (bind_field rfl (Value.text?_text m.created.stamp) _).trans ?_
  refine (bind_of_eq_some (Instant.ofStamp?_stamp h.created) _).trans ?_
  refine (bind_field rfl (Value.text?_text m.modified.stamp) _).trans ?_
  exact bind_of_eq_some (Instant.ofStamp?_stamp h.modified) _

end Metadata

namespace Node

theorem isPlain_encode (n : Node) : n.encode.IsPlain := by
  obtain ⟨id, name, path, parent, content, metadata, readOnly⟩ := n
  cases parent <;> simp [encode, Value.isPlain_record, Value.isPlain_text, NodeId.isPlain_encode,
    Content.isPlain_encode, Metadata.isPlain_encode, Value.IsPlain]

theorem fields?_encode (n : Node) :
    fields? ["id", "name", "path", "parent", "kind", "metadata", "read_only"] n.encode =
      some ⟨false, [some n.id.encode, some (.text n.name), some (.text n.path),
        some (match n.parent with
          | some p => p.encode
          | none => .null),
        some n.content.encode, some n.metadata.encode, some (.bool n.readOnly)]⟩ := by
  rw [encode, fields?_record _ (by simp)]
  cases n.parent with
  | none => simp
  | some p => simp

theorem decodeParent?_encode (parent : Option NodeId) :
    decodeParent? (match parent with
      | some p => p.encode
      | none => .null) = some parent := by
  cases parent with
  | none => rfl
  | some p => rfl

/-- A node is read back. -/
theorem decode?_encode {n : Node} (h : n.metadata.Storable) {depth : Nat} (hd : 2 ≤ depth) :
    decode? depth n.encode = some n := by
  refine (bind_of_eq_some n.fields?_encode _).trans ?_
  refine (bind_of_eq_some (decodeParent?_encode n.parent) _).trans ?_
  refine (bind_of_eq_some (a := n.readOnly) rfl _).trans ?_
  refine (bind_field rfl n.id.decode?_encode _).trans ?_
  refine (bind_field rfl (Value.text?_text n.name) _).trans ?_
  refine (bind_field rfl (Value.text?_text n.path) _).trans ?_
  refine (bind_field rfl (n.content.decode?_encode hd) _).trans ?_
  exact bind_field rfl (Metadata.decode?_encode h) _

end Node

namespace FileTree

/-- A tree whose sizes are numbers of 64 bits and whose times are ones that a clock can show. -/
def Storable (t : FileTree) : Prop := ∀ n ∈ t.allNodes, n.metadata.Storable

instance (t : FileTree) : Decidable t.Storable :=
  inferInstanceAs (Decidable (∀ n ∈ t.allNodes, n.metadata.Storable))

theorem isPlain_encode (t : FileTree) : t.encode.IsPlain := by
  have hnodes : (Value.record (t.nodes.entries.map fun e => (e.1.text, e.2.encode))).IsPlain := by
    rw [Value.isPlain_record]
    intro m hm
    obtain ⟨e, -, rfl⟩ := List.mem_map.1 hm
    exact e.2.isPlain_encode
  rw [encode, Value.isPlain_record]
  simpa [NodeId.isPlain_encode] using hnodes

/-- A tree is read back with the order of its nodes. -/
theorem decode?_encode {t : FileTree} (h : t.Storable) {depth : Nat} (hd : 5 ≤ depth) :
    decode? depth t.encode = some t := by
  have hnodes : (t.nodes.entries.map fun e => (e.1.text, e.2.encode)).mapM
      (fun m => (Node.decode? (depth - 3) m.2).map (NodeId.mk m.1, ·)) = some t.nodes.entries := by
    refine mapM_map_eq_some fun e he => ?_
    have hmem : e.2 ∈ t.allNodes := List.mem_map.2 ⟨e, he, rfl⟩
    rw [Node.decode?_encode (h e.2 hmem) (by omega)]
    rfl
  rw [decode?, encode, fields?_record _ (by simp)]
  simp [Fields.get?, hnodes, OrderedMap.ofList_entries]

end FileTree

end VirtualShell
