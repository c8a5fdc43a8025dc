import Mathlib.Data.Prod.Lex
import VirtualShell.Proofs.Tree.ReadOnly
import VirtualShell.Proofs.Tree.Starter

/-!
# Sizes and times

The size that a node shows is a copy of what its text gives, and it is set apart from the text; so
are the two times. They are accurate at a moment (`Node.Accurate`) if the size is that of the text, and
the node was created no later than it was last modified, and this no later than the moment. Every way
to another content or another time keeps them so: a directory lists its children anew, a text is
written, a node is touched, created or moved. The clock goes on while a change is made, and further from
one change to the next; as long as it does not go back (`Clock.Forward`), what was accurate before stays
so at each later reading. Hence sizes and times are accurate after every change
(`Change.accurate_of_run`) and every evolution, at whatever moment no reading came after.
-/

namespace VirtualShell

open Calendar

namespace Calendar.Instant

/-- Instants are in the order of their seconds, and of their nanoseconds within a second. -/
instance : LinearOrder Instant :=
  LinearOrder.lift' (fun t => toLex (t.seconds, t.nanos)) fun a b h => by
    obtain ⟨hs, hn⟩ := Prod.mk.inj h
    cases a
    cases b
    simp_all

theorem le_iff {a b : Instant} :
    a ≤ b ↔ a.seconds < b.seconds ∨ a.seconds = b.seconds ∧ a.nanos ≤ b.nanos :=
  Prod.Lex.toLex_le_toLex

end Calendar.Instant

namespace Clock

variable {c : Clock} {latest : Instant}

/-- The clock does not go back: of two readings the one in the earlier turn is not the later one. -/
def Forward (c : Clock) : Prop := ∀ a b, List.Lex (· < ·) a b → c.reading a ≤ c.reading b

/-- No reading of the clock comes after a moment. -/
def Until (c : Clock) (latest : Instant) : Prop := ∀ turns, c.reading turns ≤ latest

theorem Until.now_le (h : c.Until latest) : c.now ≤ latest := h []

theorem Until.turn (h : c.Until latest) (i : Nat) : (c.turn i).Until latest :=
  fun turns => h (i :: turns)

namespace Forward

variable (h : c.Forward)
include h

theorem turn (i : Nat) : (c.turn i).Forward := fun _ _ hlt => h _ _ (.cons hlt)

theorem now_le (i : Nat) : c.now ≤ (c.turn i).now := h _ _ .nil

/-- A turn is over before a later one begins. -/
theorem until_turn {i j : Nat} (hij : i < j) : (c.turn i).Until (c.turn j).now :=
  fun _ => h _ _ (.rel hij)

end Forward

end Clock

namespace Node

/-- The number of bytes of a file's text, and none for a directory. -/
def byteSize (n : Node) : Nat := n.text?.elim 0 String.utf8ByteSize

/-- The size that a node shows is right, and its times are in order and not after a moment. -/
structure Accurate (now : Instant) (n : Node) : Prop where
  size : n.metadata.size = n.byteSize
  created : n.metadata.created ≤ n.metadata.modified
  modified : n.metadata.modified ≤ now

namespace Accurate

variable {now later : Instant} {n m : Node}

theorem mono (h : n.Accurate now) (hle : now ≤ later) : n.Accurate later :=
  ⟨h.size, h.created, h.modified.trans hle⟩

/-- Beside the text only the metadata count, and a node may be modified at the moment. -/
theorem of_metadata (h : n.Accurate now) (htext : m.text? = n.text?)
    (hm : m.metadata = n.metadata ∨ m.metadata = { n.metadata with modified := now }) :
    m.Accurate now := by
  have hsize : n.metadata.size = m.byteSize := by rw [byteSize, htext, ← byteSize, h.size]
  rcases hm with hm | hm
  · exact ⟨hm ▸ hsize, hm ▸ h.created, hm ▸ h.modified⟩
  · exact ⟨hm ▸ hsize, hm ▸ h.created.trans h.modified, hm ▸ le_refl now⟩

theorem of_preserved (h : n.Accurate now) (hkept : n.Preserved m) : m.Accurate now :=
  h.of_metadata hkept.text? (Or.inl hkept.metadata)

theorem touch (h : n.Accurate now) :
    ({ n with metadata := { n.metadata with modified := now } } : Node).Accurate now :=
  h.of_metadata rfl (Or.inr rfl)

theorem write (h : n.Accurate now) (text : String) : ({ n with
    content := .file text,
    metadata := { n.metadata with size := text.utf8ByteSize, modified := now } } : Node).Accurate
      now :=
  ⟨rfl, h.created.trans h.modified, le_refl now⟩

/-- The metadata of a new node are accurate. -/
theorem of_forContent (hm : n.metadata = .forContent n.content now) : n.Accurate now := by
  cases hc : n.content with
  | file text =>
    rw [hc, Metadata.forContent] at hm
    refine ⟨?_, ?_, ?_⟩ <;> simp [hm, byteSize, text?, hc]
  | directory ids =>
    rw [hc, Metadata.forContent] at hm
    refine ⟨?_, ?_, ?_⟩ <;> simp [hm, byteSize, text?, hc]

end Accurate

end Node

namespace FileTree

open Node

/-- The sizes and times of all nodes are accurate. -/
def Accurate (now : Instant) (t : FileTree) : Prop := ∀ id n, t.node? id = some n → n.Accurate now

variable {t t' : FileTree} {s : Supply} {now later latest : Instant}

namespace Accurate

theorem mono (h : t.Accurate now) (hle : now ≤ later) : t.Accurate later :=
  fun id n hn => (h id n hn).mono hle

/-! ## Elementary changes -/

theorem setCwd (h : t.Accurate now) (id : NodeId) : Accurate now { t with cwd := id } := h

theorem modifyNode (h : t.Accurate now) {f : Node → Node}
    (hf : ∀ n : Node, n.Accurate now → (f n).Accurate now) (id : NodeId) :
    (t.modifyNode id f).Accurate now := by
  intro x m hm
  rw [node?_modifyNode] at hm
  split at hm
  · obtain ⟨n, hn, rfl⟩ := Option.map_eq_some_iff.1 hm
    exact hf n (h x n hn)
  · exact h x m hm

theorem attach (h : t.Accurate s.now) (parent : NodeId) (parentPath name : String)
    (content : Content) (readOnly : Bool) :
    (t.attach s parent parentPath name content readOnly).1.Accurate s.now := by
  intro x m hm
  rcases eq_or_node_of_attach hm with ⟨-, rfl⟩ | ⟨n, hn, rfl⟩
  · exact .of_forContent rfl
  · exact (h x n hn).of_preserved (.relist _ _ _ n)

theorem detach (h : t.Accurate now) (parent id : NodeId) : (t.detach parent id).Accurate now := by
  intro x m hm
  obtain ⟨-, n, hn, rfl⟩ := node_of_detach hm
  exact (h x n hn).of_preserved (.relist _ _ _ n)

/-- The moved node is modified at the moment, and all others have a new place at most. -/
theorem relocate (h : t.Accurate now) (id oldParent newParent : NodeId)
    (oldPath newPath name : String) :
    (t.relocate now id oldParent newParent oldPath newPath name).Accurate now := by
  intro x m hm
  rw [node?_relocate] at hm
  obtain ⟨n, hn, rfl⟩ := Option.map_eq_some_iff.1 hm
  refine (h x n hn).of_metadata ?_ ?_
  · rw [text?, relocated_content, ← text?]
    exact (KeepsReadOnly.preserved_relisted id oldParent newParent x n).text?
  · rw [relocated_metadata]
    split
    · exact Or.inr rfl
    · exact Or.inl rfl

end Accurate

/-! ## Changes -/

namespace Change

variable {path name parent source dest text : String}

theorem accurate_createEntry (h : t.Accurate s.now) {content : Content} {r : FileTree × Node}
    (hc : t.createEntry s name parent content = .ok r) : r.1.Accurate s.now := by
  obtain ⟨d, -, -, -, -, rfl⟩ := createEntry_eq_ok hc
  exact h.attach d.id (t.resolve parent) name content false

/-- What was accurate when a directory was created is so when the next one is created. -/
theorem accurate_createAll (hforward : s.clock.Forward) (hlatest : s.clock.Until latest)
    {missing : List (String × String)} {i : Nat} (h : t.Accurate (s.turn i).now)
    (hc : t.createAll s i missing = .ok t') : t'.Accurate latest := by
  have hend : t'.Accurate (s.turn (i + missing.length)).now := by
    refine createAll_induction (P := fun i u => u.Accurate (s.turn i).now) hc h ?_
    intro i u m r hu hr
    exact (accurate_createEntry hu hr).mono (hforward.until_turn (Nat.lt_succ_self i)).now_le
  exact hend.mono (hlatest.turn _).now_le

theorem accurate_moveAs (h : t.Accurate s.now) (hc : t.moveAs s source dest name = .ok t') :
    t'.Accurate s.now := by
  obtain ⟨n, oldParent, d, -, -, -, -, -, -, -, -, rfl⟩ := moveAs_eq_ok hc
  exact h.relocate n.id oldParent d.id _ _ name

/-- A change that is made at once leaves the sizes and times accurate at its reading, and the creation
of a path leaves them accurate at its last one. -/
theorem accurate_of_run (hforward : s.clock.Forward) (hlatest : s.clock.Until latest)
    (h : t.Accurate s.now) {c : Change} (hc : c.run s t = .ok t') : t'.Accurate latest := by
  have hlater : t'.Accurate s.now → t'.Accurate latest := fun h' => h'.mono hlatest.now_le
  cases c with
  | changeDirectory path =>
    obtain ⟨n, -, -, rfl⟩ := changeDirectory_eq_ok hc
    exact hlater (h.setCwd n.id)
  | createFile name parent text =>
    obtain ⟨r, hr, rfl⟩ := map_eq_ok hc
    exact hlater (accurate_createEntry h hr)
  | createDirectory name parent =>
    obtain ⟨r, hr, rfl⟩ := map_eq_ok hc
    exact hlater (accurate_createEntry h hr)
  | createPath path =>
    obtain ⟨missing, hmissing⟩ := createPath_eq_ok hc
    exact accurate_createAll hforward hlatest (h.mono (hforward.now_le 0)) hmissing
  | delete path =>
    obtain ⟨r, hr, rfl⟩ := map_eq_ok hc
    obtain ⟨n, parent, -, -, -, rfl⟩ := delete_eq_ok hr
    exact hlater (h.detach parent n.id)
  | rename path name => exact hlater (accurate_moveAs h hc)
  | move source dest =>
    obtain ⟨n, -, hmove⟩ := move_eq_ok hc
    exact hlater (accurate_moveAs h hmove)
  | moveAs source dest name => exact hlater (accurate_moveAs h hc)
  | write path text =>
    obtain ⟨n, -, -, -, rfl⟩ := write_eq_ok hc
    exact hlater (h.modifyNode (fun _ hm => hm.write text) n.id)
  | touch path =>
    obtain ⟨n, -, -, rfl⟩ := touch_eq_ok hc
    exact hlater (h.modifyNode (fun _ hm => hm.touch) n.id)

end Change

/-- Each change of an evolution is over when the next one begins. -/
theorem Evolves.accurate (h : Evolves s t t') (hforward : s.clock.Forward)
    (hlatest : s.clock.Until latest) (ht : t.Accurate s.now) : t'.Accurate latest := by
  obtain ⟨n, hn⟩ := h
  have hend : t'.Accurate (s.turn n).now := by
    refine hn.induction (P := fun i u => u.Accurate (s.turn i).now) ?_ ?_
    · exact ht.mono (hforward.now_le 0)
    · intro i j u v c hij hu _ hc
      exact Change.accurate_of_run (hforward.turn i) (hforward.until_turn hij) hu hc
  exact hend.mono (hlatest.turn n).now_le

/-! ## The first trees -/

theorem accurate_empty (s : Supply) : (empty s).Accurate s.now := by
  intro id n hn
  rw [node?_empty] at hn
  split at hn
  · cases hn
    exact .of_forContent rfl
  · cases hn

theorem accurate_plantAll (hforward : s.clock.Forward) (hlatest : s.clock.Until latest) {i : Nat}
    (h : t.Accurate (s.turn i).now) (entries : List Seed.Entry) :
    (Seed.plantAll s i t entries).Accurate latest := by
  induction entries generalizing t i with
  | nil => exact h.mono (hlatest.turn i).now_le
  | cons e rest ih =>
    have hplanted : (e.plant (s.turn i) t).Accurate (s.turn i).now := by
      unfold Seed.Entry.plant
      split
      · next d _ => exact Accurate.attach h d.id e.parent e.name e.content e.readOnly
      · exact h
    exact ih (hplanted.mono (hforward.until_turn (Nat.lt_succ_self i)).now_le)

/-- The sizes and times in the starter layout are accurate when it is made. -/
theorem accurate_seed (hforward : s.clock.Forward) (hlatest : s.clock.Until latest) :
    (seed s).Accurate latest := by
  obtain ⟨home, -, -, hseed⟩ := seed_eq s
  have hempty : (empty s).Accurate (s.turn 0).now := (accurate_empty s).mono (hforward.now_le 0)
  rw [hseed]
  exact (accurate_plantAll hforward hlatest hempty Seed.layout).setCwd home.id

end FileTree

end VirtualShell
