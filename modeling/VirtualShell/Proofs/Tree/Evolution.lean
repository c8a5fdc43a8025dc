import Mathlib.Logic.Relation
import VirtualShell.Proofs.Tree.Creation

/-!
# Evolution

The operations by which a tree is changed in place, as one type of changes. A tree *evolves* into
another one when a sequence of successful changes leads there, each of which is made in a turn of its
own and so reads the clock anew (`Evolves`). One change keeps a consistent tree consistent
(`Change.consistent_of_run`), and so does every evolution (`Evolves.consistent`).
-/

namespace VirtualShell

namespace FileTree

/-- A change of a tree in place, with the texts that it is given. -/
inductive Change where
  | changeDirectory (path : String)
  | createFile (name parent text : String)
  | createDirectory (name parent : String)
  | createPath (path : String)
  | delete (path : String)
  | rename (path name : String)
  | move (source dest : String)
  | moveAs (source dest name : String)
  | write (path text : String)
  | touch (path : String)
  deriving DecidableEq, Repr

variable {t t' : FileTree} {s : Supply}

namespace Change

/-- Makes a change, or refuses it. -/
def run (s : Supply) (t : FileTree) : Change → Except TreeError FileTree
  | changeDirectory path => t.changeDirectory path
  | createFile name parent text => (·.1) <$> t.createFile s name parent text
  | createDirectory name parent => (·.1) <$> t.createDirectory s name parent
  | createPath path => t.createPath s path
  | delete path => (·.1) <$> t.delete path
  | rename path name => t.rename s path name
  | move source dest => t.move s source dest
  | moveAs source dest name => t.moveAs s source dest name
  | write path text => t.write s path text
  | touch path => t.touch s path

/-- The tree after a change was tried. A refused change leaves it as it was. -/
def after (s : Supply) (t : FileTree) (c : Change) : FileTree :=
  match c.run s t with
  | .ok t' => t'
  | .error _ => t

theorem after_cases (s : Supply) (t : FileTree) (c : Change) :
    c.run s t = .ok (c.after s t) ∨ c.after s t = t := by
  unfold after
  cases c.run s t with
  | ok t' => exact Or.inl rfl
  | error e => exact Or.inr rfl

theorem map_eq_ok {α β ε : Type} {f : α → β} {x : Except ε α} {b : β} (h : f <$> x = .ok b) :
    ∃ a, x = .ok a ∧ f a = b := by
  cases x with
  | error e => cases h
  | ok a => exact ⟨a, rfl, by cases h; rfl⟩

/-- Every change keeps a consistent tree consistent. -/
theorem consistent_of_run (h : t.Consistent) {c : Change} (hc : c.run s t = .ok t') :
    t'.Consistent := by
  cases c with
  | changeDirectory path => exact h.changeDirectory hc
  | createFile name parent text =>
    obtain ⟨r, hr, rfl⟩ := map_eq_ok hc
    exact h.createFile hr
  | createDirectory name parent =>
    obtain ⟨r, hr, rfl⟩ := map_eq_ok hc
    exact h.createDirectory hr
  | createPath path => exact h.createPath hc
  | delete path =>
    obtain ⟨r, hr, rfl⟩ := map_eq_ok hc
    exact h.delete hr
  | rename path name => exact h.rename hc
  | move source dest => exact h.move hc
  | moveAs source dest name => exact h.moveAs hc
  | write path text => exact h.write hc
  | touch path => exact h.touch hc

theorem consistent_after (s : Supply) (h : t.Consistent) (c : Change) :
    (c.after s t).Consistent := by
  rcases c.after_cases s t with hc | hrefused
  · exact consistent_of_run h hc
  · rwa [hrefused]

end Change

/-- Successful changes lead from one tree to another, where each tree stands with the number of the next
turn. Each change is made in its turn and leaves a later one, and something holds of all of them. -/
def Evolution (admitted : Change → Prop) (s : Supply) : Nat × FileTree → Nat × FileTree → Prop :=
  Relation.ReflTransGen fun a b =>
    a.1 < b.1 ∧ ∃ c : Change, admitted c ∧ c.run (s.turn a.1) a.2 = .ok b.2

namespace Evolution

variable {admitted : Change → Prop} {a b e : Nat × FileTree}

theorem refl (admitted : Change → Prop) (s : Supply) (a : Nat × FileTree) :
    Evolution admitted s a a :=
  Relation.ReflTransGen.refl

theorem trans (h : Evolution admitted s a b) (h' : Evolution admitted s b e) :
    Evolution admitted s a e :=
  Relation.ReflTransGen.trans h h'

theorem of_run {c : Change} {i : Nat} (hc : c.run (s.turn i) t = .ok t') (hadmitted : admitted c) :
    Evolution admitted s (i, t) (i + 1, t') :=
  Relation.ReflTransGen.single ⟨Nat.lt_succ_self i, c, hadmitted, hc⟩

theorem mono {admitted' : Change → Prop} (h : Evolution admitted s a b)
    (hsub : ∀ c, admitted c → admitted' c) : Evolution admitted' s a b :=
  Relation.ReflTransGen.mono (fun _ _ ⟨hlt, c, hadmitted, hc⟩ => ⟨hlt, c, hsub c hadmitted, hc⟩) _ _ h

/-- What every change keeps, from its turn to all later ones, holds after an evolution. -/
theorem induction {P : Nat → FileTree → Prop} (h : Evolution admitted s a b) (hstart : P a.1 a.2)
    (hstep : ∀ i j t t' (c : Change), i < j → P i t → admitted c → c.run (s.turn i) t = .ok t' →
      P j t') : P b.1 b.2 := by
  induction h with
  | refl => exact hstart
  | tail _ hlast ih =>
    obtain ⟨hlt, c, hadmitted, hc⟩ := hlast
    exact hstep _ _ _ _ c hlt ih hadmitted hc

theorem consistent (h : Evolution admitted s a b) (hcons : a.2.Consistent) : b.2.Consistent :=
  h.induction (P := fun _ => Consistent) hcons fun _ _ _ _ _ _ ha _ hc =>
    Change.consistent_of_run ha hc

end Evolution

/-- A sequence of successful changes leads from one tree to the other, turn by turn. -/
def Evolves (s : Supply) (t t' : FileTree) : Prop :=
  ∃ n, Evolution (fun _ => True) s (0, t) (n, t')

namespace Evolves

/-- What every change keeps, whatever its turn, holds after an evolution. -/
theorem induction {P : FileTree → Prop} (h : Evolves s t t') (hstart : P t)
    (hstep : ∀ i a b (c : Change), P a → c.run (s.turn i) a = .ok b → P b) : P t' := by
  obtain ⟨n, hn⟩ := h
  exact hn.induction (P := fun _ => P) hstart fun i _ a b c _ ha _ hc => hstep i a b c ha hc

theorem consistent (h : Evolves s t t') (hcons : t.Consistent) : t'.Consistent := by
  obtain ⟨n, hn⟩ := h
  exact hn.consistent hcons

end Evolves

end FileTree

end VirtualShell
