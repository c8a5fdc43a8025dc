import VirtualShell.Proofs.Shell.Dispatch
import VirtualShell.Proofs.Tree.Effects

/-!
# What lines do to the tree

A command changes the tree only through the tree's own operations, and each command only through
those of a few kinds: whatever it does with its operands, the tree that it leaves has evolved from
the one that it found by changes of these kinds (`Command.evolvesBy_run`). So the tree after a
whole line has evolved from the tree before it (`Shell.evolves_exec`).
-/

namespace VirtualShell

open FileTree

variable {t : FileTree} {s : Supply}

/-- Between two stages of a command its tree has evolved by changes of some kinds, each of which was
made in the turn that the command had reached. -/
def Progress.Advances (kinds : List Change.Kind) (s : Supply) (p p' : Progress) : Prop :=
  Evolution (·.kind ∈ kinds) s (p.turn, p.tree) (p'.turn, p'.tree)

namespace Progress.Advances

variable {kinds : List Change.Kind}

theorem refl (kinds : List Change.Kind) (s : Supply) (p : Progress) : Advances kinds s p p :=
  Evolution.refl _ s _

/-- A command advances operand by operand if it does so with each of them. -/
theorem foldl {α : Type} {step : Progress → α → Progress} {operands : List α}
    (hstep : ∀ p a, Advances kinds s p (step p a)) (p : Progress) :
    Advances kinds s p (operands.foldl step p) := by
  induction operands generalizing p with
  | nil => exact .refl _ _ _
  | cons a operands ih => exact Evolution.trans (hstep p a) (ih (step p a))

/-- An attempted change advances the command, whether it is refused or not. -/
theorem attempt (p : Progress) (c : Change) (wording : TreeError → String)
    (hkind : c.kind ∈ kinds) :
    Advances kinds s p (p.attempt (c.run (s.turn p.turn) p.tree) wording) := by
  unfold Progress.attempt
  split
  · next hc => exact Evolution.of_run hc hkind
  · exact .refl kinds s p

/-- What a command does from its start on is an evolution of the tree. -/
theorem evolvesBy {p : Progress} (h : Advances kinds s (.start t) p) :
    EvolvesBy kinds s t p.tree :=
  ⟨p.turn, h⟩

end Progress.Advances

namespace Command

/-- The kinds of changes that a command makes. -/
def kinds : Command → List Change.Kind
  | cd => [.go]
  | touch => [.create, .touch]
  | mkdir => [.create]
  | rm => [.remove]
  | mv => [.relocate]
  | echo => [.create, .write]
  | _ => []

theorem evolvesBy_changeTo (w : World) (target shown : String) (announce : Bool) :
    EvolvesBy [.go] s w.tree (changeTo w target shown announce).2.tree := by
  unfold changeTo
  split
  · exact .refl _ _ _
  · next hc => exact .of_run (c := .changeDirectory target) hc (by simp)

theorem evolvesBy_runCd (args : List String) (w : World) :
    EvolvesBy [.go] s w.tree (runCd args w).2.tree := by
  unfold runCd
  split
  · exact evolvesBy_changeTo w _ _ _
  · split_ifs
    · exact evolvesBy_changeTo w _ _ _
    · split
      · exact evolvesBy_changeTo w _ _ _
      · exact .refl _ _ _
    · exact evolvesBy_changeTo w _ _ _
  · exact .refl _ _ _

theorem advances_touchFile (p : Progress) (file : String) :
    p.Advances [.create, .touch] s (touchFile s p file) := by
  unfold touchFile
  dsimp only
  split
  · exact .attempt p (.touch _) _ (by simp)
  · exact .attempt p (.createFile _ _ _) _ (by simp)

theorem advances_make (r : DirectoryRequest) (p : Progress) (dir : String) :
    p.Advances [.create] s (r.make s p dir) := by
  unfold DirectoryRequest.make
  dsimp only
  split
  · exact .attempt p (.createPath _) _ (by simp)
  · exact .attempt p (.createDirectory _ _) _ (by simp)

theorem advances_remove (r : Removal) (p : Progress) (operand : String) :
    p.Advances [.remove] s (r.remove p operand) := by
  unfold Removal.remove
  dsimp only
  split
  · split <;> exact .refl _ _ p
  · split
    · exact .refl _ _ p
    · -- the damage, which is counted first, does not show in the stage of the tree
      generalize p.damage ++ _ = damage
      have hkind : (Change.delete (p.tree.resolve operand)).kind ∈ [Change.Kind.remove] := by simp
      exact Progress.Advances.attempt { p with damage } (.delete (p.tree.resolve operand)) _ hkind

theorem advances_moveOne (dest destPath : String) (intoDir : Bool) (p : Progress)
    (source : String) : p.Advances [.relocate] s (moveOne s dest destPath intoDir p source) := by
  unfold moveOne
  dsimp only
  split
  · exact .attempt p (.move _ _) _ (by simp)
  · exact .attempt p (.moveAs _ _ _) _ (by simp)

theorem evolvesBy_runTouch (args : List String) (w : World) :
    EvolvesBy [.create, .touch] s w.tree (runTouch s args w).2.tree := by
  unfold runTouch
  split
  · exact .refl _ _ _
  · exact (Progress.Advances.foldl advances_touchFile (.start w.tree)).evolvesBy

theorem evolvesBy_runMkdir (args : List String) (w : World) :
    EvolvesBy [.create] s w.tree (runMkdir s args w).2.tree := by
  unfold runMkdir
  split
  · exact .refl _ _ _
  · next r _ =>
    split
    · exact .refl _ _ _
    · exact (Progress.Advances.foldl (advances_make r) (.start w.tree)).evolvesBy

theorem evolvesBy_runRm (args : List String) (w : World) :
    EvolvesBy [.remove] s w.tree (runRm args w).2.tree := by
  unfold runRm
  split
  · exact .refl _ _ _
  · next r _ =>
    split
    · split <;> exact .refl _ _ _
    · exact (Progress.Advances.foldl (advances_remove r) (.start w.tree)).evolvesBy

theorem evolvesBy_runMv (args : List String) (w : World) :
    EvolvesBy [.relocate] s w.tree (runMv s args w).2.tree := by
  unfold runMv
  split
  · exact .refl _ _ _
  · exact .refl _ _ _
  · exact .refl _ _ _
  · dsimp only
    split
    · exact .refl _ _ _
    · exact (Progress.Advances.foldl (advances_moveOne _ _ _) (.start w.tree)).evolvesBy

theorem evolvesBy_write (r : Redirection) {t' : FileTree} {text : String}
    (h : r.write (s.turn 0) t text = .ok t') : EvolvesBy [.create, .write] s t t' := by
  unfold Redirection.write at h
  dsimp only at h
  split at h
  · exact .of_run (c := .write _ _) h (by simp)
  · exact .of_run (c := .createFile _ _ _) h (by simp)

theorem evolvesBy_runEcho (args : List String) (w : World) :
    EvolvesBy [.create, .write] s w.tree (runEcho s args w).2.tree := by
  unfold runEcho
  split
  · exact .refl _ _ _
  · dsimp only
    split
    · exact .refl _ _ _
    · split
      · next hw => exact evolvesBy_write _ hw
      · exact .refl _ _ _

theorem tree_runHistory (args : List String) (w : World) :
    (runHistory args w).2.tree = w.tree := by
  unfold runHistory
  dsimp only
  split
  · rfl
  · split
    · rfl
    · split <;> rfl
  · rfl

theorem tree_runAlias (args : List String) (w : World) : (runAlias args w).2.tree = w.tree := by
  unfold runAlias
  split <;> rfl

theorem tree_runUnalias (args : List String) (w : World) :
    (runUnalias args w).2.tree = w.tree := by
  unfold runUnalias
  split <;> rfl

theorem tree_runExport (args : List String) (w : World) :
    (runExport args w).2.tree = w.tree := by
  unfold runExport
  split <;> rfl

/-- Every command leaves a tree that has evolved from the one it found, by changes of the kinds
that are its own. -/
theorem evolvesBy_run (c : Command) (s : Surroundings) (args : List String) (w : World) :
    EvolvesBy c.kinds s.supply w.tree (c.run s args w).2.tree := by
  cases c with
  | cd => exact evolvesBy_runCd args w
  | touch => exact evolvesBy_runTouch args w
  | mkdir => exact evolvesBy_runMkdir args w
  | rm => exact evolvesBy_runRm args w
  | mv => exact evolvesBy_runMv args w
  | echo => exact evolvesBy_runEcho args w
  | history => rw [run, tree_runHistory]; exact .refl _ _ _
  | aliases => rw [run, tree_runAlias]; exact .refl _ _ _
  | unalias => rw [run, tree_runUnalias]; exact .refl _ _ _
  | exports => rw [run, tree_runExport]; exact .refl _ _ _
  | pwd | ls | cat | whoami | hostname | uname | date | uptime | man | help | head | tail | wc
  | grep | clear | exit | env => exact .refl _ _ _

end Command

namespace Shell

/-- The kinds of changes that a line makes: those of the command that it is given to. -/
def kinds (aliases : OrderedMap String String) (input : String) : List Change.Kind :=
  ((dispatched? aliases input).map fun p => p.1.kinds).getD []

theorem kinds_of_dispatched {aliases : OrderedMap String String} {input : String} {c : Command}
    {args : List String} (h : dispatched? aliases input = some (c, args)) :
    kinds aliases input = c.kinds := by
  rw [kinds, h, Option.map_some, Option.getD_some]

/-- The tree after a line has evolved from the tree before it, by changes of the kinds that its
command makes. -/
theorem evolvesBy_exec (s : Surroundings) (w : World) (input : String) :
    EvolvesBy (kinds w.session.aliases input) s.supply w.tree (exec s w input).2.tree := by
  by_cases hblank : Text.trim input = ""
  · rw [exec_blank hblank]
    exact .refl _ _ _
  cases hd : dispatched? w.session.aliases input with
  | some p =>
    obtain ⟨c, args⟩ := p
    obtain ⟨name, hexec⟩ := exec_of_dispatched hd s
    rw [hexec, kinds_of_dispatched hd, ← tree_recorded s w input]
    exact c.evolvesBy_run s args _
  | none =>
    obtain ⟨name, reply, -, hexec⟩ := exec_of_not_dispatched hblank hd s
    rw [hexec, tree_conclude, tree_recorded]
    exact .refl _ _ _

/-- The tree after a line has evolved from the tree before it. -/
theorem evolves_exec (s : Surroundings) (w : World) (input : String) :
    Evolves s.supply w.tree (exec s w input).2.tree :=
  (evolvesBy_exec s w input).evolves

end Shell

end VirtualShell
