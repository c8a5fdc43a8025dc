import VirtualShell.Proofs.Shell.Operands

/-!
# What exit code zero says

If `touch`, `mkdir`, `rm` or `mv` exits with zero, its arguments were read, no operand was complained
about, and so the effect of each operand is there at the end (`fulfilled_of_code_zero`). An error is
not swallowed: `-p`, `-f` and nodes that are there already excuse only what leaves that effect.
-/

namespace VirtualShell

open FileTree

variable {s : Supply} {w : World} {args : List String}

theorem Progress.code_finish_eq_zero {p : Progress} (h : (p.finish w).1.code = 0) :
    p.failed = false := by
  cases hf : p.failed with
  | false => rfl
  | true => simp [finish, reply, hf] at h

namespace Command

theorem code_failure_ne_zero (command : String) (e : ShellError) :
    (Reply.failure command e).code ≠ 0 := by
  cases e <;> exact Nat.noConfusion

theorem touched_of_code_zero (h : (runTouch s args w).1.code = 0) :
    (args.foldl (touchFile s) (.start w.tree)).failed = false ∧
      (runTouch s args w).2.tree = (args.foldl (touchFile s) (.start w.tree)).tree := by
  unfold runTouch at h ⊢
  split at h
  · exact absurd h (code_failure_ne_zero _ _)
  · next hargs =>
    rw [if_neg hargs]
    exact ⟨Progress.code_finish_eq_zero h, rfl⟩

theorem made_of_code_zero (h : (runMkdir s args w).1.code = 0) :
    ∃ r : DirectoryRequest, r.operands = args.filter (!asksParents ·) ∧
      (r.operands.foldl (r.make s) (.start w.tree)).failed = false ∧
      (runMkdir s args w).2.tree = (r.operands.foldl (r.make s) (.start w.tree)).tree := by
  unfold runMkdir at h ⊢
  split at h
  · exact absurd h (code_failure_ne_zero _ _)
  · next r hr =>
    split at h
    · exact absurd h (code_failure_ne_zero _ _)
    · next hoperands =>
      refine ⟨r, ?_, Progress.code_finish_eq_zero h, by rw [if_neg hoperands]; rfl⟩
      simpa using DirectoryRequest.operands_of_arguments hr

theorem removed_of_code_zero (h : (runRm args w).1.code = 0) :
    ∃ r, args.foldlM Removal.argument ⟨false, false, []⟩ = .ok r ∧
      r.operands = args.filter isRemovalOperand ∧
      (r.operands.foldl r.remove (.start w.tree)).failed = false ∧
      (runRm args w).2.tree = (r.operands.foldl r.remove (.start w.tree)).tree := by
  unfold runRm at h ⊢
  split at h
  · exact absurd h (code_failure_ne_zero _ _)
  · next r hr =>
    have hoperands : r.operands = args.filter isRemovalOperand := by
      simpa using operands_of_arguments hr
    refine ⟨r, hr, hoperands, ?_⟩
    split at h
    · next hempty =>
      split at h
      · next hforce =>
        rw [if_pos hempty, if_pos hforce, List.isEmpty_iff.1 hempty]
        exact ⟨rfl, rfl⟩
      · exact absurd h (code_failure_ne_zero _ _)
    · next hempty =>
      rw [if_neg hempty]
      exact ⟨Progress.code_finish_eq_zero h, rfl⟩

/-- With sources and a target, `mv` is refused only if it has several sources and the target is no
directory. -/
theorem runMv_append {sources : List String} (hsome : sources ≠ []) (dest : String) :
    runMv s (sources ++ [dest]) w =
      let path := w.tree.resolve dest
      let intoDir := (w.tree.find? path).any Node.isDirectory
      if sources.length > 1 && !intoDir then
        (.withCode ("mv: target '" ++ dest ++ "' is not a directory\n") 1, w)
      else (sources.foldl (moveOne s dest path intoDir) (.start w.tree)).finish w := by
  unfold runMv
  split
  · next hargs => simp at hargs
  · next source hargs =>
    exact absurd (List.append_inj' (show sources ++ [dest] = [] ++ [source] from hargs) rfl).1 hsome
  · next hlast _ _ => simp at hlast
  · next dest' hlast _ _ =>
    obtain rfl : dest = dest' := by simpa using hlast
    simp only [List.dropLast_concat]

/-- A successful `mv` has sources and a target; if this is no directory, there is one source. -/
theorem moved_of_code_zero (h : (runMv s args w).1.code = 0) :
    ∃ sources dest, args = sources ++ [dest] ∧ sources ≠ [] ∧
      let intoDir := (w.tree.find? (w.tree.resolve dest)).any Node.isDirectory
      let moved := sources.foldl (moveOne s dest (w.tree.resolve dest) intoDir) (.start w.tree)
      (intoDir = false → sources.length = 1) ∧ moved.failed = false ∧
        (runMv s args w).2.tree = moved.tree := by
  rcases List.eq_nil_or_concat args with rfl | ⟨sources, dest, rfl⟩
  · exact absurd h (code_failure_ne_zero _ _)
  · rw [List.concat_eq_append] at h ⊢
    have hsome : sources ≠ [] := by
      rintro rfl
      exact code_failure_ne_zero _ _ h
    refine ⟨sources, dest, rfl, hsome, ?_⟩
    rw [runMv_append hsome] at h ⊢
    dsimp only at h ⊢
    split at h
    · cases h
    · next hfew =>
      rw [if_neg hfew]
      refine ⟨fun hplain => ?_, Progress.code_finish_eq_zero h, rfl⟩
      have hlen := List.length_pos_iff.2 hsome
      have hmany : ¬ 1 < sources.length := fun hmany => hfew (by simp [hmany, hplain])
      omega

/-- After a move into a directory each source is among its children, under its old name. -/
theorem listed_of_moved (h : w.tree.Consistent) {dest : String} {d : Node}
    (hd : w.tree.find? dest = some d) (hdir : d.isDirectory = true) {sources : List String}
    (hok : (sources.foldl (moveOne s dest (w.tree.resolve dest) true)
      (.start w.tree)).failed = false) :
    let moved (sources : List String) :=
      (sources.foldl (moveOne s dest (w.tree.resolve dest) true) (.start w.tree)).tree
    ∀ before source after, sources = before ++ source :: after →
      ∃ n m d', (moved before).find? source = some n ∧ (moved sources).node? n.id = some m ∧
        m.name = n.name ∧ (moved sources).find? (w.tree.resolve dest) = some d' ∧ d'.id = d.id ∧
        n.id ∈ d'.children := by
  intro moved before source after hsplit
  have hdest := h.normal_resolve dest
  obtain ⟨⟨hfinal, d', hd', hid, -⟩, hdone⟩ :=
    (lasting_moveOne s dest hdest).at_end (p := .start w.tree) ⟨h, d, hd, rfl, hdir⟩ hok
  obtain ⟨n, m, hn, hm, hname, hparent⟩ := hdone before source after hsplit
  obtain ⟨e, he, -, hlisted, -⟩ := hfinal.parent_spec hm hparent
  rw [← hid, (hfinal.lookup?_eq_some.1 hd').1, Option.some.injEq] at he
  exact ⟨n, m, d', hn, hm, hname, (find?_of_normal hdest).trans hd', hid, he ▸ hlisted⟩

/-- After a move that is not into a directory the source is at the path that was named. -/
theorem found_of_moved (h : w.tree.Consistent) {dest source : String}
    (hfile : ∀ d, w.tree.find? dest = some d → d.isDirectory = false)
    (hok : (moveOne s dest (w.tree.resolve dest) false (.start w.tree) source).failed = false) :
    ∃ n m, w.tree.find? source = some n ∧
      (moveOne s dest (w.tree.resolve dest) false (.start w.tree) source).tree.find?
        (w.tree.resolve dest) = some m ∧ m.id = n.id := by
  have hroot : w.tree.resolve dest ≠ "/" := by
    intro hslash
    obtain ⟨root, hroot, -, hdir⟩ := h.lookup?_root
    rw [find?, hslash] at hfile
    rw [hfile root hroot] at hdir
    cases hdir
  exact found_of_moveAs h (h.normal_resolve dest) hroot (Progress.of_attempt hok).2

/-- Exit code zero is truthful. After `touch` every operand names a node, and after `mkdir` a
directory; after `rm` nothing is at a path that an operand named at its turn. After `mv` each source
is in the directory that was the target, under the name it had at its turn; or the target was no
directory, and the single source is at its path. -/
theorem fulfilled_of_code_zero (h : w.tree.Consistent) (s : Supply) (args : List String) :
    ((runTouch s args w).1.code = 0 →
      ∀ file ∈ args, ∃ n, (runTouch s args w).2.tree.find? file = some n) ∧
    ((runMkdir s args w).1.code = 0 → ∀ dir ∈ args.filter (!asksParents ·),
      ∃ n, (runMkdir s args w).2.tree.find? dir = some n ∧ n.isDirectory = true) ∧
    ((runRm args w).1.code = 0 → ∃ r, args.foldlM Removal.argument ⟨false, false, []⟩ = .ok r ∧
      ∀ before operand after, args.filter isRemovalOperand = before ++ operand :: after →
        let turn := (before.foldl r.remove (.start w.tree)).tree
        (runRm args w).2.tree.find? (turn.resolve operand) = none) ∧
    ((runMv s args w).1.code = 0 → ∃ sources dest, args = sources ++ [dest] ∧ sources ≠ [] ∧
      let path := w.tree.resolve dest
      let final := (runMv s args w).2.tree
      (∃ d, w.tree.find? dest = some d ∧ d.isDirectory = true ∧
        ∀ before source after, sources = before ++ source :: after →
          let turn := (before.foldl (moveOne s dest path true) (.start w.tree)).tree
          ∃ n m d', turn.find? source = some n ∧ final.node? n.id = some m ∧ m.name = n.name ∧
            final.find? path = some d' ∧ d'.id = d.id ∧ n.id ∈ d'.children) ∨
      ((∀ d, w.tree.find? dest = some d → d.isDirectory = false) ∧
        ∃ source n m, sources = [source] ∧ w.tree.find? source = some n ∧
          final.find? path = some m ∧ m.id = n.id)) := by
  refine ⟨fun hzero => ?touch, fun hzero => ?mkdir, fun hzero => ?rm, fun hzero => ?mv⟩
  case touch =>
    obtain ⟨hok, htree⟩ := touched_of_code_zero hzero
    rw [htree]
    exact (lasting_touchFile s).of_mem h hok
  case mkdir =>
    obtain ⟨r, hoperands, hok, htree⟩ := made_of_code_zero hzero
    rw [htree, ← hoperands]
    exact (r.lasting_make s).of_mem h hok
  case rm =>
    obtain ⟨r, hr, hoperands, hok, htree⟩ := removed_of_code_zero hzero
    refine ⟨r, hr, fun before operand after hsplit => ?_⟩
    obtain ⟨hnormal, hgone⟩ :=
      (r.lasting_remove.at_end h hok).2 before operand after (hoperands.trans hsplit)
    rw [htree]
    exact (find?_of_normal hnormal).trans hgone
  case mv =>
    obtain ⟨sources, dest, hargs, hsome, hone, hok, htree⟩ := moved_of_code_zero hzero
    refine ⟨sources, dest, hargs, hsome, ?_⟩
    dsimp only
    rw [htree]
    rw [h.find?_resolve] at hone hok ⊢
    cases hinto : (w.tree.find? dest).any Node.isDirectory with
    | true =>
      rw [hinto] at hok
      obtain ⟨d, hd, hdir⟩ := (Option.any_eq_true _ _).1 hinto
      exact Or.inl ⟨d, hd, hdir, listed_of_moved h hd hdir hok⟩
    | false =>
      rw [hinto] at hok hone
      have hfile : ∀ d, w.tree.find? dest = some d → d.isDirectory = false := by
        intro d hd
        rwa [hd] at hinto
      obtain ⟨source, rfl⟩ := List.length_eq_one_iff.1 (hone rfl)
      obtain ⟨n, m, hn, hm, hid⟩ := found_of_moved h hfile hok
      exact Or.inr ⟨hfile, source, n, m, rfl, hn, hm, hid⟩

/-- The operands of each command meet one another: directories are asked for from below, `rm` comes to
a directory after what was in it, and `mv` to the current directory after a file beside it. -/
theorem fulfilled_beside_file :
    let s : Supply := ⟨.still ⟨0, 0⟩, .counting⟩
    let w : World := ⟨besideFile, default⟩
    w.tree.Consistent ∧
    ((runTouch s ["note", "note"] w).1.code = 0 ∧
      ∃ n, (runTouch s ["note", "note"] w).2.tree.find? "note" = some n) ∧
    ((runMkdir s ["-p", "b/c", "b"] w).1.code = 0 ∧
      ∃ n, (runMkdir s ["-p", "b/c", "b"] w).2.tree.find? "b" = some n ∧ n.isDirectory = true) ∧
    ((runRm ["../x", "-r", "/tmp"] w).1.code = 0 ∧
      (runRm ["../x", "-r", "/tmp"] w).2.tree.find? "/tmp/x" = none) ∧
    ((runMv s ["../x", "../a", "/"] w).1.code = 0 ∧
      ∃ n m d, w.tree.find? "../x" = some n ∧
        (runMv s ["../x", "../a", "/"] w).2.tree.node? n.id = some m ∧ m.name = n.name ∧
        (runMv s ["../x", "../a", "/"] w).2.tree.find? (w.tree.resolve "/") = some d ∧
        n.id ∈ d.children) := by
  intro s w
  have h : w.tree.Consistent := consistent_besideFile
  have htouch : (runTouch s ["note", "note"] w).1.code = 0 := by decide +kernel
  have hmkdir : (runMkdir s ["-p", "b/c", "b"] w).1.code = 0 := by decide +kernel
  have hrm : (runRm ["../x", "-r", "/tmp"] w).1.code = 0 := by decide +kernel
  have hmv : (runMv s ["../x", "../a", "/"] w).1.code = 0 := by decide +kernel
  have hbeside : w.tree.resolve "../x" = "/tmp/x" := by decide
  clear_value w
  refine ⟨h, ⟨htouch, ?_⟩, ⟨hmkdir, ?_⟩, ⟨hrm, ?_⟩, hmv, ?_⟩
  · exact (fulfilled_of_code_zero h s _).1 htouch "note" (by decide)
  · exact (fulfilled_of_code_zero h s _).2.1 hmkdir "b" (by decide)
  · obtain ⟨r, -, hdone⟩ := (fulfilled_of_code_zero h s _).2.2.1 hrm
    have hgone := hdone [] "../x" ["/tmp"] (by decide)
    dsimp only [List.foldl_nil, Progress.start] at hgone
    rwa [hbeside] at hgone
  · obtain ⟨sources, dest, hargs, -, hcases⟩ := (fulfilled_of_code_zero h s _).2.2.2 hmv
    obtain ⟨rfl, hlast⟩ :=
      List.append_inj' (show ["../x", "../a"] ++ ["/"] = sources ++ [dest] from hargs) rfl
    obtain rfl : "/" = dest := by simpa using hlast
    rcases hcases with ⟨d, -, -, hdone⟩ | ⟨-, source, n, m, hone, -⟩
    · obtain ⟨n, m, d', hn, hm, hname, hd', -, hlisted⟩ := hdone [] "../x" ["../a"] rfl
      exact ⟨n, m, d', hn, hm, hname, hd', hlisted⟩
    · simp at hone

end Command

end VirtualShell
