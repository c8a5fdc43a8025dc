import VirtualShell.Proofs.Shell.Resumption
import VirtualShell.Proofs.Tree.Alike

/-!
# Ids do not show

Two terminals that work by the same clocks and differ only in where their ids come from cannot be
told apart (`Terminal.transcript_eq_of_ids`). Their trees stay alike: a command makes the same
changes to both, and what it displays are names, paths, texts and metadata, in an order that depends
on these alone. Each command is treated operand by operand; `Command.run_alike` has all of them.
-/

namespace VirtualShell

open FileTree Calendar

/-- The trees are alike, as many changes were made, and the same was said. -/
structure Progress.Alike (p p' : Progress) : Prop where
  tree : p.tree.Alike p'.tree
  turn : p'.turn = p.turn
  text : p'.text = p.text
  failed : p'.failed = p.failed
  damage : p'.damage = p.damage

/-- The trees are alike, and the sessions are equal. -/
structure World.Alike (w w' : World) : Prop where
  tree : w.tree.Alike w'.tree
  session : w'.session = w.session

/-- The same is shown, and the worlds are alike afterwards. -/
structure SameAnswer {α : Type} (answer answer' : α × World) : Prop where
  shown : answer'.1 = answer.1
  world : answer.2.Alike answer'.2

namespace Progress.Alike

variable {p p' : Progress}

theorem start {t t' : FileTree} (h : t.Alike t') : (Progress.start t).Alike (.start t') :=
  ⟨h, rfl, rfl, rfl, rfl⟩

theorem say (h : p.Alike p') (text : String) : (p.say text).Alike (p'.say text) :=
  ⟨h.tree, h.turn, congrArg (· ++ text) h.text, h.failed, h.damage⟩

theorem complain (h : p.Alike p') (text : String) : (p.complain text).Alike (p'.complain text) :=
  ⟨h.tree, h.turn, congrArg (· ++ text) h.text, rfl, h.damage⟩

theorem attempt (h : p.Alike p') {x x' : Except TreeError FileTree} (hx : Likewise x x')
    (wording : TreeError → String) : (p.attempt x wording).Alike (p'.attempt x' wording) := by
  cases hx with
  | ok ht => exact ⟨ht, congrArg (· + 1) h.turn, h.text, h.failed, h.damage⟩
  | error e => exact h.complain (wording e)

theorem reply_eq (h : p.Alike p') : p'.reply = p.reply := by
  unfold reply
  rw [h.text, h.failed, h.damage]

theorem finish (h : p.Alike p') {w w' : World} (hw : w.Alike w') :
    SameAnswer (p.finish w) (p'.finish w') :=
  ⟨h.reply_eq, h.tree, hw.session⟩

theorem foldl {α : Type} {f f' : Progress → α → Progress}
    (hstep : ∀ p p' a, p.Alike p' → (f p a).Alike (f' p' a)) (h : p.Alike p')
    (operands : List α) : (operands.foldl f p).Alike (operands.foldl f' p') :=
  List.foldl_rel h fun a _ p p' hp => hstep p p' a hp

/-- The same for commands that keep something besides the progress. -/
theorem foldl_fst {α β : Type} {f f' : Progress × β → α → Progress × β}
    (hstep : ∀ p p' b a, p.Alike p' →
      (f (p, b) a).1.Alike (f' (p', b) a).1 ∧ (f' (p', b) a).2 = (f (p, b) a).2)
    (h : p.Alike p') (b : β) (operands : List α) :
    (operands.foldl f (p, b)).1.Alike (operands.foldl f' (p', b)).1 ∧
      (operands.foldl f' (p', b)).2 = (operands.foldl f (p, b)).2 := by
  induction operands generalizing p p' b with
  | nil => exact ⟨h, rfl⟩
  | cons a operands ih =>
    obtain ⟨hfirst, hsecond⟩ := hstep p p' b a h
    rw [List.foldl_cons, List.foldl_cons]
    generalize f (p, b) a = r at hfirst hsecond
    generalize f' (p', b) a = r' at hfirst hsecond
    obtain ⟨q, c⟩ := r
    obtain ⟨q', c'⟩ := r'
    cases hsecond
    exact ih hfirst c

end Progress.Alike

namespace Command

variable {w w' : World} {s s' : Supply}

/-! ## Commands that read -/

theorem entries_alike (l : Listing) (σ : Equiv.Perm NodeId) (t : FileTree) (d : Node) :
    l.entries (t.relabel σ) (d.relabel σ) = (l.entries t d).map (·.relabel σ) := by
  unfold Listing.entries
  rw [childNodes_relabel, List.filter_map]
  -- entries are sorted by their names
  symm
  apply List.map_mergeSort
  intro a _ b _
  rfl

theorem body_alike (l : Listing) (c : Clock) (σ : Equiv.Perm NodeId) (t : FileTree)
    (d : Node) : l.body c (t.relabel σ) (d.relabel σ) = l.body c t d := by
  unfold Listing.body
  dsimp only
  rw [entries_alike, List.length_map, List.zipIdx_map, List.map_map]
  rfl

theorem operand_alike (l : Listing) (c : Clock) (several : Bool) (item : String × Nat)
    {p p' : Progress} (hp : p.Alike p') :
    (l.operand c several p item).Alike (l.operand c several p' item) := by
  unfold Listing.operand
  dsimp only
  obtain ⟨σ, hσ⟩ := hp.tree.relabelled
  rw [hσ, find?_relabel]
  cases p.tree.find? item.1 with
  | none => exact hp.complain _
  | some n =>
    rw [Option.map_some]
    dsimp only
    rw [Node.relabel_isFile, body_alike]
    split
    · exact hp.say _
    · exact hp.say _

theorem runLs_alike (c : Clock) (args : List String) (h : w.Alike w') :
    runLs c args w' = runLs c args w := by
  unfold runLs
  split
  · rfl
  · next l _ =>
    apply Progress.Alike.reply_eq
    apply Progress.Alike.foldl _ (.start h.tree)
    intro p p' item hp
    exact operand_alike l c _ item hp

theorem runCat_alike (args : List String) (h : w.Alike w') : runCat args w' = runCat args w := by
  unfold runCat
  dsimp only
  split
  · rfl
  · have hshow : ∀ p p' next file, p.Alike p' →
        (showFile (args.any asksNumbers) (p, next) file).1.Alike
            (showFile (args.any asksNumbers) (p', next) file).1 ∧
          (showFile (args.any asksNumbers) (p', next) file).2 =
            (showFile (args.any asksNumbers) (p, next) file).2 := by
      intro p p' next file hp
      unfold showFile
      dsimp only
      rw [hp.tree.read_eq]
      split
      · exact ⟨hp.complain _, rfl⟩
      · split
        · exact ⟨hp.say _, rfl⟩
        · exact ⟨hp.say _, rfl⟩
    exact (Progress.Alike.foldl_fst hshow (.start h.tree) 1 _).1.reply_eq

theorem runExcerpt_alike (command : String) (cut : Nat → List Char → List Char)
    (args : List String) (h : w.Alike w') :
    Excerpt.run command cut args w' = Excerpt.run command cut args w := by
  unfold Excerpt.run
  split
  · rfl
  · next e _ =>
    have hshow : ∀ p p' shown file, p.Alike p' →
        (e.showOne command cut (p, shown) file).1.Alike
            (e.showOne command cut (p', shown) file).1 ∧
          (e.showOne command cut (p', shown) file).2 =
            (e.showOne command cut (p, shown) file).2 := by
      intro p p' shown file hp
      unfold Excerpt.showOne
      dsimp only
      rw [hp.tree.read_eq]
      split
      · exact ⟨hp.complain _, rfl⟩
      · exact ⟨hp.say _, rfl⟩
    exact (Progress.Alike.foldl_fst hshow (.start h.tree) 0 _).1.reply_eq

theorem runWc_alike (args : List String) (h : w.Alike w') : runWc args w' = runWc args w := by
  unfold runWc
  split
  · rfl
  · next t _ =>
    split
    · rfl
    · have hmeasure : ∀ p p' rows file, p.Alike p' →
          (Tally.measure (p, rows) file).1.Alike (Tally.measure (p', rows) file).1 ∧
            (Tally.measure (p', rows) file).2 = (Tally.measure (p, rows) file).2 := by
        intro p p' rows file hp
        unfold Tally.measure
        dsimp only
        rw [hp.tree.read_eq]
        split
        · exact ⟨hp, rfl⟩
        · exact ⟨hp.complain _, rfl⟩
      obtain ⟨hp, hrows⟩ :=
        Progress.Alike.foldl_fst hmeasure (.start h.tree) [] t.operands
      dsimp only
      rw [hrows]
      exact (hp.say _).reply_eq

theorem runGrep_alike (args : List String) (h : w.Alike w') :
    runGrep args w' = runGrep args w := by
  unfold runGrep
  split
  · rfl
  · next pattern s _ =>
    split
    · rfl
    · next regex _ =>
      have hsearch : ∀ p p' found file, p.Alike p' →
          (s.searchFile regex (p, found) file).1.Alike (s.searchFile regex (p', found) file).1 ∧
            (s.searchFile regex (p', found) file).2 = (s.searchFile regex (p, found) file).2 := by
        intro p p' found file hp
        unfold Search.searchFile
        dsimp only
        rw [hp.tree.read_eq]
        split
        · exact ⟨hp.complain _, rfl⟩
        · exact ⟨hp.say _, rfl⟩
      obtain ⟨hp, hfound⟩ :=
        Progress.Alike.foldl_fst hsearch (.start h.tree) false s.operands
      dsimp only
      rw [hfound, hp.text, hp.failed]

/-! ## Commands that change the tree -/

theorem changeTo_alike (h : w.Alike w') (target shown : String) (announce : Bool) :
    SameAnswer (changeTo w target shown announce) (changeTo w' target shown announce) := by
  have hchange := likewise_changeDirectory h.tree target
  unfold changeTo
  generalize w.tree.changeDirectory target = x at hchange ⊢
  generalize w'.tree.changeDirectory target = x' at hchange ⊢
  cases hchange with
  | error e => exact ⟨rfl, h⟩
  | ok ht =>
    dsimp only
    rw [ht.currentDirectory_eq, h.session]
    exact ⟨rfl, ht, rfl⟩

theorem runCd_alike (args : List String) (h : w.Alike w') :
    SameAnswer (runCd args w) (runCd args w') := by
  unfold runCd
  rw [h.session]
  split
  · exact changeTo_alike h _ _ _
  · split_ifs
    · exact changeTo_alike h _ _ _
    · split
      · exact changeTo_alike h _ _ _
      · exact ⟨rfl, h⟩
    · exact changeTo_alike h _ _ _
  · exact ⟨rfl, h⟩

theorem isSome_find?_alike {t t' : FileTree} (h : t.Alike t') (path : String) :
    (t'.find? path).isSome = (t.find? path).isSome := by
  obtain ⟨σ, hfind⟩ := h.exists_find?_eq
  rw [hfind, Option.isSome_map]

theorem runTouch_alike (hclock : s'.clock = s.clock) (args : List String) (h : w.Alike w') :
    SameAnswer (runTouch s args w) (runTouch s' args w') := by
  unfold runTouch
  split
  · exact ⟨rfl, h⟩
  · refine (Progress.Alike.foldl ?_ (.start h.tree) args).finish h
    intro p p' file hp
    unfold touchFile
    dsimp only
    rw [hp.tree.resolve_eq, isSome_find?_alike hp.tree, hp.turn]
    apply hp.attempt
    split
    · exact Change.likewise_run hp.tree (Supply.clock_turn hclock _) (.touch _)
    · exact Change.likewise_run hp.tree (Supply.clock_turn hclock _) (.createFile _ _ _)

theorem runMkdir_alike (hclock : s'.clock = s.clock) (args : List String) (h : w.Alike w') :
    SameAnswer (runMkdir s args w) (runMkdir s' args w') := by
  unfold runMkdir
  split
  · exact ⟨rfl, h⟩
  · split
    · exact ⟨rfl, h⟩
    · refine (Progress.Alike.foldl ?_ (.start h.tree) _).finish h
      intro p p' dir hp
      unfold DirectoryRequest.make
      dsimp only
      rw [hp.tree.resolve_eq, hp.turn]
      apply hp.attempt
      split
      · exact Change.likewise_run hp.tree (Supply.clock_turn hclock _) (.createPath _)
      · exact Change.likewise_run hp.tree (Supply.clock_turn hclock _) (.createDirectory _ _)

theorem remove_alike (r : Removal) {p p' : Progress} (hp : p.Alike p') (operand : String) :
    (r.remove p operand).Alike (r.remove p' operand) := by
  have hdelete := likewise_delete hp.tree (p.tree.resolve operand)
  unfold Removal.remove
  dsimp only
  rw [hp.tree.resolve_eq]
  obtain ⟨σ, hfind⟩ := hp.tree.exists_find?_eq
  rw [hfind]
  cases p.tree.find? (p.tree.resolve operand) with
  | none =>
    dsimp only [Option.map_none]
    split
    · exact hp
    · exact hp.complain _
  | some n =>
    rw [Option.map_some]
    dsimp only
    rw [Node.relabel_isDirectory, Node.relabel_parent, Option.isNone_map]
    split
    · exact hp.complain _
    · have hreported : ∀ damage : List Int, Progress.Alike
          { p with damage := p.damage ++ damage } { p' with damage := p'.damage ++ damage } :=
        fun damage => ⟨hp.tree, hp.turn, hp.text, hp.failed, congrArg (· ++ damage) hp.damage⟩
      exact (hreported _).attempt hdelete _

theorem runRm_alike (args : List String) (h : w.Alike w') :
    SameAnswer (runRm args w) (runRm args w') := by
  unfold runRm
  split
  · exact ⟨rfl, h⟩
  · next r _ =>
    split
    · split
      · exact ⟨rfl, h⟩
      · exact ⟨rfl, h⟩
    · refine (Progress.Alike.foldl ?_ (.start h.tree) r.operands).finish h
      intro p p' operand hp
      exact remove_alike r hp operand

theorem runMv_alike (hclock : s'.clock = s.clock) (args : List String) (h : w.Alike w') :
    SameAnswer (runMv s args w) (runMv s' args w') := by
  have hdir : ∀ path, (w'.tree.find? path).any Node.isDirectory =
      (w.tree.find? path).any Node.isDirectory := by
    intro path
    obtain ⟨σ, hfind⟩ := h.tree.exists_find?_eq
    rw [hfind]
    cases w.tree.find? path with
    | none => rfl
    | some n => exact Node.relabel_isDirectory σ n
  unfold runMv
  split
  · exact ⟨rfl, h⟩
  · exact ⟨rfl, h⟩
  · exact ⟨rfl, h⟩
  · dsimp only
    rw [h.tree.resolve_eq, hdir]
    split
    · exact ⟨rfl, h⟩
    · refine (Progress.Alike.foldl ?_ (.start h.tree) _).finish h
      intro p p' source hp
      unfold moveOne
      dsimp only
      rw [hp.turn]
      apply hp.attempt
      split
      · exact Change.likewise_run hp.tree (Supply.clock_turn hclock _) (.move _ _)
      · exact Change.likewise_run hp.tree (Supply.clock_turn hclock _) (.moveAs _ _ _)

theorem write_alike (hclock : s'.clock = s.clock) {t t' : FileTree} (h : t.Alike t') (r : Redirection)
    (text : String) : Likewise (r.write s t text) (r.write s' t' text) := by
  unfold Redirection.write
  dsimp only
  rw [h.resolve_eq]
  obtain ⟨σ, hfind⟩ := h.exists_find?_eq
  rw [hfind]
  cases t.find? (t.resolve r.target) with
  | none => exact Change.likewise_run h hclock (.createFile _ _ _)
  | some n =>
    rw [Option.map_some]
    dsimp only
    rw [Node.relabel_text?]
    exact Change.likewise_run h hclock (.write _ _)

theorem runEcho_alike (hclock : s'.clock = s.clock) (args : List String) (h : w.Alike w') :
    SameAnswer (runEcho s args w) (runEcho s' args w') := by
  unfold runEcho
  rw [h.session]
  split
  · exact ⟨rfl, h⟩
  · dsimp only
    split
    · exact ⟨rfl, h⟩
    · next words redirection r _ =>
      have hwrite :=
        write_alike (Supply.clock_turn hclock 0) h.tree r (echoText w.session.env words)
      generalize r.write (s.turn 0) w.tree (echoText w.session.env words) = x at hwrite ⊢
      generalize r.write (s'.turn 0) w'.tree (echoText w.session.env words) = x' at hwrite ⊢
      cases hwrite with
      | error e => exact ⟨rfl, h⟩
      | ok ht => exact ⟨rfl, ht, rfl⟩

/-! ## Commands on the session -/

theorem runHistory_alike (args : List String) (h : w.Alike w') :
    SameAnswer (runHistory args w) (runHistory args w') := by
  unfold runHistory
  dsimp only
  rw [h.session]
  split
  · exact ⟨rfl, h⟩
  · split
    · exact ⟨rfl, h.tree, rfl⟩
    · split
      · exact ⟨rfl, h⟩
      · exact ⟨rfl, h⟩
  · exact ⟨rfl, h⟩

theorem runAlias_alike (args : List String) (h : w.Alike w') :
    SameAnswer (runAlias args w) (runAlias args w') := by
  unfold runAlias
  rw [h.session]
  split
  · exact ⟨rfl, h⟩
  · exact ⟨rfl, h.tree, rfl⟩

theorem runUnalias_alike (args : List String) (h : w.Alike w') :
    SameAnswer (runUnalias args w) (runUnalias args w') := by
  unfold runUnalias
  rw [h.session]
  split
  · exact ⟨rfl, h⟩
  · exact ⟨rfl, h.tree, rfl⟩

theorem runExport_alike (args : List String) (h : w.Alike w') :
    SameAnswer (runExport args w) (runExport args w') := by
  unfold runExport
  rw [h.session]
  split
  · exact ⟨rfl, h⟩
  · exact ⟨rfl, h.tree, rfl⟩

/-! ## All commands -/

/-- A command answers alike in worlds that are alike and leaves them alike. -/
theorem run_alike {s s' : Surroundings} (hclock : s'.supply.clock = s.supply.clock)
    (ho : s'.options = s.options) (c : Command) (args : List String) (h : w.Alike w') :
    SameAnswer (c.run s args w) (c.run s' args w') := by
  have hnow : s'.supply.now = s.supply.now := Supply.now_eq hclock
  cases c with
  | cd => exact runCd_alike args h
  | touch => exact runTouch_alike hclock args h
  | mkdir => exact runMkdir_alike hclock args h
  | rm => exact runRm_alike args h
  | mv => exact runMv_alike hclock args h
  | echo => exact runEcho_alike hclock args h
  | pwd =>
    refine ⟨?_, h⟩
    rw [run, run, runPwd, runPwd, h.tree.currentDirectory_eq]
  | ls =>
    refine ⟨?_, h⟩
    rw [run, run, hclock]
    exact runLs_alike _ args h
  | cat => exact ⟨runCat_alike args h, h⟩
  | head | tail => exact ⟨runExcerpt_alike _ _ args h, h⟩
  | wc => exact ⟨runWc_alike args h, h⟩
  | grep => exact ⟨runGrep_alike args h, h⟩
  | whoami | hostname | uname =>
    refine ⟨?_, h⟩
    rw [run, run, ho]
  | date =>
    refine ⟨?_, h⟩
    rw [run, run, hnow]
  | uptime =>
    refine ⟨?_, h⟩
    rw [run, run, hnow, runUptime, runUptime, h.session]
  | env =>
    refine ⟨?_, h⟩
    unfold run runEnv
    rw [h.session]
  | man | help | clear | exit => exact ⟨rfl, h⟩
  | history => exact runHistory_alike args h
  | aliases => exact runAlias_alike args h
  | unalias => exact runUnalias_alike args h
  | exports => exact runExport_alike args h

end Command

namespace Shell

variable {w w' : World} {s s' : Surroundings}

theorem respond_alike (hclock : s'.supply.clock = s.supply.clock) (ho : s'.options = s.options)
    (h : w.Alike w') (line : String) :
    (respond s' w' line).1 = (respond s w line).1 ∧
      SameAnswer (respond s w line).2 (respond s' w' line).2 := by
  unfold respond
  split
  · exact ⟨rfl, rfl, h⟩
  · unfold dispatch
    rw [h.session]
    split
    · exact ⟨rfl, rfl, h⟩
    · dsimp only
      split
      · next c _ => exact ⟨rfl, Command.run_alike hclock ho c _ h⟩
      · exact ⟨rfl, rfl, h⟩

theorem conclude_alike (input : String) {a a' : String × Reply × World} (hname : a'.1 = a.1)
    (h : SameAnswer a.2 a'.2) : SameAnswer (conclude input a) (conclude input a') := by
  unfold conclude
  dsimp only
  rw [hname, h.shown, h.world.tree.currentDirectory_eq, h.world.session]
  exact ⟨rfl, h.world.tree, rfl⟩

/-- A line has the same result in worlds that are alike and leaves them alike. -/
theorem exec_alike (hclock : s'.supply.clock = s.supply.clock) (ho : s'.options = s.options)
    (h : w.Alike w') (input : String) :
    SameAnswer (exec s w input) (exec s' w' input) := by
  by_cases hblank : Text.trim input = ""
  · rw [exec_blank hblank, exec_blank hblank, h.tree.currentDirectory_eq, h.session]
    exact ⟨rfl, h.tree, rfl⟩
  · have hrecorded : (recorded s w input).Alike (recorded s' w' input) := by
      constructor
      · rw [tree_recorded, tree_recorded]
        exact h.tree
      · rw [session_recorded, session_recorded, h.tree.currentDirectory_eq, h.session, ho]
    obtain ⟨hname, hanswer⟩ := respond_alike hclock ho hrecorded (Text.trim input)
    rw [exec_line hblank, exec_line hblank]
    exact conclude_alike input hname hanswer

end Shell

namespace Terminal

/-- A line that two terminals execute by the same clock, each with its own source of ids. -/
structure SharedLine where
  clock : Clock
  ids : IdSource
  ids' : IdSource
  input : String

/-- The line as the first terminal executes it. -/
def SharedLine.first (l : SharedLine) : Supply × String := (⟨l.clock, l.ids⟩, l.input)

/-- The line as the second terminal executes it. -/
def SharedLine.second (l : SharedLine) : Supply × String := (⟨l.clock, l.ids'⟩, l.input)

variable {t t' : Terminal}

theorem prompt_alike (ho : t'.options = t.options) (h : t.world.Alike t'.world) :
    t'.prompt = t.prompt := by
  unfold prompt
  rw [ho, h.tree.currentDirectory_eq]

theorem exec_alike (ho : t'.options = t.options) (h : t.world.Alike t'.world) {s s' : Supply}
    (hclock : s'.clock = s.clock) (input : String) : (t'.exec s' input).1 = (t.exec s input).1 ∧
      (t'.exec s' input).2.options = (t.exec s input).2.options ∧
      (t.exec s input).2.world.Alike (t'.exec s' input).2.world := by
  have hsupplies : (Surroundings.mk s' t'.options).supply.clock =
      (Surroundings.mk s t.options).supply.clock := hclock
  obtain ⟨hresult, hafter⟩ := Shell.exec_alike hsupplies ho h input
  rw [exec_eq, exec_eq]
  dsimp only
  exact ⟨hresult, ho, hafter⟩

/-- Terminals in worlds that are alike answer every list of lines alike, whatever ids they take. -/
theorem transcript_alike (ho : t'.options = t.options) (h : t.world.Alike t'.world)
    (lines : List SharedLine) : t'.transcript (lines.map SharedLine.second) =
      t.transcript (lines.map SharedLine.first) := by
  induction lines generalizing t t' with
  | nil => rfl
  | cons line lines ih =>
    have hclock : line.second.1.clock = line.first.1.clock := rfl
    have hinput : line.second.2 = line.first.2 := rfl
    obtain ⟨hresult, hoptions, hafter⟩ := exec_alike ho h hclock line.first.2
    have hprompt := prompt_alike hoptions hafter
    have hrest := ih hoptions hafter
    rw [List.map_cons, List.map_cons, transcript, transcript, hinput, hresult, hprompt, hrest]

theorem options_start (o : Options) (s : Supply) : (start o s).options = o := rfl

theorem enterStartDir_alike (o : Options) {t t' : FileTree} (h : t.Alike t') :
    (enterStartDir o t).Alike (enterStartDir o t') := by
  unfold enterStartDir
  split
  · exact h
  · next dir _ =>
    have hchange := likewise_changeDirectory h dir
    generalize t.changeDirectory dir = x at hchange ⊢
    generalize t'.changeDirectory dir = x' at hchange ⊢
    cases hchange with
    | ok ht => exact ht
    | error e => exact h

theorem alike_start (o : Options) {s s' : Supply} (hclock : s'.clock = s.clock) :
    (start o s).world.Alike (start o s').world := by
  have hentered := enterStartDir_alike o (alike_seed hclock)
  refine ⟨hentered, ?_⟩
  unfold start
  dsimp only
  rw [hentered.currentDirectory_eq, Supply.now_turn hclock]

/-- Two new terminals with equal options are set up by the same clock and execute the same lines, each
line by the same clock, whatever these clocks read. Wherever each takes its ids from, at the start and
for each line, they show the same prompt, and for every line the same result and the same prompt after
it. -/
theorem transcript_eq_of_ids (o : Options) (c : Clock) (ids ids' : IdSource)
    (lines : List SharedLine) :
    let t := start o ⟨c, ids⟩
    let t' := start o ⟨c, ids'⟩
    t'.prompt = t.prompt ∧ t'.transcript (lines.map SharedLine.second) =
      t.transcript (lines.map SharedLine.first) := by
  intro t t'
  have h : t.world.Alike t'.world := alike_start o rfl
  have ho : t'.options = t.options := (options_start o _).trans (options_start o _).symm
  exact ⟨prompt_alike ho h, transcript_alike ho h lines⟩

end Terminal

end VirtualShell
