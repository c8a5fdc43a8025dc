import VirtualShell.Command.Directories
import VirtualShell.Proofs.Tree.Acceptance
import VirtualShell.Proofs.Tree.Entries

/-!
# Listings

`ls` shows of each directory just the names of its entries, in order: with `-a` all of them, else those
that are not hidden, and with `-l` each with what is known of it, behind their number
(`listed_of_runLs`). What it shows depends on the paths of the tree and on what the nodes at these paths
are; the ids of the nodes and the order in which they came are not seen (`runLs_congr`).
-/

namespace VirtualShell

open FileTree Calendar

variable {t t' : FileTree} {d : Node}

namespace Command

variable {w w' : World} {c : Clock} {args : List String}

namespace Listing

variable {l l' : Listing}

/-! ## Options -/

theorem letter_eq_ok {c : Char} : l.letter c = .ok l' ↔
    (c = 'a' ∨ c = 'l') ∧ l' = { l with all := l.all || 'a' == c, long := l.long || 'l' == c } := by
  unfold letter
  split
  · simp [eq_comm]
  · simp [eq_comm]
  · next ha hl =>
    refine iff_of_false (fun h => by cases h) ?_
    rintro ⟨hc | hc, -⟩
    · exact ha hc
    · exact hl hc

/-- Options are read one by one: each is accepted or not for itself, and changes the listing. -/
theorem foldlM_eq_ok {α : Type} (step : Listing → α → Except ShellError Listing)
    {accepted : α → Prop} {next : Listing → α → Listing}
    (hstep : ∀ l a l', step l a = .ok l' ↔ accepted a ∧ l' = next l a) {as : List α} :
    as.foldlM step l = .ok l' ↔ (∀ a ∈ as, accepted a) ∧ l' = as.foldl next l := by
  induction as generalizing l with
  | nil => simp [pure, Except.pure, eq_comm]
  | cons a as ih =>
    rw [List.foldlM_cons, List.forall_mem_cons, List.foldl_cons]
    cases ha : step l a with
    | error e =>
      refine iff_of_false (fun h => by cases h) ?_
      rintro ⟨⟨haccepted, -⟩, -⟩
      rw [(hstep l a _).2 ⟨haccepted, rfl⟩] at ha
      cases ha
    | ok l₁ =>
      obtain ⟨haccepted, rfl⟩ := (hstep l a l₁).1 ha
      exact ih.trans (and_congr_left fun _ => (and_iff_right haccepted).symm)

theorem letters_eq_ok {cs : List Char} : cs.foldlM letter l = .ok l' ↔
    (∀ c ∈ cs, c = 'a' ∨ c = 'l') ∧
      l' = { l with all := l.all || cs.contains 'a', long := l.long || cs.contains 'l' } := by
  rw [foldlM_eq_ok letter fun _ _ _ => letter_eq_ok]
  refine and_congr_right fun _ => Eq.congr_right ?_
  clear * -
  induction cs generalizing l with
  | nil => simp
  | cons c cs ih =>
    rw [List.foldl_cons, ih, List.contains_cons, List.contains_cons, Bool.or_assoc, Bool.or_assoc]

/-- An argument is an option that has a given letter. -/
def asks (c : Char) (arg : String) : Bool := (optionLetters? arg).any (·.contains c)

/-- An argument names what is to be listed. -/
def isOperand (arg : String) : Bool := (optionLetters? arg).isNone

/-- An option has no other letters than those for hidden entries and for long listings. -/
def Known (arg : String) : Prop := ∀ cs, optionLetters? arg = some cs → ∀ c ∈ cs, c = 'a' ∨ c = 'l'

theorem argument_eq_ok {arg : String} : l.argument arg = .ok l' ↔ Known arg ∧
    l' = ⟨l.all || asks 'a' arg, l.long || asks 'l' arg, l.operands ++ [arg].filter isOperand⟩ := by
  unfold argument Known asks
  cases hcs : optionLetters? arg with
  | some cs =>
    have hoption : isOperand arg = false := by rw [isOperand, hcs, Option.isNone_some]
    refine letters_eq_ok.trans ?_
    simp [hoption]
  | none =>
    have hoperand : isOperand arg = true := by rw [isOperand, hcs, Option.isNone_none]
    simp [hoperand, eq_comm (a := l')]

/-- The arguments are accepted if no option has another letter; wherever an option stands, it counts for
all operands. -/
theorem ofArgs_eq_ok : ofArgs args = .ok l ↔ (∀ arg ∈ args, Known arg) ∧
    l = ⟨args.any (asks 'a'), args.any (asks 'l'), args.filter isOperand⟩ := by
  have hfold : ∀ l : Listing, args.foldl (fun l arg => ⟨l.all || asks 'a' arg, l.long || asks 'l' arg,
      l.operands ++ [arg].filter isOperand⟩) l = ⟨l.all || args.any (asks 'a'),
        l.long || args.any (asks 'l'), l.operands ++ args.filter isOperand⟩ := by
    induction args with
    | nil => simp
    | cons arg args ih =>
      intro l
      rw [List.foldl_cons, ih, List.any_cons, List.any_cons, Bool.or_assoc, Bool.or_assoc,
        List.append_assoc, ← List.filter_append, List.singleton_append]
  rw [ofArgs, foldlM_eq_ok argument fun _ _ _ => argument_eq_ok, hfold, Bool.false_or, Bool.false_or,
    List.nil_append]

/-! ## One directory -/

/-- The names that are shown are those of the entries of the directory. -/
theorem listsEntries_entries (h : t.Consistent) {path : String} (hd : t.lookup? path = some d) :
    t.ListsEntries path l.all ((l.entries t d).map Node.name) := by
  refine h.listsEntries hd ?_ ((List.mergeSort_perm _ _).map Node.name)
  have hsorted : (l.entries t d).Pairwise fun a b => decide (a.name ≤ b.name) = true :=
    List.pairwise_mergeSort
      (fun a b c hab hbc => by
        simpa using String.le_trans (by simpa using hab) (by simpa using hbc))
      (fun a b => by simpa using String.le_total a.name b.name) _
  exact List.pairwise_map.2 (hsorted.imp of_decide_eq_true)

/-- The line for an entry beneath a path: its name, in a long listing with what is known of it. -/
def entryLine (l : Listing) (now : Instant) (t : FileTree) (path name : String) : String :=
  if l.long then (t.lookup? (Path.join path name)).elim "" fun n => longLine now n name
  else name ++ "\n"

/-- The lines for the entries beneath a path that have the given names, each made in its turn. -/
def entryLines (l : Listing) (c : Clock) (t : FileTree) (path : String) (names : List String) :
    List String :=
  names.zipIdx.map fun item => l.entryLine (c.turn item.2).now t path item.1

theorem body_eq (h : t.Consistent) {path : String} (hd : t.lookup? path = some d)
    {names : List String} (hnames : t.ListsEntries path l.all names) :
    l.body c t d = (if l.long then "total " ++ Text.decimal names.length ++ "\n" else "") ++
      String.join (l.entryLines c t path names) := by
  obtain rfl := hnames.eq (listsEntries_entries h hd)
  have hline : ∀ item ∈ (l.entries t d).zipIdx, l.line (c.turn item.2).now item.1 item.1.name =
      l.entryLine (c.turn item.2).now t path item.1.name := by
    intro item hitem
    have hentry := List.mem_mergeSort.1 (List.fst_mem_of_mem_zipIdx hitem)
    have hchild := (List.mem_filter.1 hentry).1
    rw [line, entryLine, (h.lookup?_of_mem_childNodes hd hchild).1, Option.elim_some]
  rw [body, entryLines, List.length_map, List.zipIdx_map, List.map_map, List.map_congr_left hline]
  rfl

/-! ## Operands one after another -/

/-- What is shown of an operand in its turn: a complaint, the line of a file, or the entries of a
directory, which have the given names. -/
def part (l : Listing) (c : Clock) (t : FileTree) (several : Bool) (names : String → List String)
    (item : String × Nat) : String :=
  let c := c.turn item.2
  match t.find? item.1 with
  | none =>
    "ls: cannot access '" ++ item.1 ++ "': " ++ (TreeError.notFound item.1).reason ++ "\n"
  | some n =>
    if n.isFile then l.line c.now n item.1
    else
      (if several then (if item.2 > 0 then "\n" else "") ++ item.1 ++ ":\n" else "") ++
        ((if l.long then "total " ++ Text.decimal (names item.1).length ++ "\n" else "") ++
          String.join (l.entryLines c t n.path (names item.1)))

variable {names : String → List String} {several : Bool}

theorem operand_eq (h : t.Consistent)
    (hnames : ∀ path d, t.find? path = some d → t.ListsEntries d.path l.all (names path))
    {p : Progress} (hp : p.tree = t) (item : String × Nat) :
    l.operand c several p item = ⟨t, p.turn, p.text ++ l.part c t several names item,
      p.failed || (t.find? item.1).isNone, p.damage⟩ := by
  obtain ⟨path, index⟩ := item
  unfold operand part
  dsimp only
  rw [hp]
  cases hfind : t.find? path with
  | none => simp [Progress.complain, hp]
  | some n =>
    dsimp only
    rw [body_eq h (h.lookup?_path hfind) (hnames path n hfind)]
    split
    all_goals simp [Progress.say, hp]

theorem foldl_operand (h : t.Consistent)
    (hnames : ∀ path d, t.find? path = some d → t.ListsEntries d.path l.all (names path))
    {p : Progress} (hp : p.tree = t) (items : List (String × Nat)) :
    items.foldl (l.operand c several) p =
      ⟨t, p.turn, p.text ++ String.join (items.map (l.part c t several names)),
        p.failed || items.any fun item => (t.find? item.1).isNone, p.damage⟩ := by
  induction items generalizing p with
  | nil => simp [← hp]
  | cons item items ih =>
    rw [List.foldl_cons, operand_eq h hnames hp, ih rfl, List.map_cons, String.join_cons,
      List.any_cons, String.append_assoc, Bool.or_assoc]

theorem runLs_eq (h : w.tree.Consistent) (hargs : ofArgs args = .ok l)
    (hnames : ∀ path d, w.tree.find? path = some d →
      w.tree.ListsEntries d.path l.all (names path)) :
    let operands := if l.operands.isEmpty then ["."] else l.operands
    runLs c args w = .withCode
      (String.join (operands.zipIdx.map (l.part c w.tree (operands.length > 1) names)))
      (if operands.any fun path => (w.tree.find? path).isNone then 1 else 0) := by
  intro operands
  have hany : (operands.zipIdx.any fun item => (w.tree.find? item.1).isNone) =
      operands.any fun path => (w.tree.find? path).isNone := by
    conv_rhs => rw [← List.zipIdx_map_fst 0 operands, List.any_map]
    rfl
  rw [runLs, hargs]
  change (operands.zipIdx.foldl (l.operand c _) (Progress.start w.tree)).reply = _
  rw [foldl_operand h hnames (p := .start w.tree) rfl, hany, Progress.start, String.empty_append]
  rfl

/-! ## What listings depend on -/

/-- What a listing shows of a node besides a name: whether it is a directory, and in a long listing its
metadata, where the time at which it was created is not seen. -/
def facts (long : Bool) (n : Node) : Bool × Option Metadata :=
  (n.isDirectory, if long then some { n.metadata with created := default } else none)

/-- Listings cannot tell two trees apart: the current directory has the same path, and at every path
there are nodes of which the same is shown, or none. -/
structure SameView (long : Bool) (t t' : FileTree) : Prop where
  currentDirectory : t'.currentDirectory = t.currentDirectory
  lookup : ∀ path, (t'.lookup? path).map (facts long) = (t.lookup? path).map (facts long)

/-- The nodes may be the same in another order. -/
theorem SameView.of_perm {long : Bool} (h : t.Consistent) (h' : t'.Consistent)
    (hcwd : t'.currentDirectory = t.currentDirectory)
    (hnodes : (t'.allNodes.map fun n => (n.path, facts long n)).Perm
      (t.allNodes.map fun n => (n.path, facts long n))) : SameView long t t' := by
  have hmem : ∀ {t : FileTree}, t.Consistent → ∀ path seen,
      (t.lookup? path).map (facts long) = some seen ↔
        (path, seen) ∈ t.allNodes.map fun n => (n.path, facts long n) := by
    intro t h path seen
    simp only [Option.map_eq_some_iff, List.mem_map, h.lookup?_eq_some, mem_allNodes, Prod.mk.injEq]
    constructor
    · rintro ⟨n, ⟨hn, hpath⟩, hseen⟩
      exact ⟨n, ⟨n.id, hn⟩, hpath, hseen⟩
    · rintro ⟨n, ⟨id, hn⟩, hpath, hseen⟩
      exact ⟨n, ⟨by rwa [h.key_eq_id id n hn], hpath⟩, hseen⟩
  refine ⟨hcwd, fun path => Option.ext fun seen => ?_⟩
  rw [hmem h', hmem h, hnodes.mem_iff]

theorem line_congr {n n' : Node} (hfacts : facts l.long n' = facts l.long n) (now : Instant)
    (name : String) : l.line now n' name = l.line now n name := by
  cases hlong : l.long with
  | false => simp [line, hlong]
  | true =>
    simp only [facts, hlong, if_true, Prod.mk.injEq, Option.some.injEq, Metadata.mk.injEq] at hfacts
    obtain ⟨-, hpermissions, howner, hgroup, hsize, -, hmodified⟩ := hfacts
    simp only [line, hlong, if_true, longLine, hpermissions, howner, hgroup, hsize, hmodified]

namespace SameView

variable (hview : SameView l.long t t')
include hview

/-- At a path there are nodes in both trees or in none. -/
theorem lookup_cases (path : String) : (t.lookup? path = none ∧ t'.lookup? path = none) ∨
    ∃ n n', t.lookup? path = some n ∧ t'.lookup? path = some n' ∧ n'.path = n.path ∧
      facts l.long n' = facts l.long n := by
  have hfacts := hview.lookup path
  cases hn : t.lookup? path with
  | none =>
    rw [hn, Option.map_none, Option.map_eq_none_iff] at hfacts
    exact Or.inl ⟨rfl, hfacts⟩
  | some n =>
    rw [hn, Option.map_some, Option.map_eq_some_iff] at hfacts
    obtain ⟨n', hn', hfacts⟩ := hfacts
    have hpath : n'.path = n.path :=
      (node_of_lookup?_eq_some hn').2.trans (node_of_lookup?_eq_some hn).2.symm
    exact Or.inr ⟨n, n', rfl, hn', hpath, hfacts⟩

theorem isSome (path : String) : (t'.lookup? path).isSome = (t.lookup? path).isSome := by
  simpa using congrArg Option.isSome (hview.lookup path)

theorem resolve (input : String) : t'.resolve input = t.resolve input := by
  rw [FileTree.resolve, FileTree.resolve, hview.currentDirectory]

theorem entryLine (now : Instant) (path name : String) :
    l.entryLine now t' path name = l.entryLine now t path name := by
  unfold Listing.entryLine
  split
  · next hlong =>
    rcases hview.lookup_cases (Path.join path name) with ⟨hn, hn'⟩ | ⟨n, n', hn, hn', -, hfacts⟩
    · rw [hn, hn']
    · have hline : l.line now n' name = l.line now n name :=
        line_congr hfacts now name
      simpa only [hn, hn', Option.elim_some, line, hlong, if_true] using hline
  · rfl

theorem part (item : String × Nat) :
    l.part c t' several names item = l.part c t several names item := by
  have hlines : l.entryLines (c.turn item.2) t' = l.entryLines (c.turn item.2) t := by
    funext path names
    simp only [entryLines, hview.entryLine]
  unfold Listing.part
  dsimp only
  rw [FileTree.find?, FileTree.find?, hview.resolve, hlines]
  rcases hview.lookup_cases (t.resolve item.1) with ⟨hn, hn'⟩ | ⟨n, n', hn, hn', hpath, hfacts⟩
  · rw [hn, hn']
  · have hkind : n'.isDirectory = n.isDirectory := congrArg Prod.fst hfacts
    rw [hn, hn']
    dsimp only
    rw [Node.isFile, hkind, ← Node.isFile, hpath, line_congr hfacts]

theorem listsEntries {path : String} {d' : Node}
    (hnames : ∀ d, t.find? path = some d → t.ListsEntries d.path l.all (names path))
    (hd' : t'.find? path = some d') : t'.ListsEntries d'.path l.all (names path) := by
  rw [FileTree.find?, hview.resolve] at hd'
  rcases hview.lookup_cases (t.resolve path) with ⟨-, hn'⟩ | ⟨d, n', hd, hn', hpath, -⟩
  · rw [hd'] at hn'
    cases hn'
  · rw [hd', Option.some.injEq] at hn'
    rw [hn', hpath]
    exact (hnames d hd).congr hview.isSome

end SameView

/-- The names of all entries of the directory that typed input names, in order. -/
def everyName (t : FileTree) (path : String) : List String :=
  (t.find? path).elim [] fun d => (entries ⟨true, false, []⟩ t d).map Node.name

/-- There are the names of the entries of each directory, and those that are not hidden among them. -/
theorem exists_names (h : t.Consistent) : ∃ names : Bool → String → List String,
    (∀ all path d, t.find? path = some d → t.ListsEntries d.path all (names all path)) ∧
    ∀ path, names false path = (names true path).filter fun name => name.toList.head? != some '.' := by
  have hevery : ∀ path d, t.find? path = some d → t.ListsEntries d.path true (everyName t path) := by
    intro path d hd
    rw [everyName, hd, Option.elim_some]
    exact listsEntries_entries (l := ⟨true, false, []⟩) h (h.lookup?_path hd)
  refine ⟨fun all path => if all then everyName t path
    else (everyName t path).filter fun name => name.toList.head? != some '.', ?_, fun _ => rfl⟩
  intro all path d hd
  cases all with
  | true => exact hevery path d hd
  | false => exact (hevery path d hd).plain

/-- Trees in which the same is to be seen have the same listings. -/
theorem runLs_congr (h : w.tree.Consistent) (h' : w'.tree.Consistent) (hargs : ofArgs args = .ok l)
    (hview : SameView l.long w.tree w'.tree) : runLs c args w' = runLs c args w := by
  obtain ⟨names, hnames, -⟩ := exists_names h
  rw [runLs_eq h hargs (hnames l.all), runLs_eq h' hargs fun path d' =>
    hview.listsEntries fun d hd => hnames l.all path d hd]
  have hfound : ∀ path, (w'.tree.find? path).isNone = (w.tree.find? path).isNone := by
    intro path
    rw [find?, find?, hview.resolve, ← Option.not_isSome, hview.isSome, Option.not_isSome]
  have hpart : ∀ several, l.part c w'.tree several (names l.all) =
      l.part c w.tree several (names l.all) := fun several => funext hview.part
  simp only [hfound, hpart]

/-- In a consistent tree the entries of each directory have names in order, of which those that are not
hidden are listed, or with the option for it all of them. A listing shows its operands one after
another, and of a directory just these names, each in a line; in a long listing the lines have what is
known of the nodes as well, told from the time at which the line is made, and stand behind their number.
Another tree in which the same is to be seen, in whatever order it came about, has the same listing. -/
theorem listed_of_runLs (h : w.tree.Consistent) : ∃ names : Bool → String → List String,
    (∀ all path d, w.tree.find? path = some d → w.tree.ListsEntries d.path all (names all path)) ∧
    (∀ path, names false path =
      (names true path).filter fun name => name.toList.head? != some '.') ∧
    ∀ c args l, ofArgs args = .ok l →
      let operands := if l.operands.isEmpty then ["."] else l.operands
      l = ⟨args.any (asks 'a'), args.any (asks 'l'), args.filter isOperand⟩ ∧
      runLs c args w = .withCode (String.join (operands.zipIdx.map
          (l.part c w.tree (operands.length > 1) (names l.all))))
        (if operands.any fun path => (w.tree.find? path).isNone then 1 else 0) ∧
      ∀ w' : World, w'.tree.Consistent → SameView l.long w.tree w'.tree →
        runLs c args w' = runLs c args w := by
  obtain ⟨names, hnames, hplain⟩ := exists_names h
  refine ⟨names, hnames, hplain, fun c args l hargs => ?_⟩
  exact ⟨(ofArgs_eq_ok.1 hargs).2, runLs_eq h hargs (hnames l.all), fun w' h' hview =>
    runLs_congr h h' hargs hview⟩

/-- A tree whose root has empty files of the given names, which came in this order. -/
def filesInRoot (names : List String) : FileTree :=
  let node (id name path : String) (parent : Option NodeId) (content : Content) :=
    (NodeId.mk id, Node.mk ⟨id⟩ name path parent content (.forContent content ⟨0, 0⟩) false)
  { nodes := .ofList (node "" "" "/" none (.directory (names.map NodeId.mk)) ::
      names.map fun name => node name name ("/" ++ name) (some ⟨""⟩) (.file ""))
    root := ⟨""⟩, cwd := ⟨""⟩ }

/-- A hidden file between two others, which came in another order in another tree. -/
theorem listed_of_runLs_of_hidden :
    let w : World := ⟨filesInRoot ["b", ".c", "a"], default⟩
    let w' : World := ⟨filesInRoot ["a", "b", ".c"], default⟩
    w.tree.Consistent ∧ w'.tree.Consistent ∧ SameView true w.tree w'.tree ∧
      runLs (.still ⟨0, 0⟩) ["-a"] w = .success ".c\na\nb\n" ∧
      runLs (.still ⟨0, 0⟩) ["-l", "/"] w = .success ("total 2\n" ++
        "-rw-r--r-- 1 user user     0 Jan  1 00:00 a\n" ++
        "-rw-r--r-- 1 user user     0 Jan  1 00:00 b\n") ∧
      runLs (.still ⟨0, 0⟩) ["-l", "/"] w' = runLs (.still ⟨0, 0⟩) ["-l", "/"] w := by
  intro w w'
  have hw : w.tree.Consistent := defect?_eq_none_iff.1 (by decide)
  have hw' : w'.tree.Consistent := defect?_eq_none_iff.1 (by decide)
  have hview : SameView true w.tree w'.tree := .of_perm hw hw' (by decide) (by decide)
  obtain ⟨names, hnames, hplain, hruns⟩ := listed_of_runLs hw
  obtain ⟨d, hd, hperm⟩ : ∃ d, w.tree.lookup? "/" = some d ∧ [".c", "a", "b"].Perm
      (((w.tree.childNodes d).filter fun n => true || !n.isHidden).map Node.name) :=
    ⟨_, rfl, by decide⟩
  have hall : ∀ path, w.tree.resolve path = "/" → names true path = [".c", "a", "b"] := by
    intro path hpath
    have hfound : w.tree.find? path = some d := by rw [find?, hpath, hd]
    have hentries := hw.listsEntries hd (by decide) hperm
    rw [← (node_of_lookup?_eq_some hd).2] at hentries
    exact (hnames true path d hfound).eq hentries
  obtain ⟨-, hshort, -⟩ := hruns (.still ⟨0, 0⟩) ["-a"] ⟨true, false, []⟩ rfl
  obtain ⟨-, hlong, hsame⟩ := hruns (.still ⟨0, 0⟩) ["-l", "/"] ⟨false, true, ["/"]⟩ rfl
  have hpart : ∀ (l : Listing) names' item, names l.all item.1 = names' →
      l.part (.still ⟨0, 0⟩) w.tree false (names l.all) item =
        l.part (.still ⟨0, 0⟩) w.tree false (fun _ => names') item := by
    rintro l _ item rfl
    rfl
  refine ⟨hw, hw', hview, hshort.trans ?_, hlong.trans ?_, hsame w' hw' hview⟩
  · change Reply.withCode (String.join [part _ _ _ false _ (".", 0)]) _ = _
    rw [hpart ⟨true, false, []⟩ _ (".", 0) (hall "." (by decide))]
    decide
  · change Reply.withCode (String.join [part _ _ _ false _ ("/", 0)]) _ = _
    rw [hpart ⟨false, true, ["/"]⟩ _ ("/", 0) (hplain "/"), hall "/" (by decide)]
    decide

end Listing

end Command

end VirtualShell
