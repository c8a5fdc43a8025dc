import VirtualShell.Proofs.Line.Quoting
import VirtualShell.Proofs.Line.Variables
import VirtualShell.Proofs.Shell.Redirections
import VirtualShell.Proofs.Shell.SavedStates

/-!
# Lines that show what other lines left

A line that is written from the name of a command and arguments gives the command just these
arguments (`executes_written`). So a text that one line writes to a file is what another line shows of
it (`shown_of_written`), and a value that one line exports is what another line displays for a
reference to the name (`displayed_of_exported`), through all that lies between: the cutting of lines,
the reading of redirections, the resolving of paths and the expansion of variables.
-/

namespace VirtualShell

open Line Command

namespace Command

theorem fits_name (c : Command) : (Spelling.bare c.name).Fits := by
  cases c <;> decide

theorem lowercase_name (c : Command) : Text.lowercase c.name = c.name := by
  cases c <;> decide +kernel

/-- Every command is found under its name. -/
theorem ofName?_name (c : Command) : ofName? c.name = some c := by
  rw [ofName?, lowercase_name]
  cases c <;> decide

/-- A text whose first equals sign is where it was put. -/
theorem splitAtEquals?_append {name : String} (h : '=' ∉ name.toList) (value : String) :
    splitAtEquals? (name ++ "=" ++ value) = some (name, value) := by
  have hlist : (name ++ "=" ++ value).toList = name.toList ++ '=' :: value.toList := by simp
  have hname : (name.toList ++ '=' :: value.toList).takeWhile (· ≠ '=') = name.toList := by
    refine Text.takeWhile_append_of_head? (fun c hc => ?_) (by simp)
    have hne : c ≠ '=' := by
      rintro rfl
      exact h hc
    simpa using hne
  unfold splitAtEquals?
  simp only [hlist, hname, List.drop_left, String.ofList_toList]

end Command

namespace Shell

/-- A trimmed line whose first token is the name of a command and no alias is given to the command,
with the other tokens. Only a removal can be the line that is intercepted. -/
theorem dispatched?_of_tokenize {aliases : OrderedMap String String} {line : String}
    {args : List String} {c : Command} (htrim : Text.Trimmed line)
    (htokens : tokenize line = c.name :: args) (halias : aliases.get? c.name = none)
    (hrm : c ≠ .rm) : dispatched? aliases line = some (c, args) := by
  have hblank : line ≠ "" := by
    rintro rfl
    cases htokens
  have hcat : line ≠ catastrophe := by
    rintro rfl
    have hfirst : tokenize catastrophe = [Command.rm.name, "-rf", "/"] := by decide
    rw [hfirst, List.cons.injEq] at htokens
    have hsame := c.ofName?_name
    rw [← htokens.1, Command.rm.ofName?_name, Option.some.injEq] at hsame
    exact hrm hsame.symm
  have hnone : expandAlias? aliases line = none := by
    simp [expandAlias?, htokens, halias]
  unfold dispatched?
  simp only [htrim.trim_eq, hblank, hcat, or_self, if_false,
    (expandedTokens_of_expandAlias?_eq_none hnone).trans htokens, c.lowercase_name, c.ofName?_name,
    Option.map_some]

end Shell

namespace Terminal

open Shell

variable {t : Terminal}

/-- The line runs a command on arguments, in a world with the tree and the settings of the terminal,
and what the command answers and leaves is what the line does. -/
def Executes (t : Terminal) (s : Supply) (line : String) (c : Command) (args : List String) : Prop :=
  ∃ w : World, w.tree = t.world.tree ∧ w.session.cwd = t.world.tree.currentDirectory ∧
    w.session.aliases = t.world.session.aliases ∧ w.session.env = t.world.session.env ∧
    ∀ reply w', c.run ⟨s, t.options⟩ args w = (reply, w') →
      (t.exec s line).1.code = reply.code ∧ (t.exec s line).1.output = reply.output ∧
      (t.exec s line).2.world.tree = w'.tree ∧ (t.exec s line).2.world.session =
        deselect (w'.session.setCwd w'.tree.currentDirectory)

/-- A line whose tokens are the name of a command and arguments runs the command on the arguments. -/
theorem executes_of_tokenize {c : Command} {line : String} {args : List String} (hrm : c ≠ .rm)
    (htrim : Text.Trimmed line) (htokens : tokenize line = c.name :: args)
    (halias : t.world.session.aliases.get? c.name = none) (s : Supply) :
    t.Executes s line c args := by
  obtain ⟨name, hexec⟩ :=
    exec_of_dispatched (dispatched?_of_tokenize htrim htokens halias hrm) ⟨s, t.options⟩
  obtain ⟨hcwd, haliases, henv⟩ := recorded_session_frame ⟨s, t.options⟩ t.world line
  refine ⟨_, tree_recorded _ _ _, hcwd, haliases, henv, fun reply w' hrun => ?_⟩
  rw [exec_eq, hexec, hrun]
  exact ⟨rfl, rfl, rfl, rfl⟩

/-- A line that is written from the name of a command and arguments runs the command on the
arguments. -/
theorem executes_written {c : Command} {line : String} {args : List Spelling} (hrm : c ≠ .rm)
    (hline : line = written (.bare c.name :: args)) (hargs : ∀ w ∈ args, w.Fits)
    (halias : t.world.session.aliases.get? c.name = none) (s : Supply) :
    t.Executes s line c (args.map Spelling.token) := by
  have hfits : ∀ w ∈ .bare c.name :: args, w.Fits := List.forall_mem_cons.2 ⟨c.fits_name, hargs⟩
  subst hline
  exact executes_of_tokenize hrm (trimmed_written (List.cons_ne_nil _ _) hfits)
    (tokenize_written hfits) halias s

/-! ## Files -/

/-- The line that writes a text to a file, in place of what is there or behind it. -/
def writeLine (append : Bool) (text path : String) : String :=
  "echo " ++ quote text ++ " " ++ operator append ++ " " ++ quote path

/-- The line that shows a file. -/
def showLine (path : String) : String := "cat " ++ quote path

/-- A text that `echo` displays as it is when it stands in quotation marks. -/
structure Literal (text : String) : Prop where
  no_mark : '"' ∉ text.toList
  no_reference : '$' ∉ text.toList
  no_operator : text.toList.head? ≠ some '>'
  no_option : text ≠ "-n"

/-- A path that `cat` takes for one when it stands in quotation marks. -/
structure Showable (path : String) : Prop where
  no_mark : '"' ∉ path.toList
  no_option : asksNumbers path = false

/-- A terminal with a consistent tree, as every run leaves one (`sound_of_run`), in which `echo` and
`cat` are no aliases. -/
structure Ready (t : Terminal) : Prop where
  consistent : t.world.tree.Consistent
  echo : t.world.session.aliases.get? "echo" = none
  cat : t.world.session.aliases.get? "cat" = none

/-- The line that shows a file displays a text and succeeds. -/
def Shows (t : Terminal) (path text : String) : Prop :=
  ∀ s, (t.exec s (showLine path)).1.code = 0 ∧
    (t.exec s (showLine path)).1.output = .display text

theorem writeLine_eq (append : Bool) (text path : String) : writeLine append text path =
    written [.bare echo.name, .quoted text, .bare (operator append), .quoted path] := by
  simp [writeLine, Command.name, written, Spelling.text, String.intercalate_cons_cons, String.append_assoc]

theorem showLine_eq (path : String) : showLine path = written [.bare cat.name, .quoted path] := by
  simp [showLine, Command.name, written, Spelling.text, String.intercalate_cons_cons]

theorem echoText_singleton {word : String} (h : word ≠ "-n") (env : OrderedMap String String) :
    echoText env [word] = expandVariables env word ++ "\n" := by
  simp [echoText, h]

theorem splitRedirections_singleton {text : String} (h : text.toList.head? ≠ some '>')
    (append : Bool) (path : String) :
    splitRedirections [text, operator append, path] = .ok ([text], some ⟨append, path⟩) := by
  have hreads : Reads [text, operator append, path] [.word text, .apart ⟨append, path⟩] none :=
    ⟨by simpa [Item.Fits] using h, by simp [Item.args]⟩
  rw [splitRedirections_of_reads hreads, if_pos rfl]
  rfl

theorem Ready.of_exec (h : t.Ready) {s : Supply} {line : String}
    (haliases : (t.exec s line).2.world.session.aliases = t.world.session.aliases) :
    (t.exec s line).2.Ready := by
  refine ⟨?_, by rw [haliases, h.echo], by rw [haliases, h.cat]⟩
  rw [exec_eq]
  dsimp only
  exact (evolves_exec ⟨s, t.options⟩ t.world line).consistent h.consistent

/-- The line that writes a text leaves it in the file, if it succeeds. -/
theorem Ready.exec_writeLine (h : t.Ready) {text path : String} (htext : Literal text)
    (hpath : '"' ∉ path.toList) (append : Bool) (s : Supply) :
    (t.exec s (writeLine append text path)).2.Ready ∧
      ((t.exec s (writeLine append text path)).1.code = 0 →
        (t.exec s (writeLine append text path)).2.world.tree.read path =
          .ok (Redirection.front ⟨append, path⟩ t.world.tree ++ (text ++ "\n"))) := by
  have hargs : ∀ w ∈ [Spelling.quoted text, .bare (operator append), .quoted path], w.Fits := by
    simp only [List.forall_mem_cons]
    exact ⟨htext.no_mark, by cases append <;> decide, hpath, nofun⟩
  obtain ⟨w, htree, -, haliases, -, hanswer⟩ := executes_written (c := .echo) (by decide)
    (writeLine_eq append text path) hargs h.echo s
  obtain ⟨hcode, -, htree', hsession⟩ :=
    hanswer _ (runEcho s [text, operator append, path] w).2 rfl
  obtain ⟨hwritten, -⟩ := runEcho_redirected
    (splitRedirections_singleton htext.no_operator append path) (htree ▸ h.consistent) s
  rw [echoText_singleton htext.no_option, expandVariables_of_not_mem htext.no_reference, htree]
    at hwritten
  refine ⟨h.of_exec ?_, fun hsuccess => ?_⟩
  · rw [hsession, deselect, Session.aliases_setCwd, session_runEcho, haliases]
  · rw [hcode] at hsuccess
    rw [htree']
    exact (hwritten hsuccess).2.2.1

theorem runCat_singleton {path text : String} {w : World} (hpath : asksNumbers path = false)
    (hread : w.tree.read path = .ok text) : runCat [path] w = .success text := by
  simp [runCat, hpath, showFile, Progress.start, hread, Progress.say, Progress.reply,
    Reply.success]

/-- The line that shows a file shows what is read there and leaves the tree as it was. -/
theorem Ready.exec_showLine (h : t.Ready) {path text : String} (hpath : Showable path)
    (hread : t.world.tree.read path = .ok text) (s : Supply) :
    (t.exec s (showLine path)).1.code = 0 ∧
      (t.exec s (showLine path)).1.output = .display text ∧
      (t.exec s (showLine path)).2.Ready ∧
      (t.exec s (showLine path)).2.world.tree = t.world.tree := by
  obtain ⟨w, htree, -, haliases, -, hanswer⟩ := executes_written (c := .cat) (by decide)
    (showLine_eq path) (by simpa [Spelling.Fits] using hpath.no_mark) h.cat s
  have hrun : run .cat ⟨s, t.options⟩ [path] w = (.success text, w) := by
    rw [run, runCat_singleton hpath.no_option (htree ▸ hread)]
  obtain ⟨hcode, houtput, htree', hsession⟩ := hanswer _ _ hrun
  refine ⟨hcode, houtput, h.of_exec ?_, htree'.trans htree⟩
  rw [hsession, deselect, Session.aliases_setCwd, haliases]

theorem Ready.shows (h : t.Ready) {path text : String} (hpath : Showable path)
    (hread : t.world.tree.read path = .ok text) : t.Shows path text := fun s =>
  ⟨(h.exec_showLine hpath hread s).1, (h.exec_showLine hpath hread s).2.1⟩

/-- A text that a line writes behind another one is shown with it. -/
theorem Ready.shows_of_appended (h : t.Ready) {path old text : String} (hpath : Showable path)
    (hread : t.world.tree.read path = .ok old) (htext : Literal text) {s : Supply}
    (hcode : (t.exec s (writeLine true text path)).1.code = 0) :
    (t.exec s (writeLine true text path)).2.Shows path (old ++ (text ++ "\n")) := by
  have hfront : Redirection.front ⟨true, path⟩ t.world.tree = old := by
    rw [Redirection.front, if_pos rfl, hread, Except.toOption, Option.getD_some]
  obtain ⟨h', hread'⟩ := h.exec_writeLine htext hpath.no_mark true s
  refine h'.shows hpath ?_
  rw [hread' hcode, hfront]

/-- A text that a line wrote to a file is shown with a line feed behind it. A text that another line
wrote behind it, before or after it was shown, is shown with it. -/
theorem shown_of_written (h : t.Ready) {text path : String} (htext : Literal text)
    (hpath : Showable path) (s : Supply)
    (hcode : (t.exec s (writeLine false text path)).1.code = 0) :
    let t₁ := (t.exec s (writeLine false text path)).2
    t₁.Shows path (text ++ "\n") ∧
      ∀ t₂, t₂ = t₁ ∨ (∃ s, t₂ = (t₁.exec s (showLine path)).2) →
        ∀ more, Literal more → ∀ s, (t₂.exec s (writeLine true more path)).1.code = 0 →
          (t₂.exec s (writeLine true more path)).2.Shows path
            (text ++ "\n" ++ (more ++ "\n")) := by
  obtain ⟨h₁, hread₁⟩ := h.exec_writeLine htext hpath.no_mark false s
  have hread₁ := hread₁ hcode
  rw [Redirection.front, if_neg Bool.false_ne_true, String.empty_append] at hread₁
  generalize (t.exec s (writeLine false text path)).2 = t₁ at h₁ hread₁
  refine ⟨h₁.shows hpath hread₁, fun t₂ ht₂ more hmore s₂ hcode₂ => ?_⟩
  rcases ht₂ with ht₂ | ⟨s₁, ht₂⟩
  · rw [ht₂] at hcode₂ ⊢
    exact h₁.shows_of_appended hpath hread₁ hmore hcode₂
  · obtain ⟨-, -, hready, htree⟩ := h₁.exec_showLine hpath hread₁ s₁
    rw [← ht₂] at hready htree
    exact hready.shows_of_appended hpath (by rw [htree, hread₁]) hmore hcode₂

/-- The text and the path hold operators behind the marks, and an empty text is written behind the
first one. -/
theorem shown_of_written_new_file :
    let s : Supply := ⟨.still ⟨0, 0⟩, .counting⟩
    let t := start {} s
    let text := "two  blanks >"
    let path := ">new file"
    let t₁ := (t.exec s (writeLine false text path)).2
    t.Ready ∧ Literal text ∧ Showable path ∧ (t.exec s (writeLine false text path)).1.code = 0 ∧
      t₁.Shows path "two  blanks >\n" ∧ Literal "" ∧
      (t₁.exec s (writeLine true "" path)).1.code = 0 ∧
      (t₁.exec s (writeLine true "" path)).2.Shows path "two  blanks >\n\n" := by
  intro s t text path t₁
  have h : t.Ready := ⟨(sound_start {} s).tree, by decide, by decide⟩
  have htext : Literal text := ⟨by decide, by decide, by decide, by decide⟩
  have hpath : Showable path := ⟨by decide, by decide⟩
  have hcode : (t.exec s (writeLine false text path)).1.code = 0 := by decide +kernel
  have hmore : Literal "" := ⟨by decide, by decide, by decide, by decide⟩
  have hcode₁ : (t₁.exec s (writeLine true "" path)).1.code = 0 := by decide +kernel
  obtain ⟨hshows, happended⟩ := shown_of_written h htext hpath s hcode
  exact ⟨h, htext, hpath, hcode, hshows, hmore, hcode₁,
    happended t₁ (Or.inl rfl) "" hmore s hcode₁⟩

/-! ## Variables -/

/-- The line that sets a variable. -/
def exportLine (name value : String) : String := "export " ++ quote (name ++ "=" ++ value)

/-- The line that displays a variable. -/
def referLine (name : String) : String := "echo " ++ quote (reference name)

theorem exportLine_eq (name value : String) :
    exportLine name value = written [.bare exports.name, .quoted (name ++ "=" ++ value)] := by
  simp [exportLine, Command.name, written, Spelling.text, String.intercalate_cons_cons]

theorem referLine_eq (name : String) :
    referLine name = written [.bare echo.name, .quoted (reference name)] := by
  simp [referLine, Command.name, written, Spelling.text, String.intercalate_cons_cons]

theorem runExport_singleton {name : String} (h : '=' ∉ name.toList) (value : String) (w : World) :
    runExport [name ++ "=" ++ value] w =
      if isName name.toList then
        (.success "", { w with session := { w.session with env := w.session.env.insert name value } })
      else (.failure "export" (.invalidArgument
        ("`" ++ (name ++ "=" ++ value) ++ "': not a valid identifier")), w) := by
  have hsplit := splitAtEquals?_append h value
  have hexported : exportedName (name ++ "=" ++ value) = name := by rw [exportedName, hsplit]; rfl
  have hinto : exportInto w.session.env (name ++ "=" ++ value) = w.session.env.insert name value := by
    rw [exportInto, hsplit]
  rw [runExport, if_neg (by simp), setVariables_cons, hexported, hinto]
  by_cases hname : isName name.toList = true
  · simp only [if_pos hname, setVariables]
  · simp only [if_neg hname]

/-- The line that sets a variable succeeds if the name is one, and changes this variable alone. -/
theorem exec_exportLine (hexport : t.world.session.aliases.get? "export" = none)
    {name value : String} (hname : '"' ∉ name.toList) (hequals : '=' ∉ name.toList)
    (hvalue : '"' ∉ value.toList) (s : Supply) :
    ((t.exec s (exportLine name value)).1.code = 0 ↔ isName name.toList = true) ∧
      (t.exec s (exportLine name value)).2.world.session.aliases = t.world.session.aliases ∧
      (isName name.toList = true → (t.exec s (exportLine name value)).2.world.session.env =
        t.world.session.env.insert name value) := by
  obtain ⟨w, htree, hcwd, haliases, henv, hanswer⟩ := executes_written (c := .exports) (by decide)
    (exportLine_eq name value) (by simp [Spelling.Fits, hname, hvalue]) hexport s
  have hrun := runExport_singleton hequals value w
  by_cases hvalid : isName name.toList = true
  · obtain ⟨hcode, -, -, hsession⟩ := hanswer _ _ (hrun.trans (if_pos hvalid))
    -- the current directory is where it was, so that no other variable follows it
    rw [Session.setCwd, if_pos (by rw [hcwd, htree])] at hsession
    rw [hcode, hsession]
    exact ⟨iff_of_true rfl hvalid, haliases, fun _ => congrArg (·.insert name value) henv⟩
  · obtain ⟨hcode, -, -, hsession⟩ := hanswer _ _ (hrun.trans (if_neg hvalid))
    rw [hcode, hsession, deselect, Session.aliases_setCwd]
    exact ⟨iff_of_false (Nat.succ_ne_zero 1) hvalid, haliases, fun h => absurd h hvalid⟩

/-- The line that displays a variable. -/
theorem exec_referLine (hecho : t.world.session.aliases.get? "echo" = none)
    {name value : String} (hname : '"' ∉ name.toList) (hvalid : isName name.toList = true)
    (hvalue : t.world.session.env.get? name = some value) (s : Supply) :
    (t.exec s (referLine name)).1.code = 0 ∧
      (t.exec s (referLine name)).1.output = .display (value ++ "\n") := by
  have hhead : (reference name).toList.head? = some '$' := by rw [toList_reference]; rfl
  obtain ⟨w, -, -, -, henv, hanswer⟩ := executes_written (c := .echo) (by decide) (referLine_eq name)
    (by simp [Spelling.Fits, toList_reference, hname]) hecho s
  have hrun : runEcho s [reference name] w = (.success (value ++ "\n"), w) := by
    have hoption : reference name ≠ "-n" := by
      intro heq
      rw [heq] at hhead
      exact absurd hhead (by decide)
    rw [runEcho_words (by simp [hhead]), echoText_singleton hoption,
      expandVariables_reference hvalid, henv, hvalue, Option.getD_some]
  obtain ⟨hcode, houtput, -⟩ := hanswer _ _ hrun
  exact ⟨hcode, houtput⟩

/-- The texts that can be set as variables are those to which a reference in braces expands to the
value. A line that sets such a variable succeeds, other texts are refused, and the next line can
display the value as it was written. -/
theorem displayed_of_exported (hexport : t.world.session.aliases.get? "export" = none)
    (hecho : t.world.session.aliases.get? "echo" = none) (name value : String) :
    (isName name.toList = true ↔ ∀ env v, OrderedMap.get? env name = some v →
      expandVariables env (reference name) = v) ∧
    ('"' ∉ name.toList → '=' ∉ name.toList → '"' ∉ value.toList → ∀ s,
      ((t.exec s (exportLine name value)).1.code = 0 ↔ isName name.toList = true) ∧
      ((t.exec s (exportLine name value)).1.code = 0 → ∀ s',
        ((t.exec s (exportLine name value)).2.exec s' (referLine name)).1.code = 0 ∧
        ((t.exec s (exportLine name value)).2.exec s' (referLine name)).1.output =
          .display (value ++ "\n"))) := by
  refine ⟨isName_iff, fun hname hequals hvalue s => ?_⟩
  obtain ⟨haccepts, haliases, henv⟩ := exec_exportLine hexport hname hequals hvalue s
  refine ⟨haccepts, fun hcode s' => ?_⟩
  have hvalid := haccepts.1 hcode
  refine exec_referLine (by rw [haliases, hecho]) hname hvalid ?_ s'
  rw [henv hvalid, OrderedMap.get?_insert, if_pos rfl]

/-- The value holds what would be expanded or cut if it were looked at again. -/
theorem displayed_of_exported_greeting :
    let s : Supply := ⟨.still ⟨0, 0⟩, .counting⟩
    let t := start {} s
    let value := "a=b  $\x7bHOME\x7d > c"
    t.world.session.aliases.get? "export" = none ∧ t.world.session.aliases.get? "echo" = none ∧
      (t.exec s (exportLine "_greeting1" value)).1.code = 0 ∧
      ((t.exec s (exportLine "_greeting1" value)).2.exec s (referLine "_greeting1")).1.output =
        .display "a=b  $\x7bHOME\x7d > c\n" := by
  intro s t value
  have hexport : t.world.session.aliases.get? "export" = none := by decide
  have hecho : t.world.session.aliases.get? "echo" = none := by decide
  obtain ⟨haccepts, hdisplays⟩ := (displayed_of_exported hexport hecho "_greeting1" value).2
    (by decide) (by decide) (by decide) s
  have hcode := haccepts.2 (by decide)
  exact ⟨hexport, hecho, hcode, (hdisplays hcode s).2⟩

end Terminal

end VirtualShell
