import VirtualShell.CommandLine.Run
import VirtualShell.Proofs.Shell.LineFrame

/-!
# Scripts and typed lines

The lines of a script and those that are typed in are executed by two loops over differently divided
text. Both take the same turns (`turns`): `batch_eq` and `interactive_eq` give the ending of either
loop in terms of them, and the two differ in the prompts alone. So a run with a script and a run into
which the script is typed cannot be told apart by what they leave, and when objects are printed also
not by what they print (`outcome_of_script`). A session that breaks off has no last prompt
(`not_prompt_after_break_off`).
-/

namespace VirtualShell.CommandLine

/-! ## A script among the arguments -/

/-- The arguments with another script. -/
def Arguments.withScript (a : Arguments) (script : String) : Arguments :=
  { a with script := some script }

section Arguments

variable {a r : Arguments}

theorem Arguments.set?_withScript {s : Setting} {value : String} (h : a.set? s value = some r)
    (hr : r.script = none) : a.script = none ∧
      ∀ script, (a.withScript script).set? s value = some (r.withScript script) := by
  unfold set? at h
  split_ifs at h with hset
  cases h
  cases s with
  | script => cases hr
  | config => exact ⟨hr, fun script => by simp_all [set?, get, withScript]⟩
  | state => exact ⟨hr, fun script => by simp_all [set?, get, withScript]⟩

/-- No script is among the arguments, and they are read in the same way after one was given. -/
def Scriptless (a r : Arguments) (awaited : Option Setting) (args : List String) : Prop :=
  a.script = none ∧
    ∀ script, readFrom (a.withScript script) awaited args = some (.run (r.withScript script))

theorem scriptless_of_set? {s : Setting} {value : String} {args : List String}
    (hrest : ∀ a, readFrom a none args = some (.run r) → Scriptless a r none args)
    (h : (a.set? s value).bind (fun a => readFrom a none args) = some (.run r)) :
    a.script = none ∧
      ∀ script, ((a.withScript script).set? s value).bind (fun a => readFrom a none args) =
        some (.run (r.withScript script)) := by
  obtain ⟨a', ha', hread⟩ := Option.bind_eq_some_iff.1 h
  obtain ⟨hnone, hreads⟩ := hrest a' hread
  obtain ⟨hnone', hset⟩ := Arguments.set?_withScript ha' hnone
  exact ⟨hnone', fun script => by rw [hset, Option.bind_some, hreads]⟩

/-- The induction is on the arguments; each of them leaves the script out. -/
theorem scriptless_of_readFrom {awaited : Option Setting} {args : List String}
    (h : readFrom a awaited args = some (.run r)) (hr : r.script = none) :
    Scriptless a r awaited args := by
  induction args generalizing a awaited with
  | nil =>
    cases awaited with
    | some s => cases h
    | none =>
      cases h
      exact ⟨hr, fun _ => rfl⟩
  | cons arg args ih =>
    have hrest : ∀ a, readFrom a none args = some (.run r) → Scriptless a r none args :=
      fun a h => ih h
    cases awaited with
    | some s =>
      simp only [Scriptless, readFrom] at h ⊢
      split at h
      · next hvalue =>
        simp only [if_pos hvalue]
        exact scriptless_of_set? hrest h
      · cases h
    | none =>
      simp only [Scriptless, readFrom] at h ⊢
      cases hword : Word.ofArgument arg with
      | setting s value =>
        rw [hword] at h
        cases value with
        | some v => exact scriptless_of_set? hrest h
        | none => exact ih h
      | json =>
        rw [hword] at h
        dsimp only at h
        split at h
        · cases h
        · next hjson =>
          obtain ⟨hnone, hread⟩ := ih h
          refine ⟨hnone, fun script => ?_⟩
          exact (if_neg hjson).trans (hread script)
      | help | version | unknown =>
        rw [hword] at h
        cases h
      | stop =>
        rw [hword] at h
        dsimp only at h
        split at h
        · next hend =>
          cases h
          exact ⟨hr, fun _ => if_pos hend⟩
        · cases h

theorem ofArguments?_script {args : List String} (h : Request.ofArguments? args = some (.run r))
    (hr : r.script = none) {script : String} (hscript : isValue script = true) :
    Request.ofArguments? ("-c" :: script :: args) = some (.run (r.withScript script)) := by
  have hword : Word.ofArgument "-c" = .setting .script none := by decide
  simp only [Request.ofArguments?, readFrom, hword, if_pos hscript]
  exact (scriptless_of_readFrom h hr).2 script

end Arguments

/-! ## Turns -/

/-- A line that was executed, and the terminal before it. -/
structure Turn where
  before : Terminal
  line : String
  done : Executed

/-- The lines that are executed: all up to the first one after which it does not go on. -/
def turns (json : Bool) (supply : Nat → Supply) (i : Nat) (t : Terminal) : List String → List Turn
  | [] => []
  | line :: lines =>
    let e := execute json (supply i) t line
    ⟨t, line, e⟩ :: match e.next with
      | .nextLine => turns json supply (i + 1) e.terminal lines
      | .finish => []
      | .breakOff => []

/-- The exit code of the last line. -/
def codeAfter (last : Nat) (us : List Turn) : Nat := (us.getLast?.map (·.done.code)).getD last

/-- The terminal after the last line. -/
def terminalAfter (t : Terminal) (us : List Turn) : Terminal :=
  (us.getLast?.map (·.done.terminal)).getD t

/-- The end of a session with given turns that prints something ahead of each line and ahead of the
end of the input. -/
def ending (ahead : Terminal → String) (t : Terminal) (last : Nat) (us : List Turn) : Ending where
  stdout := String.join (us.map fun u => ahead u.before ++ u.done.text) ++
    if ∀ u ∈ us, u.done.next = .nextLine then ahead (terminalAfter t us) else ""
  code := codeAfter last us
  terminal := if ∃ u ∈ us, u.done.next = .breakOff then none else some (terminalAfter t us)

variable {json : Bool} {supply : Nat → Supply} {i last : Nat} {t : Terminal}

theorem codeAfter_cons (u : Turn) (us : List Turn) :
    codeAfter last (u :: us) = codeAfter u.done.code us := by
  cases us <;> simp [codeAfter, List.getLast?_cons]

theorem terminalAfter_cons (u : Turn) (us : List Turn) :
    terminalAfter t (u :: us) = terminalAfter u.done.terminal us := by
  cases us <;> simp [terminalAfter, List.getLast?_cons]

theorem ending_cons (ahead : Terminal → String) {u : Turn} {us : List Turn}
    (hnext : u.done.next = .nextLine) : ending ahead t last (u :: us) =
      ((ending ahead u.done.terminal u.done.code us).after u.done.text).after (ahead u.before) := by
  simp [ending, Ending.after, codeAfter_cons, terminalAfter_cons, hnext, String.append_assoc]

section Cons

variable {line : String} {lines : List String} {e : Executed}
  (he : execute json (supply i) t line = e)
include he

theorem turns_cons_of_nextLine (hnext : e.next = .nextLine) :
    turns json supply i t (line :: lines) =
      ⟨t, line, e⟩ :: turns json supply (i + 1) e.terminal lines := by
  simp only [turns, he, hnext]

theorem turns_cons_of_ne (hnext : e.next ≠ .nextLine) :
    turns json supply i t (line :: lines) = [⟨t, line, e⟩] := by
  cases h : e.next with
  | nextLine => exact absurd h hnext
  | finish | breakOff => simp only [turns, he, h]

/-- The end of a session is that of its first line, after which it may go on. -/
theorem ending_turns_cons (ahead : Terminal → String) :
    ending ahead t last (turns json supply i t (line :: lines)) =
      (e.andThen (ending ahead e.terminal e.code
        (turns json supply (i + 1) e.terminal lines))).after (ahead t) := by
  cases hnext : e.next with
  | nextLine =>
    rw [turns_cons_of_nextLine he hnext, ending_cons ahead hnext]
    simp only [Executed.andThen, hnext]
  | finish =>
    rw [turns_cons_of_ne he (by simp [hnext])]
    simp [ending, Executed.andThen, Ending.after, codeAfter, terminalAfter, hnext]
  | breakOff =>
    rw [turns_cons_of_ne he (by simp [hnext])]
    simp [ending, Executed.andThen, Ending.after, codeAfter, hnext]

end Cons

theorem batch_eq (lines : List String) : batch json supply i t last lines =
    ending (fun _ => "") t last (turns json supply i t lines) := by
  induction lines generalizing i t last with
  | nil => simp [batch, turns, ending, codeAfter, terminalAfter]
  | cons line lines ih =>
    rw [ending_turns_cons rfl, batch]
    simp [Ending.after, ih]

/-- Taking the lines off the input one at a time gives the same turns as dividing it at once. -/
theorem interactive_eq (input : List Char) : interactive json supply i t last input =
    ending (promptText json) t last
      (turns json supply i t ((Text.lines input).map String.ofList)) := by
  fun_induction interactive json supply i t last input with
  | case1 i t last input hnone =>
    rw [Text.lines_of_takeLine?_eq_none hnone]
    simp [turns, ending, codeAfter, terminalAfter]
  | case2 i t last input line rest hline e ih =>
    rw [Text.lines_of_takeLine? hline, List.map_cons, ending_turns_cons rfl]
    exact congrArg (fun goOn => (e.andThen goOn).after (promptText json t)) ih

theorem execute_of_mem_turns {lines : List String} {u : Turn}
    (hu : u ∈ turns json supply i t lines) :
    ∃ k, u.done = execute json (supply k) u.before u.line := by
  induction lines generalizing i t with
  | nil => cases hu
  | cons line lines ih =>
    by_cases hnext : (execute json (supply i) t line).next = .nextLine
    · rw [turns_cons_of_nextLine rfl hnext] at hu
      rcases List.mem_cons.1 hu with hu | hu
      · exact ⟨i, by rw [hu]⟩
      · exact ih hu
    · rw [turns_cons_of_ne rfl hnext, List.mem_singleton] at hu
      exact ⟨i, by rw [hu]⟩

/-- A session breaks off at a line that is given to a `date` whose format cannot be written. -/
theorem execute_breakOff_iff (s : Supply) (line : String) :
    (execute json s t line).next = .breakOff ↔ Shell.Aborts t.world.session.aliases line := by
  have hnext : (execute json s t line).next = .breakOff ↔ (t.exec s line).1.output = .aborted := by
    unfold execute
    cases t.exec s line with
    | mk r t' => cases hr : r.output <;> simp [hr]
  rw [hnext, Terminal.exec_eq]
  by_cases hblank : Text.trim line = ""
  · rw [Shell.exec_blank hblank]
    refine iff_of_false (by simp) ?_
    rintro ⟨args, hdate, -⟩
    exact (Shell.trim_ne_of_dispatched hdate).1 hblank
  · dsimp only
    exact (Shell.answerFrame_exec hblank).aborted_iff

/-! ## The whole run -/

theorem run_eq {h : Host} {args : List String} {a : Arguments} (input : String)
    (hargs : Request.ofArguments? args = some (.run a)) : run supply h args input =
      match options? h a.config with
      | none => ⟨"", usageCode, h⟩
      | some o =>
        let e := session a supply (startTerminal a o (supply 0) h) input
        ⟨e.stdout, e.code, saveTerminal a h e.terminal⟩ := by
  cases ho : options? h a.config <;> simp only [run, hargs, ho]

theorem startTerminal_withScript (a : Arguments) (script : String) (o : Options) (s : Supply)
    (h : Host) : startTerminal (a.withScript script) o s h = startTerminal a o s h := rfl

theorem saveTerminal_withScript (a : Arguments) (script : String) (h : Host) (t : Option Terminal) :
    saveTerminal (a.withScript script) h t = saveTerminal a h t := rfl

theorem session_withScript (a : Arguments) (script input : String) :
    session (a.withScript script) supply t input = ending (fun _ => "") t 0
      (turns a.json supply 1 t ((Text.lines script.toList).map String.ofList)) :=
  batch_eq _

theorem session_typed {a : Arguments} (hnone : a.script = none) (input : String) :
    session a supply t input = ending (promptText a.json) t 0
      (turns a.json supply 1 t ((Text.lines input.toList).map String.ofList)) := by
  rw [session, hnone]
  exact interactive_eq _

/-- A script that is given with the arguments and one that is typed in have the same outcome, but for
the prompts: there is one ahead of each line that is executed, and if it goes on after all of them
also one ahead of the end. -/
theorem outcome_of_script (supply : Nat → Supply) (h : Host) {args : List String} {a : Arguments}
    (hargs : Request.ofArguments? args = some (.run a)) (hnone : a.script = none) :
    (∀ script, isValue script = true →
      Request.ofArguments? ("-c" :: script :: args) = some (.run (a.withScript script))) ∧
    ∀ args' script input, Request.ofArguments? args' = some (.run (a.withScript script)) →
      let scripted := run supply h args' input
      let typed := run supply h args script
      typed.code = scripted.code ∧ typed.host = scripted.host ∧
      (a.json = true → typed.stdout = scripted.stdout) ∧
      ∀ o, options? h a.config = some o →
        let t := startTerminal a o (supply 0) h
        let us := turns a.json supply 1 t ((Text.lines script.toList).map String.ofList)
        scripted.code = codeAfter 0 us ∧
        scripted.host = saveTerminal a h
          (if ∃ u ∈ us, u.done.next = .breakOff then none else some (terminalAfter t us)) ∧
        scripted.stdout = String.join (us.map (·.done.text)) ∧
        (a.json = false → typed.stdout =
          String.join (us.map fun u => u.before.prompt ++ u.done.text) ++
            if ∀ u ∈ us, u.done.next = .nextLine then (terminalAfter t us).prompt else "") ∧
        ∀ u ∈ us, u.done.next = .breakOff ↔ Shell.Aborts u.before.world.session.aliases u.line := by
  refine ⟨fun script hscript => ofArguments?_script hargs hnone hscript, ?_⟩
  intro args' script input hargs'
  rw [run_eq input hargs', run_eq script hargs]
  cases ho : options? h a.config with
  | none =>
    have ho' : options? h (a.withScript script).config = none := ho
    rw [ho']
    exact ⟨rfl, rfl, fun _ => rfl, fun o hsome => nomatch hsome⟩
  | some o =>
    have ho' : options? h (a.withScript script).config = some o := ho
    rw [ho']
    dsimp only
    rw [session_withScript, session_typed hnone, startTerminal_withScript, saveTerminal_withScript]
    refine ⟨rfl, rfl, fun hjson => ?_, fun o' hsome => ?_⟩
    · simp [ending, promptText, hjson]
    · cases hsome
      refine ⟨rfl, rfl, by simp [ending], fun hjson => ?_, fun u hu => ?_⟩
      · simp [ending, promptText, hjson]
      · obtain ⟨k, hk⟩ := execute_of_mem_turns hu
        rw [hk]
        exact execute_breakOff_iff _ _

/-- A session that ends in its second line, on a host without any files. -/
theorem outcome_of_script_that_exits :
    let supply : Nat → Supply := fun _ => ⟨.still ⟨0, 0⟩, .counting⟩
    let h := Host.bare ["work"]
    let a : Arguments := {}
    let script := "cat nothing\r\nexit\npwd"
    Request.ofArguments? [] = some (.run a) ∧ a.script = none ∧
      Request.ofArguments? ["-c", script] = some (.run (a.withScript script)) ∧
      (run supply h [] script).code = (run supply h ["-c", script] "").code ∧
      (run supply h ["-c", script] "").stdout = "cat: nothing: No such file or directory\n" ∧
      (run supply h [] script).stdout =
        "user@workstation:~$ cat: nothing: No such file or directory\nuser@workstation:~$ " := by
  intro supply h a script
  have hargs : Request.ofArguments? [] = some (.run a) := rfl
  obtain ⟨hreads, houtcome⟩ := outcome_of_script supply h hargs rfl
  have hargs' := hreads script (by decide)
  obtain ⟨hcode, -, -, hturns⟩ := houtcome ["-c", script] script "" hargs'
  obtain ⟨-, -, hscripted, htyped, -⟩ := hturns {} rfl
  refine ⟨hargs, rfl, hargs', hcode, hscripted.trans ?_, (htyped rfl).trans ?_⟩
  · decide
  · decide

/-- A session may end without a last prompt although no line asked for its end. -/
theorem not_prompt_after_break_off :
    ¬ ∀ (supply : Nat → Supply) (h : Host) (script : String) (o : Options),
      options? h none = some o →
      let t := startTerminal {} o (supply 0) h
      let us := turns false supply 1 t ((Text.lines script.toList).map String.ofList)
      (run supply h [] script).stdout =
        String.join (us.map fun u => u.before.prompt ++ u.done.text) ++
          if ∃ u ∈ us, u.done.next = .finish then "" else (terminalAfter t us).prompt := by
  intro hall
  let supply : Nat → Supply := fun _ => ⟨.still ⟨0, 0⟩, .counting⟩
  have hprompts := hall supply (Host.bare ["work"]) "date +%#z" {} rfl
  rw [run_eq "date +%#z" (show Request.ofArguments? [] = some (.run {}) from rfl)] at hprompts
  simp only [options?] at hprompts
  rw [session_typed rfl] at hprompts
  revert hprompts
  decide

end VirtualShell.CommandLine
