import VirtualShell.Command.Basic
import VirtualShell.Line.Variables
import VirtualShell.Text.Blank
import VirtualShell.Text.Numeral

/-!
# Commands on the session

`history`, `alias`, `unalias`, `export` and `env`.
-/

namespace VirtualShell.Command

/-- A text cut at its first equals sign. -/
def splitAtEquals? (s : String) : Option (String × String) :=
  let name := s.toList.takeWhile (· ≠ '=')
  match s.toList.drop name.length with
  | [] => none
  | _ :: value => some (String.ofList name, String.ofList value)

/-- Lines from the texts of a map's bindings. -/
def showBindings (m : OrderedMap String String) (line : String → String → String) : String :=
  String.join (m.entries.map fun e => line e.1 e.2)

/-! ## The history -/

/-- The last lines of the history with their numbers. -/
def historyText (history : List String) (count : Nat) : String :=
  let shown := history.zipIdx.drop (history.length - count)
  String.join (shown.map fun item =>
    Text.padLeft 5 ' ' (Text.decimal (item.2 + 1)) ++ "  " ++ item.1 ++ "\n")

def runHistory (args : List String) (w : World) : Reply × World :=
  let history := w.session.history
  match args with
  | [] => (.success (historyText history history.length), w)
  | [arg] =>
    if arg = "-c" then (.success "", { w with session := w.session.clearHistory })
    else match Text.readCount? arg with
      | some n => (.success (historyText history n), w)
      | none =>
        (.failure "history" (.invalidArgument (arg ++ ": numeric argument required")), w)
  | _ => (.failure "history" (.invalidArgument "too many arguments"), w)

/-! ## Aliases -/

/-- The value of a definition begins with a single quote that it does not close. -/
def opensQuote (arg : String) : Bool :=
  match splitAtEquals? arg with
  | some (_, value) =>
    value.toList.head? == some '\x27' &&
      (value.length == 1 || value.toList.getLast? != some '\x27')
  | none => false

/-- Joins the arguments up to the one that closes a quote, with single blanks. -/
def joinQuoted (begun : String) : List String → String × List String
  | [] => (begun, [])
  | arg :: rest =>
    let joined := begun ++ " " ++ arg
    if arg.toList.getLast? = some '\x27' then (joined, rest) else joinQuoted joined rest

theorem length_joinQuoted (begun : String) (args : List String) :
    (joinQuoted begun args).2.length ≤ args.length := by
  induction args generalizing begun with
  | nil => exact Nat.le_refl _
  | cons arg rest ih =>
    unfold joinQuoted
    dsimp only
    split
    · exact Nat.le_succ _
    · exact Nat.le_succ_of_le (ih _)

/-- Puts definitions together that were cut at the blanks inside single quotes. -/
def mergeQuoted : List String → List String
  | [] => []
  | arg :: rest =>
    if opensQuote arg then (joinQuoted arg rest).1 :: mergeQuoted (joinQuoted arg rest).2
    else arg :: mergeQuoted rest
termination_by args => args.length
decreasing_by
  · have := length_joinQuoted arg rest
    simp only [List.length_cons]
    omega
  · simp

/-- The text stands between two quotes of one kind. -/
def isQuotedBy (q : Char) (s : List Char) : Bool :=
  s.length ≥ 2 && s.head? == some q && s.getLast? == some q

/-- A value without the quotes around it. -/
def stripQuotes (value : String) : String :=
  let s := value.toList
  if isQuotedBy '\x27' s || isQuotedBy '"' s then String.ofList (s.drop 1).dropLast else value

/-- A name that an alias may have. -/
def validAliasName (name : String) : Bool :=
  !name.isEmpty && !name.toList.any fun c =>
    Text.isBlank c || c == '/' || c == '$' || c == '\x27' || c == '"'

/-- The line that shows an alias. -/
def aliasLine (name value : String) : String := "alias " ++ name ++ "='" ++ value ++ "'\n"

/-- Treats the arguments of `alias` in turn; the first bad name ends it, but what was defined
before stays. -/
def defineAliases (s : Session) (text : String) (code : Nat) :
    List String → Reply × Session
  | [] => (.withCode text code, s)
  | arg :: rest =>
    match splitAtEquals? arg with
    | some (name, value) =>
      if validAliasName name then
        defineAliases { s with aliases := s.aliases.insert name (stripQuotes value) } text code rest
      else (.failure "alias" (.invalidArgument ("`" ++ name ++ "': invalid alias name")), s)
    | none =>
      match s.aliases.get? arg with
      | some value => defineAliases s (text ++ aliasLine arg value) code rest
      | none => defineAliases s (text ++ "alias: " ++ arg ++ ": not found\n") 1 rest

def runAlias (args : List String) (w : World) : Reply × World :=
  if args.isEmpty then (.success (showBindings w.session.aliases aliasLine), w)
  else
    let (reply, session) := defineAliases w.session "" 0 (mergeQuoted args)
    (reply, { w with session })

/-- Removes one alias, or all. -/
def removeAlias (state : Reply × Session) (arg : String) : Reply × Session :=
  let (reply, s) := state
  if arg = "-a" then (reply, { s with aliases := .empty })
  else if s.aliases.contains arg then (reply, { s with aliases := s.aliases.erase arg })
  else (.withCode (reply.output.text ++ "unalias: " ++ arg ++ ": not found\n") 1, s)

def runUnalias (args : List String) (w : World) : Reply × World :=
  if args.isEmpty then
    (.failure "unalias" (.invalidArgument "usage: unalias [-a] name [name ...]"), w)
  else
    let (reply, session) := args.foldl removeAlias (.success "", w.session)
    (reply, { w with session })

/-! ## Variables -/

/-- Treats the arguments of `export` in turn; the first bad name ends it, but what was set before
stays. A name without a value is set to nothing if it is not set. -/
def setVariables (s : Session) : List String → Reply × Session
  | [] => (.success "", s)
  | arg :: rest =>
    let (name, value) := match splitAtEquals? arg with
      | some (name, value) => (name, some value)
      | none => (arg, none)
    if Line.isName name.toList then
      let env := match value with
        | some value => s.env.insert name value
        | none => s.env.insertNew name ""
      setVariables { s with env } rest
    else
      (.failure "export" (.invalidArgument ("`" ++ arg ++ "': not a valid identifier")), s)

def runExport (args : List String) (w : World) : Reply × World :=
  if args.isEmpty then
    (.success (showBindings w.session.env fun name value =>
      "declare -x " ++ name ++ "=\"" ++ value ++ "\"\n"), w)
  else
    let (reply, session) := setVariables w.session args
    (reply, { w with session })

def runEnv (args : List String) (w : World) : Reply :=
  match args with
  | arg :: _ =>
    .failure "env" (.invalidArgument ("'" ++ arg ++ "': running commands is not supported"))
  | [] => .success (showBindings w.session.env fun name value => name ++ "=" ++ value ++ "\n")

end VirtualShell.Command
