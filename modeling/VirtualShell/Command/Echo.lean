import VirtualShell.Command.Basic
import VirtualShell.Line.Variables

/-!
# Echo

`echo` displays its words, with variables replaced, or writes them to a file. A redirection may
stand anywhere among the words; the last one counts.
-/

namespace VirtualShell.Command

/-- Where the text of `echo` goes. -/
structure Redirection where
  append : Bool
  target : String
  deriving DecidableEq, Repr

/-- The redirection operator at the front of a word, and the rest of the word. -/
def redirectOperator? (word : String) : Option (Bool × String) :=
  match word.toList with
  | '>' :: '>' :: rest => some (true, String.ofList rest)
  | '>' :: rest => some (false, String.ofList rest)
  | _ => none

/-- Separates the words from the redirections. The target stands right behind the operator or is
the next word. -/
def splitRedirections : List String → Except ShellError (List String × Option Redirection)
  | [] => .ok ([], none)
  | word :: rest =>
    match redirectOperator? word with
    | none => do
      let (words, redirection) ← splitRedirections rest
      return (word :: words, redirection)
    | some (append, target) =>
      if target = "" then
        match rest with
        | [] => .error (.invalidArgument "syntax error near unexpected token `newline'")
        | target :: rest => do
          let (words, redirection) ← splitRedirections rest
          return (words, redirection.or (some ⟨append, target⟩))
      else do
        let (words, redirection) ← splitRedirections rest
        return (words, redirection.or (some ⟨append, target⟩))

/-- The text that `echo` makes of its words. -/
def echoText (env : OrderedMap String String) (words : List String) : String :=
  let rest := words.dropWhile (· = "-n")
  Line.expandVariables env (String.intercalate " " rest) ++
    if words.head? = some "-n" then "" else "\n"

/-- Writes a text to the target of a redirection. -/
def Redirection.write (r : Redirection) (s : Supply) (t : FileTree) (text : String) :
    Except TreeError FileTree :=
  let path := t.resolve r.target
  match t.find? path with
  | some n =>
    let front := if r.append then n.text?.getD "" else ""
    t.write s path (front ++ text)
  | none => (·.1) <$> t.createFile s (Path.basename path) (Path.dirname path) text

def runEcho (s : Supply) (args : List String) (w : World) : Reply × World :=
  match splitRedirections args with
  | .error e => (.failure "echo" e, w)
  | .ok (words, redirection) =>
    let text := echoText w.session.env words
    match redirection with
    | none => (.success text, w)
    | some r =>
      match r.write (s.turn 0) w.tree text with
      | .ok t => (.success "", { w with tree := t })
      | .error e => (.withCode (complaint "echo" r.target e) 1, w)

end VirtualShell.Command
