import VirtualShell.Options
import VirtualShell.Toml.Reader

/-!
# Options from a configuration text

The text names what differs from the defaults: the directory to start in, and a table of settings
for the shell. Unknown keys do not matter, but a known key must have a value of its kind.
-/

namespace VirtualShell.Toml

/-- The key under which a date or time is the only entry of a table. -/
def momentKey : String := "$__toml_private_datetime"

namespace Item

def text? : Item → Option String
  | .string s => some s
  | _ => none

/-- The value of an integer that is not negative. -/
def count? : Item → Option Nat
  | .integer n => if 0 ≤ n then some n.toNat else none
  | _ => none

/-- The entries of a table. A date or time passes for a table with one entry. -/
def entries? : Item → Option Entries
  | .table _ entries => some entries
  | .moment text => some [(momentKey, .string text)]
  | _ => none

/-- The items of an array. -/
def items? : Item → Option (List Item)
  | .array items => some items
  | .tables latest earlier => some ((latest :: earlier).reverse.map (.table .header))
  | _ => none

/-- The entries of a table of strings, in order. -/
def texts? (item : Item) : Option (OrderedMap String String) := do
  return .ofList (← (← item.entries?).mapM fun e => e.2.text?.map (e.1, ·))

/-- The fields of a record: by name if it is a table, by position if it is an array. -/
def fields? (names : List String) (item : Item) : Option (List (Option Item)) :=
  match item.entries?, item.items? with
  | some entries, _ => some (names.map fun name => entries.lookup name)
  | none, some items => some (names.mapIdx fun i _ => items[i]?)
  | none, none => none

end Item

/-- Reads an optional value; a missing one has a default. -/
def optional? {α : Type} (default : α) (read : Item → Option α) : Option Item → Option α
  | none => some default
  | some item => read item

end VirtualShell.Toml

namespace VirtualShell.Options

open Toml

/-- Takes over the settings for the shell. -/
def withShell? (o : Options) (shell : Item) : Option Options := do
  match ← shell.fields? ["user", "hostname", "max_history", "env", "aliases"] with
  | [user, hostname, maxHistory, env, aliases] =>
    return { o with
      user := ← optional? o.user Item.text? user
      hostname := ← optional? o.hostname Item.text? hostname
      maxHistory := ← optional? o.maxHistory Item.count? maxHistory
      env := ← optional? o.env Item.texts? env
      aliases := ← optional? o.aliases Item.texts? aliases }
  | _ => none

/-- The options that a configuration table sets. -/
def ofEntries? (entries : Entries) : Option Options := do
  let o ← optional? {} (withShell? {}) (entries.lookup "shell")
  return { o with startDir := ← optional? none (·.text?.map some) (entries.lookup "start_dir") }

/-- Reads the options from a configuration text. -/
def ofConfig? (text : String) : Option Options := (parse? text).bind ofEntries?

end VirtualShell.Options
