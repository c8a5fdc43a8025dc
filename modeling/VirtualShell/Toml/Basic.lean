/-!
# Configuration tables

The values of a configuration text and the rules by which its lines build up one table. A table
remembers how it came about, for that decides what may still be added to it: a table that a header
named is complete when the next header comes, one that a header only passed through may still be
named, one that dotted keys made grows by dotted keys alone, and one in braces is closed. Main
statement: `lookup_putEntry`.
-/

namespace VirtualShell.Toml

/-- How a table came about. -/
inductive Origin where
  /-- Named by a header. -/
  | header
  /-- Passed through by a header that names a table further down. -/
  | passed
  /-- Made by a dotted key. -/
  | dotted
  /-- Written in braces. -/
  | braces
  deriving DecidableEq, Repr

/-- A value. -/
inductive Item where
  | string (s : String)
  | integer (n : Int)
  /-- A truth value or a floating-point number; which one does not matter. -/
  | scalar
  /-- A date, a time or both, in normal form. -/
  | moment (text : String)
  | array (items : List Item)
  | table (origin : Origin) (entries : List (String × Item))
  /-- The tables of an array that headers in double brackets build up, the last one first. -/
  | tables (latest : List (String × Item)) (earlier : List (List (String × Item)))

/-- The entries of a table. -/
abbrev Entries := List (String × Item)

/-- Changes the value of a key in place, or adds the key at the end. -/
def putEntry (key : String) (item : Item) : Entries → Entries
  | [] => [(key, item)]
  | e :: es => if e.1 = key then (key, item) :: es else e :: putEntry key item es

theorem lookup_putEntry (key other : String) (item : Item) (entries : Entries) :
    (putEntry key item entries).lookup other =
      if other = key then some item else entries.lookup other := by
  induction entries with
  | nil =>
    by_cases h : other = key
    · simp [putEntry, h]
    · simp [putEntry, List.lookup_cons, h, beq_eq_false_iff_ne.2 h]
  | cons e es ih =>
    obtain ⟨k, v⟩ := e
    by_cases hk : k = key
    · subst hk
      by_cases h : other = k
      · simp [putEntry, h]
      · simp [putEntry, List.lookup_cons, h, beq_eq_false_iff_ne.2 h]
    · by_cases ho : other = k
      · subst ho
        simp [putEntry, hk]
      · simp [putEntry, List.lookup_cons, hk, beq_eq_false_iff_ne.2 ho, ih]

/-- Removes a key. -/
def dropEntry (key : String) (entries : Entries) : Entries := entries.filter fun e => e.1 ≠ key

/-- Adds a key with its value to a table, going down dotted keys. `none` if the key is there
already or one of the tables on the way may not grow so. -/
def assign? (value : Item) : List String → Entries → Option Entries
  | [], _ => none
  | [key], entries =>
    if (entries.lookup key).isSome then none else some (putEntry key value entries)
  | key :: keys, entries =>
    match entries.lookup key with
    | none => do return putEntry key (.table .dotted (← assign? value keys [])) entries
    | some (.table .dotted sub) => do
      return putEntry key (.table .dotted (← assign? value keys sub)) entries
    | some (.table .passed sub) =>
      -- A table without a header of its own may be crossed, but nothing is put into it.
      if keys.length = 1 then none
      else do return putEntry key (.table .passed (← assign? value keys sub)) entries
    | some (.tables latest earlier) =>
      if keys.length = 1 then none
      else do return putEntry key (.tables (← assign? value keys latest) earlier) entries
    | some _ => none

/-- Does something to the table at the end of a path of keys, as a header goes: through tables
that are there, the latest table of an array, and tables made on the way. -/
def descend? (act : Entries → Option Entries) : List String → Entries → Option Entries
  | [], entries => act entries
  | key :: keys, entries =>
    match entries.lookup key with
    | none => do return putEntry key (.table .passed (← descend? act keys [])) entries
    | some (.table .braces _) => none
    | some (.table origin sub) => do
      return putEntry key (.table origin (← descend? act keys sub)) entries
    | some (.tables latest earlier) => do
      return putEntry key (.tables (← descend? act keys latest) earlier) entries
    | some _ => none

/-- Opens the table that a header names. A table that was only passed through is taken over. -/
def openTable? (key : String) (entries : Entries) : Option Entries :=
  match entries.lookup key with
  | none => some (entries ++ [(key, .table .header [])])
  | some (.table .passed sub) => some (dropEntry key entries ++ [(key, .table .header sub)])
  | some _ => none

/-- Opens one more table of the array that a header in double brackets names. -/
def openArrayTable? (key : String) (entries : Entries) : Option Entries :=
  match entries.lookup key with
  | none => some (entries ++ [(key, .tables [] [])])
  | some (.tables latest earlier) => some (putEntry key (.tables [] (latest :: earlier)) entries)
  | some _ => none

/-- A key with its value. The key is dotted if it has several parts. -/
structure Assignment where
  keys : List String
  value : Item

/-- The table that a pair of braces with some assignments makes. -/
def ofBraces? (assignments : List Assignment) : Option Item := do
  return .table .braces (← assignments.foldlM (fun es a => assign? a.value a.keys es) [])

/-- A line that says something. -/
inductive Statement where
  | assign (a : Assignment)
  /-- A header in brackets. -/
  | header (keys : List String)
  /-- A header in double brackets. -/
  | arrayHeader (keys : List String)

/-- The table that is being built, and the keys of the last header. -/
structure Building where
  root : Entries
  here : List String

/-- Takes one statement in. Keys are assigned in the table of the last header. -/
def Building.add? (b : Building) : Statement → Option Building
  | .assign a => do
    return { b with root := ← descend? (assign? a.value a.keys) b.here b.root }
  | .header keys => do
    return ⟨← descend? (openTable? (keys.getLastD "")) keys.dropLast b.root, keys⟩
  | .arrayHeader keys => do
    return ⟨← descend? (openArrayTable? (keys.getLastD "")) keys.dropLast b.root, keys⟩

/-- The table that some statements build up. -/
def build? (statements : List Statement) : Option Entries := do
  return (← statements.foldlM Building.add? ⟨[], []⟩).root

end VirtualShell.Toml
