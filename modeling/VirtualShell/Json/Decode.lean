import VirtualShell.Json.Reader

/-!
# Taking values apart

What a saved state asks of a value: that it is a string, a count, a list, a map, or a record with
given fields. A record is an object whose known fields occur once and whose unknown fields do not
matter, or an array of its fields in order.
-/

namespace VirtualShell.Json

/-- How deep values may nest where all of a value is looked at. -/
def depthLimit : Nat := 127

mutual

/-- The value denotes something down to its last part and nests at most so deep. -/
def Value.isSound : Nat → Value → Bool
  | _, .null => true
  | _, .bool _ => true
  | _, .number n => !Text.exceedsFloat n.mantissa n.scale
  | _, .string s => s.isSome
  | 0, .array _ => false
  | depth + 1, .array items => soundItems depth items
  | 0, .object _ => false
  | depth + 1, .object members => soundMembers depth members

/-- `Value.isSound` for all values of a list. -/
def soundItems : Nat → List Value → Bool
  | _, [] => true
  | depth, v :: vs => v.isSound depth && soundItems depth vs

/-- `Value.isSound` for all keys and values of an object. -/
def soundMembers : Nat → List (Option String × Value) → Bool
  | _, [] => true
  | depth, (k, v) :: ms => k.isSome && v.isSound depth && soundMembers depth ms

end

namespace Value

/-- The text of a string. -/
def text? : Value → Option String
  | .string s => s
  | _ => none

/-- The value of a numeral of plain digits, in 64 bits. -/
def count? : Value → Option Nat
  | .number n =>
    if n.whole && !n.negative && n.mantissa ≤ Text.countLimit then some n.mantissa else none
  | _ => none

def bool? : Value → Option Bool
  | .bool b => some b
  | _ => none

def items? : Value → Option (List Value)
  | .array items => some items
  | _ => none

/-- The texts of an array of strings. -/
def texts? (v : Value) : Option (List String) := v.items?.bind (·.mapM text?)

/-- The members of an object, all of whose keys denote texts. -/
def members? : Value → Option (List (String × Value))
  | .object members => members.mapM fun m => m.1.map (·, m.2)
  | _ => none

/-- The members of an object of strings. -/
def textMembers? (v : Value) : Option (List (String × String)) :=
  v.members?.bind (·.mapM fun m => m.2.text?.map (m.1, ·))

end Value

/-- A record taken apart: the values of its fields, in the order asked for, and whether it was
written by position. -/
structure Fields where
  positional : Bool
  values : List (Option Value)

/-- The field at a position. -/
def Fields.get? (f : Fields) (i : Nat) : Option Value := (f.values[i]?).bind id

/-- Takes an object or an array apart as a record with the given fields. A field may be missing,
but none may occur twice, and an array may not be longer than the record. -/
def fields? (names : List String) : Value → Option Fields
  | .object members =>
    match (Value.object members).members? with
    | none => none
    | some members =>
      if names.all fun name => members.countP (fun m => m.1 == name) ≤ 1 then
        some ⟨false, names.map fun name => (members.find? fun m => m.1 == name).map (·.2)⟩
      else none
  | .array items =>
    if items.length ≤ names.length then
      some ⟨true, items.map some ++ List.replicate (names.length - items.length) none⟩
    else none
  | _ => none

end VirtualShell.Json
