import VirtualShell.Proofs.Line.References

/-!
# Which texts are names

The pieces of a text are found by a scanner that stops at the end of a name, and a text can be told to
be a name as a whole. Both mean the same names: whatever the scanner finds is a name
(`isName_of_mem_parts`), and a name in braces is found (`expandVariables_reference`). So the names are
the texts to which a reference in braces has the value as its expansion, whatever the variables are
(`isName_iff`).
-/

namespace VirtualShell.Line

/-- A reference to a variable, in braces. -/
def reference (name : String) : String := "$\x7b" ++ name ++ "\x7d"

theorem toList_reference (name : String) :
    (reference name).toList = '$' :: '\x7b' :: (name.toList ++ ['\x7d']) := by
  simp [reference]

/-- A reference is one piece. -/
theorem expandVariables_reference {name : String} (h : isName name.toList = true)
    (env : OrderedMap String String) :
    expandVariables env (reference name) = (env.get? name).getD "" := by
  have hpieces : Decomposes [.braced name.toList] (reference name).toList := by
    rw [toList_reference]
    exact decomposes_cons_iff.2 ⟨h, .nil, by simp [Piece.text]⟩
  rw [expandVariables_eq hpieces]
  simp [Piece.value, Piece.name?]

/-- Whatever the scanner finds is a name. -/
theorem isName_of_mem_parts {s name : List Char} (h : .variable name ∈ parts s) :
    isName name = true := by
  obtain ⟨pieces, hpieces⟩ := exists_decomposes s
  rw [hpieces.parts_eq] at h
  obtain ⟨p, hmem, hpart⟩ := List.mem_map.1 h
  obtain ⟨rest, hp⟩ := hpieces.fits_of_mem hmem
  cases p with
  | bare found =>
    obtain rfl := Part.variable.inj hpart
    exact hp.2.isName.resolve_left hp.1
  | braced found =>
    obtain rfl := Part.variable.inj hpart
    exact hp
  | _ => cases hpart

/-- A variable that has no name is never looked up. -/
theorem expandVariables_insert {name : String} (h : isName name.toList = false)
    (env : OrderedMap String String) (value text : String) :
    expandVariables (env.insert name value) text = expandVariables env text := by
  refine congrArg String.ofList (List.flatMap_congr fun part hpart => ?_)
  cases part with
  | copy s => rfl
  | «variable» found =>
    have hne : String.ofList found ≠ name := by
      rintro rfl
      rw [String.toList_ofList, isName_of_mem_parts hpart] at h
      cases h
    rw [Part.expand, Part.expand, OrderedMap.get?_insert, if_neg hne]

/-- The names are the texts to which a reference in braces expands to the value. -/
theorem isName_iff {name : String} : isName name.toList = true ↔
    ∀ env value, OrderedMap.get? env name = some value →
      expandVariables env (reference name) = value := by
  constructor
  · intro h env value hvalue
    rw [expandVariables_reference h, hvalue, Option.getD_some]
  · intro h
    by_contra hname
    have hname : isName name.toList = false := by simpa using hname
    -- the expansion is the same for all values of the variable
    have hsame : ∀ value, expandVariables .empty (reference name) = value := by
      intro value
      rw [← expandVariables_insert hname .empty value]
      exact h _ value (by rw [OrderedMap.get?_insert, if_pos rfl])
    exact absurd ((hsame "").symm.trans (hsame "x")) (by decide)

end VirtualShell.Line
