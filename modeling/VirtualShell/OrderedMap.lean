/-!
# Maps in insertion order

A finite map that remembers in which order its keys came in. A new key goes to the end; a new
value for a known key takes the old value's place; removal keeps the order of the rest. That no
key occurs twice is part of the type. Main statements: `get?_insert`, `get?_erase` and
`keys_insert`.
-/

namespace VirtualShell

/-- A finite map whose keys are kept in the order of their first insertion. -/
structure OrderedMap (κ ν : Type) where
  /-- The bindings, oldest first. -/
  entries : List (κ × ν)
  nodup_keys : (entries.map Prod.fst).Nodup
  deriving DecidableEq, Repr

namespace OrderedMap

variable {κ ν : Type}

/-- The map without bindings. -/
def empty : OrderedMap κ ν := ⟨[], List.nodup_nil⟩

instance : Inhabited (OrderedMap κ ν) := ⟨empty⟩

/-- The keys, oldest first. -/
def keys (m : OrderedMap κ ν) : List κ := m.entries.map Prod.fst

/-- The values, in the order of their keys. -/
def values (m : OrderedMap κ ν) : List ν := m.entries.map Prod.snd

/-- The number of bindings. -/
def size (m : OrderedMap κ ν) : Nat := m.entries.length

/-- Changes every value by a function of its key and itself. -/
def mapValues (f : κ → ν → ν) (m : OrderedMap κ ν) : OrderedMap κ ν where
  entries := m.entries.map fun e => (e.1, f e.1 e.2)
  nodup_keys := by
    have h : (m.entries.map fun e => (e.1, f e.1 e.2)).map Prod.fst = m.entries.map Prod.fst := by
      simp
    rw [h]; exact m.nodup_keys

/-- Keeps the bindings whose key passes a test. -/
def filterKeys (keep : κ → Bool) (m : OrderedMap κ ν) : OrderedMap κ ν where
  entries := m.entries.filter fun e => keep e.1
  nodup_keys := (List.filter_sublist.map Prod.fst).nodup m.nodup_keys

variable [DecidableEq κ]

/-- The value of a key. -/
def get? (m : OrderedMap κ ν) (k : κ) : Option ν :=
  (m.entries.find? fun e => e.1 = k).map Prod.snd

/-- Whether a key is bound. -/
def contains (m : OrderedMap κ ν) (k : κ) : Bool := (m.get? k).isSome

/-- Changes the value of one key, if it is bound. -/
def modify (m : OrderedMap κ ν) (k : κ) (f : ν → ν) : OrderedMap κ ν :=
  m.mapValues fun k' v => if k' = k then f v else v

/-- Removes one key. -/
def erase (m : OrderedMap κ ν) (k : κ) : OrderedMap κ ν := m.filterKeys (· ≠ k)

/-- Binds a key that is not bound yet, at the end. -/
def append (m : OrderedMap κ ν) (k : κ) (v : ν) (h : k ∉ m.entries.map Prod.fst) :
    OrderedMap κ ν where
  entries := m.entries ++ [(k, v)]
  nodup_keys := by
    simp only [List.map_append, List.map_cons, List.map_nil]
    refine List.nodup_append.2 ⟨m.nodup_keys, by simp, ?_⟩
    intro a ha b hb hab
    simp only [List.mem_singleton] at hb
    exact h (hb ▸ hab ▸ ha)

/-- Binds a key: in place if it is known, else at the end. -/
def insert (m : OrderedMap κ ν) (k : κ) (v : ν) : OrderedMap κ ν :=
  if h : k ∈ m.entries.map Prod.fst then m.modify k fun _ => v else m.append k v h

/-- Binds a key only if it is not bound yet. -/
def insertNew (m : OrderedMap κ ν) (k : κ) (v : ν) : OrderedMap κ ν :=
  if h : k ∈ m.entries.map Prod.fst then m else m.append k v h

/-- The map that results from inserting pairs one by one. -/
def ofList (pairs : List (κ × ν)) : OrderedMap κ ν :=
  pairs.foldl (fun m e => m.insert e.1 e.2) empty

@[simp] theorem get?_empty (k : κ) : (empty : OrderedMap κ ν).get? k = none := rfl

theorem get?_eq_none_iff {m : OrderedMap κ ν} {k : κ} : m.get? k = none ↔ k ∉ m.keys := by
  constructor
  · intro h hk
    obtain ⟨e, he, rfl⟩ := List.mem_map.1 hk
    simp only [get?, Option.map_eq_none_iff, List.find?_eq_none, decide_eq_true_eq] at h
    exact h e he rfl
  · intro h
    simp only [get?, Option.map_eq_none_iff, List.find?_eq_none, decide_eq_true_eq]
    intro e he hk
    exact h (List.mem_map.2 ⟨e, he, hk⟩)

theorem get?_mapValues (f : κ → ν → ν) (m : OrderedMap κ ν) (k : κ) :
    (m.mapValues f).get? k = (m.get? k).map (f k) := by
  simp only [get?, mapValues]
  induction m.entries with
  | nil => rfl
  | cons e es ih =>
    by_cases h : e.1 = k
    · simp [h]
    · simpa [List.find?_cons, h] using ih

theorem get?_filterKeys (keep : κ → Bool) (m : OrderedMap κ ν) (k : κ) :
    (m.filterKeys keep).get? k = if keep k then m.get? k else none := by
  simp only [get?, filterKeys]
  induction m.entries with
  | nil => simp
  | cons e es ih =>
    by_cases h : e.1 = k
    · subst h
      by_cases hk : keep e.1
      · simp [hk]
      · simpa [List.find?_cons, hk] using ih
    · by_cases hk : keep e.1
      · simpa [List.find?_cons, hk, h] using ih
      · simpa [List.find?_cons, hk, h] using ih

/-- The value read after changing one key's value. -/
theorem get?_modify (m : OrderedMap κ ν) (k j : κ) (f : ν → ν) :
    (m.modify k f).get? j = if j = k then (m.get? j).map f else m.get? j := by
  unfold modify
  rw [get?_mapValues]
  by_cases h : j = k
  · simp [h]
  · cases m.get? j <;> simp [h]

/-- The value read after removing a key. -/
theorem get?_erase (m : OrderedMap κ ν) (k j : κ) :
    (m.erase k).get? j = if j = k then none else m.get? j := by
  unfold erase
  rw [get?_filterKeys]
  by_cases h : j = k <;> simp [h]

theorem get?_append (m : OrderedMap κ ν) (k j : κ) (v : ν) (h : k ∉ m.entries.map Prod.fst) :
    (m.append k v h).get? j = if j = k then some v else m.get? j := by
  unfold get? append
  simp only [List.find?_append]
  by_cases hj : j = k
  · subst hj
    have : m.entries.find? (fun e => decide (e.1 = j)) = none := by
      simp only [List.find?_eq_none, decide_eq_true_eq]
      intro e he hk
      exact h (List.mem_map.2 ⟨e, he, hk⟩)
    simp [this]
  · have hkj : ¬ k = j := fun e => hj e.symm
    simp [hj, hkj]

/-- The value read after a binding. -/
theorem get?_insert (m : OrderedMap κ ν) (k j : κ) (v : ν) :
    (m.insert k v).get? j = if j = k then some v else m.get? j := by
  unfold insert
  split
  · next hk =>
    rw [get?_modify]
    by_cases h : j = k
    · subst h
      have : m.get? j ≠ none := fun hn => (get?_eq_none_iff.1 hn) hk
      cases hv : m.get? j with
      | none => exact absurd hv this
      | some w => simp
    · simp [h]
  · next hk => exact get?_append m k j v hk

/-- The value read after a binding that leaves known keys alone. -/
theorem get?_insertNew (m : OrderedMap κ ν) (k j : κ) (v : ν) :
    (m.insertNew k v).get? j = if j = k ∧ k ∉ m.keys then some v else m.get? j := by
  unfold insertNew
  split
  · next hk => simp [show k ∈ m.keys from hk]
  · next hk => rw [get?_append]; simp [show k ∉ m.keys from hk]

/-- The bindings are the pairs of a key and its value. -/
theorem mem_entries_iff {m : OrderedMap κ ν} {k : κ} {v : ν} :
    (k, v) ∈ m.entries ↔ m.get? k = some v := by
  obtain ⟨es, hnodup⟩ := m
  simp only [get?]
  induction es with
  | nil => simp
  | cons e es ih =>
    rw [List.map_cons, List.nodup_cons] at hnodup
    by_cases he : e.1 = k
    · subst he
      have hnot : (e.1, v) ∉ es := fun h => hnodup.1 (List.mem_map.2 ⟨_, h, rfl⟩)
      simp only [List.mem_cons, hnot, or_false, List.find?_cons_of_pos, decide_true,
        Option.map_some, Option.some.injEq]
      constructor
      · intro h; rw [← h]
      · intro h; rw [← h]
    · have hne : (k, v) ≠ e := fun h => he (by rw [← h])
      simp only [List.mem_cons, hne, false_or]
      rw [List.find?_cons_of_neg (by simpa using he)]
      exact ih hnodup.2

theorem mem_values_iff {m : OrderedMap κ ν} {v : ν} : v ∈ m.values ↔ ∃ k, m.get? k = some v := by
  simp only [values, List.mem_map, Prod.exists, exists_eq_right, mem_entries_iff]

theorem mem_keys_iff {m : OrderedMap κ ν} {k : κ} : k ∈ m.keys ↔ ∃ v, m.get? k = some v := by
  rw [← Option.isSome_iff_exists, ← Option.ne_none_iff_isSome, ne_eq, get?_eq_none_iff,
    Decidable.not_not]

omit [DecidableEq κ] in
@[simp] theorem keys_mapValues (f : κ → ν → ν) (m : OrderedMap κ ν) :
    (m.mapValues f).keys = m.keys := by
  simp [keys, mapValues]

/-- A known key keeps its place and a new one goes to the end. -/
theorem keys_insert (m : OrderedMap κ ν) (k : κ) (v : ν) :
    (m.insert k v).keys = if k ∈ m.keys then m.keys else m.keys ++ [k] := by
  unfold insert
  split
  · next h => simp [modify, show k ∈ m.keys from h]
  · next h => simp [append, keys, show k ∉ m.entries.map Prod.fst from h]

/-! ## Maps as lists of bindings -/

omit [DecidableEq κ] in
theorem eq_of_entries_eq {m m' : OrderedMap κ ν} (h : m.entries = m'.entries) : m = m' := by
  cases m
  cases m'
  cases h
  rfl

theorem entries_insert_of_not_mem {m : OrderedMap κ ν} {k : κ} (h : k ∉ m.keys) (v : ν) :
    (m.insert k v).entries = m.entries ++ [(k, v)] := by
  unfold insert
  split
  · next hk => exact absurd hk h
  · rfl

/-- Inserting pairs leaves the values of other keys alone. -/
theorem get?_foldl_insert {pairs : List (κ × ν)} {m : OrderedMap κ ν} {k : κ}
    (h : k ∉ pairs.map Prod.fst) :
    (pairs.foldl (fun m e => m.insert e.1 e.2) m).get? k = m.get? k := by
  induction pairs generalizing m with
  | nil => rfl
  | cons e pairs ih =>
    rw [List.map_cons, List.mem_cons, not_or] at h
    rw [List.foldl_cons, ih h.2, get?_insert, if_neg h.1]

/-- Inserting pairs with new and different keys appends them. -/
theorem entries_foldl_insert {pairs : List (κ × ν)} {m : OrderedMap κ ν}
    (h : ((m.entries ++ pairs).map Prod.fst).Nodup) :
    (pairs.foldl (fun m e => m.insert e.1 e.2) m).entries = m.entries ++ pairs := by
  induction pairs generalizing m with
  | nil => simp
  | cons e pairs ih =>
    have hnew : e.1 ∉ m.keys := by
      rw [List.map_append, List.nodup_append] at h
      intro hmem
      exact h.2.2 e.1 hmem e.1 (by simp) rfl
    have hentries : (m.insert e.1 e.2).entries = m.entries ++ [e] := entries_insert_of_not_mem hnew e.2
    rw [List.foldl_cons, ih, hentries]
    · simp
    · rw [hentries]
      simpa using h

/-- A map is the map of its bindings. -/
theorem ofList_entries (m : OrderedMap κ ν) : ofList m.entries = m :=
  eq_of_entries_eq (by rw [ofList, entries_foldl_insert] <;> simp [empty, m.nodup_keys])

/-- Binding a key to the value that it has changes nothing. -/
theorem insert_of_get? {m : OrderedMap κ ν} {k : κ} {v : ν} (h : m.get? k = some v) :
    m.insert k v = m := by
  have hk : k ∈ m.entries.map Prod.fst := mem_keys_iff.2 ⟨v, h⟩
  have hsame : ∀ e ∈ m.entries, (e.1, if e.1 = k then v else e.2) = e := by
    intro e he
    split
    · next hek =>
      have hget := mem_entries_iff.1 (show (e.1, e.2) ∈ m.entries from he)
      rw [hek, h, Option.some.injEq] at hget
      rw [hget]
    · rfl
  refine eq_of_entries_eq ?_
  rw [insert, dif_pos hk]
  exact (List.map_congr_left hsame).trans (List.map_id' _)

end OrderedMap

end VirtualShell
