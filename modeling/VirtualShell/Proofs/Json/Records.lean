import Mathlib.Data.List.Nodup
import VirtualShell.Json.Decode
import VirtualShell.Proofs.Json.RoundTrip

/-!
# Records taken apart

A record that was written with different field names gives each field that is asked for
(`fields?_record`), a list of strings gives its texts and an object of strings its members.
-/

namespace VirtualShell.Json

/-- Reading every value of a list that was made from things that can be read back. -/
theorem mapM_map_eq_some {α β : Type} {f : β → Option α} {g : α → β} {l : List α}
    (hf : ∀ a ∈ l, f (g a) = some a) : (l.map g).mapM f = some l := by
  induction l with
  | nil => rfl
  | cons a l ih =>
    rw [List.map_cons, List.mapM_cons, hf a List.mem_cons_self,
      ih fun b hb => hf b (List.mem_cons_of_mem _ hb)]
    rfl

/-- What a list of values was read as was read from one of them. -/
theorem exists_of_mem_mapM {α β : Type} {f : α → Option β} {l : List α} {l' : List β}
    (h : l.mapM f = some l') {b : β} (hb : b ∈ l') : ∃ a ∈ l, f a = some b := by
  induction l generalizing l' with
  | nil =>
    obtain rfl : [] = l' := Option.some.inj h
    cases hb
  | cons a l ih =>
    rw [List.mapM_cons] at h
    obtain ⟨b', hfirst, h⟩ := Text.exists_of_bind_eq_some h
    obtain ⟨bs, hrest, h⟩ := Text.exists_of_bind_eq_some h
    obtain rfl := Option.some.inj h
    rcases List.mem_cons.1 hb with rfl | hb
    · exact ⟨a, List.mem_cons_self, hfirst⟩
    · obtain ⟨a', ha', hread⟩ := ih hrest hb
      exact ⟨a', List.mem_cons_of_mem _ ha', hread⟩

namespace Value

@[simp] theorem text?_text (s : String) : (text s).text? = some s := rfl

@[simp] theorem members?_record (members : List (String × Value)) :
    (record members).members? = some members := by
  exact mapM_map_eq_some fun _ _ => rfl

@[simp] theorem texts?_array (texts : List String) : (array (texts.map text)).texts? =
    some texts := by
  exact mapM_map_eq_some fun _ _ => rfl

theorem count?_count {n : Nat} (h : n ≤ Text.countLimit) : (count n).count? = some n := by
  simp [count, count?, h]

theorem count?_le {v : Value} {n : Nat} (h : v.count? = some n) :
    n ≤ Text.countLimit := by
  cases v with
  | number numeral =>
    rw [Value.count?] at h
    split at h
    · next hcount =>
      obtain rfl := Option.some.inj h
      simp only [Bool.and_eq_true, decide_eq_true_eq] at hcount
      exact hcount.2
    · cases h
  | _ => cases h

theorem isPlain_text (s : String) : (text s).IsPlain := rfl

theorem isPlain_count (n : Nat) : (count n).IsPlain := rfl

theorem isPlain_record {members : List (String × Value)} :
    (record members).IsPlain ↔ ∀ m ∈ members, m.2.IsPlain := by
  rw [record, IsPlain]
  induction members with
  | nil => simp [PlainMembers]
  | cons m members ih => simp [PlainMembers, ih]

theorem isPlain_array {items : List Value} : (array items).IsPlain ↔ ∀ v ∈ items, v.IsPlain := by
  rw [IsPlain, plainItems_iff]

end Value

/-- The members of a record whose fields have different names. -/
theorem fields?_record (names : List String) {members : List (String × Value)}
    (h : (members.map Prod.fst).Nodup) : fields? names (.record members) = some ⟨false,
      names.map fun name => (members.find? fun m => m.1 == name).map (·.2)⟩ := by
  have hmembers : (Value.object (members.map fun m => (some m.1, m.2))).members? = some members :=
    Value.members?_record members
  have honce : (names.all fun name => members.countP (fun m => m.1 == name) ≤ 1) = true := by
    rw [List.all_eq_true]
    intro name _
    have hcount := List.nodup_iff_count_le_one.1 h name
    rw [List.count, List.countP_map] at hcount
    simpa [Function.comp_def] using hcount
  rw [Value.record, fields?, hmembers]
  simp only [honce, if_true]

/-- A field that is there and is read gives its value to what follows. -/
theorem bind_field {α β : Type} {f : Fields} {i : Nat} {v : Value} {read : Value → Option α} {a : α}
    (hget : f.get? i = some v) (hread : read v = some a) (k : α → Option β) :
    (f.get? i >>= fun v => read v >>= k) = k a := by
  rw [hget]
  exact Text.bind_of_eq_some hread k

/-- A field that was read was there. -/
theorem exists_of_bind_field {α β : Type} {f : Fields} {i : Nat} {read : Value → Option α}
    {k : α → Option β} {b : β} (h : (f.get? i >>= fun v => read v >>= k) = some b) :
    ∃ v a, read v = some a ∧ k a = some b := by
  obtain ⟨v, -, h⟩ := Text.exists_of_bind_eq_some h
  obtain ⟨a, hread, h⟩ := Text.exists_of_bind_eq_some h
  exact ⟨v, a, hread, h⟩

end VirtualShell.Json
