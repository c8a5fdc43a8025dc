import VirtualShell.Proofs.Shell.SavedStates

/-!
# Which states are read back

Whatever is decoded has sizes and times that can be stored: a time stamp is read as an instant that a
clock can show (`Instant.isValid_of_ofStamp?`), and a size in 64 bits. So the states that are read
back from their text are just those that can be stored (`SavedState.ofText?_toText_iff`). No more is
asked of them: a tree need not be consistent (`decoded_of_stored`).
-/

namespace VirtualShell

open Json Calendar

namespace Calendar

open Stamp Text

/-- A fraction of a second is read as less than a second. -/
theorem Stamp.fraction?_lt {s rest : List Char} {nanos : Nat}
    (h : fraction? s = some (nanos, rest)) : nanos < nanosPerSecond := by
  unfold fraction? at h
  split at h
  · next s =>
    dsimp only at h
    split at h
    · cases h
    · obtain ⟨rfl, -⟩ := Prod.mk.inj (Option.some.inj h)
      set digits := (s.takeWhile Char.isDigit).take 9
      have hall : ∀ c ∈ digits, c.isDigit = true := fun c hc =>
        List.mem_takeWhile_imp (List.take_subset _ _ hc)
      have hlength : digits.length ≤ 9 := List.length_take_le _ _
      calc Text.digitsValue digits * 10 ^ (9 - digits.length)
          < 10 ^ digits.length * 10 ^ (9 - digits.length) :=
            Nat.mul_lt_mul_of_pos_right (Text.digitsValue_lt hall) (Nat.pow_pos (by decide))
        _ = nanosPerSecond := by
            rw [← Nat.pow_add, Nat.add_sub_cancel' hlength]
            rfl
  · obtain ⟨rfl, -⟩ := Prod.mk.inj (Option.some.inj h)
    decide

/-- An instant that is read from a time stamp is one that a clock can show. -/
theorem Instant.isValid_of_ofStamp? {text : String} {t : Instant} (h : ofStamp? text = some t) :
    t.IsValid := by
  unfold ofStamp? at h
  obtain ⟨⟨year, s₁⟩, -, h⟩ := exists_of_bind_eq_some h
  obtain ⟨s₂, -, h⟩ := exists_of_bind_eq_some h
  obtain ⟨⟨month, s₃⟩, -, h⟩ := exists_of_bind_eq_some h
  obtain ⟨s₄, -, h⟩ := exists_of_bind_eq_some h
  obtain ⟨⟨day, s₅⟩, -, h⟩ := exists_of_bind_eq_some h
  -- the letter between date and time
  dsimp -zeta only at h
  extract_lets date clock at h
  obtain ⟨s₆, h⟩ : ∃ s, clock s = some t := by
    split at h
    · exact ⟨_, h⟩
    · exact ⟨_, h⟩
    · exact ⟨_, h⟩
    · cases h
  obtain ⟨⟨hour, s₇⟩, -, h⟩ := exists_of_bind_eq_some h
  obtain ⟨s₈, -, h⟩ := exists_of_bind_eq_some h
  obtain ⟨⟨minute, s₉⟩, -, h⟩ := exists_of_bind_eq_some h
  obtain ⟨s₁₀, -, h⟩ := exists_of_bind_eq_some h
  obtain ⟨⟨second, s₁₁⟩, -, h⟩ := exists_of_bind_eq_some h
  obtain ⟨⟨fraction, s₁₂⟩, hfraction, h⟩ := exists_of_bind_eq_some h
  obtain ⟨⟨offset, s₁₃⟩, -, h⟩ := exists_of_bind_eq_some h
  obtain ⟨_, -, h⟩ := exists_of_bind_eq_some h
  obtain ⟨_, -, h⟩ := exists_of_bind_eq_some h
  obtain ⟨_, hyear, h⟩ := exists_of_bind_eq_some h
  obtain rfl := Option.some.inj h
  have hyear := of_guard_eq_some hyear
  have hfraction := fraction?_lt hfraction
  refine ⟨hyear, ?_⟩
  -- an offset is a number of minutes, so that it keeps the second of the minute
  by_cases hleap : second = 60
  · refine .inr ⟨?_, ?_⟩
    · simp only [hleap, if_true]
      omega
    · unfold secondOfDay
      simp only [hleap, if_true]
      omega
  · refine .inl ?_
    simpa [hleap] using hfraction

/-- An instant of the years 0 to 9999 that is no leap second. -/
def Instant.IsCommon (t : Instant) : Prop :=
  0 ≤ t.date.year ∧ t.date.year ≤ 9999 ∧ t.nanos < nanosPerSecond

instance (t : Instant) : Decidable t.IsCommon :=
  inferInstanceAs (Decidable (0 ≤ t.date.year ∧ t.date.year ≤ 9999 ∧ t.nanos < nanosPerSecond))

theorem Instant.IsCommon.isValid {t : Instant} (h : t.IsCommon) : t.IsValid := by
  obtain ⟨hfrom, hto, hnanos⟩ := h
  refine ⟨?_, .inl hnanos⟩
  rw [yearInRange, Bool.and_eq_true, decide_eq_true_eq, decide_eq_true_eq]
  omega

end Calendar

/-! ## What is decoded can be stored -/

theorem Metadata.storable_of_decode? {v : Value} {m : Metadata} (h : decode? v = some m) :
    m.Storable := by
  unfold decode? at h
  obtain ⟨f, -, h⟩ := Text.exists_of_bind_eq_some h
  obtain ⟨_, permissions, -, h⟩ := exists_of_bind_field h
  obtain ⟨_, owner, -, h⟩ := exists_of_bind_field h
  obtain ⟨_, group, -, h⟩ := exists_of_bind_field h
  obtain ⟨_, size, hsize, h⟩ := exists_of_bind_field h
  obtain ⟨_, _, -, h⟩ := exists_of_bind_field h
  obtain ⟨created, hcreated, h⟩ := Text.exists_of_bind_eq_some h
  obtain ⟨_, _, -, h⟩ := exists_of_bind_field h
  obtain ⟨modified, hmodified, h⟩ := Text.exists_of_bind_eq_some h
  obtain rfl := Option.some.inj h
  exact ⟨Value.count?_le hsize, Instant.isValid_of_ofStamp? hcreated,
    Instant.isValid_of_ofStamp? hmodified⟩

theorem Node.storable_of_decode? {depth : Nat} {v : Value} {n : Node} (h : decode? depth v = some n) :
    n.metadata.Storable := by
  unfold decode? at h
  obtain ⟨f, -, h⟩ := Text.exists_of_bind_eq_some h
  -- the parent and the flag may be left out
  extract_lets withParent at h
  obtain ⟨parent, h⟩ : ∃ parent, withParent parent = some n := by
    split at h
    · obtain ⟨parent, -, h⟩ := Text.exists_of_bind_eq_some h
      exact ⟨parent, h⟩
    · split at h
      · cases h
      · exact ⟨none, h⟩
  dsimp -zeta only [withParent] at h
  extract_lets withFlag at h
  obtain ⟨readOnly, h⟩ : ∃ readOnly, withFlag readOnly = some n := by
    split at h
    · obtain ⟨readOnly, -, h⟩ := Text.exists_of_bind_eq_some h
      exact ⟨readOnly, h⟩
    · exact ⟨false, h⟩
  obtain ⟨_, id, -, h⟩ := exists_of_bind_field h
  obtain ⟨_, name, -, h⟩ := exists_of_bind_field h
  obtain ⟨_, path, -, h⟩ := exists_of_bind_field h
  obtain ⟨_, content, -, h⟩ := exists_of_bind_field h
  obtain ⟨_, metadata, hmetadata, h⟩ := exists_of_bind_field h
  obtain rfl := Option.some.inj h
  exact Metadata.storable_of_decode? hmetadata

namespace OrderedMap

variable {κ ν : Type} [DecidableEq κ]

/-- What holds of the values of all pairs holds of the values of their map. -/
theorem forall_mem_values_ofList {P : ν → Prop} {pairs : List (κ × ν)} (h : ∀ e ∈ pairs, P e.2) :
    ∀ v ∈ (ofList pairs).values, P v := by
  have hfold : ∀ m : OrderedMap κ ν, (∀ v ∈ m.values, P v) →
      ∀ v ∈ (pairs.foldl (fun m e => m.insert e.1 e.2) m).values, P v := by
    induction pairs with
    | nil => exact fun m hm => hm
    | cons e pairs ih =>
      intro m hm
      refine ih (fun e he => h e (List.mem_cons_of_mem _ he)) _ fun v hv => ?_
      obtain ⟨k, hk⟩ := mem_values_iff.1 hv
      rw [get?_insert] at hk
      split at hk
      · obtain rfl := Option.some.inj hk
        exact h e List.mem_cons_self
      · exact hm v (mem_values_iff.2 ⟨k, hk⟩)
  refine hfold empty fun v hv => ?_
  cases hv

end OrderedMap

theorem FileTree.storable_of_decode? {depth : Nat} {v : Value} {t : FileTree}
    (h : decode? depth v = some t) : t.Storable := by
  unfold decode? at h
  obtain ⟨f, -, h⟩ := Text.exists_of_bind_eq_some h
  obtain ⟨_, members, -, h⟩ := exists_of_bind_field h
  obtain ⟨bindings, hbindings, h⟩ := Text.exists_of_bind_eq_some h
  obtain ⟨_, root, -, h⟩ := exists_of_bind_field h
  obtain ⟨_, cwd, -, h⟩ := exists_of_bind_field h
  obtain rfl := Option.some.inj h
  refine OrderedMap.forall_mem_values_ofList fun e he => ?_
  obtain ⟨m, -, hm⟩ := exists_of_mem_mapM hbindings he
  obtain ⟨n, hn, rfl⟩ := Option.map_eq_some_iff.1 hm
  exact Node.storable_of_decode? hn

theorem SavedState.storable_of_ofText? {text : String} {s : SavedState}
    (h : ofText? text = some s) : s.tree.Storable := by
  obtain ⟨v, -, h⟩ := Option.bind_eq_some_iff.1 h
  unfold decode? at h
  obtain ⟨f, -, h⟩ := Text.exists_of_bind_eq_some h
  obtain ⟨_, tree, htree, h⟩ := exists_of_bind_field h
  obtain ⟨_, session, -, h⟩ := exists_of_bind_field h
  obtain rfl := Option.some.inj h
  exact FileTree.storable_of_decode? htree

/-- The states that are read back from their text are those that can be stored. -/
theorem SavedState.ofText?_toText_iff {s : SavedState} :
    ofText? s.toText = some s ↔ s.tree.Storable :=
  ⟨storable_of_ofText?, ofText?_toText⟩

/-- Every tree, consistent or not, is read back from its text with the order of its nodes if its sizes
are numbers of 64 bits and its times lie in the years 0 to 9999. It is then checked as it was. With
any session it is read back from the text of the state. -/
theorem decoded_of_stored {t : FileTree} (hsize : ∀ n ∈ t.allNodes, n.metadata.size < 2 ^ 64)
    (htimes : ∀ n ∈ t.allNodes, n.metadata.created.IsCommon ∧ n.metadata.modified.IsCommon)
    (session : SavedSession) :
    (parse? t.toSnapshot).bind (FileTree.decode? depthLimit) = some t ∧
      FileTree.ofSnapshot t.toSnapshot = t.accept ∧
      SavedState.ofText? (SavedState.toText ⟨t, session⟩) = some ⟨t, session⟩ := by
  have hstorable : t.Storable := fun n hn =>
    ⟨Nat.le_sub_one_of_lt (hsize n hn), (htimes n hn).1.isValid, (htimes n hn).2.isValid⟩
  have hdecoded : (parse? t.toSnapshot).bind (FileTree.decode? depthLimit) = some t := by
    rw [FileTree.toSnapshot, parse?_toText t.isPlain_encode, Option.bind_some,
      FileTree.decode?_encode hstorable (by decide)]
  refine ⟨hdecoded, ?_, SavedState.ofText?_toText hstorable⟩
  rw [FileTree.ofSnapshot, hdecoded]

/-- A tree whose nodes do not know each other, with control characters, marks and a character beyond
the first plane in its texts, the largest size, and the first and the last of the times. -/
theorem decoded_of_stored_damaged :
    let file : Node := ⟨⟨"b\u0000"⟩, "\"\\/", "\u007f\n\t", some ⟨"missing"⟩, .file "𝄞\u001f\u2028",
      ⟨"-", "", "é", 18446744073709551615, ⟨-62167219200, 120000000⟩, ⟨253402300799, 999999999⟩⟩, true⟩
    let directory : Node := ⟨⟨""⟩, "", "", none, .directory [⟨"z"⟩, ⟨"z"⟩],
      ⟨"", "", "", 0, ⟨-1, 5000⟩, ⟨0, 0⟩⟩, false⟩
    let t : FileTree := ⟨.ofList [(⟨"z"⟩, file), (⟨"a\r"⟩, directory)], ⟨"nowhere"⟩, ⟨"a\r"⟩⟩
    let session : SavedSession := ⟨["", "echo \"\\\""], .ofList [("z", "\u0008"), ("a", "")],
      .ofList [("PWD", "not there"), ("", "\u000c")]⟩
    (∀ n ∈ t.allNodes, n.metadata.size < 2 ^ 64) ∧
      (∀ n ∈ t.allNodes, n.metadata.created.IsCommon ∧ n.metadata.modified.IsCommon) ∧
      t.defect?.isSome = true ∧
      (parse? t.toSnapshot).bind (FileTree.decode? depthLimit) = some t ∧
      SavedState.ofText? (SavedState.toText ⟨t, session⟩) = some ⟨t, session⟩ := by
  intro file directory t session
  have hsize : ∀ n ∈ t.allNodes, n.metadata.size < 2 ^ 64 := by decide
  have htimes : ∀ n ∈ t.allNodes, n.metadata.created.IsCommon ∧ n.metadata.modified.IsCommon := by
    decide
  have hdefect : t.defect?.isSome = true := by decide
  obtain ⟨htree, -, hstate⟩ := decoded_of_stored hsize htimes session
  exact ⟨hsize, htimes, hdefect, htree, hstate⟩

end VirtualShell
