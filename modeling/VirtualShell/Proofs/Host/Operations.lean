import VirtualShell.Proofs.Host.Paths

/-!
# What the host's operations change

An operation that is not refused changes what stands at one place, and what is written into a file is
in it under all of its names; nothing else changes (`ensureDirectory_eq_ok`, `writeBytes_eq_ok`,
`renameFile_eq_ok`). Directories stay, and a tree stays a tree.
-/

namespace VirtualShell

namespace Host

open HostPath (nameLimit)

variable {h h' : Host} {p q r : Place} {path source target : HostPath} {e : HostEntry}
  {bytes : List UInt8}

/-! ## Names and numbers -/

theorem at?_of_number? {i : Nat} (hp : h.number? p = some i) : h.at? p = h.entries[i]? := by
  unfold number? at hp
  unfold at?
  split at hp
  · cases hp
  · next hbeyond =>
    rw [if_neg hbeyond, hp, Option.bind_some]

theorem exists_number? (hp : h.at? p = some e) (he : e ≠ .directory) :
    ∃ i, h.number? p = some i ∧ h.entries[i]? = some e := by
  unfold at? at hp
  split at hp
  · cases hp
    exact absurd rfl he
  · next hbeyond =>
    obtain ⟨i, hi, hentry⟩ := Option.bind_eq_some_iff.1 hp
    exact ⟨i, by rw [number?, if_neg hbeyond, hi], hentry⟩

/-- Nothing stands at a place without a number. -/
theorem number?_eq_none (htree : h.IsTree) (hp : h.at? p = none) : h.number? p = none := by
  cases hi : h.number? p with
  | none => rfl
  | some i =>
    rw [at?_of_number? hi] at hp
    unfold number? at hi
    split at hi
    · cases hi
    · have hlt := htree.numbered p i hi
      rw [List.getElem?_eq_getElem hlt] at hp
      cases hp

theorem SameFile.symm (hsame : h.SameFile p q) : h.SameFile q p :=
  ⟨hsame.2 ▸ hsame.1, hsame.2.symm⟩

theorem SameFile.at?_eq (hsame : h.SameFile p q) : h.at? p = h.at? q := by
  obtain ⟨hsome, heq⟩ := hsame
  obtain ⟨i, hi⟩ := Option.ne_none_iff_exists'.1 hsome
  rw [at?_of_number? hi, at?_of_number? (heq ▸ hi)]

theorem IsLeaf.ne_directory (hp : h.IsLeaf p) (hr : h.at? r = some .directory) : r ≠ p := by
  rintro rfl
  exact hp.1 hr

theorem isLeaf_of_content (hp : h.at? p = some (.content bytes)) : h.IsLeaf p := by
  constructor <;> simp [hp]

theorem isLeaf_of_none (hp : h.at? p = none) : h.IsLeaf p := by
  constructor <;> simp [hp]

theorem isLeaf_cases (hp : h.IsLeaf p) :
    h.at? p = none ∨ ∃ bytes, h.at? p = some (.content bytes) := by
  cases hat : h.at? p with
  | none => exact Or.inl rfl
  | some e =>
    cases e with
    | directory => exact absurd hat hp.1
    | content bytes => exact Or.inr ⟨bytes, rfl⟩
    | link target => exact absurd hat (hp.2 target)

/-- A name that is looked up is looked up in a directory. -/
theorem inDirectory_of_mem_trail (hr : r ∈ h.trail path) :
    ∃ dir name, r = dir ++ [name] ∧ h.at? dir = some .directory := by
  unfold trail wayOf at hr
  split at hr
  · cases hr
  · split at hr
    · obtain ⟨-, dir, name, -, -, rfl, hdir, -⟩ := exists_of_mem_names hr
      exact ⟨dir, name, rfl, hdir⟩
    · cases hr

/-- Where a path leads to no directory, it leads to a name in one. -/
theorem inDirectory_of_locate (htree : h.IsTree) (hlocate : h.locate path = .ok p)
    (hp : h.at? p ≠ some .directory) : ∃ dir name, p = dir ++ [name] ∧ h.at? dir = some .directory :=
  inDirectory_of_mem_trail ((end_of_wayOf htree hlocate).resolve_right hp)

theorem exists_of_locateName (htree : h.IsTree) (hlocate : h.locateName path = .ok p)
    (hp : h.at? p ≠ some .directory) :
    ∃ name dir m, path.fileName? = some name ∧ path.directory = false ∧ path.isLegal = true ∧
      (h.folderWay path).outcome = .ok (dir, m) ∧ ¬ nameLimit < name.utf8ByteSize ∧
      p = dir ++ [name] := by
  have hnamed : ¬ (path.fileName? = none ∨ path.directory = true) := fun hnone =>
    hp (directory_of_locateName htree hnone hlocate)
  rw [not_or, Bool.not_eq_true] at hnamed
  obtain ⟨name, hname⟩ := Option.ne_none_iff_exists'.1 hnamed.1
  obtain ⟨hlegal, dir, m, hway, hshort, rfl⟩ := (locateName_eq_ok hname hnamed.2).1 hlocate
  exact ⟨name, dir, m, hname, hnamed.2, hlegal, hway, hshort, rfl⟩

/-- A tree stays a tree where directories stay, new things are put into directories and every number
is that of something. -/
theorem IsTree.of_changed (htree : h.IsTree)
    (hdirs : ∀ r, h.at? r = some .directory → h'.at? r = some .directory)
    (hnew : ∀ r, h'.at? r ≠ none →
      h.at? r ≠ none ∨ ∃ dir name, r = dir ++ [name] ∧ h.at? dir = some .directory)
    (hnumbered : ∀ r i, h'.numbers.get? r = some i → i < h'.entries.length) : h'.IsTree := by
  refine ⟨fun r name hsome => hdirs r ?_, hnumbered⟩
  rcases hnew _ hsome with hold | ⟨dir, name', heq, hdir⟩
  · exact htree.inDirectory r name hold
  · obtain ⟨rfl, -⟩ := List.append_inj' heq rfl
    exact hdir

/-! ## Something new -/

/-- The host `h'` is like `h`, except that something new stands where there was nothing. -/
structure Puts (h h' : Host) (p : Place) (e : HostEntry) : Prop where
  here : h'.here = h.here
  at? : ∀ q, h'.at? q = if q = p then some e else h.at? q
  number? : ∀ q, q ≠ p → h'.number? q = h.number? q
  fresh : ∀ q, q ≠ p → ¬ h'.SameFile q p

theorem beyond_of_none (hp : h.at? p = none) : p.isPrefixOf h.here = false := by
  cases hprefix : p.isPrefixOf h.here with
  | false => rfl
  | true =>
    rw [at?_of_above (List.isPrefixOf_iff_prefix.1 hprefix)] at hp
    cases hp

theorem puts_put (htree : h.IsTree) (hp : h.at? p = none) (e : HostEntry) :
    Puts h (h.put p e) p e := by
  have hbeyond := beyond_of_none hp
  have hnumber : ∀ q, (h.put p e).number? q =
      if q = p then some h.entries.length else h.number? q := by
    intro q
    unfold Host.number? put
    simp only [OrderedMap.get?_insert]
    by_cases hq : q = p
    · simp [hq, hbeyond]
    · simp [hq]
  refine ⟨rfl, fun q => ?_, fun q hq => by rw [hnumber, if_neg hq], fun q hq hsame => ?_⟩
  · unfold Host.at? put
    simp only [OrderedMap.get?_insert]
    by_cases hq : q = p
    · simp [hq, hbeyond]
    · rw [if_neg hq, if_neg hq]
      split
      · rfl
      · cases hi : h.numbers.get? q with
        | none => rfl
        | some i =>
          have hlt := htree.numbered q i hi
          simp [List.getElem?_append_left hlt]
  · obtain ⟨-, heq⟩ := hsame
    rw [hnumber, hnumber, if_neg hq, if_pos rfl] at heq
    unfold Host.number? at heq
    split at heq
    · cases heq
    · exact Nat.lt_irrefl _ (htree.numbered q _ heq)

namespace Puts

theorem directories (hputs : Puts h h' p e) (hp : h.at? p = none) :
    ∀ r, h.at? r = some .directory → h'.at? r = some .directory := by
  intro r hr
  rw [hputs.at?, if_neg ((isLeaf_of_none hp).ne_directory hr), hr]

end Puts

theorem IsTree.put (htree : h.IsTree) (hp : h.at? p = none)
    (hdir : ∃ dir name, p = dir ++ [name] ∧ h.at? dir = some .directory) (e : HostEntry) :
    (h.put p e).IsTree := by
  have hputs := puts_put htree hp e
  refine htree.of_changed (hputs.directories hp) (fun r hr => ?_) (fun r i hi => ?_)
  · rw [hputs.at?] at hr
    split at hr
    · next heq => exact Or.inr (heq ▸ hdir)
    · exact Or.inl hr
  · unfold Host.put at hi ⊢
    simp only [OrderedMap.get?_insert] at hi
    rw [List.length_append, List.length_singleton]
    split at hi
    · cases hi
      exact Nat.lt_succ_self _
    · exact Nat.lt_succ_of_lt (htree.numbered r i hi)

/-! ## Making directories -/

/-- A directory is made where nothing stood, unless the path leads to one. -/
theorem ensureDirectory_eq_ok (htree : h.IsTree) (hstep : h.ensureDirectory path = .ok h') :
    (h' = h ∧ ∃ q, h.locate path = .ok q ∧ h.at? q = some .directory) ∨
      ∃ p, h.locateName path = .ok p ∧ h.at? p = none ∧ h' = h.put p .directory ∧
        Puts h h' p .directory := by
  obtain ⟨p, hlocate, hmake⟩ := exists_of_bind_eq_ok hstep
  cases hp : h.at? p with
  | none =>
    rw [hp] at hmake
    cases hmake
    exact Or.inr ⟨p, hlocate, hp, rfl, puts_put htree hp _⟩
  | some e =>
    rw [hp] at hmake
    obtain ⟨q, hq, hmake⟩ := exists_of_bind_eq_ok hmake
    split at hmake
    · next hdir =>
      cases hmake
      exact Or.inl ⟨rfl, q, hq, hdir⟩
    · cases hmake

theorem IsTree.ensureDirectory (htree : h.IsTree) (hstep : h.ensureDirectory path = .ok h') :
    h'.IsTree := by
  rcases ensureDirectory_eq_ok htree hstep with ⟨rfl, -⟩ | ⟨p, hlocate, hp, rfl, -⟩
  · exact htree
  · obtain ⟨name, dir, m, -, -, -, hway, -, rfl⟩ := exists_of_locateName htree hlocate (by simp [hp])
    exact htree.put hp ⟨dir, name, rfl, directory_of_folderWay hway⟩ _

/-! ## Writing -/

/-- The host `h'` is like `h`, except that the file at one place holds some bytes, under all of its
names; the file may be new. -/
structure Writes (h h' : Host) (p : Place) (bytes : List UInt8) : Prop where
  here : h'.here = h.here
  at? : ∀ q, h'.at? q = if q = p ∨ h.SameFile q p then some (.content bytes) else h.at? q
  number? : ∀ q, q ≠ p → h'.number? q = h.number? q
  sameFile : ∀ q, q ≠ p → (h'.SameFile q p ↔ h.SameFile q p)

theorem writes_overwrite {old : List UInt8} (hp : h.at? p = some (.content old))
    (bytes : List UInt8) : Writes h (h.overwrite p (.content bytes)) p bytes := by
  obtain ⟨i, hi, hentry⟩ := exists_number? hp (by simp)
  have hlt : i < h.entries.length := (List.getElem?_eq_some_iff.1 hentry).1
  have heq : h.overwrite p (.content bytes) =
      { h with entries := h.entries.set i (.content bytes) } := by rw [overwrite, hi]
  have hnumber : ∀ q, (h.overwrite p (.content bytes)).number? q = h.number? q := by
    intro q
    rw [heq]
    rfl
  refine ⟨by rw [heq], fun q => ?_, fun q _ => hnumber q,
    fun q _ => by rw [SameFile, SameFile, hnumber, hnumber]⟩
  cases hq : h.number? q with
  | none =>
    have hne : ¬ (q = p ∨ h.SameFile q p) := by
      rintro (rfl | hsame)
      · rw [hi] at hq
        cases hq
      · exact hsame.1 hq
    rw [if_neg hne, heq]
    unfold Host.number? at hq
    unfold Host.at?
    split at hq
    · next hprefix => rw [if_pos hprefix, if_pos hprefix]
    · next hbeyond => rw [if_neg hbeyond, if_neg hbeyond, hq]; rfl
  | some j =>
    have hq' : (h.overwrite p (.content bytes)).number? q = some j := (hnumber q).trans hq
    rw [at?_of_number? hq', at?_of_number? hq, heq]
    dsimp only
    by_cases hij : j = i
    · subst hij
      have hsame : q = p ∨ h.SameFile q p := Or.inr ⟨by simp [hq], hq.trans hi.symm⟩
      rw [if_pos hsame, List.getElem?_set_self hlt]
    · have hne : ¬ (q = p ∨ h.SameFile q p) := by
        rintro (rfl | hsame)
        · exact hij (Option.some.inj (hq.symm.trans hi))
        · exact hij (Option.some.inj (hq.symm.trans (hsame.2.trans hi)))
      rw [if_neg hne, List.getElem?_set_ne (Ne.symm hij)]

theorem Puts.writes (htree : h.IsTree) (hp : h.at? p = none)
    (hputs : Puts h h' p (.content bytes)) : Writes h h' p bytes := by
  have hnone := number?_eq_none htree hp
  have hother : ∀ q, ¬ h.SameFile q p := fun q hsame => hsame.1 (hsame.2.trans hnone)
  refine ⟨hputs.here, fun q => ?_, hputs.number?,
    fun q hq => iff_of_false (hputs.fresh q hq) (hother q)⟩
  rw [hputs.at?]
  by_cases hq : q = p
  · rw [if_pos hq, if_pos (Or.inl hq)]
  · rw [if_neg hq, if_neg (not_or.2 ⟨hq, hother q⟩)]

namespace Writes

theorem at?_self (hwrites : Writes h h' p bytes) : h'.at? p = some (.content bytes) := by
  rw [hwrites.at?, if_pos (Or.inl rfl)]

theorem at?_of_ne (hwrites : Writes h h' p bytes) (hq : q ≠ p) (hsame : ¬ h.SameFile q p) :
    h'.at? q = h.at? q := by
  rw [hwrites.at?, if_neg (not_or.2 ⟨hq, hsame⟩)]

/-- Where something else than a file stands, it stays. -/
theorem at?_of_not_isLeaf (hwrites : Writes h h' p bytes) (hp : h.IsLeaf p) (hq : ¬ h.IsLeaf q) :
    h'.at? q = h.at? q := by
  refine hwrites.at?_of_ne (fun heq => hq (heq ▸ hp)) fun hsame => hq ?_
  rw [IsLeaf, hsame.at?_eq]
  exact hp

theorem directories (hwrites : Writes h h' p bytes) (hp : h.IsLeaf p) :
    ∀ r, h.at? r = some .directory → h'.at? r = some .directory := by
  intro r hr
  rw [hwrites.at?_of_not_isLeaf hp fun hleaf => hleaf.1 hr, hr]

/-- Links stay, and no new ones come. -/
theorem fits (hwrites : Writes h h' p bytes) (hp : h.IsLeaf p) {w : Way}
    (hw : ∃ e, w.outcome = .ok e) (r : Place) : h.Fits h' w r := by
  by_cases hr : r = p ∨ h.SameFile r p
  · have hleaf : h.IsLeaf r := by
      rcases hr with rfl | hsame
      · exact hp
      · rw [IsLeaf, hsame.at?_eq]
        exact hp
    have hafter : h'.at? r = some (.content bytes) := by rw [hwrites.at?, if_pos hr]
    exact Or.inr ⟨hw, hleaf, isLeaf_of_content hafter⟩
  · exact Or.inl (by rw [hwrites.at?, if_neg hr])

end Writes

/-- Bytes are written into the file that the path leads to. -/
theorem writeBytes_eq_ok (htree : h.IsTree) (hstep : h.writeBytes path bytes = .ok h') :
    ∃ p, h.locate path = .ok p ∧ h.IsLeaf p ∧ Writes h h' p bytes := by
  obtain ⟨p, hlocate, hwrite⟩ := exists_of_bind_eq_ok hstep
  refine ⟨p, hlocate, ?_⟩
  cases hp : h.at? p with
  | none =>
    rw [hp] at hwrite
    cases hwrite
    exact ⟨isLeaf_of_none hp, (puts_put htree hp _).writes htree hp⟩
  | some e =>
    rw [hp] at hwrite
    cases e with
    | directory => cases hwrite
    | content old =>
      cases hwrite
      exact ⟨isLeaf_of_content hp, writes_overwrite hp bytes⟩
    | link target => cases hwrite

theorem IsTree.writeBytes (htree : h.IsTree) (hstep : h.writeBytes path bytes = .ok h') :
    h'.IsTree := by
  obtain ⟨p, hlocate, hp, hwrites⟩ := writeBytes_eq_ok htree hstep
  obtain ⟨q, hlocate', hwrite⟩ := exists_of_bind_eq_ok hstep
  obtain rfl : q = p := Except.ok.inj (hlocate'.symm.trans hlocate)
  have hdir := inDirectory_of_locate htree hlocate hp.1
  rcases isLeaf_cases hp with hnone | ⟨old, hold⟩
  · rw [hnone] at hwrite
    cases hwrite
    exact htree.put hnone hdir _
  · rw [hold] at hwrite
    cases hwrite
    refine htree.of_changed (hwrites.directories hp) (fun r hr => ?_) (fun r i hi => ?_)
    · rw [hwrites.at?] at hr
      split at hr
      · next hsame =>
        rcases hsame with rfl | hsame
        · exact Or.inr hdir
        · exact Or.inl (by rw [hsame.at?_eq, hold]; exact Option.some_ne_none _)
      · exact Or.inl hr
    · obtain ⟨j, hj, -⟩ := exists_number? hold (by simp)
      rw [overwrite, hj] at hi ⊢
      rw [List.length_set]
      exact htree.numbered r i hi

/-! ## Renaming -/

/-- The host `h'` is like `h`, except that what stood at one place stands at another instead. -/
structure Renames (h h' : Host) (p q : Place) : Prop where
  here : h'.here = h.here
  at? : ∀ r, h'.at? r = if r = q then h.at? p else if r = p then none else h.at? r
  number? : ∀ r, h'.number? r = if r = q then h.number? p else if r = p then none else h.number? r

theorem beyond_of_ne_directory (hp : h.at? p ≠ some .directory) : p.isPrefixOf h.here = false := by
  cases hprefix : p.isPrefixOf h.here with
  | false => rfl
  | true => exact absurd (at?_of_above (List.isPrefixOf_iff_prefix.1 hprefix)) hp

theorem renames_rename {i : Nat} (hi : h.number? p = some i) (hp : h.at? p ≠ some .directory)
    (hq : h.at? q ≠ some .directory) : Renames h (h.rename p q) p q := by
  have hp' := beyond_of_ne_directory hp
  have hq' := beyond_of_ne_directory hq
  have heq : h.rename p q = { h with numbers := (h.numbers.erase p).insert q i } := by
    rw [rename, hi]
  have hi' : h.numbers.get? p = some i := by
    rw [Host.number?, hp', if_neg Bool.false_ne_true] at hi
    exact hi
  have hget : ∀ r, ((h.numbers.erase p).insert q i).get? r =
      if r = q then some i else if r = p then none else h.numbers.get? r := by
    intro r
    rw [OrderedMap.get?_insert, OrderedMap.get?_erase]
  refine ⟨by rw [heq], fun r => ?_, fun r => ?_⟩
  · rw [at?_of_number? hi, heq]
    unfold Host.at?
    dsimp only
    rw [hget]
    by_cases hr : r = q
    · subst hr
      rw [hq', if_neg Bool.false_ne_true, if_pos rfl, if_pos rfl, Option.bind_some]
    · by_cases hr' : r = p
      · subst hr'
        simp [hp', hr]
      · simp [hr, hr']
  · rw [hi, heq]
    unfold Host.number?
    dsimp only
    rw [hget]
    by_cases hr : r = q
    · simp [hr, hq']
    · by_cases hr' : r = p
      · subst hr'
        simp [hp', hr]
      · simp [hr, hr']

/-- What a name stands for gets another name, unless both are names of one file. -/
theorem renameFile_eq_ok (hstep : h.renameFile source target = .ok h') :
    ∃ p q, h.locateName source = .ok p ∧ h.locateName target = .ok q ∧ h.at? p ≠ none ∧
      h.at? p ≠ some .directory ∧ h.at? q ≠ some .directory ∧
      (h.SameFile p q ∧ h' = h ∨ ¬ h.SameFile p q ∧ p ≠ q ∧ h' = h.rename p q ∧ Renames h h' p q) := by
  obtain ⟨p, hsource, hstep⟩ := exists_of_bind_eq_ok hstep
  obtain ⟨q, htarget, hstep⟩ := exists_of_bind_eq_ok hstep
  split at hstep
  · cases hstep
  · cases hstep
  · cases hstep
  · next entry hne hp hq =>
    cases hstep
    have hfile : h.at? p ≠ some .directory := fun hdir => hne (Option.some.inj (hp.symm.trans hdir))
    refine ⟨p, q, hsource, htarget, by simp [hp], hfile, hq, ?_⟩
    obtain ⟨i, hi, -⟩ := exists_number? hp hne
    by_cases hsame : h.SameFile p q
    · exact Or.inl ⟨hsame, if_pos hsame⟩
    · refine Or.inr ⟨hsame, ?_, if_neg hsame, ?_⟩
      · rintro rfl
        exact hsame ⟨by simp [hi], rfl⟩
      · rw [if_neg hsame]
        exact renames_rename hi hfile hq

namespace Renames

theorem directories (hrenames : Renames h h' p q) (hp : h.at? p ≠ some .directory)
    (hq : h.at? q ≠ some .directory) :
    ∀ r, h.at? r = some .directory → h'.at? r = some .directory := by
  intro r hr
  have hrp : r ≠ p := by
    rintro rfl
    exact hp hr
  have hrq : r ≠ q := by
    rintro rfl
    exact hq hr
  rw [hrenames.at?, if_neg hrq, if_neg hrp, hr]

theorem at?_of_ne (hrenames : Renames h h' p q) (hp : r ≠ p) (hq : r ≠ q) :
    h'.at? r = h.at? r := by
  rw [hrenames.at?, if_neg hq, if_neg hp]

end Renames

theorem IsTree.renameFile (htree : h.IsTree) (hstep : h.renameFile source target = .ok h') :
    h'.IsTree := by
  obtain ⟨p, q, -, htarget, hp, hp', hq, ⟨-, rfl⟩ | ⟨-, -, rfl, hrenames⟩⟩ := renameFile_eq_ok hstep
  · exact htree
  · obtain ⟨e, he⟩ := Option.ne_none_iff_exists'.1 hp
    obtain ⟨i, hi, hentry⟩ := exists_number? he fun heq => hp' (heq ▸ he)
    refine htree.of_changed (hrenames.directories hp' hq) (fun r hr => ?_) (fun r j hj => ?_)
    · by_cases hrq : r = q
      · obtain ⟨name, dir, m, -, -, -, hway, -, rfl⟩ := exists_of_locateName htree htarget hq
        exact Or.inr ⟨dir, name, hrq, directory_of_folderWay hway⟩
      · rw [hrenames.at?, if_neg hrq] at hr
        split at hr
        · exact absurd rfl hr
        · exact Or.inl hr
    · rw [rename, hi] at hj ⊢
      dsimp only at hj ⊢
      rw [OrderedMap.get?_insert, OrderedMap.get?_erase] at hj
      split at hj
      · cases hj
        exact (List.getElem?_eq_some_iff.1 hentry).1
      · split at hj
        · cases hj
        · exact htree.numbered r j hj

end Host

end VirtualShell
