import VirtualShell.Proofs.Path.Join
import VirtualShell.Tree.Basic

/-!
# Paths in normal form

A path is in normal form if it is written from names that can stand in a path. Normalising gives
such a path (`normal_normalize`) and changes none (`normalize_of_normal`), and what is typed is read
as one whenever the working directory is one (`normal_resolve`). On these paths `join`, `dirname`
and `basename` are what appending a name, dropping the last and taking the last are on lists, and a
path lies within another one if the names of the one begin with those of the other
(`isWithin_iff_beneath`).
-/

namespace VirtualShell

theorem validName_iff {name : String} :
    validName name = true ↔ name ≠ "" ∧ name ≠ "." ∧ name ≠ ".." ∧ '/' ∉ name.toList := by
  simp [validName, and_assoc]

theorem toList_ne_nil_of_validName {name : String} (h : validName name = true) :
    name.toList ≠ [] := by
  intro hn
  exact (validName_iff.1 h).1 (String.toList_injective hn)

namespace Path

/-- The path is written from names. -/
def Normal (path : String) : Prop :=
  ∃ names, (∀ s ∈ names, validName s = true) ∧ path = ofSegments names

/-! ## Segments -/

theorem not_mem_of_mem_splitOn {c : Char} {s l : List Char} (h : s ∈ l.splitOn c) : c ∉ s := by
  induction l generalizing s with
  | nil =>
    rw [List.splitOn_nil, List.mem_singleton] at h
    simp [h]
  | cons a l ih =>
    rw [List.splitOn_cons_eq_if_modifyHead] at h
    obtain ⟨x, xs, hx⟩ := List.exists_cons_of_ne_nil (List.splitOn_ne_nil c l)
    rw [hx] at h ih
    split at h
    · rcases List.mem_cons.1 h with rfl | h
      · simp
      · exact ih h
    · next hac =>
      rw [List.modifyHead_cons] at h
      rcases List.mem_cons.1 h with rfl | h
      · have hca : ¬ c = a := fun e => hac (by simp [e])
        simpa [hca] using ih List.mem_cons_self
      · exact ih (List.mem_cons_of_mem _ h)

theorem slash_not_mem_of_mem_segments {path s : String} (h : s ∈ segments path) :
    '/' ∉ s.toList := by
  obtain ⟨cs, hcs, rfl⟩ := List.mem_map.1 h
  simpa using not_mem_of_mem_splitOn hcs

/-- The segments of a path that is written from at least one name. -/
theorem segments_ofSegments_cons {name : String} {names : List String}
    (h : ∀ s ∈ name :: names, validName s = true) :
    segments (ofSegments (name :: names)) = "" :: name :: names := by
  have hchars : ∀ l : List String, (∀ s ∈ l, validName s = true) → l ≠ [] →
      ((l.flatMap fun s => '/' :: s.toList).splitOn '/').map String.ofList = "" :: l := by
    intro l hl hne
    have hsplit : (List.intercalate ['/'] ([] :: l.map String.toList)).splitOn '/' =
        [] :: l.map String.toList := by
      refine List.splitOn_intercalate _ (fun x hx => ?_) (by simp)
      rcases List.mem_cons.1 hx with rfl | hx
      · simp
      · obtain ⟨s, hs, rfl⟩ := List.mem_map.1 hx
        exact (validName_iff.1 (hl s hs)).2.2.2
    have hflat : ∀ (x : List Char) (l : List String),
        List.intercalate ['/'] (x :: l.map String.toList) =
          x ++ l.flatMap fun s => '/' :: s.toList := by
      intro x l
      induction l generalizing x with
      | nil => simp
      | cons s l ih =>
        rw [List.map_cons, List.intercalate_cons_cons, ih, List.flatMap_cons]
        simp
    rw [hflat, List.nil_append] at hsplit
    rw [hsplit]
    simp [Function.comp_def]
  simpa [segments, ofSegments] using hchars _ h (by simp)

/-! ## Resolving dots -/

theorem visit_of_validName {name : String} (h : validName name = true) (kept : List String) :
    visit kept name = kept ++ [name] := by
  obtain ⟨h₁, h₂, h₃, -⟩ := validName_iff.1 h
  simp [visit, h₁, h₂, h₃]

theorem foldl_visit_of_validName {names : List String} (h : ∀ s ∈ names, validName s = true)
    (kept : List String) : names.foldl visit kept = kept ++ names := by
  induction names generalizing kept with
  | nil => simp
  | cons s names ih =>
    rw [List.foldl_cons, visit_of_validName (h s List.mem_cons_self),
      ih fun x hx => h x (List.mem_cons_of_mem _ hx)]
    simp

theorem resolveDots_of_validName {names : List String} (h : ∀ s ∈ names, validName s = true) :
    resolveDots names = names := foldl_visit_of_validName h []

/-- What is kept are names. -/
theorem validName_of_mem_visit {kept : List String} {s : String}
    (hkept : ∀ k ∈ kept, validName k = true) (hs : '/' ∉ s.toList) :
    ∀ k ∈ visit kept s, validName k = true := by
  intro k hk
  unfold visit at hk
  split at hk
  · exact hkept k hk
  · next hdot =>
    split at hk
    · exact hkept k (List.dropLast_subset _ hk)
    · next hup =>
      rcases List.mem_append.1 hk with hk | hk
      · exact hkept k hk
      · rw [List.mem_singleton.1 hk]
        exact validName_iff.2 ⟨fun h => hdot (Or.inl h), fun h => hdot (Or.inr h), hup, hs⟩

theorem validName_of_mem_resolveDots {segs : List String} (h : ∀ s ∈ segs, '/' ∉ s.toList) :
    ∀ k ∈ resolveDots segs, validName k = true := by
  refine List.foldlRecOn (motive := fun kept => ∀ k ∈ kept, validName k = true) segs visit
    (by simp) fun kept hkept s hs => ?_
  exact validName_of_mem_visit hkept (h s hs)

/-! ## Normal paths -/

theorem resolveDots_segments {names : List String} (h : ∀ s ∈ names, validName s = true) :
    resolveDots (segments (ofSegments names)) = names := by
  cases names with
  | nil => decide
  | cons s names =>
    rw [segments_ofSegments_cons h]
    exact resolveDots_of_validName h

theorem filter_segments {names : List String} (h : ∀ s ∈ names, validName s = true) :
    (segments (ofSegments names)).filter (· ≠ "") = names := by
  cases names with
  | nil => decide
  | cons s names =>
    rw [segments_ofSegments_cons h, List.filter_cons_of_neg (by simp), List.filter_eq_self]
    intro x hx
    simpa using (validName_iff.1 (h x hx)).1

theorem normal_normalize (path : String) : Normal (normalize path) :=
  ⟨_, validName_of_mem_resolveDots fun _ hs => slash_not_mem_of_mem_segments hs, rfl⟩

theorem normal_dirname (path : String) : Normal (dirname path) := by
  refine ⟨_, fun s hs => ?_, rfl⟩
  exact validName_of_mem_resolveDots (fun _ hs => slash_not_mem_of_mem_segments hs) s
    (List.dropLast_subset _ hs)

/-- Normalising changes no path in normal form. -/
theorem normalize_of_normal {path : String} (h : Normal path) : normalize path = path := by
  obtain ⟨names, hnames, rfl⟩ := h
  rw [normalize, resolveDots_segments hnames]

theorem stem_ofSegments {names : List String} (h : ∀ s ∈ names, validName s = true) :
    stem (ofSegments names) = names.flatMap fun s => '/' :: s.toList := by
  cases names with
  | nil => rfl
  | cons s names =>
    have hne : ofSegments (s :: names) ≠ "/" := by
      intro hroot
      have hseg := segments_ofSegments_cons h
      have hs := (validName_iff.1 (h s List.mem_cons_self)).1
      rw [hroot, show segments "/" = ["", ""] from by decide] at hseg
      simp only [List.cons.injEq, true_and] at hseg
      exact hs hseg.1.symm
    rw [stem_of_ne_root hne]
    simp [ofSegments]

/-- A name is put beneath a path by writing it after the names of the path. -/
theorem join_ofSegments {names : List String} (h : ∀ s ∈ names, validName s = true)
    (name : String) : join (ofSegments names) name = ofSegments (names ++ [name]) := by
  apply String.toList_injective
  have hne : names ++ [name] ≠ [] := by simp
  obtain ⟨x, xs, hx⟩ := List.exists_cons_of_ne_nil hne
  rw [toList_join, stem_ofSegments h, hx, ofSegments, ← hx]
  · simp
  · simp

theorem foldl_join {before names : List String} (hbefore : ∀ s ∈ before, validName s = true)
    (hnames : ∀ s ∈ names, validName s = true) :
    names.foldl join (ofSegments before) = ofSegments (before ++ names) := by
  induction names generalizing before with
  | nil => rw [List.foldl_nil, List.append_nil]
  | cons name names ih =>
    have hnext : ∀ s ∈ before ++ [name], validName s = true := by
      intro s hs
      rcases List.mem_append.1 hs with hs | hs
      · exact hbefore s hs
      · rw [List.mem_singleton.1 hs]
        exact hnames name List.mem_cons_self
    rw [List.foldl_cons, join_ofSegments hbefore,
      ih hnext fun s hs => hnames s (List.mem_cons_of_mem _ hs), List.append_assoc]
    rfl

theorem Normal.join {path name : String} (h : Normal path) (hname : validName name = true) :
    Normal (join path name) := by
  obtain ⟨names, hnames, rfl⟩ := h
  refine ⟨names ++ [name], fun s hs => ?_, join_ofSegments hnames name⟩
  rcases List.mem_append.1 hs with hs | hs
  · exact hnames s hs
  · rwa [List.mem_singleton.1 hs]

theorem Normal.exists_cons {path : String} (h : Normal path) :
    ∃ rest, path.toList = '/' :: rest := by
  obtain ⟨names, -, rfl⟩ := h
  cases names with
  | nil => exact ⟨[], by decide⟩
  | cons s names =>
    exact ⟨s.toList ++ names.flatMap fun s => '/' :: s.toList, by simp [ofSegments]⟩

theorem normal_root : Normal "/" := ⟨[], by simp, rfl⟩

theorem normal_home : Normal home := ⟨["home", "user"], by decide, by decide⟩

/-- The directory and the last name of a path give the path back. -/
theorem Normal.join_dirname_basename {path : String} (h : Normal path) (hne : path ≠ "/") :
    validName (basename path) = true ∧ Path.join (dirname path) (basename path) = path := by
  obtain ⟨names, hnames, rfl⟩ := h
  have hnil : names ≠ [] := fun he => hne (by rw [he]; rfl)
  have hlast : names.getLast? = some (names.getLast hnil) := List.getLast?_eq_some_getLast hnil
  rw [basename, dirname, resolveDots_segments hnames, hlast, Option.getD_some,
    join_ofSegments fun s hs => hnames s (List.dropLast_subset _ hs),
    List.dropLast_append_getLast hnil]
  exact ⟨hnames _ (List.getLast_mem hnil), rfl⟩

/-! ## Typed input -/

theorem normal_resolve {cwd home input : String} (h : Normal cwd) :
    Normal (resolve cwd home input) := by
  unfold resolve
  split
  · exact h
  · split
    · exact normal_normalize _
    · split <;> exact normal_normalize _

/-- An absolute path is read from the root on. -/
theorem resolve_of_absolute {cwd home input : String} (h : input.toList.head? = some '/') :
    resolve cwd home input = normalize input := by
  obtain ⟨rest, hrest⟩ := List.head?_eq_some_iff.1 h
  have hne : ∀ s : String, s.toList.head? ≠ some '/' → input ≠ s := by
    rintro s hs rfl
    exact hs h
  unfold resolve
  rw [if_neg (by simp [hne "" (by decide), hne "." (by decide)]), if_neg (hne "~" (by decide)),
    hrest]
  simp

/-- A path in normal form is read as it stands, whatever the working directory. -/
theorem resolve_of_normal {cwd home path : String} (h : Normal path) :
    resolve cwd home path = path := by
  obtain ⟨rest, hrest⟩ := h.exists_cons
  rw [resolve_of_absolute (by rw [hrest]; rfl), normalize_of_normal h]

/-! ## Paths beneath others -/

/-- A path is another one or lies beneath it: its names begin with the names of the other. -/
def Beneath (path above : String) : Prop :=
  (segments above).filter (· ≠ "") <+: (segments path).filter (· ≠ "")

instance (path above : String) : Decidable (Beneath path above) :=
  inferInstanceAs (Decidable (_ <+: _))

theorem Beneath.trans {a b c : String} (hab : Beneath a b) (hbc : Beneath b c) : Beneath a c :=
  List.IsPrefix.trans hbc hab

/-- Of two paths above a third one, one lies beneath the other. -/
theorem Beneath.total {path a b : String} (ha : Beneath path a) (hb : Beneath path b) :
    Beneath a b ∨ Beneath b a :=
  (List.prefix_or_prefix_of_prefix ha hb).symm

theorem segments_append_slash {path above : String} {rest : List Char}
    (h : path.toList = above.toList ++ '/' :: rest) :
    segments path = segments above ++ segments (String.ofList rest) := by
  unfold segments
  rw [h, List.splitOn_append_cons_self, List.map_append, String.toList_ofList]

/-- For paths in normal form, to lie within another one is a matter of their names. -/
theorem isWithin_iff_beneath {path above : String} (hp : Normal path) (ha : Normal above) :
    isWithin path above = true ↔ Beneath path above := by
  obtain ⟨rest, hrest⟩ := hp.exists_cons
  rw [isWithin_iff (by rw [hrest]; rfl)]
  constructor
  · rintro (rfl | ⟨rest, hrest⟩)
    · exact List.prefix_rfl
    · by_cases hroot : above = "/"
      · subst hroot
        have hnone : (segments "/").filter (· ≠ "") = [] := by decide
        unfold Beneath
        rw [hnone]
        exact List.nil_prefix
      · rw [stem_of_ne_root hroot] at hrest
        unfold Beneath
        rw [segments_append_slash hrest, List.filter_append]
        exact List.prefix_append _ _
  · intro h
    obtain ⟨names, hnames, rfl⟩ := hp
    obtain ⟨above, habove, rfl⟩ := ha
    unfold Beneath at h
    rw [filter_segments hnames, filter_segments habove] at h
    obtain ⟨below, rfl⟩ := h
    cases below with
    | nil => exact Or.inl (by rw [List.append_nil])
    | cons name below =>
      refine Or.inr ⟨name.toList ++ below.flatMap fun s => '/' :: s.toList, ?_⟩
      have hcons : above ++ name :: below ≠ [] := by simp
      obtain ⟨x, xs, hx⟩ := List.exists_cons_of_ne_nil hcons
      rw [stem_ofSegments habove, hx, ofSegments, ← hx]
      · simp
      · simp

end Path

end VirtualShell
