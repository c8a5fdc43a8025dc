import VirtualShell.Proofs.Path.Normal

/-!
# Reading typed input

Input is typed in six shapes, but it is always read as a walk over names: it sets out from the root,
from the home directory or from the working directory, and each of its segments stays, goes up or
adds a name (`namesOf_resolve`). So a text behind a slash is read from where the text before the slash
leads (`resolve_append`), whatever was cut in two, a climb past the root included. Paths in normal form
are told by their text (`normal_iff`), and they are those that are read as they stand.
-/

namespace VirtualShell.Path

/-! ## Normal form as a property of the text -/

/-- The path is absolute, none of its segments is empty, `.` or `..`, and it does not end in a slash.
The root alone ends in one. -/
structure InNormalForm (path : String) : Prop where
  absolute : path.toList.head? = some '/'
  segment : path ≠ "/" → ∀ s ∈ (segments path).tail, s ≠ "" ∧ s ≠ "." ∧ s ≠ ".."
  ending : path ≠ "/" → path.toList.getLast? ≠ some '/'

theorem segments_injective : Function.Injective segments := by
  intro p q h
  have hpieces := List.map_injective_iff.2 (fun _ _ => String.ofList_injective) h
  have hjoined := congrArg (List.intercalate ['/']) hpieces
  rw [List.intercalate_splitOn, List.intercalate_splitOn] at hjoined
  exact String.toList_injective hjoined

theorem Normal.inNormalForm {path : String} (h : Normal path) : InNormalForm path := by
  obtain ⟨rest, hrest⟩ := h.exists_cons
  refine ⟨by rw [hrest]; rfl, fun hne => ?_, fun hne => ?_⟩
  · obtain ⟨names, hnames, rfl⟩ := h
    cases names with
    | nil => exact absurd rfl hne
    | cons name names =>
      rw [segments_ofSegments_cons hnames, List.tail_cons]
      intro s hs
      obtain ⟨hempty, hdot, hup, -⟩ := validName_iff.1 (hnames s hs)
      exact ⟨hempty, hdot, hup⟩
  · obtain ⟨hname, hjoin⟩ := h.join_dirname_basename hne
    rw [← hjoin, toList_join, List.getLast?_append_cons, List.getLast?_cons_of_ne_nil
      (toList_ne_nil_of_validName hname)]
    intro hlast
    exact (validName_iff.1 hname).2.2.2 (List.mem_of_getLast? hlast)

theorem InNormalForm.normal {path : String} (h : InNormalForm path) : Normal path := by
  by_cases hroot : path = "/"
  · rw [hroot]
    exact normal_root
  obtain ⟨rest, hrest⟩ := List.head?_eq_some_iff.1 h.absolute
  have hsegs : segments path = segments "" ++ segments (String.ofList rest) :=
    segments_append_slash hrest
  rw [show segments "" = [""] from by decide, List.singleton_append] at hsegs
  have hnames : ∀ s ∈ segments (String.ofList rest), validName s = true := by
    intro s hs
    obtain ⟨hempty, hdot, hup⟩ := h.segment hroot s (by rw [hsegs]; exact hs)
    exact validName_iff.2 ⟨hempty, hdot, hup, slash_not_mem_of_mem_segments hs⟩
  refine ⟨_, hnames, segments_injective ?_⟩
  obtain ⟨name, names, hcons⟩ : ∃ name names, segments (String.ofList rest) = name :: names := by
    refine List.exists_cons_of_ne_nil fun hnil => ?_
    exact List.splitOn_ne_nil '/' _ (List.map_eq_nil_iff.1 hnil)
  rw [hsegs]
  rw [hcons] at hnames ⊢
  rw [segments_ofSegments_cons hnames]

/-- A path is written from names just if its text is in normal form. -/
theorem normal_iff {path : String} : Normal path ↔ InNormalForm path :=
  ⟨Normal.inNormalForm, InNormalForm.normal⟩

instance (path : String) : Decidable (InNormalForm path) :=
  decidable_of_iff (path.toList.head? = some '/' ∧
      (path ≠ "/" → ∀ s ∈ (segments path).tail, s ≠ "" ∧ s ≠ "." ∧ s ≠ "..") ∧
      (path ≠ "/" → path.toList.getLast? ≠ some '/'))
    ⟨fun h => ⟨h.1, h.2.1, h.2.2⟩, fun h => ⟨h.absolute, h.segment, h.ending⟩⟩

/-! ## The names of a path -/

/-- The names that a path consists of when its dots are resolved. -/
def namesOf (path : String) : List String := resolveDots (segments path)

theorem validName_of_mem_namesOf {path name : String} (h : name ∈ namesOf path) :
    validName name = true :=
  validName_of_mem_resolveDots (fun _ hs => slash_not_mem_of_mem_segments hs) name h

theorem ofSegments_namesOf {path : String} (h : Normal path) :
    ofSegments (namesOf path) = path := normalize_of_normal h

theorem namesOf_normalize (path : String) : namesOf (normalize path) = namesOf path :=
  resolveDots_segments fun _ hs => validName_of_mem_namesOf hs

theorem segments_append (path rest : String) :
    segments (path ++ "/" ++ rest) = segments path ++ segments rest := by
  have hsegs : segments (path ++ "/" ++ rest) =
      segments path ++ segments (String.ofList rest.toList) :=
    segments_append_slash (by simp)
  rwa [String.ofList_toList] at hsegs

/-- Behind a slash the walk over the segments goes on. -/
theorem namesOf_append_slash (path rest : String) :
    namesOf (path ++ "/" ++ rest) = (segments rest).foldl visit (namesOf path) := by
  rw [namesOf, resolveDots, segments_append, List.foldl_append, namesOf, resolveDots]

/-! ## The walk that typed input is read as -/

/-- The input is read from the working directory on. -/
structure Relative (input : String) : Prop where
  notAbsolute : input.toList.head? ≠ some '/'
  notHome : input ≠ "~"
  notBelowHome : ¬ ['~', '/'] <+: input.toList

instance (input : String) : Decidable (Relative input) :=
  decidable_of_iff (input.toList.head? ≠ some '/' ∧ input ≠ "~" ∧ ¬ ['~', '/'] <+: input.toList)
    ⟨fun h => ⟨h.1, h.2.1, h.2.2⟩, fun h => ⟨h.notAbsolute, h.notHome, h.notBelowHome⟩⟩

/-- A text that is read from the working directory on still is with more text behind a slash. -/
theorem Relative.append {a : String} (h : Relative a) (ha : a ≠ "") (b : String) :
    Relative (a ++ "/" ++ b) := by
  obtain ⟨c, rest, hchars⟩ : ∃ c rest, a.toList = c :: rest :=
    List.exists_cons_of_ne_nil fun hnil => ha (String.toList_injective hnil)
  have htext : (a ++ "/" ++ b).toList = c :: (rest ++ '/' :: b.toList) := by simp [hchars]
  refine ⟨?_, fun he => ?_, fun hfront => ?_⟩
  · have habsolute := h.notAbsolute
    rw [hchars] at habsolute
    rwa [htext]
  · have hslash : '/' ∈ (a ++ "/" ++ b).toList := by simp
    rw [he] at hslash
    exact absurd hslash (by decide)
  · rw [htext, List.cons_prefix_cons] at hfront
    obtain ⟨rfl, hnext⟩ := hfront
    cases rest with
    | nil => exact h.notHome (String.toList_injective hchars)
    | cons d rest =>
      rw [List.cons_append, List.cons_prefix_cons] at hnext
      obtain ⟨rfl, -⟩ := hnext
      exact h.notBelowHome ⟨rest, hchars.symm⟩

/-- Where the walk that typed input is read as sets out, and the segments that it visits. -/
def course (cwd home input : String) : String × List String :=
  match input.toList with
  | ['~'] => (home, [])
  | '~' :: '/' :: rest => (home, segments (String.ofList rest))
  | '/' :: _ => ("/", segments input)
  | _ => (cwd, segments input)

/-- Typed input is the home directory, lies beneath it, is absolute, or is read from the working directory
on. -/
theorem shape_cases (input : String) :
    input = "~" ∨ (∃ rest, input = "~/" ++ rest) ∨ input.toList.head? = some '/' ∨
      Relative input := by
  by_cases hhome : input = "~"
  · exact Or.inl hhome
  by_cases hbelow : ['~', '/'] <+: input.toList
  · obtain ⟨rest, hrest⟩ := hbelow
    exact Or.inr (Or.inl ⟨String.ofList rest, String.toList_injective (by simp [← hrest])⟩)
  by_cases habsolute : input.toList.head? = some '/'
  · exact Or.inr (Or.inr (Or.inl habsolute))
  · exact Or.inr (Or.inr (Or.inr ⟨habsolute, hhome, hbelow⟩))

section Course

variable (cwd home : String)

theorem course_belowHome (rest : String) :
    course cwd home ("~/" ++ rest) = (home, segments rest) := by
  simp [course]

theorem course_absolute {input : String} (h : input.toList.head? = some '/') :
    course cwd home input = ("/", segments input) := by
  obtain ⟨rest, hrest⟩ := List.head?_eq_some_iff.1 h
  simp [course, hrest]

theorem course_relative {input : String} (h : Relative input) :
    course cwd home input = (cwd, segments input) := by
  unfold course
  split
  · next hchars => exact absurd (String.toList_injective hchars) h.notHome
  · next rest hchars => exact absurd ⟨rest, hchars.symm⟩ h.notBelowHome
  · next rest hchars => exact absurd (by rw [hchars]; rfl) h.notAbsolute
  · rfl

theorem resolve_belowHome (rest : String) :
    resolve cwd home ("~/" ++ rest) = normalize (home ++ "/" ++ rest) := by
  have hchars : ("~/" ++ rest).toList = '~' :: '/' :: rest.toList := by simp
  have hne : ∀ s : String, ¬ ['~', '/'] <+: s.toList → "~/" ++ rest ≠ s := by
    rintro s hs rfl
    exact hs ⟨rest.toList, hchars.symm⟩
  unfold resolve
  rw [if_neg (by simp [hne "" (by decide), hne "." (by decide)]), if_neg (hne "~" (by decide)),
    hchars]
  simp

theorem resolve_relative {input : String} (h : Relative input) (hempty : input ≠ "")
    (hdot : input ≠ ".") : resolve cwd home input = normalize (cwd ++ "/" ++ input) := by
  unfold resolve
  rw [if_neg (not_or.2 ⟨hempty, hdot⟩), if_neg h.notHome]
  split
  · next rest hchars => exact absurd ⟨rest, hchars.symm⟩ h.notBelowHome
  · next rest hchars => exact absurd (by rw [hchars]; rfl) h.notAbsolute
  · rfl

/-- Typed input is read as a walk over names, whatever shape it has. -/
theorem namesOf_resolve (input : String) :
    namesOf (resolve cwd home input) =
      (course cwd home input).2.foldl visit (namesOf (course cwd home input).1) := by
  rcases shape_cases input with rfl | ⟨rest, rfl⟩ | h | h
  · exact namesOf_normalize home
  · rw [resolve_belowHome, namesOf_normalize, namesOf_append_slash, course_belowHome]
  · have hroot : namesOf "/" = [] := by decide
    rw [resolve_of_absolute h, namesOf_normalize, course_absolute cwd home h, hroot]
    rfl
  · rw [course_relative cwd home h]
    by_cases hempty : input = ""
    · subst hempty
      rfl
    by_cases hdot : input = "."
    · subst hdot
      rfl
    rw [resolve_relative cwd home h hempty hdot, namesOf_normalize, namesOf_append_slash]

/-- A slash and what is typed behind it make the walk longer, and it sets out from the same place. -/
theorem course_append {a : String} (ha : a ≠ "") (b : String) :
    course cwd home (a ++ "/" ++ b) =
      ((course cwd home a).1, (course cwd home a).2 ++ segments b) := by
  rcases shape_cases a with rfl | ⟨rest, rfl⟩ | h | h
  · exact course_belowHome cwd home b
  · have htext : "~/" ++ rest ++ "/" ++ b = "~/" ++ (rest ++ "/" ++ b) := by
      simp only [String.append_assoc]
    rw [htext, course_belowHome, course_belowHome, segments_append]
  · obtain ⟨rest, hrest⟩ := List.head?_eq_some_iff.1 h
    have hlonger : (a ++ "/" ++ b).toList.head? = some '/' := by simp [hrest]
    rw [course_absolute cwd home h, course_absolute cwd home hlonger, segments_append]
  · rw [course_relative cwd home h, course_relative cwd home (h.append ha b), segments_append]

/-- What is typed behind a slash is read from where the text before it leads. So is an absolute text or
one with a tilde behind a slash, but not by itself. -/
theorem resolve_append {cwd : String} (hcwd : Normal cwd) {a b : String} (ha : a ≠ "")
    (hb : Relative b) :
    resolve cwd home (a ++ "/" ++ b) = resolve (resolve cwd home a) home b := by
  have hfront : Normal (resolve cwd home a) := normal_resolve hcwd
  rw [← ofSegments_namesOf (normal_resolve hcwd), ← ofSegments_namesOf (normal_resolve hfront)]
  congr 1
  calc namesOf (resolve cwd home (a ++ "/" ++ b))
      = ((course cwd home a).2 ++ segments b).foldl visit (namesOf (course cwd home a).1) := by
        rw [namesOf_resolve, course_append cwd home ha]
    _ = (segments b).foldl visit (namesOf (resolve cwd home a)) := by
        rw [List.foldl_append, namesOf_resolve cwd home a]
    _ = namesOf (resolve (resolve cwd home a) home b) := by
        rw [namesOf_resolve (resolve cwd home a), course_relative _ home hb]

end Course

/-- Whatever is typed, the path that is read is in normal form, and from everywhere it is read again as
it stands. That holds of the paths in normal form and of no others. What is typed behind a slash is
read from where the text before the slash leads. -/
theorem resolved_of_typed {cwd : String} (hcwd : InNormalForm cwd) (home : String) :
    (∀ input, InNormalForm (resolve cwd home input) ∧
      ∀ cwd' home', resolve cwd' home' (resolve cwd home input) = resolve cwd home input) ∧
    (∀ path, InNormalForm path ↔ ∀ cwd' home', resolve cwd' home' path = path) ∧
    ∀ a b, a ≠ "" → Relative b →
      resolve cwd home (a ++ "/" ++ b) = resolve (resolve cwd home a) home b := by
  have hnormal : ∀ input, Normal (resolve cwd home input) := fun _ => normal_resolve hcwd.normal
  refine ⟨fun input => ⟨(hnormal input).inNormalForm, ?_⟩, fun path => ⟨?_, ?_⟩, ?_⟩
  · intro cwd' home'
    exact resolve_of_normal (hnormal input)
  · intro hpath cwd' home'
    exact resolve_of_normal hpath.normal
  · intro hfixed
    rw [← hfixed cwd home]
    exact (hnormal path).inNormalForm
  · intro a b ha hb
    exact resolve_append home hcwd.normal ha hb

/-- A text is cut in two so that its second part climbs out of what the first part leads to, and past
the root. -/
theorem resolved_of_typed_past_root :
    InNormalForm "/data/logs" ∧ Relative "../../../../etc/." ∧
      resolve "/data/logs" home "~/docs/../../../../etc/." =
        resolve (resolve "/data/logs" home "~/docs") home "../../../../etc/." ∧
      resolve "/data/logs" home "~/docs/../../../../etc/." = "/etc" := by
  have hcwd : InNormalForm "/data/logs" := by decide
  have hrest : Relative "../../../../etc/." := by decide
  obtain ⟨-, -, hcut⟩ := resolved_of_typed hcwd home
  exact ⟨hcwd, hrest, hcut "~/docs" "../../../../etc/." (by decide) hrest, by decide⟩

end VirtualShell.Path
