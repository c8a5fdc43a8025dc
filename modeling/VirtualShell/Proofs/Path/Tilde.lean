import VirtualShell.Proofs.Path.Resolution
import VirtualShell.Session.Basic

/-!
# Directories as the prompt shows them

The prompt writes a tilde for the home directory, and typed input may begin with one. The two are
written apart, but reading what the prompt shows leads back to the directory (`resolve_tilde`), also
where a directory is itself named `~` or its path begins with the text of the home directory without
lying beneath it. So a prompt tells the directory that it was made for (`directory_of_prompt`).
-/

namespace VirtualShell.Path

/-- A path is shown as a tilde, as a tilde and what lies beneath it, or as it stands. -/
theorem tilde_cases (path home : String) :
    (path = home ∧ tilde path home = "~") ∨
    (∃ rest, home ≠ "/" ∧ path = home ++ "/" ++ rest ∧ tilde path home = "~/" ++ rest) ∨
    (path ≠ home ∧ (home = "/" ∨ isWithin path home = false) ∧ tilde path home = path) := by
  by_cases hsame : path = home
  · exact Or.inl ⟨hsame, if_pos hsame⟩
  refine Or.inr ?_
  by_cases hroot : home = "/"
  · refine Or.inr ⟨hsame, Or.inl hroot, ?_⟩
    unfold tilde
    rw [if_neg hsame]
    split <;> simp [hroot]
  unfold tilde isWithin
  rw [if_neg hsame]
  cases hstrip : stripFront? home path with
  | none => exact Or.inr ⟨hsame, by simp [hsame, hroot], rfl⟩
  | some below =>
    by_cases hbelow : below.toList.head? = some '/'
    · obtain ⟨rest, hrest⟩ := List.head?_eq_some_iff.1 hbelow
      have hpath := stripFront?_eq_some.1 hstrip
      refine Or.inl ⟨String.ofList rest, hroot, ?_, ?_⟩
      · exact String.toList_injective (by simp [hpath, hrest])
      · dsimp only
        rw [if_pos ⟨hbelow, hroot⟩]
        exact String.toList_injective (by simp [hrest])
    · exact Or.inr ⟨hsame, by simp [hsame, hroot, hbelow], if_neg fun h => hbelow h.1⟩

/-- Reading what is shown of a directory leads to the directory. -/
theorem resolve_tilde {path home : String} (hpath : Normal path) (hhome : Normal home)
    (cwd : String) : resolve cwd home (tilde path home) = path := by
  rcases tilde_cases path home with ⟨rfl, htilde⟩ | ⟨rest, -, rfl, htilde⟩ | ⟨-, -, htilde⟩
  · rw [htilde]
    exact normalize_of_normal hpath
  · rw [htilde, resolve_belowHome, normalize_of_normal hpath]
  · rw [htilde, resolve_of_normal hpath]

/-- A tilde is shown in the home directory and beneath it. The root has none beneath it. -/
theorem head?_tilde_iff {path home : String} (hpath : Normal path) :
    (tilde path home).toList.head? = some '~' ↔
      isWithin path home = true ∧ (home = "/" → path = "/") := by
  rcases tilde_cases path home with ⟨rfl, htilde⟩ | ⟨rest, hroot, rfl, htilde⟩ | ⟨hne, hout, htilde⟩
  · rw [htilde]
    exact iff_of_true rfl ⟨isWithin_self path, id⟩
  · obtain ⟨_, hchars⟩ := hpath.exists_cons
    have hwithin : isWithin (home ++ "/" ++ rest) home = true := by
      refine (isWithin_iff (by rw [hchars]; rfl)).2 (Or.inr ⟨rest.toList, ?_⟩)
      simp [stem_of_ne_root hroot]
    rw [htilde]
    exact iff_of_true (by simp) ⟨hwithin, fun h => absurd h hroot⟩
  · obtain ⟨_, hchars⟩ := hpath.exists_cons
    rw [htilde, hchars]
    refine iff_of_false (by simp) fun ⟨hwithin, hback⟩ => ?_
    rcases hout with hroot | hout
    · exact hne ((hback hroot).trans hroot.symm)
    · rw [hout] at hwithin
      cases hwithin

theorem tilde_inj {p q home : String} (hp : Normal p) (hq : Normal q) (hhome : Normal home) :
    tilde p home = tilde q home ↔ p = q := by
  constructor
  · intro h
    rw [← resolve_tilde hp hhome "/", h, resolve_tilde hq hhome]
  · rintro rfl
    rfl

theorem prompt_inj {user hostname p q home : String} :
    prompt user hostname p home = prompt user hostname q home ↔ tilde p home = tilde q home := by
  simp [prompt]

/-- What is shown of a directory in normal form begins with a tilde in the home directory and beneath
it, and leads back to the directory when it is typed, wherever one is. So no other directory is shown
in the same way, and the prompts of one user and host tell their directories. -/
theorem directory_of_prompt {path home : String} (hpath : InNormalForm path)
    (hhome : InNormalForm home) :
    (∀ cwd, resolve cwd home (tilde path home) = path) ∧
    ((tilde path home).toList.head? = some '~' ↔
      isWithin path home = true ∧ (home = "/" → path = "/")) ∧
    ∀ other, InNormalForm other →
      (tilde other home = tilde path home → other = path) ∧
      ∀ user hostname, prompt user hostname other home = prompt user hostname path home →
        other = path := by
  have hinj : ∀ other, InNormalForm other → tilde other home = tilde path home → other = path :=
    fun other hother => (tilde_inj hother.normal hpath.normal hhome.normal).1
  refine ⟨resolve_tilde hpath.normal hhome.normal, head?_tilde_iff hpath.normal, ?_⟩
  intro other hother
  refine ⟨hinj other hother, fun user hostname hprompt => ?_⟩
  exact hinj other hother (prompt_inj.1 hprompt)

/-- A directory named `~` beneath the home directory, and one whose path only begins with the text of
the home directory. -/
theorem directory_of_prompt_named_tilde :
    InNormalForm "/home/user/~" ∧ InNormalForm "/home/user~" ∧ InNormalForm home ∧
      tilde "/home/user/~" home = "~/~" ∧ resolve "/tmp" home "~/~" = "/home/user/~" ∧
      prompt "user" "lab" "/home/user~" home ≠ prompt "user" "lab" "/home/user/~" home := by
  have hpath : InNormalForm "/home/user/~" := by decide
  have hother : InNormalForm "/home/user~" := by decide
  have hhome : InNormalForm home := normal_home.inNormalForm
  have hshown : tilde "/home/user/~" home = "~/~" := by decide
  obtain ⟨hback, -, hinj⟩ := directory_of_prompt hpath hhome
  refine ⟨hpath, hother, hhome, hshown, ?_, fun hprompt => ?_⟩
  · rw [← hshown]
    exact hback "/tmp"
  · exact absurd ((hinj "/home/user~" hother).2 "user" "lab" hprompt) (by decide)

end VirtualShell.Path
