import Mathlib.Data.List.Chain
import VirtualShell.Proofs.Shell.TreeRuns
import VirtualShell.Proofs.Tree.Metadata

/-!
# Sizes and times over runs

A run that begins with the starter layout or with the root alone and imports nothing has a clock at its
start and one for each step, which is read anew for each node that is created or changed. If no clock
goes back and none begins before the last one ended, the sizes and times of all nodes are accurate when
the last clock has ended (`metadata_of_run`). An import is left out: a stored tree is accepted with
whatever sizes and times it holds.
-/

namespace VirtualShell

open Calendar

namespace FileTree

variable {t : FileTree} {now latest : Instant}

/-- The clock of a step. An import reads none. -/
def Step.clock? : Step → Option Clock
  | change s _ => some s.clock
  | reset s => some s.clock
  | restore _ => none
  | line s _ _ => some s.supply.clock

theorem Step.accurate {step : Step} {c : Clock} (hc : step.clock? = some c) (hforward : c.Forward)
    (hlatest : c.Until latest) (h : t.Accurate c.now) : (step.apply t).Accurate latest := by
  cases step with
  | change s change =>
    cases hc
    rcases change.after_cases s t with hrun | hrefused
    · exact Change.accurate_of_run hforward hlatest h hrun
    · rw [apply, hrefused]
      exact h.mono hlatest.now_le
  | reset s =>
    cases hc
    rw [apply]
    exact accurate_seed hforward hlatest
  | restore text => cases hc
  | line s session input =>
    cases hc
    exact (Shell.evolves_exec s ⟨t, session⟩ input).accurate hforward hlatest h

/-- Each step leaves the sizes and times accurate at the end of its clock, so that they are so when the
next clock begins. -/
theorem accurate_of_run {c : Clock} (h : ∀ latest, c.Until latest → t.Accurate latest)
    {steps : List Step} {clocks : List Clock} (hclocks : steps.map Step.clock? = clocks.map some)
    (hforward : ∀ c ∈ clocks, c.Forward) (hchain : (c :: clocks).IsChain fun c c' => c.Until c'.now)
    (hlatest : (clocks.getLastD c).Until latest) :
    (steps.foldl Step.apply t).Accurate latest := by
  induction steps generalizing t c clocks with
  | nil =>
    obtain rfl : clocks = [] := by simpa using hclocks.symm
    exact h latest hlatest
  | cons step steps ih =>
    cases clocks with
    | nil => cases hclocks
    | cons c' clocks =>
      obtain ⟨hstep, hrest⟩ := List.cons.inj hclocks
      obtain ⟨hbefore, htail⟩ := List.isChain_cons_cons.1 hchain
      obtain ⟨hfirst, hlater⟩ := List.forall_mem_cons.1 hforward
      rw [List.getLastD_cons] at hlatest
      refine ih ?_ hrest hlater htail hlatest
      intro now hend
      exact Step.accurate hstep hfirst hend (h _ hbefore)

/-- After every run without imports on which the clock does not go back, a file shows the number of
bytes of its text and a directory none, and no node was created after it was last modified or modified
after the last reading of the clock. -/
theorem metadata_of_run {s : Supply} (hstart : t = .seed s ∨ t = .empty s) {steps : List Step}
    {clocks : List Clock} (hclocks : steps.map Step.clock? = clocks.map some)
    (hforward : ∀ c ∈ s.clock :: clocks, c.Forward)
    (hchain : (s.clock :: clocks).IsChain fun c c' => c.Until c'.now)
    (hlatest : (clocks.getLastD s.clock).Until latest) :
    ∀ n ∈ (steps.foldl Step.apply t).allNodes,
      (∀ text, n.content = .file text → n.metadata.size = text.utf8ByteSize) ∧
      (n.isDirectory = true → n.metadata.size = 0) ∧
      n.metadata.created ≤ n.metadata.modified ∧
      n.metadata.modified ≤ latest := by
  obtain ⟨hfirst, hlater⟩ := List.forall_mem_cons.1 hforward
  have ht : ∀ latest, s.clock.Until latest → t.Accurate latest := by
    intro latest hend
    rcases hstart with hseed | hempty
    · rw [hseed]
      exact accurate_seed hfirst hend
    · rw [hempty]
      exact (accurate_empty s).mono hend.now_le
  intro n hn
  obtain ⟨id, hid⟩ := mem_allNodes.1 hn
  obtain ⟨hsize, hcreated, hmodified⟩ := accurate_of_run ht hclocks hlater hchain hlatest id n hid
  refine ⟨fun text hc => ?_, fun hdir => ?_, hcreated, hmodified⟩
  · rw [hsize, Node.byteSize, Node.text?_eq_some.2 hc, Option.elim_some]
  · rw [Node.isDirectory_eq, Option.isNone_iff_eq_none] at hdir
    rw [hsize, Node.byteSize, hdir, Option.elim_none]

/-- A clock within one second that goes on with each turn. -/
def ticking (seconds : Int) : Clock := ⟨fun turns => ⟨seconds, turns.headD 0⟩⟩

theorem forward_ticking (seconds : Int) : (ticking seconds).Forward := by
  intro a b hlt
  rw [ticking, Instant.le_iff]
  refine Or.inr ⟨rfl, ?_⟩
  cases hlt with
  | nil => exact Nat.zero_le _
  | cons => exact le_refl _
  | rel hij => exact Nat.le_of_lt hij

theorem until_ticking {seconds : Int} (hlt : seconds < now.seconds) : (ticking seconds).Until now :=
  fun _ => Instant.le_iff.2 (Or.inl hlt)

/-- Two files are created, the second one in a later turn; this one is written, moved and added to while
the clock goes on, and another node is touched. -/
theorem metadata_of_run_from_root :
    let s (seconds : Int) : Supply := ⟨ticking seconds, .counting⟩
    let line (seconds : Int) := Step.line ⟨s seconds, {}⟩ default
    let steps := [line 1 "touch c a", line 2 "echo größe > a", Step.change (s 3) (.rename "a" "b"),
      Step.change (s 5) (.touch "/"), line 7 "echo ü >> b"]
    let clocks := [1, 2, 3, 5, 7].map ticking
    steps.map Step.clock? = clocks.map some ∧ (∀ c ∈ (s 0).clock :: clocks, c.Forward) ∧
      ((s 0).clock :: clocks).IsChain (fun c c' => c.Until c'.now) ∧
      (clocks.getLastD (s 0).clock).Until ⟨8, 0⟩ ∧
      ∃ n, (steps.foldl Step.apply (empty (s 0))).lookup? "/b" = some n ∧
        n.content = .file "größe\nü\n" ∧ n.metadata.size = 11 ∧ n.metadata.created = ⟨1, 1⟩ ∧
        n.metadata.created ≤ n.metadata.modified ∧ n.metadata.modified ≤ ⟨8, 0⟩ := by
  intro s line steps clocks
  have hclocks : steps.map Step.clock? = clocks.map some := rfl
  have hforward : ∀ c ∈ (s 0).clock :: clocks, c.Forward := by
    simp [s, clocks, forward_ticking]
  have hchain : ((s 0).clock :: clocks).IsChain fun c c' => c.Until c'.now := by
    have hseconds : ([0, 1, 2, 3, 5, 7] : List Int).IsChain (· < ·) := by decide
    refine List.isChain_map_of_isChain ticking (fun a b hlt => ?_) hseconds
    exact until_ticking hlt
  have hlatest : (clocks.getLastD (s 0).clock).Until ⟨8, 0⟩ := until_ticking (by decide)
  have hfound : ((steps.foldl Step.apply (empty (s 0))).lookup? "/b").map (fun n =>
      (n.text?, n.metadata.created)) = some (some "größe\nü\n", ⟨1, 1⟩) := by decide +kernel
  obtain ⟨n, hn, hshown⟩ := Option.map_eq_some_iff.1 hfound
  obtain ⟨htext, htime⟩ := Prod.mk.inj hshown
  have hcontent := Node.text?_eq_some.1 htext
  obtain ⟨hsize, -, hcreated, hmodified⟩ :=
    metadata_of_run (Or.inr rfl) hclocks hforward hchain hlatest n (List.mem_of_find?_eq_some hn)
  exact ⟨hclocks, hforward, hchain, hlatest, n, hn, hcontent, hsize _ hcontent, htime, hcreated,
    hmodified⟩

end FileTree

end VirtualShell
