import VirtualShell.Command.Echo
import VirtualShell.Proofs.Tree.Placement

/-!
# Redirections

The arguments of `echo` are words and redirections in any order, where the target of a redirection
stands right behind the operator or is the next argument. Every argument list is written from such
items, perhaps with an operator at its end that has no target (`exists_reads`), and the command reads
the items back: the words in their order and the last redirection (`splitRedirections_of_reads`). So
what goes to the file is what the words alone would display (`redirected_of_echo`).
-/

namespace VirtualShell

open FileTree

namespace Command

/-! ## Items of an argument list -/

/-- The operator of a redirection. -/
def operator (append : Bool) : String := if append then ">>" else ">"

/-- What an argument list of `echo` is written from. -/
inductive Item where
  | word (text : String)
  /-- The target is written right behind the operator. -/
  | attached (r : Redirection)
  /-- The target is the argument after the operator. -/
  | apart (r : Redirection)
  deriving DecidableEq, Repr

namespace Item

/-- The arguments that an item is written as. -/
def args : Item → List String
  | word text => [text]
  | attached r => [operator r.append ++ r.target]
  | apart r => [operator r.append, r.target]

/-- A word does not begin like an operator, and an operator ends where its target begins. -/
def Fits : Item → Prop
  | word text => text.toList.head? ≠ some '>'
  | attached r => r.target ≠ "" ∧ (r.append = false → r.target.toList.head? ≠ some '>')
  | apart _ => True

instance : (i : Item) → Decidable i.Fits
  | word _ => inferInstanceAs (Decidable (_ ≠ _))
  | attached _ => inferInstanceAs (Decidable (_ ∧ _))
  | apart _ => inferInstanceAs (Decidable True)

def word? : Item → Option String
  | word text => some text
  | attached _ => none
  | apart _ => none

def redirection? : Item → Option Redirection
  | word _ => none
  | attached r => some r
  | apart r => some r

end Item

/-- An argument list is written from some items, and perhaps an operator without a target. -/
structure Reads (args : List String) (items : List Item) (unfinished : Option Bool) : Prop where
  fits : ∀ i ∈ items, i.Fits
  args_eq : args = items.flatMap Item.args ++ (unfinished.map operator).toList

/-! ## Operators -/

theorem redirectOperator?_eq_none_iff {word : String} :
    redirectOperator? word = none ↔ word.toList.head? ≠ some '>' := by
  unfold redirectOperator?
  split
  · next h => simp [h]
  · next h => simp [h]
  · next h₁ h₂ =>
    refine iff_of_true rfl fun hhead => ?_
    obtain ⟨rest, hrest⟩ := List.head?_eq_some_iff.1 hhead
    exact h₂ rest hrest

theorem redirectOperator?_eq_some_iff {word target : String} {append : Bool} :
    redirectOperator? word = some (append, target) ↔ word = operator append ++ target ∧
      (append = false → target.toList.head? ≠ some '>') := by
  constructor
  · intro h
    unfold redirectOperator? at h
    split at h
    · next rest hword =>
      cases h
      exact ⟨String.toList_injective (by simp [hword, operator]), nofun⟩
    · next rest hrest hword =>
      cases h
      refine ⟨String.toList_injective (by simp [hword, operator]), fun _ hhead => ?_⟩
      rw [String.toList_ofList] at hhead
      obtain ⟨tail, rfl⟩ := List.head?_eq_some_iff.1 hhead
      exact hrest tail rfl
    · cases h
  · rintro ⟨rfl, htarget⟩
    cases append with
    | true => simp [redirectOperator?, operator]
    | false =>
      have hword : (operator false ++ target).toList = '>' :: target.toList := by simp [operator]
      rw [redirectOperator?, hword]
      split
      · next rest hrest =>
        rw [List.cons.injEq] at hrest
        exact absurd (by rw [hrest.2]; rfl) (htarget rfl)
      · next rest _ hrest =>
        rw [List.cons.injEq] at hrest
        rw [← hrest.2, String.ofList_toList]
      · next hother => exact absurd rfl (hother target.toList)

theorem redirectOperator?_operator (append : Bool) :
    redirectOperator? (operator append) = some (append, "") := by
  cases append <;> decide

/-! ## Reading the items -/

/-- The first item of an argument list is read, and the other arguments without it. -/
theorem splitRedirections_item {i : Item} (h : i.Fits) (rest : List String) :
    splitRedirections (i.args ++ rest) =
      (fun read => (i.word?.toList ++ read.1, read.2.or i.redirection?)) <$>
        splitRedirections rest := by
  cases i with
  | word text =>
    rw [Item.args, List.singleton_append, splitRedirections, redirectOperator?_eq_none_iff.2 h]
    cases splitRedirections rest with
    | error e => rfl
    | ok read =>
      simp [Item.word?, Item.redirection?]
  | attached r =>
    rw [Item.args, List.singleton_append, splitRedirections,
      redirectOperator?_eq_some_iff.2 ⟨rfl, h.2⟩]
    dsimp only
    rw [if_neg h.1]
    cases splitRedirections rest <;> rfl
  | apart r =>
    rw [Item.args, List.cons_append, List.singleton_append, splitRedirections,
      redirectOperator?_operator]
    dsimp only
    rw [if_pos rfl]
    cases splitRedirections rest <;> rfl

/-- What is read are the words in their order and the last redirection, unless an operator at the end
has no target. -/
theorem splitRedirections_of_reads {args : List String} {items : List Item}
    {unfinished : Option Bool} (h : Reads args items unfinished) :
    splitRedirections args = if unfinished = none then
        .ok (items.filterMap Item.word?, (items.filterMap Item.redirection?).getLast?)
      else .error (.invalidArgument "syntax error near unexpected token `newline'") := by
  obtain ⟨hfits, rfl⟩ := h
  induction items with
  | nil =>
    cases unfinished with
    | none => rfl
    | some append =>
      simp [splitRedirections, redirectOperator?_operator]
  | cons i items ih =>
    rw [List.flatMap_cons, List.append_assoc, splitRedirections_item (hfits i List.mem_cons_self),
      ih fun j hj => hfits j (List.mem_cons_of_mem _ hj)]
    cases unfinished with
    | some append => rfl
    | none =>
      have hlast : ∀ (r : Redirection) (rest : List Redirection),
          (r :: rest).getLast? = rest.getLast?.or (some r) := by
        intro r rest
        rw [List.getLast?_cons]
        cases rest.getLast? <;> rfl
      cases i with
      | word text => simp [Item.word?, Item.redirection?]
      | attached r => simp [List.filterMap_cons, Item.word?, Item.redirection?, hlast]
      | apart r => simp [List.filterMap_cons, Item.word?, Item.redirection?, hlast]

/-- Words alone are read as they are. -/
theorem splitRedirections_words {words : List String}
    (h : ∀ word ∈ words, word.toList.head? ≠ some '>') :
    splitRedirections words = .ok (words, none) := by
  have hreads : Reads words (words.map Item.word) none := by
    refine ⟨fun i hi => ?_, by simp [List.flatMap_map, Item.args]⟩
    obtain ⟨word, hword, rfl⟩ := List.mem_map.1 hi
    exact h word hword
  rw [splitRedirections_of_reads hreads, if_pos rfl]
  simp [List.filterMap_map, Function.comp_def, Item.word?, Item.redirection?]

/-- Every argument list can be read. -/
theorem exists_reads (args : List String) : ∃ items unfinished, Reads args items unfinished := by
  have hcons : ∀ {i : Item} {items : List Item} {unfinished : Option Bool} {rest : List String},
      i.Fits → Reads rest items unfinished → Reads (i.args ++ rest) (i :: items) unfinished := by
    rintro i items unfinished rest hi ⟨hfits, rfl⟩
    exact ⟨List.forall_mem_cons.2 ⟨hi, hfits⟩, by rw [List.flatMap_cons, List.append_assoc]⟩
  fun_induction splitRedirections args with
  | case1 => exact ⟨[], none, by simp, rfl⟩
  | case2 word rest hword ih =>
    obtain ⟨items, unfinished, hrest⟩ := ih
    exact ⟨_, _, hcons (i := .word word) (redirectOperator?_eq_none_iff.1 hword) hrest⟩
  | case3 word append hword =>
    obtain ⟨rfl, -⟩ := redirectOperator?_eq_some_iff.1 hword
    exact ⟨[], some append, by simp, by simp⟩
  | case4 word append target rest hword ih =>
    obtain ⟨rfl, -⟩ := redirectOperator?_eq_some_iff.1 hword
    obtain ⟨items, unfinished, hrest⟩ := ih
    rw [String.append_empty]
    exact ⟨_, _, hcons (i := .apart ⟨append, target⟩) trivial hrest⟩
  | case5 word rest append target hword hne ih =>
    obtain ⟨rfl, htarget⟩ := redirectOperator?_eq_some_iff.1 hword
    obtain ⟨items, unfinished, hrest⟩ := ih
    exact ⟨_, _, hcons (i := .attached ⟨append, target⟩) ⟨hne, htarget⟩ hrest⟩

/-! ## Writing the text -/

/-- What is in a file before a redirection puts a text behind it. -/
def Redirection.front (r : Redirection) (t : FileTree) : String :=
  if r.append then (t.read r.target).toOption.getD "" else ""

theorem Redirection.front_of_find? {r : Redirection} {t : FileTree} {n : Node}
    (hn : t.find? r.target = some n) :
    r.front t = if r.append then n.text?.getD "" else "" := by
  simp only [front, FileTree.read, hn, Node.text?]
  cases n.content <;> rfl

theorem Redirection.placed_of_write (r : Redirection) {s : Supply} {t t' : FileTree} {text : String}
    (h : t.Consistent) (hc : r.write s t text = .ok t') :
    t'.read r.target = .ok (r.front t ++ text) ∧
      t.Placed s.now r.target (r.front t ++ text) t' := by
  unfold Redirection.write at hc
  dsimp only at hc
  rw [h.find?_resolve] at hc
  cases hn : t.find? r.target with
  | none =>
    have hfront : r.front t = "" := by simp [front, FileTree.read, hn, Except.toOption]
    rw [hn] at hc
    obtain ⟨created, hcreated, rfl⟩ := Change.map_eq_ok hc
    rw [hfront, String.empty_append]
    exact h.placed_of_createFile hcreated
  | some n =>
    rw [hn] at hc
    rw [front_of_find? hn]
    exact h.placed_of_write hc

theorem runEcho_words {words : List String} (h : ∀ word ∈ words, word.toList.head? ≠ some '>')
    (s : Supply) (w : World) :
    runEcho s words w = (.success (echoText w.session.env words), w) := by
  rw [runEcho, splitRedirections_words h]

theorem runEcho_redirected {args words : List String} {r : Redirection} {w : World}
    (hsplit : splitRedirections args = .ok (words, some r)) (h : w.tree.Consistent) (s : Supply) :
    let text := echoText w.session.env words
    let reply := (runEcho s args w).1
    let w' := (runEcho s args w).2
    (reply.code = 0 → reply.output = .display "" ∧ w'.session = w.session ∧
      w'.tree.read r.target = .ok (r.front w.tree ++ text) ∧
      w.tree.Placed (s.turn 0).now r.target (r.front w.tree ++ text) w'.tree) ∧
    (reply.code ≠ 0 → w'.tree = w.tree) := by
  rw [runEcho, hsplit]
  dsimp only
  cases hwrite : r.write (s.turn 0) w.tree (echoText w.session.env words) with
  | ok t' => exact ⟨fun _ => ⟨rfl, rfl, r.placed_of_write h hwrite⟩, fun hcode => absurd rfl hcode⟩
  | error e => exact ⟨fun hcode => absurd hcode Nat.one_ne_zero, fun _ => rfl⟩

/-- Every argument list of `echo` can be read as items. With a redirection among them the text that
the words alone would display goes to the last target, in place of the old text or behind it. If it
cannot go there, or the last operator has no target, the tree stays as it was. -/
theorem redirected_of_echo {w : World} (h : w.tree.Consistent) (s : Supply) (args : List String) :
    (∃ items unfinished, Reads args items unfinished) ∧
    ∀ items unfinished r, Reads args items unfinished →
      (items.filterMap Item.redirection?).getLast? = some r →
      ∃ shown, runEcho s (items.filterMap Item.word?) w = (.success shown, w) ∧
        let reply := (runEcho s args w).1
        let w' := (runEcho s args w).2
        (reply.code = 0 → reply.output = .display "" ∧ w'.session = w.session ∧
          w'.tree.read r.target = .ok (r.front w.tree ++ shown) ∧
          w.tree.Placed (s.turn 0).now r.target (r.front w.tree ++ shown) w'.tree) ∧
        (reply.code ≠ 0 → w'.tree = w.tree) := by
  refine ⟨exists_reads args, fun items unfinished r hreads hlast => ?_⟩
  have hwords : ∀ word ∈ items.filterMap Item.word?, word.toList.head? ≠ some '>' := by
    intro word hword
    obtain ⟨i, hi, hiword⟩ := List.mem_filterMap.1 hword
    have hfits := hreads.fits i hi
    cases i with
    | word text =>
      cases hiword
      exact hfits
    | attached r => cases hiword
    | apart r => cases hiword
  refine ⟨_, runEcho_words hwords s w, ?_⟩
  have hsplit := splitRedirections_of_reads hreads
  by_cases hfinished : unfinished = none
  · rw [if_pos hfinished, hlast] at hsplit
    exact runEcho_redirected hsplit h s
  · rw [if_neg hfinished] at hsplit
    rw [runEcho, hsplit]
    exact ⟨fun hcode => absurd hcode (Nat.succ_ne_zero 1), fun _ => rfl⟩

/-- A text without a line feed goes to the second of two targets, behind what is there. -/
theorem redirected_of_echo_to_readme :
    let s : Supply := ⟨.still ⟨0, 0⟩, .counting⟩
    let w : World := ⟨seed s, .start {} Path.home s.now⟩
    let args := ["-n", ">/tmp/a", "$USER", ">>", "readme.txt", "!"]
    let items : List Item :=
      [.word "-n", .attached ⟨false, "/tmp/a"⟩, .word "$USER", .apart ⟨true, "readme.txt"⟩, .word "!"]
    w.tree.Consistent ∧ Reads args items none ∧
      (items.filterMap Item.redirection?).getLast? = some ⟨true, "readme.txt"⟩ ∧
      (runEcho s args w).1.code = 0 ∧
      (runEcho s args w).2.tree.read "readme.txt" = .ok (Seed.readmeText ++ "user !") := by
  intro s w args items
  have h : w.tree.Consistent := by
    dsimp only [w]
    exact consistent_seed s
  have hreads : Reads args items none := ⟨by decide, by decide⟩
  have hlast : (items.filterMap Item.redirection?).getLast? = some ⟨true, "readme.txt"⟩ := by decide
  have hcode : (runEcho s args w).1.code = 0 := by decide +kernel
  have hshown : (runEcho s (items.filterMap Item.word?) w).1 = .success "user !" := by
    decide +kernel
  have hold : Redirection.front ⟨true, "readme.txt"⟩ w.tree = Seed.readmeText := by decide +kernel
  obtain ⟨-, hredirected⟩ := redirected_of_echo h s args
  obtain ⟨shown, hwords, hwritten, -⟩ := hredirected items none _ hreads hlast
  obtain ⟨-, -, hread, -⟩ := hwritten hcode
  rw [hwords] at hshown
  have hsame : shown = "user !" := by simpa [Reply.success] using hshown
  rw [hold, hsame] at hread
  exact ⟨h, hreads, hlast, hcode, hread⟩

end Command

end VirtualShell
