import VirtualShell.Calendar.Stamp
import VirtualShell.Proofs.Calendar.Days
import VirtualShell.Proofs.Text.Numerals

/-!
# Time stamps read back

The time stamp of an instant in range is read as that instant (`Instant.ofStamp?_stamp`). Each part
of the stamp has a lemma that its reader takes just what was written and leaves the rest.
-/

namespace VirtualShell.Calendar

open Text

/-- An instant that a clock can show: its year is in range, and only the last second of a minute is
followed by a leap second. -/
structure Instant.IsValid (t : Instant) : Prop where
  year : Stamp.yearInRange t.date.year = true
  nanos : t.nanos < nanosPerSecond ∨
    t.nanos < 2 * nanosPerSecond ∧ t.secondOfDay % 60 = 59

instance (t : Instant) : Decidable t.IsValid :=
  decidable_of_iff (Stamp.yearInRange t.date.year = true ∧ (t.nanos < nanosPerSecond ∨
    t.nanos < 2 * nanosPerSecond ∧ t.secondOfDay % 60 = 59))
    ⟨fun h => ⟨h.1, h.2⟩, fun h => ⟨h.year, h.nanos⟩⟩

namespace Stamp

/-- The character is no digit. -/
def NoDigit (rest : List Char) : Prop := ∀ c, rest.head? = some c → c.isDigit = false

theorem noDigit_cons {c : Char} (h : c.isDigit = false) (rest : List Char) : NoDigit (c :: rest) := by
  intro d hd
  rw [List.head?_cons, Option.some.injEq] at hd
  rwa [← hd]

/-- A number in its full width is read. -/
theorem number?_padded {width n : Nat} (hw : 0 < width) (hn : n < 10 ^ width) (rest : List Char) :
    number? width ((padLeft width '0' (decimal n)).toList ++ rest) = some (n, rest) := by
  have hdigits : ∀ c ∈ (padLeft width '0' (decimal n)).toList, c.isDigit = true := fun c =>
    isDigit_of_mem_padded
  have hne := padded_ne_nil width n
  have hlen := length_padded hw hn
  have htake : ((padLeft width '0' (decimal n)).toList ++ rest).take width =
      (padLeft width '0' (decimal n)).toList := List.take_left' hlen
  have hwhile : (padLeft width '0' (decimal n)).toList.takeWhile Char.isDigit =
      (padLeft width '0' (decimal n)).toList := by
    have h := takeWhile_digits hdigits (show NoDigit [] from fun c hc => by cases hc)
    rwa [List.append_nil] at h
  rw [number?]
  simp only [trimLeft_of_digits hdigits hne, htake, hwhile, digitsValue_padded, List.drop_left]
  rw [if_neg (by simpa using hne)]

theorem number?_twoDigits {n : Nat} (hn : n < 100) (rest : List Char) :
    number? 2 ((twoDigits n).toList ++ rest) = some (n, rest) :=
  number?_padded (by decide) hn rest

/-- A year is read, with its sign if it has one. -/
theorem year?_yearText (year : Int) {rest : List Char} (hrest : NoDigit rest) :
    year? ((yearText year).toList ++ rest) = some (year, rest) := by
  have hdigits : ∀ n, ∀ c ∈ (padLeft 4 '0' (decimal n)).toList, c.isDigit = true :=
    fun n c => isDigit_of_mem_padded
  have hunbounded : ∀ n, ((padLeft 4 '0' (decimal n)).toList ++ rest).takeWhile Char.isDigit =
      (padLeft 4 '0' (decimal n)).toList := fun n => takeWhile_digits (hdigits n) hrest
  unfold yearText
  split
  · next hyear =>
    have hn : year.toNat < 10 ^ 4 := by omega
    obtain ⟨d, ds, hds⟩ := List.exists_cons_of_ne_nil (padded_ne_nil 4 year.toNat)
    have hd : d.isDigit = true := hdigits year.toNat d (by rw [hds]; exact List.mem_cons_self)
    have hnum := number?_padded (by decide) hn rest
    rw [year?]
    simp only [trimLeft_of_digits (hdigits year.toNat) (padded_ne_nil 4 year.toNat)]
    rw [hds, List.cons_append] at hnum ⊢
    split
    · next h => cases h; cases hd
    · next h => cases h; cases hd
    · rw [hnum, Option.map_some, Int.toNat_of_nonneg hyear.1]
  · next hyear =>
    have hskip : ∀ s : Char, isBlank s = false → trimLeft (s :: ((padLeft 4 '0'
        (decimal year.natAbs)).toList ++ rest)) = s :: ((padLeft 4 '0'
        (decimal year.natAbs)).toList ++ rest) := by
      intro s hs
      refine dropWhile_of_head? fun c hc => ?_
      rw [List.head?_cons, Option.some.injEq] at hc
      rwa [← hc]
    have hne : ¬ (padLeft 4 '0' (decimal year.natAbs)).toList.isEmpty = true := by
      simpa using padded_ne_nil 4 year.natAbs
    by_cases hneg : year < 0
    · rw [if_pos hneg, String.toList_append, show "-".toList = ['-'] from rfl,
        List.singleton_append, List.cons_append, year?, hskip '-' (by decide)]
      simp only [hunbounded, digitsValue_padded, List.drop_left]
      rw [if_neg hne, Option.map_some]
      simp only [Option.some.injEq, Prod.mk.injEq, and_true]
      omega
    · rw [if_neg hneg, String.toList_append, show "+".toList = ['+'] from rfl,
        List.singleton_append, List.cons_append, year?, hskip '+' (by decide)]
      simp only [hunbounded, digitsValue_padded, List.drop_left]
      rw [if_neg hne]
      simp only [Option.some.injEq, Prod.mk.injEq, and_true]
      omega

theorem expect?_self {c : Char} (hc : isBlank c = false) (rest : List Char) :
    expect? c (c :: rest) = some rest := by
  have hskip : trimLeft (c :: rest) = c :: rest := by
    refine dropWhile_of_head? fun d hd => ?_
    rw [List.head?_cons, Option.some.injEq] at hd
    rwa [← hd]
  rw [expect?, hskip]
  simp only [if_true]

/-- The digits behind the point, in one of the three lengths. -/
theorem fraction?_padded {width n : Nat} (hw : 0 < width) (hw9 : width ≤ 9) (hn : n < 10 ^ width)
    {rest : List Char} (hrest : NoDigit rest) :
    fraction? ('.' :: ((padLeft width '0' (decimal n)).toList ++ rest)) =
      some (n * 10 ^ (9 - width), rest) := by
  have hdigits : ∀ c ∈ (padLeft width '0' (decimal n)).toList, c.isDigit = true := fun c =>
    isDigit_of_mem_padded
  have hlen := length_padded hw hn
  have htake : (padLeft width '0' (decimal n)).toList.take 9 =
      (padLeft width '0' (decimal n)).toList := List.take_of_length_le (by omega)
  have hne : ¬ (padLeft width '0' (decimal n)).toList.isEmpty = true := by
    simpa using padded_ne_nil width n
  rw [fraction?]
  simp only [takeWhile_digits hdigits hrest, htake, digitsValue_padded, hlen, Nat.pow_eq]
  rw [if_neg hne, List.drop_left' hlen]

/-- A fraction is read, or its absence. -/
theorem fraction?_fractionText {nanos : Nat} (h : nanos < nanosPerSecond) {rest : List Char}
    (hrest : NoDigit rest) (hpoint : rest.head? ≠ some '.') :
    fraction? ((fractionText nanos).toList ++ rest) = some (nanos, rest) := by
  rw [nanosPerSecond] at h
  unfold fractionText
  split_ifs with h₀ h₃ h₆
  · rw [h₀]
    unfold fraction?
    split
    · next s hs =>
      have hs' : rest = '.' :: s := by simpa using hs
      rw [hs'] at hpoint
      exact absurd rfl hpoint
    · rfl
  · rw [String.toList_append, show ".".toList = ['.'] from rfl, List.singleton_append,
      List.cons_append, fraction?_padded (by decide) (by decide) (by omega) hrest]
    simp only [Option.some.injEq, Prod.mk.injEq, and_true]
    omega
  · rw [String.toList_append, show ".".toList = ['.'] from rfl, List.singleton_append,
      List.cons_append, fraction?_padded (by decide) (by decide) (by omega) hrest]
    simp only [Option.some.injEq, Prod.mk.injEq, and_true]
    omega
  · rw [String.toList_append, show ".".toList = ['.'] from rfl, List.singleton_append,
      List.cons_append, fraction?_padded (by decide) (by decide) (by omega) hrest]
    simp

end Stamp

namespace Instant

open Stamp

theorem secondOfDay_lt (t : Instant) : t.secondOfDay < 86400 := by
  unfold secondOfDay
  omega

theorem toList_stamp (t : Instant) : t.stamp.toList = (yearText t.date.year).toList ++
    '-' :: ((twoDigits t.date.month).toList ++ '-' :: ((twoDigits t.date.day).toList ++
      'T' :: ((twoDigits t.hour).toList ++ ':' :: ((twoDigits t.minute).toList ++
        ':' :: ((twoDigits t.second).toList ++ ((fractionText t.subsecond).toList ++ ['Z'])))))) := by
  simp [stamp, stampWith]

/-- An instant is put together again from its date and time of day. A second that is shown as the
sixtieth is a leap second. -/
theorem ofParts {t : Instant} (h : t.IsValid) : Instant.mk (t.date.toDays * 86400 +
    (t.hour * 3600 + t.minute * 60 + (t.second - if t.second = 60 then 1 else 0) : Nat) - 0 * 60)
    (t.subsecond + (if t.second = 60 then 1 else 0) * nanosPerSecond) = t := by
  have hdays : t.date.toDays = t.seconds / 86400 := Date.toDays_ofDays _
  have hnanos := h.nanos
  have hclock : t.hour * 3600 + t.minute * 60 + t.secondOfDay % 60 = t.secondOfDay := by
    unfold hour minute
    omega
  have hsod : (t.secondOfDay : Int) = t.seconds % 86400 := by
    unfold secondOfDay
    omega
  rw [nanosPerSecond] at hnanos
  have hsplit : (t.second = t.secondOfDay % 60 ∧ t.second ≠ 60 ∧ t.subsecond = t.nanos) ∨
      (t.second = 60 ∧ t.secondOfDay % 60 = 59 ∧ t.subsecond + 1000000000 = t.nanos) := by
    unfold second subsecond nanosPerSecond
    omega
  rcases hsplit with ⟨hs, hne, hsub⟩ | ⟨hs, hlast, hsub⟩
  · rw [if_neg hne, hs, hdays, hsub]
    refine congrArg₂ Instant.mk ?_ (by simp)
    omega
  · rw [if_pos hs, hs, hdays]
    refine congrArg₂ Instant.mk ?_ (by rw [Nat.one_mul, nanosPerSecond, hsub])
    omega

/-- The time stamp of an instant in range is read as that instant. -/
theorem ofStamp?_stamp {t : Instant} (h : t.IsValid) : ofStamp? t.stamp = some t := by
  have hday := t.secondOfDay_lt
  have hvalid : t.date.IsValid := Date.isValid_ofDays _
  have hmonth : t.date.month < 100 := Nat.lt_of_le_of_lt hvalid.2.1 (by decide)
  have hmday : t.date.day < 100 := Nat.lt_of_le_of_lt hvalid.day_le (by decide)
  have hnanos := h.nanos
  rw [nanosPerSecond] at hnanos
  have hsecond : t.second ≤ 60 := by
    unfold second nanosPerSecond
    omega
  have hhour : t.hour < 24 := by unfold hour; omega
  have hminute : t.minute < 60 := by unfold minute; omega
  have hsub : t.subsecond < nanosPerSecond := Nat.mod_lt _ (by decide)
  have hyear : ∀ rest, year? ((yearText t.date.year).toList ++ '-' :: rest) =
      some (t.date.year, '-' :: rest) :=
    fun rest => year?_yearText t.date.year (noDigit_cons (by decide) rest)
  have hfraction : fraction? ((fractionText t.subsecond).toList ++ ['Z']) =
      some (t.subsecond, ['Z']) :=
    fraction?_fractionText hsub (noDigit_cons (by decide) []) (by decide)
  have hoffset : offset? (trimLeft ['Z']) = some (0, []) := by decide
  have hdate : ((trimLeft []).isEmpty && yearInRange t.date.year && decide t.date.IsValid) =
      true := by
    rw [h.year, decide_eq_true hvalid]
    rfl
  have hclock : (decide (t.hour < 24) && decide (t.minute < 60) && decide (t.second ≤ 60)) =
      true := by
    simp [hhour, hminute, hsecond]
  have hparts := ofParts h
  unfold ofStamp?
  rw [toList_stamp]
  refine (bind_of_eq_some (hyear _) _).trans ?_
  refine (bind_of_eq_some (expect?_self (c := '-') (by decide) _) _).trans ?_
  refine (bind_of_eq_some (number?_twoDigits hmonth _) _).trans ?_
  refine (bind_of_eq_some (expect?_self (c := '-') (by decide) _) _).trans ?_
  refine (bind_of_eq_some (number?_twoDigits hmday _) _).trans ?_
  -- the letter between date and time
  refine (bind_of_eq_some (o := some _) rfl _).trans ?_
  refine (bind_of_eq_some (number?_twoDigits (Nat.lt_trans hhour (by decide)) _) _).trans ?_
  refine (bind_of_eq_some (expect?_self (c := ':') (by decide) _) _).trans ?_
  refine (bind_of_eq_some (number?_twoDigits (Nat.lt_trans hminute (by decide)) _) _).trans ?_
  refine (bind_of_eq_some (expect?_self (c := ':') (by decide) _) _).trans ?_
  refine (bind_of_eq_some (number?_twoDigits (Nat.lt_of_le_of_lt hsecond (by decide)) _) _).trans ?_
  refine (bind_of_eq_some hfraction _).trans ?_
  refine (bind_of_eq_some hoffset _).trans ?_
  refine (bind_of_eq_some (guard_of_pos hdate) _).trans ?_
  refine (bind_of_eq_some (guard_of_pos hclock) _).trans ?_
  refine (congrArg (fun i : Instant =>
    (guard (yearInRange i.date.year = true) : Option Unit) >>= fun _ => pure i) hparts).trans ?_
  exact bind_of_eq_some (guard_of_pos h.year) _

end Instant

end VirtualShell.Calendar
