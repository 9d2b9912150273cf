/-
A time that is written is read back.

First the calendar: `civilDate` tells the date of a day by counting centuries, runs of four years
and years from the start of its era, `InEra` names these numbers, and from them `dayNumber` gives
the day again.  Then the numbers: each is written with digits only and followed by something else,
so it ends where it ended.
-/
import Plumbline.Text.Timestamp
import Mathlib.Tactic.IntervalCases
import Mathlib.Tactic.Linarith

namespace Plumbline

namespace Timestamp

/-! ### The calendar -/

/-- Where day `n` of an era lies: `c` whole centuries, `q` runs of four years and `y` years of the
era have gone by, and `d` days of the year. -/
structure InEra (n c q y d : Int) : Prop where
  eq : n = 36524 * c + 1461 * q + 365 * y + d
  century : 0 ≤ c ∧ c ≤ 3
  run : 0 ≤ q ∧ q ≤ 24
  year : 0 ≤ y ∧ y ≤ 3
  day : 0 ≤ d ∧ d ≤ 365
  /-- Only the last year of a run has 366 days, and in the last run of a century only if the
  century is the last of its era. -/
  leap : d = 365 → y = 3 ∧ (q = 24 → c = 3)

theorem exists_inEra {n : Int} (hlow : 0 ≤ n) (hhigh : n ≤ 146096) :
    ∃ century run year dayOfYear, InEra n century run year dayOfYear := by
  have hcentury : ∃ c r : Int, n = 36524 * c + r ∧ 0 ≤ c ∧ c ≤ 3 ∧ 0 ≤ r ∧ r ≤ 36524 ∧
      (r = 36524 → c = 3) := by
    refine ⟨min 3 (n / 36524), n - 36524 * min 3 (n / 36524), ?_⟩
    omega
  obtain ⟨c, r, hn, hc₀, hc₃, hr₀, hr, hlast⟩ := hcentury
  have hyear : ∃ y d : Int, r % 1461 = 365 * y + d ∧ 0 ≤ y ∧ y ≤ 3 ∧ 0 ≤ d ∧ d ≤ 365 ∧
      (d = 365 → y = 3) := by
    refine ⟨min 3 (r % 1461 / 365), r % 1461 - 365 * min 3 (r % 1461 / 365), ?_⟩
    omega
  obtain ⟨y, d, hrun, hy₀, hy₃, hd₀, hd, hlong⟩ := hyear
  refine ⟨c, r / 1461, y, d, ?_, ⟨hc₀, hc₃⟩, by omega, ⟨hy₀, hy₃⟩, ⟨hd₀, hd⟩, ?_⟩
  · omega
  · intro h
    exact ⟨hlong h, fun h24 => hlast (by have := hlong h; omega)⟩

/-- The formula for the year of an era counts the years that have gone by. -/
theorem InEra.yearOfEra {n c q y d : Int} (h : InEra n c q y d) :
    (n - n / 1460 + n / 36524 - n / 146096) / 365 = 100 * c + 4 * q + y := by
  obtain ⟨hn, ⟨hc₀, hc₃⟩, ⟨hq₀, hq⟩, ⟨hy₀, hy₃⟩, ⟨hd₀, hd⟩, hleap⟩ := h
  -- The divisor 1460 is a day short of four years, so it counts a last day too early.
  have hearly : n / 1460 = 25 * c + q + (24 * c + q + 365 * y + d) / 1460 := by omega
  have hone : 0 ≤ (24 * c + q + 365 * y + d) / 1460 ∧ (24 * c + q + 365 * y + d) / 1460 ≤ 1 := by
    omega
  have hfirst : d = 0 → (24 * c + q + 365 * y + d) / 1460 = 0 := by omega
  have hlast : d = 365 → (24 * c + q + 365 * y + d) / 1460 = 1 := by
    intro h365
    obtain ⟨hy, -⟩ := hleap h365
    omega
  have hcentury : n / 36524 - n / 146096 = c := by
    by_cases hend : n = 146096
    · omega
    · have hin : 1461 * q + 365 * y + d < 36524 := by
        by_contra hout
        obtain ⟨hy, hrun⟩ := hleap (by omega)
        have := hrun (by omega)
        omega
      have : n / 36524 = c := by omega
      have : n / 146096 = 0 := by omega
      omega
  omega

theorem InEra.dayOfYear_eq {n c q y d : Int} (h : InEra n c q y d) :
    n - (365 * (100 * c + 4 * q + y) + (100 * c + 4 * q + y) / 4 - (100 * c + 4 * q + y) / 100) =
      d := by
  obtain ⟨hn, ⟨hc₀, hc₃⟩, ⟨hq₀, hq⟩, ⟨hy₀, hy₃⟩, -, -⟩ := h
  have hfour : (100 * c + 4 * q + y) / 4 = 25 * c + q := by omega
  have hhundred : (100 * c + 4 * q + y) / 100 = c := by omega
  omega

/-- The date of a day, by the years that have gone by. -/
theorem civilDate_eq {days c q y d : Int} (h : InEra ((days + 719468) % 146097) c q y d) :
    civilDate days =
      let month := if (5 * d + 2) / 153 < 10 then (5 * d + 2) / 153 + 3 else (5 * d + 2) / 153 - 9
      (100 * c + 4 * q + y + (days + 719468) / 146097 * 400 + (if month ≤ 2 then 1 else 0),
        month.toNat, (d - (153 * ((5 * d + 2) / 153) + 2) / 5 + 1).toNat) := by
  have hera : (days + 719468) - (days + 719468).fdiv 146097 * 146097 =
      (days + 719468) % 146097 := by
    rw [Int.fdiv_eq_ediv_of_nonneg _ (by decide)]
    omega
  unfold civilDate
  simp only [hera, h.yearOfEra, h.dayOfYear_eq]
  rw [Int.fdiv_eq_ediv_of_nonneg _ (by decide)]

theorem inEra_mod (days : Int) :
    ∃ c q y d, InEra ((days + 719468) % 146097) c q y d :=
  exists_inEra (by omega) (by omega)

/-- **The number of a day's date is the number of the day.** -/
theorem dayNumber_civilDate (days : Int) :
    dayNumber (civilDate days).1 (civilDate days).2.1 (civilDate days).2.2 = days := by
  obtain ⟨c, q, y, d, h⟩ := inEra_mod days
  rw [civilDate_eq h]
  obtain ⟨hn, ⟨hc₀, hc₃⟩, ⟨hq₀, hq⟩, ⟨hy₀, hy₃⟩, ⟨hd₀, hd⟩, -⟩ := h
  have hfour : (100 * c + 4 * q + y) / 4 = 25 * c + q := by omega
  have hhundred : (100 * c + 4 * q + y) / 100 = c := by omega
  generalize hm : (5 * d + 2) / 153 = m
  have hm₁₁ : 0 ≤ m ∧ m ≤ 11 := by omega
  have hday : ((d - (153 * m + 2) / 5 + 1).toNat : Int) = d - (153 * m + 2) / 5 + 1 := by omega
  -- Years count from March, so the first two months belong to the year before.
  have hera : (100 * c + 4 * q + y + (days + 719468) / 146097 * 400).fdiv 400 =
      (days + 719468) / 146097 := by
    rw [Int.fdiv_eq_ediv_of_nonneg _ (by decide)]
    omega
  have hgone : 100 * c + 4 * q + y + (days + 719468) / 146097 * 400 -
      (days + 719468) / 146097 * 400 = 100 * c + 4 * q + y := by omega
  unfold dayNumber
  by_cases hten : m < 10
  · have hlate : ¬ m + 3 ≤ 2 := by omega
    have hlate' : ¬ (m + 3).toNat ≤ 2 := by omega
    have hshifted : (((m + 3).toNat : Int) + 9) % 12 = m := by omega
    simp only [if_pos hten, if_neg hlate, if_neg hlate', add_zero, hera, hgone, hshifted, hday,
      hfour, hhundred]
    omega
  · have hearly : m - 9 ≤ 2 := by omega
    have hearly' : (m - 9).toNat ≤ 2 := by omega
    have hshifted : (((m - 9).toNat : Int) + 9) % 12 = m := by omega
    simp only [if_neg hten, if_pos hearly, if_pos hearly', add_sub_cancel_right, hera, hgone,
      hshifted, hday, hfour, hhundred]
    omega

theorem civilDate_isDate (days : Int) :
    1 ≤ (civilDate days).2.1 ∧ (civilDate days).2.1 ≤ 12 ∧ 1 ≤ (civilDate days).2.2 ∧
      (civilDate days).2.2 ≤ daysIn (civilDate days).1 (civilDate days).2.1 := by
  obtain ⟨c, q, y, d, h⟩ := inEra_mod days
  rw [civilDate_eq h]
  obtain ⟨-, ⟨hc₀, hc₃⟩, ⟨hq₀, hq⟩, ⟨hy₀, hy₃⟩, ⟨hd₀, hd⟩, hleap⟩ := h
  generalize hm : (5 * d + 2) / 153 = m
  generalize hera : (days + 719468) / 146097 = era
  have hm₁₁ : 0 ≤ m ∧ m ≤ 11 := by omega
  dsimp only
  refine ⟨by split <;> omega, by split <;> omega, by omega, ?_⟩
  have hmonth : m = 0 ∨ m = 1 ∨ m = 2 ∨ m = 3 ∨ m = 4 ∨ m = 5 ∨ m = 6 ∨ m = 7 ∨ m = 8 ∨ m = 9 ∨
      m = 10 ∨ m = 11 := by omega
  rcases hmonth with rfl | rfl | rfl | rfl | rfl | rfl | rfl | rfl | rfl | rfl | rfl | rfl
  all_goals simp [daysIn]
  all_goals omega

/-! ### Numbers -/

theorem digitsValue_eq (cs : List Char) : Decimal.digitsValue cs = Nat.ofDigitChars 10 cs 0 := by
  rw [Nat.ofDigitChars_eq_foldl]
  rfl

theorem digitsValue_padded (width n : Nat) : Decimal.digitsValue (padded width n).toList = n := by
  rw [digitsValue_eq, padded, String.toList_ofList, Nat.ofDigitChars_append,
    Nat.ofDigitChars_replicate_zero, Nat.mul_zero, Nat.ofDigitChars_ten_toDigits]

theorem isDigit_of_mem_padded {width n : Nat} {c : Char} (h : c ∈ (padded width n).toList) :
    c.isDigit = true := by
  rw [padded, String.toList_ofList, List.mem_append] at h
  cases h with
  | inl h => rw [List.eq_of_mem_replicate h]; rfl
  | inr h => exact Nat.isDigit_of_mem_toDigits (by decide) (by decide) h

theorem padded_ne_nil (width n : Nat) : (padded width n).toList ≠ [] := by
  rw [padded, String.toList_ofList]
  exact List.append_ne_nil_of_right_ne_nil _ Nat.toDigits_ne_nil

theorem length_padded {width n : Nat} (hwidth : 0 < width) (h : n < 10 ^ width) :
    (padded width n).toList.length = width := by
  have hlength : (Nat.toDigits 10 n).length ≤ width :=
    (Nat.length_toDigits_le_iff (by decide) hwidth).mpr h
  rw [padded, String.toList_ofList, List.length_append, List.length_replicate]
  omega

/-! ### Reading what was written -/

theorem isDigit_iff (c : Char) : c.isDigit = true ↔ 48 ≤ c.toNat ∧ c.toNat ≤ 57 := by
  simp only [Char.isDigit, ge_iff_le, Bool.and_eq_true, decide_eq_true_eq, UInt32.le_iff_toNat_le]
  rfl

theorem not_isWhiteSpace_of_isDigit {c : Char} (h : c.isDigit = true) :
    Text.isWhiteSpace c = false := by
  rw [isDigit_iff] at h
  simp only [Text.isWhiteSpace, Bool.or_eq_false_iff, Bool.and_eq_false_iff,
    decide_eq_false_iff_not, beq_eq_false_iff_ne]
  omega

/-- Text that no digit starts. -/
def NoDigit (cs : List Char) : Prop := ∀ c ∈ cs.head?, c.isDigit = false

theorem noDigit_cons {c : Char} {cs : List Char} (h : c.isDigit = false) : NoDigit (c :: cs) := by
  simpa [NoDigit] using h

theorem NoDigit.takeWhile_eq {cs : List Char} (h : NoDigit cs) :
    cs.takeWhile Char.isDigit = [] := by
  cases cs with
  | nil => rfl
  | cons c cs => exact List.takeWhile_cons_of_neg (by simp [h c rfl])

theorem NoDigit.dropWhile_eq {cs : List Char} (h : NoDigit cs) :
    cs.dropWhile Char.isDigit = cs := by
  cases cs with
  | nil => rfl
  | cons c cs => exact List.dropWhile_cons_of_neg (by simp [h c rfl])

theorem NoDigit.take {cs : List Char} (h : NoDigit cs) (n : Nat) : NoDigit (cs.take n) := by
  cases n with
  | zero => exact fun c hc => by simp at hc
  | succ n =>
    cases cs with
    | nil => exact h
    | cons c cs => exact noDigit_cons (h c rfl)

theorem digits?_append {width : Nat} {ds rest : List Char} (hne : ds ≠ [])
    (hdigit : ∀ c ∈ ds, c.isDigit = true) (hwidth : ds.length ≤ width) (hrest : NoDigit rest) :
    digits? width (ds ++ rest) = some (Decimal.digitsValue ds, rest) := by
  have htaken : ((ds ++ rest).take width).takeWhile Char.isDigit = ds := by
    rw [List.take_append, List.take_of_length_le hwidth, List.takeWhile_append_of_pos hdigit,
      (hrest.take _).takeWhile_eq, List.append_nil]
  have hnonempty : ds.isEmpty = false := by simpa using hne
  simp only [digits?, htaken, hnonempty, Bool.false_eq_true, if_false, List.drop_left]

theorem trimStart_padded (width n : Nat) (rest : List Char) :
    Text.trimStart ((padded width n).toList ++ rest) = (padded width n).toList ++ rest := by
  obtain ⟨c, cs, h⟩ := List.exists_cons_of_ne_nil (padded_ne_nil width n)
  have hc : c.isDigit = true := isDigit_of_mem_padded (h ▸ List.mem_cons_self)
  rw [h, List.cons_append, Text.trimStart]
  exact List.dropWhile_cons_of_neg (by simp [not_isWhiteSpace_of_isDigit hc])

theorem number?_padded {width n : Nat} (hwidth : 0 < width) (hn : n < 10 ^ width)
    {rest : List Char} (hrest : NoDigit rest) :
    number? width ((padded width n).toList ++ rest) = some (n, rest) := by
  rw [number?, trimStart_padded, digits?_append (padded_ne_nil _ _)
    (fun c hc => isDigit_of_mem_padded hc) (length_padded hwidth hn).le hrest,
    digitsValue_padded]

theorem digits?_padded_all (width n : Nat) {rest : List Char} (hrest : NoDigit rest) :
    digits? ((padded width n).toList ++ rest).length ((padded width n).toList ++ rest) =
      some (n, rest) := by
  rw [digits?_append (padded_ne_nil _ _) (fun c hc => isDigit_of_mem_padded hc) (by simp) hrest,
    digitsValue_padded]

theorem year?_minus (cs : List Char) :
    year? ('-' :: cs) = (digits? cs.length cs).map fun r => (-(r.1 : Int), r.2) := rfl

theorem year?_plus (cs : List Char) :
    year? ('+' :: cs) = (digits? cs.length cs).map fun r => ((r.1 : Int), r.2) := rfl

theorem year?_padded {width n : Nat} (rest : List Char) :
    year? ((padded width n).toList ++ rest) =
      (digits? 4 ((padded width n).toList ++ rest)).map fun r => ((r.1 : Int), r.2) := by
  obtain ⟨c, cs, h⟩ := List.exists_cons_of_ne_nil (padded_ne_nil width n)
  have hc : c.isDigit = true := isDigit_of_mem_padded (h ▸ List.mem_cons_self)
  rw [year?, trimStart_padded, h]
  split
  · rename_i heq
    cases heq
    exact absurd hc (by decide)
  · rename_i heq
    cases heq
    exact absurd hc (by decide)
  · rfl

theorem year?_yearText (year : Int) {rest : List Char} (hrest : NoDigit rest) :
    year? ((yearText year).toList ++ rest) = some (year, rest) := by
  unfold yearText
  split
  · rename_i hyear
    have hlength : (padded 4 year.toNat).toList.length = 4 :=
      length_padded (by decide) (by omega)
    have hback : ((year.toNat : Nat) : Int) = year := by omega
    rw [year?_padded, digits?_append (padded_ne_nil _ _)
      (fun c hc => isDigit_of_mem_padded hc) hlength.le hrest, digitsValue_padded,
      Option.map_some]
    simp only [hback]
  · have hread := digits?_padded_all 4 year.natAbs hrest
    have hminus : "-".toList = ['-'] := rfl
    have hplus : "+".toList = ['+'] := rfl
    rw [String.toList_append, List.append_assoc]
    split
    · have hback : -((year.natAbs : Nat) : Int) = year := by omega
      rw [hminus, List.singleton_append, year?_minus, hread, Option.map_some]
      simp only [hback]
    · have hback : ((year.natAbs : Nat) : Int) = year := by omega
      rw [hplus, List.singleton_append, year?_plus, hread, Option.map_some]
      simp only [hback]

theorem fraction?_point {width n : Nat} (hwidth : 0 < width) (hnine : width ≤ 9)
    (hn : n < 10 ^ width) {rest : List Char} (hrest : NoDigit rest) :
    fraction? ('.' :: ((padded width n).toList ++ rest)) =
      some (n * 10 ^ (9 - width), rest) := by
  have hdigit : ∀ c ∈ (padded width n).toList, c.isDigit = true :=
    fun c hc => isDigit_of_mem_padded hc
  have hlength := length_padded hwidth hn
  have htaken : ((padded width n).toList ++ rest).takeWhile Char.isDigit =
      (padded width n).toList := by
    rw [List.takeWhile_append_of_pos hdigit, hrest.takeWhile_eq, List.append_nil]
  have hdropped : ((padded width n).toList ++ rest).dropWhile Char.isDigit = rest := by
    rw [List.dropWhile_append_of_pos hdigit, hrest.dropWhile_eq]
  have hkept : (padded width n).toList.take 9 = (padded width n).toList :=
    List.take_of_length_le (by omega)
  have hnonempty : (padded width n).toList.isEmpty = false := by simpa using padded_ne_nil width n
  simp only [fraction?, htaken, hdropped, hkept, hnonempty, Bool.false_eq_true, if_false,
    digitsValue_padded, hlength, Nat.pow_eq]

theorem toList_point (places : String) (rest : List Char) :
    ("." ++ places).toList ++ rest = '.' :: (places.toList ++ rest) := by
  have hpoint : ".".toList = ['.'] := rfl
  rw [String.toList_append, hpoint, List.singleton_append, List.cons_append]

theorem fraction?_fractionText {nanos : Nat} (hnanos : nanos < nanosPerSecond)
    {rest : List Char} (hrest : NoDigit rest) (hpoint : rest.head? ≠ some '.') :
    fraction? ((fractionText nanos).toList ++ rest) = some (nanos, rest) := by
  unfold nanosPerSecond at hnanos
  unfold fractionText
  split
  · rename_i hzero
    subst hzero
    cases rest with
    | nil => rfl
    | cons c rest =>
      rw [String.toList_empty, List.nil_append, fraction?]
      rintro rest' hcons
      cases hcons
      exact hpoint rfl
  · split
    · have hback : nanos / 1000000 * 10 ^ (9 - 3) = nanos := by omega
      rw [toList_point, fraction?_point (by decide) (by decide) (by omega) hrest, hback]
    · split
      · have hback : nanos / 1000 * 10 ^ (9 - 6) = nanos := by omega
        rw [toList_point, fraction?_point (by decide) (by decide) (by omega) hrest, hback]
      · have hback : nanos * 10 ^ (9 - 9) = nanos := by omega
        rw [toList_point, fraction?_point (by decide) (by decide) (by omega) hrest, hback]

theorem render_eq (t : Timestamp) :
    t.render.toList =
      let second := (t.seconds - t.days * 86400).toNat
      (yearText (civilDate t.days).1).toList ++ '-' ::
        ((padded 2 (civilDate t.days).2.1).toList ++ '-' ::
        ((padded 2 (civilDate t.days).2.2).toList ++ 'T' ::
        ((padded 2 (second / 3600)).toList ++ ':' ::
        ((padded 2 (second / 60 % 60)).toList ++ ':' ::
        ((padded 2 (second % 60 + t.nanos / nanosPerSecond)).toList ++
          ((fractionText (t.nanos % nanosPerSecond)).toList ++ ['Z'])))))) := by
  have hdash : "-".toList = ['-'] := rfl
  have hcolon : ":".toList = [':'] := rfl
  have hT : "T".toList = ['T'] := rfl
  have hZ : "Z".toList = ['Z'] := rfl
  simp only [render, String.toList_append, List.append_assoc, hdash, hcolon, hT, hZ,
    List.cons_append, List.nil_append]

theorem after?_self {c : Char} (hc : Text.isWhiteSpace c = false) (cs : List Char) :
    after? c (c :: cs) = some cs := by
  have htrim : Text.trimStart (c :: cs) = c :: cs := List.dropWhile_cons_of_neg (by simp [hc])
  simp only [after?, htrim, if_true]

theorem noDigit_fractionText (nanos : Nat) : NoDigit ((fractionText nanos).toList ++ ['Z']) := by
  unfold fractionText
  have hpoint (places : String) : NoDigit (("." ++ places).toList ++ ['Z']) := by
    rw [toList_point]
    exact noDigit_cons (by decide)
  split
  · rw [String.toList_empty, List.nil_append]
    exact noDigit_cons (by decide)
  · split
    · exact hpoint _
    · split
      · exact hpoint _
      · exact hpoint _

/-- **A time of a year that can be told is read back from how it is written.** -/
theorem parse?_render {t : Timestamp} (hyear : isYear (civilDate t.days).1 = true)
    (hnanos : t.nanos < nanosPerSecond) : parse? t.render = some t := by
  obtain ⟨hmonth₁, hmonth₁₂, hday₁, hday⟩ := civilDate_isDate t.days
  have hday₃₁ : daysIn (civilDate t.days).1 (civilDate t.days).2.1 ≤ 31 := by
    unfold daysIn
    split
    · split <;> decide
    · split <;> decide
  have hnumber := dayNumber_civilDate t.days
  have hdays : t.days = t.seconds / 86400 := Int.fdiv_eq_ediv_of_nonneg _ (by decide)
  generalize hsecond : (t.seconds - t.days * 86400).toNat = second
  have hlow : second < 86400 := by omega
  have hwhole : t.nanos / nanosPerSecond = 0 := Nat.div_eq_of_lt hnanos
  have hpart : t.nanos % nanosPerSecond = t.nanos := Nat.mod_eq_of_lt hnanos
  have hleap : second % 60 ≠ 60 := by omega
  have htime : t.days * 86400 +
      (((second / 3600 : Nat) : Int) * 3600 + ((second / 60 % 60 : Nat) : Int) * 60 +
        ((min (second % 60) 59 : Nat) : Int)) - 0 = t.seconds := by omega
  have hend := noDigit_fractionText t.nanos
  rw [parse?, render_eq]
  simp only [hsecond, hwhole, hpart, Nat.add_zero]
  have hdash (cs : List Char) := after?_self (c := '-') (by decide) cs
  have hcolon (cs : List Char) := after?_self (c := ':') (by decide) cs
  refine Option.bind_eq_some_iff.mpr ⟨_, year?_yearText _ (noDigit_cons (by decide)), ?_⟩
  refine Option.bind_eq_some_iff.mpr ⟨_, hdash _, ?_⟩
  refine Option.bind_eq_some_iff.mpr
    ⟨_, number?_padded (by decide) (by omega) (noDigit_cons (by decide)), ?_⟩
  refine Option.bind_eq_some_iff.mpr ⟨_, hdash _, ?_⟩
  refine Option.bind_eq_some_iff.mpr
    ⟨_, number?_padded (by decide) (by omega) (noDigit_cons (by decide)), ?_⟩
  simp only [true_or, if_true]
  refine Option.bind_eq_some_iff.mpr ⟨_, rfl, ?_⟩
  refine Option.bind_eq_some_iff.mpr
    ⟨_, number?_padded (by decide) (by omega) (noDigit_cons (by decide)), ?_⟩
  refine Option.bind_eq_some_iff.mpr ⟨_, hcolon _, ?_⟩
  refine Option.bind_eq_some_iff.mpr
    ⟨_, number?_padded (by decide) (by omega) (noDigit_cons (by decide)), ?_⟩
  refine Option.bind_eq_some_iff.mpr ⟨_, hcolon _, ?_⟩
  refine Option.bind_eq_some_iff.mpr ⟨_, number?_padded (by decide) (by omega) hend, ?_⟩
  refine Option.bind_eq_some_iff.mpr
    ⟨_, fraction?_fractionText hnanos (noDigit_cons (by decide)) (by decide), ?_⟩
  have hzone : offset? (Text.trimStart ['Z']) = some (0, []) := by decide
  have hnothing : (Text.trimStart []).isEmpty = true := by decide
  have hfits : isYear (civilDate t.days).1 = true ∧ 1 ≤ (civilDate t.days).2.1 ∧
      (civilDate t.days).2.1 ≤ 12 ∧ 1 ≤ (civilDate t.days).2.2 ∧
      (civilDate t.days).2.2 ≤ daysIn (civilDate t.days).1 (civilDate t.days).2.1 ∧
      second / 3600 ≤ 23 ∧ second / 60 % 60 ≤ 59 ∧ second % 60 ≤ 60 :=
    ⟨hyear, hmonth₁, hmonth₁₂, hday₁, hday, by omega, by omega, by omega⟩
  refine Option.bind_eq_some_iff.mpr ⟨_, hzone, ?_⟩
  simp only [hnothing, Bool.not_true, Bool.false_eq_true, if_false]
  rw [if_pos hfits, if_neg hleap, hnumber, htime, if_pos hyear]

end Timestamp

end Plumbline
