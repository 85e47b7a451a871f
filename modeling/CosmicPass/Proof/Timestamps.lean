import CosmicPass.Library.Calendar
import CosmicPass.Model
import Mathlib.Tactic.IntervalCases

/-!
# Edit times are exact and in order

The day count is a closed formula over years that start in March. It grows by one from each calendar day
to the next, and with that alone it counts the days, before 1970 too. The digits of a time are read back
as they were written, so different seconds have different values.
-/

namespace CosmicPass

open Calendar

/-! ### The day count -/

section Days

/-- The days that leap years add up to a year. -/
def leapDays (year : Int) : Int := year / 4 - year / 100 + year / 400

theorem leapDays_eq (year : Int) :
    leapDays year = leapDays (year - 1) + if IsLeap year then 1 else 0 := by
  unfold leapDays
  by_cases hleap : IsLeap year
  · rw [if_pos hleap]
    unfold IsLeap at hleap
    omega
  · rw [if_neg hleap]
    unfold IsLeap at hleap
    omega

theorem daysFromCivil_of_le_two {m : Int} (y d : Int) (h : m ≤ 2) :
    daysFromCivil y m d =
      365 * (y - 1) + leapDays (y - 1) + (153 * ((m + 9) % 12) + 2) / 5 + d - 719469 := by
  unfold daysFromCivil leapDays
  rw [if_pos h]
  dsimp only
  omega

theorem daysFromCivil_of_two_lt {m : Int} (y d : Int) (h : 2 < m) :
    daysFromCivil y m d =
      365 * y + leapDays y + (153 * ((m + 9) % 12) + 2) / 5 + d - 719469 := by
  unfold daysFromCivil leapDays
  rw [if_neg (by omega)]
  dsimp only
  omega

theorem daysFromCivil_add_one (y m d : Int) : daysFromCivil y m (d + 1) = daysFromCivil y m d + 1 := by
  unfold daysFromCivil
  dsimp only
  omega

/-- From the last day of a month to the first of the next: February ends one year of the count. -/
theorem daysFromCivil_succ_month (y : Int) {m : Nat} (hm : 1 ≤ m) (hlt : m < 12) :
    daysFromCivil y (m + 1 : Nat) 1 = daysFromCivil y m (daysInMonth y m) + 1 := by
  by_cases hfebruary : m = 2
  · subst hfebruary
    have hleap := leapDays_eq y
    rw [daysFromCivil_of_two_lt y 1 (by decide), daysFromCivil_of_le_two y _ (by decide), daysInMonth]
    by_cases hyear : IsLeap y
    · rw [if_pos hyear] at hleap ⊢
      omega
    · rw [if_neg hyear] at hleap ⊢
      omega
  · by_cases hjanuary : m = 1
    · subst hjanuary
      have hdays : daysInMonth y 1 = 31 := rfl
      rw [daysFromCivil_of_le_two y 1 (by decide), daysFromCivil_of_le_two y _ (by decide), hdays]
      omega
    · rw [daysFromCivil_of_two_lt y 1 (by omega), daysFromCivil_of_two_lt y _ (by omega)]
      interval_cases m <;> simp [daysInMonth] <;> omega

theorem daysFromCivil_succ_year (y : Int) :
    daysFromCivil (y + 1) 1 1 = daysFromCivil y 12 31 + 1 := by
  rw [daysFromCivil_of_le_two (y + 1) 1 (by decide), daysFromCivil_of_two_lt y 31 (by decide),
    add_sub_cancel_right]
  omega

def civilDays (d : Date) : Int := daysFromCivil d.year d.month d.day

theorem civilDays_next (d : Date) : civilDays d.next = civilDays d + 1 := by
  have hm := d.one_le_month
  unfold civilDays
  obtain ⟨-, hyear, hmonth, hday⟩ | ⟨hlast, hlt, hyear, hmonth, hday⟩ |
    ⟨hlast, hdecember, hyear, hmonth, hday⟩ := d.next_cases
  · rw [hyear, hmonth, hday, Nat.cast_add_one, daysFromCivil_add_one]
  · rw [hyear, hmonth, hday, hlast]
    exact daysFromCivil_succ_month d.year hm hlt
  · rw [hyear, hmonth, hday, hlast, hdecember]
    exact daysFromCivil_succ_year d.year

/-- The day that Unix time starts on. -/
def epoch : Date := .newYear 1970

end Days

/-! ### The digits of a time -/

section Digits

variable {width n : Nat}

/-- The last `width` decimal digits of a number. -/
def padded : Nat → Nat → List Char
  | 0, _ => []
  | width + 1, n => padded width (n / 10) ++ [Nat.digitChar (n % 10)]

def paddedBytes : Nat → Nat → List UInt8
  | 0, _ => []
  | width + 1, n => paddedBytes width (n / 10) ++ [UInt8.ofNat (0x30 + n % 10)]

theorem utf8EncodeChar_digitChar {d : Nat} (h : d < 10) :
    String.utf8EncodeChar (Nat.digitChar d) = [UInt8.ofNat (0x30 + d)] := by
  interval_cases d <;> rfl

theorem flatMap_padded : (padded width n).flatMap String.utf8EncodeChar = paddedBytes width n := by
  induction width generalizing n with
  | zero => rfl
  | succ width ih =>
      have hdigit : n % 10 < 10 := Nat.mod_lt _ (by decide)
      rw [padded, paddedBytes, List.flatMap_append, ih, List.flatMap_singleton,
        utf8EncodeChar_digitChar hdigit]

theorem mem_paddedBytes {b : UInt8} (h : b ∈ paddedBytes width n) : 0x30 ≤ b ∧ b ≤ 0x39 := by
  induction width generalizing n with
  | zero => cases h
  | succ width ih =>
      rw [paddedBytes, List.mem_append, List.mem_singleton] at h
      cases h with
      | inl hleft => exact ih hleft
      | inr hlast =>
          have hdigit : n % 10 < 10 := Nat.mod_lt _ (by decide)
          subst hlast
          generalize n % 10 = d at hdigit
          interval_cases d <;> decide

theorem length_paddedBytes : (paddedBytes width n).length = width := by
  induction width generalizing n with
  | zero => rfl
  | succ width ih => rw [paddedBytes, List.length_append, ih, List.length_singleton]

theorem foldl_paddedBytes (h : n < 10 ^ width) :
    (paddedBytes width n).foldl (fun (value : Int) b => value * 10 + (b.toNat - 0x30 : Nat)) 0 = n := by
  induction width generalizing n with
  | zero =>
      rw [pow_zero] at h
      obtain rfl : n = 0 := by omega
      rfl
  | succ width ih =>
      have hdigit : n % 10 < 10 := Nat.mod_lt _ (by decide)
      have hbyte : (UInt8.ofNat (0x30 + n % 10)).toNat = 0x30 + n % 10 := by
        rw [UInt8.toNat_ofNat']
        omega
      have hleft : n / 10 < 10 ^ width := by
        rw [pow_succ] at h
        omega
      rw [paddedBytes, List.foldl_append, ih hleft, List.foldl_cons, List.foldl_nil, hbyte]
      omega

theorem parseInt_paddedBytes (hwidth : 0 < width) (h : n < 10 ^ width) :
    parseInt (paddedBytes width n) = some (n : Int) := by
  have hdigits : parseDigits (paddedBytes width n) = some (n : Int) := by
    have hne : paddedBytes width n ≠ [] := by
      cases width with
      | zero => cases hwidth
      | succ width => simp [paddedBytes]
    have hall : (paddedBytes width n).all fun b => 0x30 ≤ b ∧ b ≤ 0x39 :=
      List.all_eq_true.mpr fun b hmem => decide_eq_true (mem_paddedBytes hmem)
    rw [parseDigits, if_pos ⟨hne, hall⟩, foldl_paddedBytes h]
  have hno : ∀ sign rest, paddedBytes width n = sign :: rest → 0x30 ≤ sign := by
    intro sign rest heq
    exact (mem_paddedBytes (heq ▸ List.mem_cons_self)).1
  unfold parseInt
  split
  next heq => exact absurd (hno _ _ heq) (by decide)
  next heq => exact absurd (hno _ _ heq) (by decide)
  next => exact hdigits

end Digits

/-! ### Moments -/

/-- A second of a day in a year of four digits. -/
structure Moment where
  date : Date
  hour : Nat
  minute : Nat
  second : Nat
  zero_le_year : 0 ≤ date.year
  year_le : date.year ≤ 9999
  hour_lt : hour < 24
  minute_lt : minute < 60
  second_lt : second < 60

namespace Moment

/-- `YYYY-MM-DDTHH:MM:SS`. -/
def text (t : Moment) : List Char :=
  padded 4 t.date.year.toNat ++ '-' :: (padded 2 t.date.month ++ '-' :: (padded 2 t.date.day ++
    'T' :: (padded 2 t.hour ++ ':' :: (padded 2 t.minute ++ ':' :: padded 2 t.second))))

def secondOfDay (t : Moment) : Nat := t.hour * 3600 + t.minute * 60 + t.second

/-- The order of moments: by date, then by hour, minute and second. -/
def Before (t u : Moment) : Prop :=
  t.date.Before u.date ∨ t.date = u.date ∧
    (t.hour < u.hour ∨ t.hour = u.hour ∧
      (t.minute < u.minute ∨ t.minute = u.minute ∧ t.second < u.second))

end Moment

theorem flatMap_text (t : Moment) (suffix : List Char) :
    (String.ofList (t.text ++ suffix)).toList.flatMap String.utf8EncodeChar =
      paddedBytes 4 t.date.year.toNat ++ 0x2D :: (paddedBytes 2 t.date.month ++ 0x2D ::
        (paddedBytes 2 t.date.day ++ 0x54 :: (paddedBytes 2 t.hour ++ 0x3A ::
          (paddedBytes 2 t.minute ++ 0x3A :: (paddedBytes 2 t.second ++
            suffix.flatMap String.utf8EncodeChar))))) := by
  simp only [String.toList_ofList, Moment.text, List.append_assoc, List.cons_append,
    List.flatMap_append, List.flatMap_cons, flatMap_padded]
  rfl

/-- The layout that the parser reads: six numbers at their places, and any rest. -/
theorem parseTimestamp_of_layout {text : String} {y m d hh mm ss rest : List UInt8}
    {year month day hour minute second : Int}
    (htext : text.toList.flatMap String.utf8EncodeChar =
      y ++ 0x2D :: (m ++ 0x2D :: (d ++ 0x54 :: (hh ++ 0x3A :: (mm ++ 0x3A :: (ss ++ rest))))))
    (hy : y.length = 4 ∧ parseInt y = some year) (hm : m.length = 2 ∧ parseInt m = some month)
    (hd : d.length = 2 ∧ parseInt d = some day) (hhh : hh.length = 2 ∧ parseInt hh = some hour)
    (hmm : mm.length = 2 ∧ parseInt mm = some minute)
    (hss : ss.length = 2 ∧ parseInt ss = some second) (hmonth : 1 ≤ month ∧ month ≤ 12)
    (hday : 1 ≤ day ∧ day ≤ 31) (htime : hour ≤ 23 ∧ minute ≤ 59 ∧ second ≤ 60) :
    parseTimestamp text =
      some (daysFromCivil year month day * 86400 + hour * 3600 + minute * 60 + second) := by
  obtain ⟨y₀, y₁, y₂, y₃, rfl⟩ := List.length_eq_four.mp hy.1
  obtain ⟨m₀, m₁, rfl⟩ := List.length_eq_two.mp hm.1
  obtain ⟨d₀, d₁, rfl⟩ := List.length_eq_two.mp hd.1
  obtain ⟨hh₀, hh₁, rfl⟩ := List.length_eq_two.mp hhh.1
  obtain ⟨mm₀, mm₁, rfl⟩ := List.length_eq_two.mp hmm.1
  obtain ⟨ss₀, ss₁, rfl⟩ := List.length_eq_two.mp hss.1
  unfold parseTimestamp
  rw [htext]
  simp [hy.2, hm.2, hd.2, hhh.2, hmm.2, hss.2]
  exact ⟨hmonth, hday, htime⟩

theorem parseTimestamp_text (t : Moment) (suffix : List Char) :
    parseTimestamp (String.ofList (t.text ++ suffix)) =
      some (civilDays t.date * 86400 + t.secondOfDay) := by
  have hmonth : 1 ≤ t.date.month ∧ t.date.month ≤ 12 := ⟨t.date.one_le_month, t.date.month_le⟩
  have hday : 1 ≤ t.date.day ∧ t.date.day ≤ 31 :=
    ⟨t.date.one_le_day, t.date.day_le.trans (daysInMonth_le _ _)⟩
  have htime := And.intro t.hour_lt (And.intro t.minute_lt t.second_lt)
  have hyear := t.year_le
  have hyears : (t.date.year.toNat : Int) = t.date.year := Int.toNat_of_nonneg t.zero_le_year
  have hnumber : ∀ {width n : Nat}, 0 < width → n < 10 ^ width →
      (paddedBytes width n).length = width ∧ parseInt (paddedBytes width n) = some (n : Int) :=
    fun hwidth hn => ⟨length_paddedBytes, parseInt_paddedBytes hwidth hn⟩
  rw [parseTimestamp_of_layout (flatMap_text t suffix) (hnumber (by decide) (by omega))
    (hnumber (by decide) (by omega)) (hnumber (by decide) (by omega))
    (hnumber (by decide) (by omega)) (hnumber (by decide) (by omega))
    (hnumber (by decide) (by omega)) (by omega) (by omega) (by omega), hyears, civilDays,
    Moment.secondOfDay]
  congr 1
  push_cast
  omega

/-! ### The order of moments -/

section Order

variable {t u : Moment}

theorem eq_of_not_before (htu : ¬ t.Before u) (hut : ¬ u.Before t) : t = u := by
  unfold Moment.Before at htu hut
  obtain hbefore | hdate | hafter := Date.before_trichotomy t.date u.date
  · exact absurd (Or.inl hbefore) htu
  · have hfields : t.hour = u.hour ∧ t.minute = u.minute ∧ t.second = u.second := by
      simp only [hdate, true_and, not_or] at htu hut
      omega
    cases t
    cases u
    obtain ⟨hhour, hminute, hsecond⟩ := hfields
    cases hdate
    cases hhour
    cases hminute
    cases hsecond
    rfl
  · exact absurd (Or.inl hafter) hut

theorem seconds_lt_of_before (h : t.Before u) :
    civilDays t.date * 86400 + t.secondOfDay < civilDays u.date * 86400 + u.secondOfDay := by
  have ht := t.minute_lt
  have ht' := t.second_lt
  have hhour := t.hour_lt
  unfold Moment.secondOfDay
  cases h with
  | inl hdate =>
      have hdays := count_lt_of_before civilDays_next hdate
      omega
  | inr hday =>
      obtain ⟨hdate, htime⟩ := hday
      rw [hdate]
      omega

/-- **Edit times are read exactly, in the order of the moments they name.** -/
theorem timestamps_count_seconds :
    (∀ d : Date, daysFromCivil d.next.year d.next.month d.next.day =
      daysFromCivil d.year d.month d.day + 1) ∧
    (∀ (t : Moment) (suffix : List Char), ∃ days, DaysFrom epoch t.date days ∧
      parseTimestamp (String.ofList (t.text ++ suffix)) =
        some (days * 86400 + t.hour * 3600 + t.minute * 60 + t.second)) ∧
    (∀ (t u : Moment) (left right : List Char), t.Before u →
      ∃ earlier later, parseTimestamp (String.ofList (t.text ++ left)) = some earlier ∧
        parseTimestamp (String.ofList (u.text ++ right)) = some later ∧ earlier < later) ∧
    ∀ (t u : Moment) (left right : List Char),
      parseTimestamp (String.ofList (t.text ++ left)) =
        parseTimestamp (String.ofList (u.text ++ right)) → t = u := by
  refine ⟨civilDays_next, fun t suffix => ?_, fun t u left right h => ?_,
    fun t u left right h => ?_⟩
  · refine ⟨civilDays t.date, daysFrom_count civilDays_next (by decide) t.date, ?_⟩
    rw [parseTimestamp_text, Moment.secondOfDay]
    congr 1
    push_cast
    omega
  · exact ⟨_, _, parseTimestamp_text t left, parseTimestamp_text u right, seconds_lt_of_before h⟩
  · rw [parseTimestamp_text, parseTimestamp_text, Option.some.injEq] at h
    apply eq_of_not_before
    · intro hbefore
      exact (seconds_lt_of_before hbefore).ne h
    · intro hafter
      exact (seconds_lt_of_before hafter).ne h.symm

end Order

end CosmicPass
