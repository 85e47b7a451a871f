import Mathlib.Algebra.Order.Group.Int
import Mathlib.Logic.Function.Iterate

/-!
# The proleptic Gregorian calendar, day by day

A date is followed by the next one as on a wall calendar. A number given to every date that grows by one
from each date to the next counts the days, so it orders the dates and tells them apart.
-/

namespace Calendar

def IsLeap (year : Int) : Prop := year % 4 = 0 ∧ (year % 100 ≠ 0 ∨ year % 400 = 0)

instance decidableIsLeap (year : Int) : Decidable (IsLeap year) :=
  inferInstanceAs (Decidable (_ ∧ _))

def daysInMonth (year : Int) : Nat → Nat
  | 2 => if IsLeap year then 29 else 28
  | 4 | 6 | 9 | 11 => 30
  | _ => 31

theorem daysInMonth_pos (year : Int) (month : Nat) : 1 ≤ daysInMonth year month := by
  unfold daysInMonth
  split <;> try split
  all_goals omega

theorem daysInMonth_le (year : Int) (month : Nat) : daysInMonth year month ≤ 31 := by
  unfold daysInMonth
  split <;> try split
  all_goals omega

structure Date where
  year : Int
  month : Nat
  day : Nat
  one_le_month : 1 ≤ month
  month_le : month ≤ 12
  one_le_day : 1 ≤ day
  day_le : day ≤ daysInMonth year month
deriving DecidableEq

namespace Date

variable {d e : Date}

/-- The first day of the year. -/
def newYear (year : Int) : Date :=
  { year, month := 1, day := 1, one_le_month := le_rfl, month_le := by decide
    one_le_day := le_rfl, day_le := daysInMonth_pos _ _ }

/-- The following day. -/
def next (d : Date) : Date :=
  if hday : d.day < daysInMonth d.year d.month then
    { d with day := d.day + 1, one_le_day := Nat.succ_pos _, day_le := hday }
  else if hmonth : d.month < 12 then
    { year := d.year, month := d.month + 1, day := 1, one_le_month := Nat.succ_pos _
      month_le := hmonth, one_le_day := le_rfl, day_le := daysInMonth_pos _ _ }
  else
    { year := d.year + 1, month := 1, day := 1, one_le_month := le_rfl, month_le := by decide
      one_le_day := le_rfl, day_le := daysInMonth_pos _ _ }

/-- Everything the step to the next day can do: within a month, into the next one, into the next
year. -/
theorem next_cases (d : Date) :
    (d.day < daysInMonth d.year d.month ∧ d.next.year = d.year ∧ d.next.month = d.month ∧
      d.next.day = d.day + 1) ∨
    (d.day = daysInMonth d.year d.month ∧ d.month < 12 ∧ d.next.year = d.year ∧
      d.next.month = d.month + 1 ∧ d.next.day = 1) ∨
    (d.day = daysInMonth d.year d.month ∧ d.month = 12 ∧ d.next.year = d.year + 1 ∧
      d.next.month = 1 ∧ d.next.day = 1) := by
  have hday := d.day_le
  have hmonth := d.month_le
  unfold next
  split
  next hlt => exact Or.inl ⟨hlt, rfl, rfl, rfl⟩
  next hlast =>
    have heq : d.day = daysInMonth d.year d.month := by omega
    split
    next hlt => exact Or.inr (Or.inl ⟨heq, hlt, rfl, rfl, rfl⟩)
    next hdecember =>
      have htwelve : d.month = 12 := by omega
      exact Or.inr (Or.inr ⟨heq, htwelve, rfl, rfl, rfl⟩)

/-- The order of dates: by year, then by month, then by day. -/
def Before (d e : Date) : Prop :=
  d.year < e.year ∨ d.year = e.year ∧ (d.month < e.month ∨ d.month = e.month ∧ d.day < e.day)

theorem eq_of_fields (hyear : d.year = e.year) (hmonth : d.month = e.month) (hday : d.day = e.day) :
    d = e := by
  cases d
  cases e
  cases hyear
  cases hmonth
  cases hday
  rfl

theorem before_trichotomy (d e : Date) : d.Before e ∨ d = e ∨ e.Before d := by
  by_cases hyear : d.year = e.year
  · by_cases hmonth : d.month = e.month
    · by_cases hday : d.day = e.day
      · exact Or.inr (Or.inl (eq_of_fields hyear hmonth hday))
      · unfold Before
        omega
    · unfold Before
      omega
  · unfold Before
    omega

/-- No date lies between a date and the next one. -/
theorem next_before_or_eq (h : d.Before e) : d.next.Before e ∨ d.next = e := by
  have hmonth := e.one_le_month
  have hmonthLe := e.month_le
  have hday := e.one_le_day
  cases before_trichotomy d.next e with
  | inl hbefore => exact Or.inl hbefore
  | inr hrest =>
      refine Or.inr (hrest.resolve_right fun hafter => ?_)
      unfold Before at h hafter
      have hlast : e.year = d.year → e.month = d.month → e.day ≤ daysInMonth d.year d.month := by
        intro hyear hmonth
        rw [← hyear, ← hmonth]
        exact e.day_le
      obtain hcase | hcase | hcase := next_cases d <;> omega

/-- A place for every date that may lie further apart than the days do. -/
def place (d : Date) : Int := (d.year * 12 + d.month) * 31 + d.day

theorem place_lt_of_before (h : d.Before e) : d.place < e.place := by
  have hd := d.day_le.trans (daysInMonth_le _ _)
  have he := e.one_le_day
  have hdMonth := d.month_le
  have heMonth := e.one_le_month
  unfold Before at h
  unfold place
  omega

theorem place_lt_next (d : Date) : d.place < d.next.place := by
  apply place_lt_of_before
  unfold Before
  obtain hcase | hcase | hcase := next_cases d <;> omega

/-- A later date is reached day by day. -/
theorem exists_iterate_of_before (h : d.Before e) : ∃ k : Nat, next^[k + 1] d = e := by
  induction hgap : (e.place - d.place).toNat using Nat.strong_induction_on generalizing d with
  | _ gap ih =>
      cases next_before_or_eq h with
      | inl hbefore =>
          have hstep := place_lt_next d
          have hlt := place_lt_of_before hbefore
          obtain ⟨k, hk⟩ := ih (e.place - d.next.place).toNat (by omega) hbefore rfl
          exact ⟨k + 1, by rw [Function.iterate_succ_apply, hk]⟩
      | inr heq => exact ⟨0, heq⟩

end Date

/-! ### Counting the days -/

section Count

variable {count : Date → Int} {d e origin : Date}

/-- `date` is `n` days after `origin`, day by day, and before it where `n` is negative. -/
def DaysFrom (origin date : Date) (n : Int) : Prop :=
  ∃ k : Nat, (n = k ∧ Date.next^[k] origin = date) ∨ (n = -k ∧ Date.next^[k] date = origin)

theorem count_iterate (hstep : ∀ d, count d.next = count d + 1) (k : Nat) (d : Date) :
    count (Date.next^[k] d) = count d + k := by
  induction k generalizing d with
  | zero => simp
  | succ k ih =>
      rw [Function.iterate_succ_apply, ih, hstep]
      omega

theorem count_lt_of_before (hstep : ∀ d, count d.next = count d + 1) (h : d.Before e) :
    count d < count e := by
  obtain ⟨k, rfl⟩ := Date.exists_iterate_of_before h
  rw [count_iterate hstep]
  omega

theorem daysFrom_count (hstep : ∀ d, count d.next = count d + 1) (horigin : count origin = 0)
    (d : Date) : DaysFrom origin d (count d) := by
  obtain hbefore | rfl | hafter := Date.before_trichotomy origin d
  · obtain ⟨k, rfl⟩ := Date.exists_iterate_of_before hbefore
    refine ⟨k + 1, Or.inl ⟨?_, rfl⟩⟩
    rw [count_iterate hstep, horigin, zero_add]
  · exact ⟨0, Or.inl ⟨horigin, rfl⟩⟩
  · obtain ⟨k, rfl⟩ := Date.exists_iterate_of_before hafter
    refine ⟨k + 1, Or.inr ⟨?_, rfl⟩⟩
    rw [count_iterate hstep] at horigin
    omega

end Count

end Calendar
