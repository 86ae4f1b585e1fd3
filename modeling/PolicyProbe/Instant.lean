/-!
Points in time, as the civil date and the time of day in universal time. An instant inside a leap
second belongs to the second before it and has a fraction of a whole second or more. Instants are
ordered by date, then second, then fraction, so a leap second comes after the second it follows.
-/
namespace PolicyProbe

/-- Whether a year has a twenty-ninth of February. -/
def isLeapYear (year : Int) : Bool :=
  year % 4 == 0 && (year % 100 != 0 || year % 400 == 0)

/-- The number of days of a month. -/
def daysIn (year : Int) (month : Nat) : Nat :=
  if month = 2 then (if isLeapYear year then 29 else 28)
  else if month = 4 ∨ month = 6 ∨ month = 9 ∨ month = 11 then 30 else 31

/-- The first and the last year that have dates. -/
def firstYear : Int := -262143

def lastYear : Int := 262142

/-- Whether a date exists. -/
def Date.Valid (year : Int) (month day : Nat) : Prop :=
  firstYear ≤ year ∧ year ≤ lastYear ∧ 1 ≤ month ∧ month ≤ 12 ∧ 1 ≤ day ∧ day ≤ daysIn year month

instance (year : Int) (month day : Nat) : Decidable (Date.Valid year month day) :=
  inferInstanceAs (Decidable (_ ∧ _))

/-- A day of the civil calendar. -/
structure Date where
  year : Int
  month : Nat
  day : Nat
  valid : Date.Valid year month day
  deriving DecidableEq

namespace Date

/-- The date, if it exists. -/
def mk? (year : Int) (month day : Nat) : Option Date :=
  if h : Valid year month day then some ⟨year, month, day, h⟩ else none

/-- The day after. -/
def next? (d : Date) : Option Date :=
  if d.day < daysIn d.year d.month then mk? d.year d.month (d.day + 1)
  else if d.month < 12 then mk? d.year (d.month + 1) 1
  else mk? (d.year + 1) 1 1

/-- The day before. -/
def previous? (d : Date) : Option Date :=
  if 1 < d.day then mk? d.year d.month (d.day - 1)
  else if 1 < d.month then mk? d.year (d.month - 1) (daysIn d.year (d.month - 1))
  else mk? (d.year - 1) 12 31

/-- Whether one day comes before another. -/
def before (a b : Date) : Bool :=
  a.year < b.year || (a.year == b.year &&
    (a.month < b.month || (a.month == b.month && a.day < b.day)))

end Date

/-- The number of nanoseconds of a second. -/
def secondNanos : Nat := 1000000000

/-- The number of seconds of a day. -/
def daySeconds : Nat := 86400

/-- Whether a second of the day and its fraction exist; a second may be a leap second when it is the
last of its minute. -/
def Instant.Valid (second nanos : Nat) : Prop :=
  second < daySeconds ∧ nanos < 2 * secondNanos ∧ (secondNanos ≤ nanos → second % 60 = 59)

instance (second nanos : Nat) : Decidable (Instant.Valid second nanos) :=
  inferInstanceAs (Decidable (_ ∧ _))

/-- A point in time. -/
structure Instant where
  date : Date
  second : Nat
  nanos : Nat
  valid : Instant.Valid second nanos
  deriving DecidableEq

namespace Instant

/-- The instant, if it exists. -/
def mk? (date : Date) (second nanos : Nat) : Option Instant :=
  if h : Valid second nanos then some ⟨date, second, nanos, h⟩ else none

/-- Whether one instant comes before another. -/
def before (a b : Instant) : Bool :=
  a.date.before b.date || (a.date == b.date &&
    (a.second < b.second || (a.second == b.second && a.nanos < b.nanos)))

/-- Whether one instant does not come after another. -/
def notAfter (a b : Instant) : Bool := !b.before a

/-- The instant whose clock, ahead of universal time by `minutes` of less than a day, shows the
given date and time. -/
def ofLocal? (date : Date) (second nanos : Nat) (minutes : Int) : Option Instant := do
  let s : Int := (second : Int) - minutes * 60
  let date ←
    if s < 0 then date.previous? else if (daySeconds : Int) ≤ s then date.next? else some date
  mk? date (s % (daySeconds : Int)).toNat nanos

/-- The same instant cut down to a whole multiple of `unit` nanoseconds. -/
def cutTo (unit : Nat) (t : Instant) : Instant :=
  { t with
    nanos := t.nanos / unit * unit
    valid := by
      obtain ⟨hs, hn, hl⟩ := t.valid
      have hle : t.nanos / unit * unit ≤ t.nanos := Nat.div_mul_le_self _ _
      exact ⟨hs, by omega, fun h => hl (by omega)⟩ }

end Instant

end PolicyProbe
