import Floofclaw.Lib.Bytes

/-!
# The civil calendar

Dates of the proleptic Gregorian calendar, counted in days from 1970-01-01, and
the text forms `strftime` gives them.
-/

set_option autoImplicit false

namespace Floofclaw.Lib

structure CivilDate where
  year : Int
  month : Nat
  day : Nat
  deriving DecidableEq, Repr

/-- The date of a day. Years are counted from March, in eras of 400 years. -/
def civilOfDays (days : Int) : CivilDate :=
  let z := days + 719468
  let era := z / 146097
  let doe := (z % 146097).toNat
  let yoe := (doe - doe / 1460 + doe / 36524 - doe / 146096) / 365
  let doy := doe - (365 * yoe + yoe / 4 - yoe / 100)
  let mp := (5 * doy + 2) / 153
  let month := if mp < 10 then mp + 3 else mp - 9
  { year := yoe + era * 400 + if month ≤ 2 then 1 else 0
    month := month
    day := doy - (153 * mp + 2) / 5 + 1 }

/-- `%Y-%m-%d`. -/
def dateText (d : CivilDate) : Bytes :=
  decInt d.year ++ lit "-" ++ decPadded 2 d.month ++ lit "-" ++ decPadded 2 d.day

end Floofclaw.Lib
