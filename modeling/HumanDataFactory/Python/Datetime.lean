import Mathlib.Data.Int.Notation
import Mathlib.Data.Nat.Notation

/-!
# Calendar months

The proleptic Gregorian calendar as `strftime` needs it: the year and month of
an instant given in microseconds since the epoch.
-/

namespace HumanDataFactory
namespace Datetime

def microsPerDay : ℤ := 86400000000

/-- Year and month of a day counted from the epoch.  Years start in March, so
that the leap day comes last. -/
def civil (day : ℤ) : ℤ × ℤ :=
  let z := day + 719468
  let era := z / 146097
  let doe := z % 146097
  let yoe := (doe - doe / 1460 + doe / 36524 - doe / 146096) / 365
  let doy := doe - (365 * yoe + yoe / 4 - yoe / 100)
  let mp := (5 * doy + 2) / 153
  let month := if mp < 10 then mp + 3 else mp - 9
  (yoe + era * 400 + if month ≤ 2 then 1 else 0, month)

/-- `f"{n:0{width}d}"` for a natural number. -/
def zeroPad (width n : ℕ) : String :=
  let digits := toString n
  String.ofList (List.replicate (width - digits.length) '0') ++ digits

/-- `f"{when:%Y%m}"`. -/
def yearMonth (t : ℤ) : String :=
  let (y, m) := civil (t / microsPerDay)
  toString y ++ zeroPad 2 m.toNat

-- 2026-07-08, 2024-02-29 and 1999-12-31
example : yearMonth (20642 * microsPerDay) = "202607" := by decide +kernel
example : yearMonth (19782 * microsPerDay) = "202402" := by decide +kernel
example : yearMonth (10956 * microsPerDay) = "199912" := by decide +kernel

end Datetime
end HumanDataFactory
