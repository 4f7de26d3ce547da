/-
  Moments as text: date and time to the second, in universal time.

  Years are counted from March, so that the day that is put in now and then comes last; the months
  from March on then begin `(153 m + 2) / 5` days into the year.
-/

namespace SourceWeb.Moment

def two (n : Nat) : String :=
  (if n < 10 then "0" else "") ++ toString n

def four (n : Nat) : String :=
  String.ofList (List.replicate (4 - (toString n).length) '0') ++ toString n

/-- The year, month and day that lie `days` after the first of January 1970. -/
def dateOf (days : Nat) : Nat × Nat × Nat :=
  let z := days + 719468
  let era := z / 146097
  let dayOfEra := z % 146097
  let yearOfEra := (dayOfEra - dayOfEra / 1460 + dayOfEra / 36524 - dayOfEra / 146096) / 365
  let dayOfYear := dayOfEra - (365 * yearOfEra + yearOfEra / 4 - yearOfEra / 100)
  let m := (5 * dayOfYear + 2) / 153
  let month := if m < 10 then m + 3 else m - 9
  let year := yearOfEra + 400 * era + (if month ≤ 2 then 1 else 0)
  (year, month, dayOfYear - (153 * m + 2) / 5 + 1)

def text (seconds : Nat) : String :=
  let (year, month, day) := dateOf (seconds / 86400)
  let rest := seconds % 86400
  four year ++ "-" ++ two month ++ "-" ++ two day ++ "T" ++ two (rest / 3600) ++ ":" ++
    two (rest / 60 % 60) ++ ":" ++ two (rest % 60) ++ "Z"

end SourceWeb.Moment
