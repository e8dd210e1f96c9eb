/-!
# Times in the log

The text of a moment in universal time: `2024-02-29T12:00:00Z`.
-/

namespace ShellGloss.Log

/-- A number with zeros in front, of at least `width` digits. -/
def padded (width n : Nat) : String :=
  let digits := toString n
  String.ofList (List.replicate (width - digits.length) '0') ++ digits

/-- The year, month and day that is `days` days after the first of January 1970.
Years are counted from March, so that a leap day is the last day of its year. -/
def civil (days : Nat) : Nat × Nat × Nat :=
  let d := days + 719468
  let era := d / 146097
  let dayOfEra := d % 146097
  let yearOfEra := (dayOfEra - dayOfEra / 1460 + dayOfEra / 36524 - dayOfEra / 146096) / 365
  let dayOfYear := dayOfEra - (365 * yearOfEra + yearOfEra / 4 - yearOfEra / 100)
  let shifted := (5 * dayOfYear + 2) / 153
  let day := dayOfYear - (153 * shifted + 2) / 5 + 1
  let month := if shifted < 10 then shifted + 3 else shifted - 9
  let year := yearOfEra + era * 400
  (if month ≤ 2 then year + 1 else year, month, day)

/-- The moment that is `seconds` seconds after the beginning of the year 1970. -/
def timeText (seconds : Nat) : String :=
  let (year, month, day) := civil (seconds / 86400)
  let second := seconds % 86400
  padded 4 year ++ "-" ++ padded 2 month ++ "-" ++ padded 2 day ++ "T"
    ++ padded 2 (second / 3600) ++ ":" ++ padded 2 (second / 60 % 60) ++ ":"
    ++ padded 2 (second % 60) ++ "Z"

example : timeText 0 = "1970-01-01T00:00:00Z" := by decide +kernel
example : timeText 1709207999 = "2024-02-29T11:59:59Z" := by decide +kernel
example : timeText 4107542400 = "2100-03-01T00:00:00Z" := by decide +kernel

end ShellGloss.Log
