/-!
# Timestamps

The date and time of a moment that is given in seconds since the start of 1970, in universal time.
-/

namespace TxLifecycle.Timestamp

/-- Year, month and day of a day that is counted from the start of 1970. Years are counted from the
first of March, so that the leap day comes last, in eras of four hundred years. -/
def civil (day : Nat) : Nat × Nat × Nat :=
  let shifted := day + 719468
  let era := shifted / 146097
  let inEra := shifted % 146097
  let yearOfEra := (inEra - inEra / 1460 + inEra / 36524 - inEra / 146096) / 365
  let dayOfYear := inEra - (365 * yearOfEra + yearOfEra / 4 - yearOfEra / 100)
  let fromMarch := (5 * dayOfYear + 2) / 153
  let dayOfMonth := dayOfYear - (153 * fromMarch + 2) / 5 + 1
  let month := if fromMarch < 10 then fromMarch + 3 else fromMarch - 9
  (yearOfEra + era * 400 + (if month ≤ 2 then 1 else 0), month, dayOfMonth)

def padded (width n : Nat) : String :=
  let text := toString n
  String.ofList (List.replicate (width - text.length) '0') ++ text

def render (seconds : Nat) : String :=
  let (year, month, day) := civil (seconds / 86400)
  let time := seconds % 86400
  let date := "-".intercalate [padded 4 year, padded 2 month, padded 2 day]
  let clock := ":".intercalate
    [padded 2 (time / 3600), padded 2 (time / 60 % 60), padded 2 (time % 60)]
  date ++ " " ++ clock ++ " UTC"

end TxLifecycle.Timestamp
