import CanScript.Number.Digits

/-! # Stamps

    The time of day and the names of runs, as they stand in records. -/

namespace CanScript.CommandLine

def paddedDigits (width n : Nat) : String :=
  let digits := Nat.toDigits 10 n
  String.ofList (List.replicate (width - digits.length) '0' ++ digits)

/-- A day of the calendar. -/
structure Day where
  year : Nat
  month : Nat
  day : Nat
  deriving DecidableEq, Repr

/-- The day that is a number of days after the first of January 1970.  The years are counted from
    the first of March, so that a leap day is the last day of a year; a cycle of 400 years has
    146097 days. -/
def Day.ofEpoch (days : Nat) : Day :=
  let shifted := days + 719468
  let era := shifted / 146097
  let dayOfEra := shifted % 146097
  let yearOfEra :=
    (dayOfEra - dayOfEra / 1460 + dayOfEra / 36524 - dayOfEra / 146096) / 365
  let dayOfYear := dayOfEra - (365 * yearOfEra + yearOfEra / 4 - yearOfEra / 100)
  let monthFromMarch := (5 * dayOfYear + 2) / 153
  let day := dayOfYear - (153 * monthFromMarch + 2) / 5 + 1
  let month := if monthFromMarch < 10 then monthFromMarch + 3 else monthFromMarch - 9
  let year := yearOfEra + era * 400
  ⟨if month ≤ 2 then year + 1 else year, month, day⟩

def fractionText (nanos : Nat) : String :=
  if nanos = 0 then ""
  else if nanos % 1000000 = 0 then "." ++ paddedDigits 3 (nanos / 1000000)
  else if nanos % 1000 = 0 then "." ++ paddedDigits 6 (nanos / 1000)
  else "." ++ paddedDigits 9 nanos

def timeText (nanos : Nat) : String :=
  let seconds := nanos / 1000000000
  let d := Day.ofEpoch (seconds / 86400)
  let s := seconds % 86400
  s!"{paddedDigits 4 d.year}-{paddedDigits 2 d.month}-{paddedDigits 2 d.day}"
    ++ s!"T{paddedDigits 2 (s / 3600)}:{paddedDigits 2 (s / 60 % 60)}:{paddedDigits 2 (s % 60)}"
    ++ fractionText (nanos % 1000000000) ++ "Z"

def runNameText (n : Nat) : String :=
  let digits := (Number.paddedHex 32 (n % Number.pow2 128)).map Char.toLower
  let digits := (digits.set 12 '4').set 16 ("89ab".toList.getD (n % 4) '8')
  let group (first len : Nat) := String.ofList ((digits.drop first).take len)
  "-".intercalate [group 0 8, group 8 4, group 12 4, group 16 4, group 20 12]

end CanScript.CommandLine
