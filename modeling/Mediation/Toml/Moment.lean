import Mediation.Toml.Radix

/-! Dates and times: a date, a time of day, or both with or without a shift from universal time. The
pieces have to be there first, then to have the right number of digits, then to be in range. -/

namespace Mediation

namespace Toml

namespace Moment

/-- The pieces of a date and a time that are written with digits. -/
inductive Part where
  | year
  | month
  | day
  | hour
  | minute
  | second
  | fraction
  | shiftHour
  | shiftMinute
  deriving DecidableEq, Repr

namespace Part

def whole : Part → String
  | year | month | day => "date"
  | hour | minute | second | fraction => "time"
  | shiftHour | shiftMinute => "offset"

def name : Part → String
  | year => "year"
  | month => "month"
  | day => "day"
  | hour | shiftHour => "hour"
  | minute | shiftMinute => "minute"
  | second => "second"
  | fraction => "nanosecond"

/-- The piece as the digits of a pattern. -/
def pattern : Part → String
  | year => "YYYY"
  | month | minute | shiftMinute => "MM"
  | day => "DD"
  | hour | shiftHour => "HH"
  | second => "SS"
  | fraction => ""

/-- What messages about the range call the piece. -/
def rangeName (part : Part) : String :=
  match part with
  | shiftHour | shiftMinute => part.name ++ "s"
  | _ => part.name

end Part

/-- What is wrong with a date or a time. -/
inductive Fault where
  /-- There is no digit to start with. -/
  | unstarted
  /-- Neither a date nor a time goes on after the first digits. -/
  | undecided
  | missing (part : Part)
  /-- The mark between two pieces is missing, the second of which is given. -/
  | unjoined (part : Part)
  /-- Something else than a time comes after a date. -/
  | noTime
  /-- Something else than a shift comes after a date and a time. -/
  | noShift
  | width (part : Part)
  | range (part : Part) (least greatest : Nat)
  | trailing
  deriving DecidableEq, Repr

namespace Fault

def twoDigits (n : Nat) : String := if n < 10 then "0" ++ toString n else toString n

def message : Fault → String
  | unstarted => "invalid datetime, expected year or hour"
  | undecided => "invalid datetime, expected `-` (YYYY-MM) or `:` (HH:MM)"
  | missing part => "invalid " ++ part.whole ++ ", expected " ++ part.name
  | unjoined .day => "invalid date, expected `-` (MM-DD)"
  | unjoined part => "invalid " ++ part.whole ++ ", expected `:` (HH:MM)"
  | noTime => "invalid date-time, expected `T` between date and time"
  | noShift => "invalid offset, expected `Z`, +OFFSET, -OFFSET"
  | width part =>
      "invalid " ++ part.whole ++ ", expected a " ++ (if part = .year then "four" else "two") ++
        "-digit " ++ part.name ++ " (" ++ part.pattern ++ ")"
  | range part least greatest =>
      "invalid " ++ part.whole ++ ", expected " ++ part.rangeName ++ " between " ++
        twoDigits least ++ " and " ++ twoDigits greatest
  | trailing => "invalid datetime"

end Fault

abbrev Reader (α : Type) : Type := StateT (List Char) (Except Fault) α

def digits (part : Part) : Reader (List Char) := do
  let chars ← get
  let found := chars.takeWhile Char.isDigit
  if found.isEmpty then throw (.missing part)
  set (chars.dropWhile Char.isDigit)
  return found

/-- Passes over one of several characters, if one of them comes next. -/
def accept (marks : List Char) : Reader Bool := do
  match ← get with
  | [] => return false
  | c :: rest =>
      if marks.contains c then do
        set rest
        return true
      else return false

def join (mark : Char) (part : Part) : Reader Unit := do
  unless ← accept [mark] do
    throw (.unjoined part)

/-- A piece has as many digits as it should have. -/
def sized (part : Part) (digits : List Char) : Reader Unit :=
  unless digits.length = part.pattern.length do
    throw (.width part)

def ranged (part : Part) (least greatest : Nat) (digits : List Char) : Reader Unit :=
  unless least ≤ numberOf 10 digits ∧ numberOf 10 digits ≤ greatest do
    throw (.range part least greatest)

def daysIn (year month : Nat) : Nat :=
  if month = 2 then if year % 4 = 0 ∧ (year % 100 ≠ 0 ∨ year % 400 = 0) then 29 else 28
  else if month = 4 ∨ month = 6 ∨ month = 9 ∨ month = 11 then 30
  else 31

/-- The rest of a date after its year and the dash behind it. -/
def date (year : List Char) : Reader Unit := do
  let month ← digits .month
  join '-' .day
  let day ← digits .day
  sized .year year
  sized .month month
  sized .day day
  ranged .month 1 12 month
  ranged .day 1 (daysIn (numberOf 10 year) (numberOf 10 month)) day

/-- A time of day. Seconds may be left out, and so may be what is behind their point. -/
def time : Reader Unit := do
  let hour ← digits .hour
  join ':' .minute
  let minute ← digits .minute
  let second? ← if ← accept [':'] then some <$> digits .second else pure none
  if second?.isSome then
    if ← accept ['.'] then
      discard (digits .fraction)
  sized .hour hour
  sized .minute minute
  second?.forM (sized .second)
  ranged .hour 0 23 hour
  ranged .minute 0 59 minute
  second?.forM (ranged .second 0 60)

/-- The shift of a date and a time, if there is one. -/
def shift : Reader Unit := do
  unless (← get).isEmpty do
    unless ← accept ['Z', 'z'] do
      unless ← accept ['+', '-'] do
        throw .noShift
      let hour ← digits .shiftHour
      join ':' .shiftMinute
      let minute ← digits .shiftMinute
      sized .shiftHour hour
      sized .shiftMinute minute
      ranged .shiftHour 0 23 hour
      ranged .shiftMinute 0 59 minute

def afterDate : Reader Unit := do
  unless (← get).isEmpty do
    unless ← accept ['T', 't', ' '] do
      throw .noTime
    time
    shift

/-- A date, a time, or both. The mark behind the first digits decides. -/
def reader : Reader Unit := do
  let chars ← get
  let first := chars.takeWhile Char.isDigit
  if first.isEmpty then throw .unstarted
  match chars.dropWhile Char.isDigit with
  | '-' :: rest => do
    set rest
    date first
    afterDate
  | ':' :: _ => time
  | _ => throw .undecided
  unless (← get).isEmpty do
    throw .trailing

/-- Are the characters a date, a time, or both? -/
def check (chars : List Char) : Except Fault Unit := reader.run' chars

end Moment

end Toml

end Mediation
