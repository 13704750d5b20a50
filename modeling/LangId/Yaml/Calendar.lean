import LangId.Yaml.Fault
import LangId.Number.Decimal

/-!
# Days and moments

The texts of days and moments in a YAML document, and their distance from the beginning of the year
one. Days are those of the Gregorian calendar, carried back.
-/
namespace LangId.Yaml.Calendar

open Text

/-- Whether a year has a leap day. -/
def isLeap (year : Nat) : Bool := year % 4 == 0 && (year % 100 != 0 || year % 400 == 0)

/-- The days of a month. -/
def daysIn (year month : Nat) : Nat :=
  if month == 2 then if isLeap year then 29 else 28
  else if month == 4 || month == 6 || month == 9 || month == 11 then 30
  else 31

/-- The days before a month in its year. -/
def daysBefore (year month : Nat) : Nat :=
  ((List.range month).drop 1).foldl (fun days m => days + daysIn year m) 0

/-- The number of a day, counted from the first one of the year one. -/
def dayNumber (year month day : Nat) : Int :=
  let y : Int := (year : Int) - 1
  y * 365 + y / 4 - y / 100 + y / 400 + daysBefore year month + day - 1

/-- A day that exists. -/
def day (year month day : Nat) : Except Error Int :=
  if year == 0 then .error (.noSuchValue "year 0 is out of range")
  else if month == 0 || 12 < month then .error (.noSuchValue "month must be in 1..12")
  else if day == 0 || daysIn year month < day then
    .error (.noSuchValue "day is out of range for month")
  else .ok (dayNumber year month day)

/-- The text of a day or a moment, taken apart. -/
structure Written where
  year : Nat
  month : Nat
  day : Nat
  /-- Hour, minute and second, and the digits of the fraction. -/
  time : Option (Nat × Nat × Nat × List Char) := none
  /-- The distance from universal time in minutes. -/
  zone : Option Int := none
  deriving Repr, DecidableEq

/-- Reads a number of digits between two counts, as many as there are. -/
def number? (least most : Nat) (s : List Char) : Option (Nat × List Char) :=
  let ds := (s.take most).takeWhile isAsciiDigit
  if ds.length < least then none else some (Number.natOf ds, s.drop ds.length)

/-- Behind a character, if it stands in front. -/
def after? (c : Char) : List Char → Option (List Char)
  | x :: rest => if x == c then some rest else none
  | [] => none

/-- Drops spaces and tabs. -/
def dropBlanks (s : List Char) : List Char := s.dropWhile fun c => c == ' ' || c == '\t'

/-- Reads the distance from universal time at the end of a text: nothing, `Z`, or a signed number of
hours and perhaps minutes. -/
def zone? (s : List Char) : Option (Option Int) :=
  match dropBlanks s with
  | [] => if s.isEmpty then some none else none
  | ['Z'] => some (some 0)
  | sign :: rest => do
    if sign != '+' && sign != '-' then none
    let (hours, rest) ← number? 1 2 rest
    let minutes ← match rest with
      | [] => some 0
      | _ =>
        match number? 2 2 (← after? ':' rest) with
        | some (minutes, []) => some minutes
        | _ => none
    let distance : Int := hours * 60 + minutes
    return some (if sign == '-' then -distance else distance)

/-- Reads the time of a day and what follows. -/
def time? (s : List Char) : Option ((Nat × Nat × Nat × List Char) × Option Int) := do
  let (hour, s) ← number? 1 2 s
  let (minute, s) ← number? 2 2 (← after? ':' s)
  let (second, s) ← number? 2 2 (← after? ':' s)
  let (fraction, s) := match s with
    | '.' :: rest => (rest.takeWhile isAsciiDigit, rest.dropWhile isAsciiDigit)
    | _ => ([], s)
  return ((hour, minute, second, fraction), ← zone? s)

/-- Reads the text of a day or a moment. A day alone has two digits each for month and day. -/
def written? (s : List Char) : Option Written := do
  let (year, s) ← number? 4 4 s
  let s ← after? '-' s
  let (month, s') ← number? 1 2 s
  let (day, rest) ← number? 1 2 (← after? '-' s')
  match rest with
  | [] => if s.length == 5 then some { year, month, day } else none
  | c :: more =>
    let t ← if c == 'T' || c == 't' then some more
      else if c == ' ' || c == '\t' then some (dropBlanks more)
      else none
    let (time, zone) ← time? t
    return { year, month, day, time := some time, zone }

/-- The millionths of a second in a fraction. -/
def millionths (fraction : List Char) : Nat :=
  Number.natOf ((fraction ++ List.replicate 6 '0').take 6)

/-- The minutes of a day. -/
def minutesPerDay : Int := 1440

/-- The words for a distance in minutes, by whole days and the seconds left over. -/
def distanceText (minutes : Int) : String :=
  let days := Int.fdiv minutes minutesPerDay
  let seconds := Int.fmod minutes minutesPerDay * 60
  let parts := (if days == 0 then [] else [s!"days={days}"])
    ++ (if seconds == 0 then [] else [s!"seconds={seconds}"])
  "datetime.timedelta(" ++ ", ".intercalate parts ++ ")"

/-- The words for a distance from universal time that is a whole day or more. -/
def zoneFault (minutes : Int) : String :=
  "offset must be a timedelta strictly between -timedelta(hours=24) and timedelta(hours=24), not "
    ++ distanceText minutes ++ "."

/-- What a text stands for: a day, or a moment that may be told in universal time. -/
inductive Stamp where
  | day (n : Int)
  | moment (n : Int) (universal : Bool)
  deriving Repr, DecidableEq

/-- The day or moment of a text. -/
def Written.stamp (w : Written) : Except Error Stamp :=
  match w.time with
  | none => (Calendar.day w.year w.month w.day).map .day
  | some (hour, minute, second, fraction) =>
    let zone := w.zone.getD 0
    if zone ≤ -minutesPerDay || minutesPerDay ≤ zone then
      .error (.noSuchValue (zoneFault zone))
    else do
      let n ← Calendar.day w.year w.month w.day
      if 23 < hour then .error (.noSuchValue "hour must be in 0..23")
      else if 59 < minute then .error (.noSuchValue "minute must be in 0..59")
      else if 59 < second then .error (.noSuchValue "second must be in 0..59")
      else
        let seconds : Int := (n * minutesPerDay + hour * 60 + minute - zone) * 60 + second
        return .moment (seconds * 1000000 + millionths fraction) w.zone.isSome

end LangId.Yaml.Calendar
