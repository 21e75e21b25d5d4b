import TemplateCache.Toml.Datetime

/-!
# Reading dates and times

A date, a time, or both with an offset. Four digits and a line begin a date, two digits and a
colon a time; from there on the text must go on as one. A date goes on with a time when `T`, `t`
or a blank and a digit follow, and only what has both a date and a time has an offset. The same
rules read a date-time in a document and one that is a text of its own.
-/

namespace TemplateCache.Toml.Datetime

/-! ## Digits and marks -/

/-- Two digits and what follows. -/
def twoDigits? : List Char → Option (Nat × List Char)
  | a :: b :: rest =>
      if a.isDigit && b.isDigit then some (Decimal.ofDigits 10 [a, b], rest) else none
  | _ => none

/-- Four digits and what follows. -/
def fourDigits? : List Char → Option (Nat × List Char)
  | a :: b :: c :: d :: rest =>
      if a.isDigit && b.isDigit && c.isDigit && d.isDigit then
        some (Decimal.ofDigits 10 [a, b, c, d], rest)
      else none
  | _ => none

/-- What follows a given character. -/
def after? (mark : Char) : List Char → Option (List Char)
  | c :: rest => if c = mark then some rest else none
  | [] => none

/-! ## The parts -/

/-- Year, month and day with lines between them. -/
def date? (text : List Char) : Option (Date × List Char) := do
  let (year, rest) ← fourDigits? text
  let (month, rest) ← twoDigits? (← after? '-' rest)
  let (day, rest) ← twoDigits? (← after? '-' rest)
  let date : Date := ⟨year, month, day⟩
  if date.valid then some (date, rest) else none

/-- The digits after a point, if there is one; a point needs a digit. -/
def fraction? : List Char → Option (Nat × List Char)
  | '.' :: rest =>
      let digits := rest.takeWhile Char.isDigit
      if digits = [] then none
      else some (Time.nanoseconds digits, rest.dropWhile Char.isDigit)
  | rest => some (0, rest)

/-- Hour and minute of a clock with a colon between them. -/
def clock? (text : List Char) : Option ((Nat × Nat) × List Char) := do
  let (hour, rest) ← twoDigits? text
  let (minute, rest) ← twoDigits? (← after? ':' rest)
  if hour ≤ 23 ∧ minute ≤ 59 then some ((hour, minute), rest) else none

/-- Hour and minute of a clock, a second up to sixty for leap seconds, and a fraction. -/
def time? (text : List Char) : Option (Time × List Char) := do
  let ((hour, minute), rest) ← clock? text
  let (second, rest) ← twoDigits? (← after? ':' rest)
  let (nanosecond, rest) ← fraction? rest
  if second ≤ 60 then some (⟨hour, minute, second, nanosecond⟩, rest) else none

/-- Hours and minutes of a clock as a difference with a sign. -/
def difference? (sign : Int) (text : List Char) : Option (Offset × List Char) := do
  let ((hours, minutes), rest) ← clock? text
  return (.minutes (sign * (60 * hours + minutes : Nat)), rest)

/-- The offset that stands first, if one does. -/
def offset? : List Char → Option (Option Offset × List Char)
  | 'Z' :: rest => some (some .utc, rest)
  | 'z' :: rest => some (some .utc, rest)
  | '+' :: rest => (difference? 1 rest).map fun r => (some r.1, r.2)
  | '-' :: rest => (difference? (-1) rest).map fun r => (some r.1, r.2)
  | text => some (none, text)

/-! ## The whole -/

/-- A time and an offset after a date. -/
def afterDate? (date : Date) (text : List Char) : Option (Datetime × List Char) := do
  let (time, rest) ← time? text
  let (offset, rest) ← offset? rest
  return (⟨some date, some time, offset⟩, rest)

/-- A date with what belongs to it. -/
def dated? (text : List Char) : Option (Datetime × List Char) := do
  let (date, rest) ← date? text
  match rest with
  | 'T' :: more => afterDate? date more
  | 't' :: more => afterDate? date more
  | ' ' :: c :: more =>
      if c.isDigit then afterDate? date (c :: more) else some (⟨some date, none, none⟩, rest)
  | _ => some (⟨some date, none, none⟩, rest)

/-- A time alone. -/
def timed? (text : List Char) : Option (Datetime × List Char) := do
  let (time, rest) ← time? text
  return (⟨none, some time, none⟩, rest)

/-- What the beginning of a text announces. -/
inductive Announced where
  | date
  | time
  | neither
  deriving DecidableEq

def announced : List Char → Announced
  | a :: b :: c :: rest =>
      if a.isDigit && b.isDigit && c == ':' then .time
      else
        match rest with
        | d :: mark :: _ =>
            if a.isDigit && b.isDigit && c.isDigit && d.isDigit && mark == '-' then .date
            else .neither
        | _ => .neither
  | _ => .neither

/-- The date-time that a text is. -/
def ofText? (text : List Char) : Option Datetime :=
  let read :=
    match announced text with
    | .date => dated? text
    | .time => timed? text
    | .neither => none
  match read with
  | some (datetime, []) => some datetime
  | _ => none

end TemplateCache.Toml.Datetime
