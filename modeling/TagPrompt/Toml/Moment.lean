import TagPrompt.Text.Basic

/-! Dates and times of day as TOML writes them. -/

namespace TagPrompt.TomlMoment

def readDigits (n : Nat) (t : Text) : Option (Nat × Text) :=
  let digits := t.take n
  if digits.length = n && digits.all Text.isDigit then some (Text.decimal digits, t.drop n)
  else none

def readMark (mark : Char) (t : Text) : Option Text := Text.after? [mark] t

/-! ### Dates -/

def isLeapYear (year : Nat) : Bool := year % 4 = 0 && (year % 100 ≠ 0 || year % 400 = 0)

def daysIn (year month : Nat) : Nat :=
  if month = 2 then if isLeapYear year then 29 else 28
  else if month = 4 || month = 6 || month = 9 || month = 11 then 30
  else 31

/-- Reads a date; the text behind it. -/
def readDate (t : Text) : Option Text := do
  let (year, t) ← readDigits 4 t
  let t ← readMark '-' t
  let (month, t) ← readDigits 2 t
  let t ← readMark '-' t
  let (day, t) ← readDigits 2 t
  if 1 ≤ month && month ≤ 12 && 1 ≤ day && day ≤ daysIn year month then return t else none

/-! ### Times -/

/-- Reads the digits behind the point of a second, if there is a point. -/
def readFraction (t : Text) : Option Text :=
  match t with
  | '.' :: t => if (t.takeWhile Text.isDigit).isEmpty then none else some (t.dropWhile Text.isDigit)
  | _ => some t

/-- Reads the seconds of a time, if it has any. -/
def readSeconds (t : Text) : Option Text :=
  match t with
  | ':' :: t => do
      let (second, t) ← readDigits 2 t
      if second ≤ 60 then readFraction t else none
  | _ => some t

def readClock (t : Text) : Option Text := do
  let (hour, t) ← readDigits 2 t
  let t ← readMark ':' t
  let (minute, t) ← readDigits 2 t
  if hour ≤ 23 && minute ≤ 59 then return t else none

def readTime (t : Text) : Option Text := (readClock t).bind readSeconds

/-- Reads the distance of a time zone, if there is one. -/
def readOffset (t : Text) : Option Text :=
  match t with
  | c :: rest =>
      if c = 'Z' || c = 'z' then some rest
      else if c = '+' || c = '-' then readClock rest
      else some t
  | [] => some []

/-- Reads what may follow a date: nothing, or a time of day with or without a zone. -/
def readDayTime (t : Text) : Option Text :=
  match t with
  | c :: rest =>
      if c = 'T' || c = 't' || c = ' ' then (readTime rest).bind readOffset else some t
  | [] => some []

def isDate (t : Text) : Bool := readDate t == some []

/-- Whether a text is a date, a time of day, or both. -/
def isMoment (t : Text) : Bool := (readDate t).bind readDayTime == some [] || readTime t == some []

end TagPrompt.TomlMoment
