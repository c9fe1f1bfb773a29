import JsonSurvey.Log
import JsonSurvey.Text.UpperCase

/-! Setting up the root logger, and the lines that it writes. The first set-up adds a handler and
then sets the level; once there is a handler, a set-up changes nothing. -/

namespace JsonSurvey.Log

/-- The root logger: entries from its level on reach its handlers. -/
structure Root where
  level : Int
  handlers : Nat
deriving DecidableEq

/-- The root logger before it is set up. -/
def Root.initial : Root := ⟨warningLevel, 0⟩

/-- What a name in upper case stands for: a level, or something else that cannot be one. -/
inductive Named
  | level (number : Int)
  | text (t : Text)
  | other (description : Text)

/-- The names that stand for something. Beside the levels these are the name of a message form and
the name of the table of message forms. -/
def named? (name : Text) : Option Named :=
  if name = Text.ofString "NOTSET" then some (.level 0)
  else if name = Text.ofString "DEBUG" then some (.level debugLevel)
  else if name = Text.ofString "INFO" then some (.level infoLevel)
  else if name = Text.ofString "WARNING" ∨ name = Text.ofString "WARN" then
    some (.level warningLevel)
  else if name = Text.ofString "ERROR" then some (.level errorLevel)
  else if name = Text.ofString "CRITICAL" ∨ name = Text.ofString "FATAL" then
    some (.level criticalLevel)
  else if name = Text.ofString "BASIC_FORMAT" then
    some (.text "%(levelname)s:%(name)s:%(message)s")
  else if name = Text.ofString "_STYLES" then
    some (.other (Text.concat [
      "\x7b'%': (<class 'logging.PercentStyle'>, '%(levelname)s:%(name)s:%(message)s'), ",
      "'\x7b': (<class 'logging.StrFormatStyle'>, ",
      "'\x7blevelname\x7d:\x7bname\x7d:\x7bmessage\x7d'), ",
      "'$': (<class 'logging.StringTemplateStyle'>, ",
      "'$\x7blevelname\x7d:$\x7bname\x7d:$\x7bmessage\x7d')\x7d"]))
  else none

/-- The level of a name in letters of any case, the level of information if the name stands for
nothing. -/
def levelOfName (name : Text) : Except Fault Int :=
  match named? name.upper with
  | none => .ok infoLevel
  | some (.level number) => .ok number
  | some (.text t) => .error (.unknownLevel t)
  | some (.other description) => .error (.notALevel description)

/-- Sets up the root logger for a level of the given name. A handler that was added stays even if
the level is none. -/
def Root.setUp (root : Root) (levelName : Text) : Root × Option Fault :=
  if root.handlers = 0 then
    match levelOfName levelName with
    | .ok level => (⟨level, 1⟩, none)
    | .error fault => (⟨root.level, 1⟩, some fault)
  else (root, none)

/-- A date of the calendar. -/
structure Date where
  year : Int
  month : Nat
  day : Nat
deriving DecidableEq

/-- The date that is `days` days after the first of January 1970. Years are counted from March, in
cycles of 400 years, so that a leap day is the last day of its year. -/
def Date.ofDays (days : Int) : Date :=
  let shifted := days + 719468
  let cycle := shifted.fdiv 146097
  let dayOfCycle := (shifted.fmod 146097).toNat
  let yearOfCycle :=
    (dayOfCycle - dayOfCycle / 1460 + dayOfCycle / 36524 - dayOfCycle / 146096) / 365
  let dayOfYear := dayOfCycle - (365 * yearOfCycle + yearOfCycle / 4 - yearOfCycle / 100)
  let monthFromMarch := (5 * dayOfYear + 2) / 153
  let month := if monthFromMarch < 10 then monthFromMarch + 3 else monthFromMarch - 9
  { year := cycle * 400 + yearOfCycle + (if month ≤ 2 then 1 else 0)
    month := month
    day := dayOfYear - (153 * monthFromMarch + 2) / 5 + 1 }

/-- The date and the time of day at so many seconds after the beginning of 1970. -/
def timeText (seconds : Int) : Text :=
  let date := Date.ofDays (seconds.fdiv 86400)
  let second := (seconds.fmod 86400).toNat
  Text.concat [Text.ofInt date.year, "-", Text.padNat 2 date.month, "-", Text.padNat 2 date.day,
    " ", Text.padNat 2 (second / 3600), ":", Text.padNat 2 (second / 60 % 60), ":",
    Text.padNat 2 (second % 60)]

/-- The line of an entry made at so many seconds after the beginning of 1970. -/
def line (entry : Entry) (seconds : Int) : Text :=
  Text.concat [timeText seconds, " | ", Text.padRight 8 (levelName entry.level), " | ",
    entry.logger, " | ", entry.message]

/-- The lines that the root logger writes for entries with their times. -/
def Root.lines (root : Root) (entries : List (Entry × Int)) : List Text :=
  if root.handlers = 0 then []
  else (entries.filter fun e => root.level ≤ e.1.level).map fun e => line e.1 e.2

end JsonSurvey.Log
