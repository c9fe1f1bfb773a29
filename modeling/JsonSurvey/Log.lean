import JsonSurvey.Fault

/-! Log entries, and results that come with the entries logged on the way to them. -/

namespace JsonSurvey

namespace Log

/-- A logged message with its level and the name of the logger. -/
structure Entry where
  level : Int
  logger : Text
  message : Text

def debugLevel : Int := 10

def infoLevel : Int := 20

def warningLevel : Int := 30

def errorLevel : Int := 40

def criticalLevel : Int := 50

/-- The name of a level. -/
def levelName (level : Int) : Text :=
  if level = 0 then "NOTSET"
  else if level = debugLevel then "DEBUG"
  else if level = infoLevel then "INFO"
  else if level = warningLevel then "WARNING"
  else if level = errorLevel then "ERROR"
  else if level = criticalLevel then "CRITICAL"
  else Text.concat ["Level ", Text.ofInt level]

/-- The parts of the program that log. -/
inductive Source
  | coordinates
  | variants
  | files
  | handlers
  | settings

/-- The name of the logger of a part. -/
def Source.logger : Source → Text
  | .coordinates => "json_variant_extractor.coordinates"
  | .variants => "json_variant_extractor.variants"
  | .files => "json_variant_extractor.io_utils"
  | .handlers => "json_variant_extractor.handlers"
  | .settings => "json_variant_extractor.config"

def Source.debug (s : Source) (message : Text) : Entry := ⟨debugLevel, s.logger, message⟩

def Source.info (s : Source) (message : Text) : Entry := ⟨infoLevel, s.logger, message⟩

def Source.warning (s : Source) (message : Text) : Entry := ⟨warningLevel, s.logger, message⟩

def Source.error (s : Source) (message : Text) : Entry := ⟨errorLevel, s.logger, message⟩

end Log

/-- A result or a fault, with the log entries made on the way. -/
structure Report (α : Type) where
  entries : List Log.Entry
  result : Except Fault α

namespace Report

variable {α β : Type}

/-- A result without log entries. -/
def ofExcept (result : Except Fault α) : Report α := ⟨[], result⟩

/-- One log entry and nothing else. -/
def log (entry : Log.Entry) : Report Unit := ⟨[entry], .ok ()⟩

instance : Monad Report where
  pure a := ⟨[], .ok a⟩
  bind r f :=
    match r.result with
    | .ok a => ⟨r.entries ++ (f a).entries, (f a).result⟩
    | .error fault => ⟨r.entries, .error fault⟩

end Report
end JsonSurvey
