import JsonSurvey.Log
import JsonSurvey.Text.Numeral
import JsonSurvey.Text.UpperCase

/-! The settings of the program, from its defaults and from the environment variables that override
them. -/

namespace JsonSurvey

/-- The values of environment variables by name. -/
abbrev Environment := List (Text × Text)

namespace Environment

/-- A text as a process gives it back that has it as a name or value of a variable: it is kept as
the bytes of a file name. -/
def throughProcess (t : Text) : Except Fault Text := do
  return Utf8.decodeName (← (Utf8.encodeName t).mapError .notEncodable)

/-- The environment of a process with the given variables, none of which can have a null
character. -/
def ofProcess : List (Text × Text) → Except Fault Environment
  | [] => .ok []
  | (name, value) :: rest => do
    let held := (← throughProcess name, ← throughProcess value)
    if name.contains 0 || value.contains 0 then throw .nullCharacter
    return held :: (← ofProcess rest)

end Environment

structure Settings where
  logLevel : Text
  exportDirectory : Text
  serverName : Text
  serverPort : Int

namespace Settings

def defaultPort : Nat := 7860

/-- The settings without any variable; exports go to the given directory. -/
def defaults (exportDirectory : Text) : Settings where
  logLevel := "INFO"
  exportDirectory := exportDirectory
  serverName := "127.0.0.1"
  serverPort := defaultPort

def logLevelVariable : Text := "JVE_LOG_LEVEL"

def exportDirectoryVariable : Text := "JVE_EXPORT_DIR"

def serverNameVariable : Text := "JVE_SERVER_NAME"

def serverPortVariable : Text := "JVE_SERVER_PORT"

/-- The value of a variable, unless it is missing or empty. -/
def nonempty? (environment : Environment) (name : Text) : Option Text :=
  (environment.lookup name).filter (· != [])

/-- The `serverPort` under an environment: a missing or blank variable leaves the default, and so
does one that is no integer, which is logged. -/
def portNumber (environment : Environment) : Report Int := do
  match environment.lookup serverPortVariable with
  | none => return defaultPort
  | some raw =>
    if raw.isBlank then return defaultPort
    match Numeral.integer? raw with
    | some number => return number
    | none =>
      Report.log (Log.Source.settings.warning
        (Text.concat ["Ignoring ", serverPortVariable, "=", raw.quoted,
          ": not an integer, using ", Text.ofNat defaultPort]))
      return defaultPort

/-- The settings under an environment; without the variable for it, exports go to the given
directory. -/
def load (exportDirectory : Text) (environment : Environment) : Report Settings := do
  let base := defaults exportDirectory
  let serverPort ← portNumber environment
  return {
    logLevel := ((environment.lookup logLevelVariable).getD base.logLevel).upper
    exportDirectory := (nonempty? environment exportDirectoryVariable).getD base.exportDirectory
    serverName := (nonempty? environment serverNameVariable).getD base.serverName
    serverPort := serverPort }

end Settings
end JsonSurvey
