import JsonSurvey.Log.Setup
import JsonSurvey.Settings

/-! The start of the program: the settings are loaded and the root logger is set up for their
level. -/

namespace JsonSurvey.Startup

/-- Starts the program under an environment and gives its settings. Exports go to the given
directory unless the environment names another. -/
def run (root : Log.Root) (exportDirectory : Text) (environment : Environment) :
    Log.Root × Report Settings :=
  let report := Settings.load exportDirectory environment
  match report.result with
  | .error fault => (root, ⟨report.entries, .error fault⟩)
  | .ok settings =>
    match root.setUp settings.logLevel with
    | (root, none) => (root, ⟨report.entries, .ok settings⟩)
    | (root, some fault) => (root, ⟨report.entries, .error fault⟩)

end JsonSurvey.Startup
