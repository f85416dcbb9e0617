import Mediation.Command.Arguments
import Mediation.Command.Files
import Mediation.Engine
import Mediation.Settings.Toml

/-! One run of the command: from the arguments and the files to what is printed. -/

namespace Mediation

namespace Command

def projectConfig : String := "flowstep/config.toml"

/-- The configuration file of a user, in the folder that holds all configurations of the user. -/
def userConfig (configHome : String) : String := configHome ++ "/flowstep/config.toml"

def readFile (files : Files) (path : String) : Except Failure String :=
  match files.read path with
  | .ok text => .ok text
  | .error fault => .error (.io fault.message)

def settingsIn (files : Files) (path : String) : Except Failure Settings := do
  if !files.has path then throw (.config ("Missing configuration file: " ++ path))
  let text ← readFile files path
  match Settings.ofToml text with
  | .ok settings => return settings
  | .error fault => throw (.config ("Failed to parse TOML configuration: " ++ fault.message text))

/-- The paths at which a run may look. -/
def paths (configHome : String) (args : Arguments) : List String :=
  args.config.toList ++ [projectConfig, userConfig configHome, args.input]

/-- The settings of a run: those of the file that was asked for, else of the first file that there
is, else the defaults. -/
def settings (files : Files) (configHome : String) (asked : Option String) :
    Except Failure Settings :=
  match asked with
  | some path => settingsIn files path
  | none =>
      match [projectConfig, userConfig configHome].find? files.has with
      | some path => settingsIn files path
      | none => .ok {}

def render (breakpoints : List Position) : OutputFormat → String
  | .text => String.join (breakpoints.map fun p => toString p ++ "\n")
  | .json => (Response.mk breakpoints).toJson.pretty ++ "\n"

/-- What a run prints. The settings are read before the document. -/
def run (files : Files) (configHome : String) (args : Arguments) : Except Failure String := do
  let settings ← settings files configHome args.config
  let source ← readFile files args.input
  return render (← stepOverIn settings source ⟨args.line, args.column⟩) args.format

end Command

end Mediation
