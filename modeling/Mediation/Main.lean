import Mediation.Command.Run
import Mediation.Report

/-! The command. It looks at the files that a run may need, runs, and prints what comes of it. -/

namespace Mediation

namespace Command

/-- What lies at the end of a path. The system gives its reasons as numbers, with either sign. -/
def lookUp (path : String) : IO (Except FileFault Entry) := do
  try
    return .ok (.file (← IO.FS.readBinFile path))
  catch
    | .inappropriateType _ code _ =>
        return if code = 21 ∨ -code = 21 then .ok .folder else .error .notDirectory
    | .invalidArgument _ code _ => return .error (if code = 22 then .nulInName else .nameTooLong)
    | _ => return .error .notFound

def snapshot (paths : List String) : IO Files := do
  let found ← paths.mapM fun path => return (path, ← lookUp path)
  return ⟨fun path => (found.lookup path).getD (.error .notFound)⟩

/-- The folder that holds the configurations of the user. -/
def configHome : IO String := do
  match ← IO.getEnv "XDG_CONFIG_HOME", ← IO.getEnv "HOME" with
  | some folder, home => return if folder.startsWith "/" then folder else home.getD "" ++ "/.config"
  | none, home => return home.getD "" ++ "/.config"

def usage : String :=
  "Usage: flowstep [OPTIONS] --line <LINE> <INPUT>\n\n" ++
  "Options:\n" ++
  "  -l, --line <LINE>            line of the breakpoint to step over\n" ++
  "      --column <COLUMN>        column of the breakpoint to step over (0)\n" ++
  "  -c, --config <CONFIG>        path to a configuration file\n" ++
  "  -f, --format <FORMAT>        text or json (text)\n" ++
  "      --log-level <LOG_LEVEL>  off, error, warn, info, debug or trace (warn)\n" ++
  "  -h, --help                   print help\n" ++
  "  -V, --version                print version\n"

def Report.lines (r : Report) : String :=
  let code := r.code.elim "" fun code => "[" ++ code ++ "]"
  (r.severity.elim "error" (·.name)) ++ code ++ ": " ++ r.message ++ "\n" ++
    r.help.elim "" fun help => "  help: " ++ help ++ "\n"

end Command

end Mediation

open Mediation Mediation.Command in
def main (arguments : List String) : IO UInt32 := do
  let out ← IO.getStdout
  let err ← IO.getStderr
  match Arguments.ofList arguments with
  | .error .help => do
    out.putStr usage
    return 0
  | .error .version => do
    out.putStr "flowstep\n"
    return 0
  | .error _ => do
    err.putStr usage
    return 2
  | .ok args => do
    let configHome ← configHome
    match run (← snapshot (paths configHome args)) configHome args with
    | .ok output => do
      out.putStr output
      return 0
    | .error failure => do
      failure.reports.forM fun report => err.putStr (Report.lines report)
      return 1
