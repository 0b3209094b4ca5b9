import HalConstants.CommandLine.Run
import Std.Time.Zoned

/-!
# The program

The file system and the standard streams of the machine, and nothing else.
-/

namespace HalConstants

def IoKind.ofError : IO.Error → IoKind
  | .noFileOrDirectory .. => .notFound
  | .permissionDenied .. => .permissionDenied
  | .alreadyExists .. => .alreadyExists
  | .invalidArgument .. => .invalidInput
  -- 21 is EISDIR
  | .inappropriateType _ 21 _ => .isADirectory
  | .inappropriateType .. => .notADirectory
  | _ => .other

/-- The result of an action, with the kind of the error if it throws one. -/
def attempt {α : Type} (action : IO α) : IO (Except IoKind α) :=
  tryCatch (Except.ok <$> action) fun e => return .error (.ofError e)

instance : Storage IO where
  readText path := do
    match ← attempt (IO.FS.readBinFile path) with
    | .ok bytes => return (String.fromUTF8? bytes).elim (.error .invalidData) .ok
    | .error kind => return .error kind
  writeText path text := attempt (IO.FS.writeFile path text)
  createDirectories path := attempt (IO.FS.createDirAll path)
  -- a file that exists counts, whether it can be read or not
  isFile path := do
    let stands := (← attempt (IO.FS.realPath path)).isOk
    let isDirectory := (← attempt (IO.FS.realPath (path ++ "/."))).isOk
    return stands && !isDirectory

namespace CommandLine

def usage : String :=
  s!"{programPurpose}\n\nUsage: {programName} <java|python|check> [OPTIONS] [INPUTS]...\n"

/-- What a user reads about a failed run. -/
def RunError.text : RunError → String
  | .manifest e => s!"{e.code}\n{e.message}\n"
  | .input e => s!"{e.code}\n{e.message}\n"
  | .failure f => s!"{f.message}\n"

def Outcome.streams : Outcome → Streams
  | .finished s => s
  | .failed e => { stderr := e.text }
  | .refused e => { stderr := e.message ++ "\n" }
  | .help => { stdout := usage }
  | .version => { stdout := s!"{programName} {programVersion}\n" }

end CommandLine

end HalConstants

def main (arguments : List String) : IO UInt32 := do
  let today ← Std.Time.PlainDate.now
  let outcome ← HalConstants.CommandLine.run today.year.toInt arguments
  let streams := outcome.streams
  (← IO.getStdout).putStr streams.stdout
  (← IO.getStderr).putStr streams.stderr
  return outcome.exitCode
