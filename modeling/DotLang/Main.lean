import DotLang.CommandLine

/-!
# The program

Hands its arguments to `CommandLine.answer` and writes what that says.
-/

namespace DotLang.CommandLine

/-- The number of an error of the system, which may come with its sign turned. -/
def errorNumber (code : UInt32) : UInt32 := if code < 0x80000000 then code else 0 - code

/-- The reason for which the system refused to read a file. -/
def faultOfError : IO.Error → FileFault
  | .noFileOrDirectory .. => .notFound
  | .inappropriateType _ code _ => if errorNumber code = 20 then .notDirectory else .isDirectory
  | .permissionDenied .. => .forbidden
  | e@(.invalidArgument _ code _) =>
    if errorNumber code = 36 then .nameTooLong else .other (toString e)
  | e => .other (toString e)

def readFile (path : String) : IO (Except FileFault String) := do
  try
    return decodeFile (← IO.FS.readBinFile path)
  catch e =>
    return .error (faultOfError e)

end DotLang.CommandLine

def main (args : List String) : IO UInt32 := do
  let answer ← DotLang.CommandLine.answer DotLang.CommandLine.readFile args
  IO.print answer.stdout
  IO.eprint answer.stderr
  return answer.exitCode.toUInt32
