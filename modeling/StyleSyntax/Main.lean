import StyleSyntax.Cli.Run

/-!
# The program

Reads the files that the command line names, and prints what the command says of them.
-/

open StyleSyntax

/-- The fault that an error of the system stands for. A code may come negated. -/
def readFaultOf : IO.Error → Cli.ReadFault
  | .noFileOrDirectory .. => .notFound
  | .inappropriateType _ code _ =>
    if code = 21 ∨ code = 0 - 21 then .isDirectory else .notDirectory
  | .invalidArgument _ code details =>
    if code = 36 ∨ code = 0 - 36 then .nameTooLong else .other details.toList
  | .permissionDenied .. => .other "Permission denied (os error 13)".toList
  | error => .other (toString error).toList

/-- The bytes of a file as text, or why they cannot be read. -/
def readSource (path : Text) : IO (Except Cli.ReadFault Text) := do
  try
    return Cli.decodeText (← IO.FS.readBinFile (String.ofList path))
  catch error =>
    return .error (readFaultOf error)

/-- The files that a request reads. -/
def filesOf : Cli.Request → List Text
  | .run invocation => invocation.files
  | _ => []

/-- The command-line program. -/
def main (arguments : List String) : IO UInt32 := do
  let words := arguments.map String.toList
  let sources ← (filesOf (Cli.requestOf words)).mapM fun path => do
    return (path, ← readSource path)
  let output := Cli.run (fun path => (sources.lookup path).getD (.error .notFound)) words
  (← IO.getStdout).putStr (String.ofList output.stdout)
  (← IO.getStderr).putStr (String.ofList output.stderr)
  return output.code.toUInt32
