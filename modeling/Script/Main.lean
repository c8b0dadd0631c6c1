import Script.CommandLine.Execution

namespace Script

/-- What has been learned of the world outside so far. -/
structure Known where
  input : List UInt8
  closed : Bool
  files : List (String × Reading)

/-- Reads a file, and words a failure as the operating system does. -/
def readFile (path : String) : IO Reading := do
  try
    let bytes ← IO.FS.readBinFile path
    match String.fromUTF8? bytes with
    | some text => return .text text
    | none => return .failed "stream did not contain valid UTF-8"
  catch
    | .noFileOrDirectory .. => return .notFound
    | .inappropriateType _ code details | .resourceExhausted _ code details
    | .permissionDenied _ code details | .invalidArgument _ code details =>
      return .failed s!"{details} (os error {code})"
    | error => return .failed (toString error)

/-- Runs the program from the start with what is known. Where it asks for more, that is fetched, and
the program is run again; the text it has written before is the same each time and is shown once. -/
partial def converse (run : (String → Reading) → Console → CommandLine.Ending) (known : Known)
    (shown errorsShown : Nat) : IO UInt32 := do
  let read (path : String) : Reading := (known.files.lookup path).getD .unread
  let ending := run read ⟨known.input, known.closed, "", ""⟩
  let console := match ending with
    | .exit _ console | .halted _ console => console
  let stdout ← IO.getStdout
  let stderr ← IO.getStderr
  stdout.putStr (console.output.drop shown).toString
  stdout.flush
  stderr.putStr (console.errors.drop errorsShown).toString
  stderr.flush
  let again (known : Known) := converse run known console.output.length console.errors.length
  match ending with
  | .exit code _ => return UInt32.ofNat code
  | .halted .awaitsLine _ =>
    let line ← (← IO.getStdin).read 4096
    again { known with input := known.input ++ line.toList, closed := line.isEmpty }
  | .halted (.awaitsFile path) _ =>
    again { known with files := (path, ← readFile path) :: known.files }
  | .halted _ _ => return 70

end Script

open Script in
/-- The command line of the interpreter. -/
def main (arguments : List String) : IO UInt32 := do
  let names := ["LAMINA_RECURSION_LIMIT", "LAMINA_PATH", "NO_COLOR", "TERM"]
  let surroundings ← names.mapM fun name => return (name, ← IO.getEnv name)
  let lookup (name : String) : Option String := (surroundings.lookup name).join
  let terminal ← (← IO.getStderr).isTty
  converse (CommandLine.execute 0x1000000000000000 arguments lookup terminal) ⟨[], false, []⟩ 0 0
