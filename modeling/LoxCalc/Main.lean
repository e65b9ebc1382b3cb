import LoxCalc.Console.Command

/-!
Contract: the program on the command line.

Reads the environment, the arguments, a file or the standard input, and shows what
`LoxCalc.Console` says. Everything that is shown is decided there.
-/

set_option autoImplicit false

namespace LoxCalc.Main

open LoxCalc.Console
open LoxCalc.Log

/-- The log settings of the environment. -/
def settings : IO Settings := do
  let verbosity := Verbosity.ofSetting ((← IO.getEnv "LOX_LOG").map String.toUTF8)
  let terminal ← (← IO.getStdout).isTty
  let colour := wantsColour (← IO.getEnv "CLICOLOR_FORCE") (← IO.getEnv "NO_COLOR")
    (← IO.getEnv "CLICOLOR") terminal
  return ⟨verbosity, colour⟩

/-- Shows an output on both streams. -/
def emit (shown : Output) : IO Unit := do
  let out ← IO.getStdout
  let err ← IO.getStderr
  err.putStr shown.stderr
  err.flush
  out.putStr shown.stdout
  out.flush

/-- Shows the rest of a call and returns its exit code. -/
def finish (e : Exit) : IO UInt32 := do
  emit ⟨e.stdout, e.stderr⟩
  return e.code

/-- Whether the system gave the code `n`. Some calls give it negated. -/
def isCode (n code : UInt32) : Bool := code = n || code + n = 0

/-- The text of a file of the system. -/
def readFile (path : String) : IO (Except ReadFault String) := do
  try
    let bytes ← IO.FS.readBinFile path
    return textOf (.ok bytes)
  catch
    | .inappropriateType _ code _ =>
        return .error (if isCode 20 code then .notFolder else .isFolder)
    | .invalidArgument _ code _ =>
        return .error (if isCode 36 code then .nameTooLong else .missing)
    | .permissionDenied .. => return .error .denied
    | _ => return .error .missing

/-- The bytes of the next line, its line break included; none at the end of the
input. `reversed` holds those read so far, the last one first. -/
partial def readLine (input : IO.FS.Stream) (reversed : List UInt8) : IO (List UInt8) := do
  match (← input.read 1).toList with
  | [] => return reversed.reverse
  | b :: _ =>
      if b = lineBreak then return (b :: reversed).reverse
      else readLine input (b :: reversed)

/-- Reads and runs one line after the other, over the reports on record. -/
partial def promptLoop (s : Settings) (d : Diagnostics) (input : IO.FS.Stream) : IO UInt32 := do
  emit invite
  match ← readLine input [] with
  | [] => finish promptEnd
  | line =>
      match promptTurn s d line with
      | none => finish (promptStop s)
      | some (shown, next) =>
          emit shown
          promptLoop s next input

/-- A call of the program. -/
def call (arguments : List String) : IO UInt32 := do
  let s ← settings
  match arguments with
  | [] => promptLoop s .empty (← IO.getStdin)
  | [path] => finish (runFile s path (← readFile path))
  | _ => finish usage

end LoxCalc.Main

def main (arguments : List String) : IO UInt32 := LoxCalc.Main.call arguments
