import LoxCalc.Console.Folder
import LoxCalc.Log.Record

/-!
Contract: the command line, as a function from what it is given to what it shows.

Owns:
- `Output`, what goes to the two output streams, and `Exit`, with an exit code;
- `runAndShow`, a run that is shown over a record of reports;
- `runFile`, `prompt` and `command`, the ways to call the program.

Does **not** own: the reading of arguments, files and input from the system.

Log records of a run come before its reports; the value of a run is the only
thing that goes to the standard output besides prompts and notices.
-/

set_option autoImplicit false

namespace LoxCalc.Console

open LoxCalc.Log

/-- What goes to the standard output and to the standard error stream. -/
structure Output where
  stdout : String
  stderr : String
deriving DecidableEq, Repr

/-- What a call of the program shows, and its exit code. -/
structure Exit where
  code : UInt32
  stdout : String
  stderr : String
deriving DecidableEq, Repr

/-- An output shown before the rest of a call. -/
def Output.andThen (first : Output) (rest : Exit) : Exit :=
  ⟨rest.code, first.stdout ++ rest.stdout, first.stderr ++ rest.stderr⟩

/-! ## Exit codes -/

def codeOk : UInt32 := 0

/-- The call had too many arguments. -/
def codeUsage : UInt32 := 64

/-- The program had a lexical or syntax error. -/
def codeStatic : UInt32 := 65

/-- The program had a runtime error. -/
def codeRuntime : UInt32 := 70

/-- Something could not be read. -/
def codeInput : UInt32 := 74

def exitCode (d : Diagnostics) : UInt32 :=
  if d.hasStatic then codeStatic
  else if d.hasRuntime then codeRuntime
  else codeOk

/-! ## Runs -/

def commandTarget : String := "lox"

def valueLine (r : Run) : String :=
  match r.value? with
  | some value => value.text ++ "\n"
  | none => ""

/-- All reports on record. -/
def reportLines (d : Diagnostics) : String :=
  String.join (d.reports.map (fun report => report.text ++ "\n"))

/-- Runs a text over the reports so far. All that are on record then are shown, the
earlier ones too. -/
def runAndShow (s : Settings) (d : Diagnostics) (source : String) : Output × Diagnostics :=
  let r := Run.ofSource d.hasStatic source
  let filed := d.append r.reports
  (⟨valueLine r, s.lines (runRecords r) ++ reportLines filed⟩, filed)

/-- Runs the text of a file that was read from `path`. -/
def runFile (s : Settings) (path : String) (content : Except ReadFault String) : Exit :=
  match content with
  | .error fault =>
      { code := codeInput
        stdout := "Could not open file \"" ++ path ++ "\".\n"
        stderr := s.lines [⟨.debug, commandTarget, "reading " ++ path ++ ": " ++ fault.reason⟩] }
  | .ok source =>
      let (shown, filed) := runAndShow s .empty source
      ⟨exitCode filed, shown.stdout, shown.stderr⟩

/-! ## The prompt -/

def invitation : String := "> "

def lineBreak : UInt8 := 10

/-- Splits bytes behind each line break. -/
def byteLines : List UInt8 → List (List UInt8)
  | [] => []
  | b :: rest =>
      if b = lineBreak then [b] :: byteLines rest
      else
        match byteLines rest with
        | [] => [[b]]
        | line :: lines => (b :: line) :: lines

theorem byteLines_flatten (input : List UInt8) : (byteLines input).flatten = input := by
  fun_induction byteLines input with
  | case1 => rfl
  | case2 rest inductionHypothesis =>
      rw [List.flatten_cons, inductionHypothesis]
      rfl
  | case3 b rest notBreak isLast inductionHypothesis =>
      rw [isLast] at inductionHypothesis
      rw [← inductionHypothesis]
      rfl
  | case4 b rest notBreak line lines isMore inductionHypothesis =>
      rw [isMore] at inductionHypothesis
      rw [List.flatten_cons, List.cons_append, ← List.flatten_cons, inductionHypothesis]

def invite : Output := ⟨invitation, ""⟩

def promptEnd : Exit := ⟨codeOk, "\n", ""⟩

/-- What the prompt shows when a line is no text. -/
def promptStop (s : Settings) : Exit :=
  { code := codeInput
    stdout := ""
    stderr := s.lines
      [⟨.error, commandTarget, "prompt stopped: " ++ ReadFault.notText.reason⟩] }

/-- What the prompt shows for one line of bytes, unless it is no text. The record of
reports is cleared behind every line. -/
def promptTurn (s : Settings) (d : Diagnostics) (line : List UInt8) :
    Option (Output × Diagnostics) :=
  (String.fromUTF8? ⟨line.toArray⟩).map (fun source =>
    let (shown, filed) := runAndShow s d source
    (shown, (filed.perform .clear).2))

/-- The prompt over lines of bytes: it goes on until the input ends or a line is no
text. -/
def promptLines (s : Settings) (d : Diagnostics) : List (List UInt8) → Exit
  | [] => invite.andThen promptEnd
  | line :: rest =>
      match promptTurn s d line with
      | some (shown, next) => invite.andThen (shown.andThen (promptLines s next rest))
      | none => invite.andThen (promptStop s)

def prompt (s : Settings) (input : List UInt8) : Exit := promptLines s .empty (byteLines input)

/-! ## Calls -/

def usage : Exit := ⟨codeUsage, "Usage: lox [script]\n", ""⟩

/-- A call of the program with its arguments, files and input. -/
def command (s : Settings) (folder : Folder) (input : List UInt8) : List String → Exit
  | [] => prompt s input
  | [path] => runFile s path (textOf (folder.read path))
  | _ => usage

end LoxCalc.Console
