/-!
Contract: reading a file by its path, in a folder held in memory.

Owns:
- `ReadFault`, why a file cannot be read, and its wording;
- `Folder`, files under a working folder;
- `Folder.read`, the bytes at a path.

Paths use slashes. A step of a path that is empty or a dot stays where it is, and
two dots lead to the folder above. Of the folders around the working folder
nothing is known but that they exist. The faults of a path are found step by step,
so a name that is too long counts only if the folder before it exists.
-/

set_option autoImplicit false

namespace LoxCalc.Console

/-- Why the text of a file cannot be read. -/
inductive ReadFault where
  | missing
  | isFolder
  | notFolder
  | nameTooLong
  | denied
  | notText
deriving DecidableEq, Repr

def ReadFault.reason : ReadFault → String
  | .missing => "No such file or directory (os error 2)"
  | .isFolder => "Is a directory (os error 21)"
  | .notFolder => "Not a directory (os error 20)"
  | .nameTooLong => "File name too long (os error 36)"
  | .denied => "Permission denied (os error 13)"
  | .notText => "stream did not contain valid UTF-8"

/-- The bytes that one name in a folder may have. -/
def nameLimit : Nat := 255

/-- The bytes that a whole path may have. -/
def pathLimit : Nat := 4095

def pathSteps (path : String) : List String := path.splitOn "/"

/-- A file in the working folder: the steps that lead to it, and its bytes. -/
structure File where
  steps : List String
  bytes : ByteArray

/-- The files under a working folder. -/
structure Folder where
  files : List File

namespace Folder

/-- The folder with the given files, each with its path. -/
def ofFiles (files : List (String × ByteArray)) : Folder where
  files := files.map fun f =>
    ⟨(pathSteps f.1).filter (fun step => step ≠ "" && step ≠ "."), f.2⟩

def file? (folder : Folder) (steps : List String) : Option ByteArray :=
  (folder.files.find? (fun f => f.steps = steps)).map File.bytes

/-- Whether the steps lead to a folder: some file lies further below. -/
def hasFolder (folder : Folder) (steps : List String) : Bool :=
  folder.files.any (fun f => steps.isPrefixOf f.steps && f.steps ≠ steps)

/-- A folder on the way along a path: one below the working folder, innermost
step first, or one outside of it. -/
inductive Place where
  | inside (reversed : List String)
  | outside
deriving DecidableEq, Repr

def Place.above : Place → Place
  | .inside (_ :: outer) => .inside outer
  | _ => .outside

def follow (folder : Folder) : Place → List String → Except ReadFault ByteArray
  | _, [] => .error .isFolder
  | here, step :: rest =>
      if step = "" || step = "." then folder.follow here rest
      else if step = ".." then folder.follow here.above rest
      else if nameLimit < step.utf8ByteSize then .error .nameTooLong
      else
        match here with
        | .outside => .error .missing
        | .inside reversed =>
            let reached := step :: reversed
            match folder.file? reached.reverse with
            | some bytes => if rest.isEmpty then .ok bytes else .error .notFolder
            | none =>
                if folder.hasFolder reached.reverse then folder.follow (.inside reached) rest
                else .error .missing

def read (folder : Folder) (path : String) : Except ReadFault ByteArray :=
  if pathLimit < path.utf8ByteSize then .error .nameTooLong
  else
    match pathSteps path with
    | [""] => .error .missing
    | "" :: steps => folder.follow .outside steps
    | steps => folder.follow (.inside []) steps

end Folder

def textOf (bytes : Except ReadFault ByteArray) : Except ReadFault String :=
  match bytes with
  | .error fault => .error fault
  | .ok bytes =>
      match String.fromUTF8? bytes with
      | some text => .ok text
      | none => .error .notText

end LoxCalc.Console
