import LayerLint.Text

/-!
# Files and directories

A tree of files as a program finds it: paths are followed component by component, and reading ends
in the text of a file or in the reason why there is none.
-/

namespace LayerLint

/-- Why a file cannot be read as text. -/
inductive ReadFault where
  | notFound
  | notADirectory
  | isADirectory
  | nameTooLong
  | permissionDenied
  | zeroInName
  | notUtf8
  /-- Any other reason, in the system's words. -/
  | other (message : Text)
  deriving DecidableEq, Repr

def ReadFault.message : ReadFault → Text
  | .notFound => "No such file or directory (os error 2)"
  | .notADirectory => "Not a directory (os error 20)"
  | .isADirectory => "Is a directory (os error 21)"
  | .nameTooLong => "File name too long (os error 36)"
  | .permissionDenied => "Permission denied (os error 13)"
  | .zeroInName => "file name contained an unexpected NUL byte"
  | .notUtf8 => "stream did not contain valid UTF-8"
  | .other message => message

/-- The fault behind an error number of the system, with the system's words for the number. -/
def ReadFault.ofNumber (words : Text) : Nat → ReadFault
  | 2 => .notFound
  | 13 => .permissionDenied
  | 20 => .notADirectory
  | 21 => .isADirectory
  | 36 => .nameTooLong
  | n => .other (Text.concat [words, " (os error ", Text.ofNat n, ")"])

/-- Whether the path of the fault leads to something, if only to something unreadable. -/
def ReadFault.isAtTarget : ReadFault → Bool
  | .isADirectory | .permissionDenied | .notUtf8 | .other _ => true
  | .notFound | .notADirectory | .nameTooLong | .zeroInName => false

/-- The text that bytes encode. -/
def decodeUtf8 (bytes : ByteArray) : Except ReadFault Text :=
  match String.fromUTF8? bytes with
  | some s => .ok s.toList
  | none => .error .notUtf8

inductive FileTree where
  | file (content : ByteArray)
  | directory (entries : List (Text × FileTree))

namespace FileTree

/-- The most bytes of a name. -/
def maxName : Nat := 255

/-- The most bytes of a path. -/
def maxPath : Nat := 4095

/-- Follows the components of a path from a place with the given directories above it. What lies
above the outermost of them is an empty directory. -/
def follow (here : FileTree) (above : List FileTree) : List Text → Except ReadFault FileTree
  | [] => .ok here
  | component :: rest =>
    match here with
    | .file _ => .error .notADirectory
    | .directory entries =>
      if component = [] ∨ component = "." then follow here above rest
      else if component = ".." then
        match above with
        | [] => follow (.directory []) [] rest
        | parent :: above => follow parent above rest
      else if maxName < component.byteCount then .error .nameTooLong
      else
        match entries.lookup component with
        | none => .error .notFound
        | some tree => follow tree (here :: above) rest

/-- What a path leads to from a directory. A path that starts with a slash leads outside. -/
def find (root : FileTree) (path : Text) : Except ReadFault FileTree :=
  if path = [] then .error .notFound
  else if path.contains '\x00' then .error .zeroInName
  else if maxPath < path.byteCount then .error .nameTooLong
  else follow (if path.head? = some '/' then .directory [] else root) [] (path.splitOnP (· = '/'))

/-- Whether a path leads anywhere. -/
def holds (root : FileTree) (path : Text) : Bool :=
  match root.find path with
  | .ok _ => true
  | .error _ => false

/-- The text of the file that a path leads to. -/
def read (root : FileTree) (path : Text) : Except ReadFault Text := do
  match ← root.find path with
  | .file content => decodeUtf8 content
  | .directory _ => .error .isADirectory

/-- Puts a tree at a path given by its components, with the directories on the way. -/
def put (tree : FileTree) : List Text → FileTree → FileTree
  | [], _ => tree
  | name :: path, .directory entries =>
    .directory ((name, put tree path ((entries.lookup name).getD (.directory [])))
      :: entries.filter fun (n, _) => n ≠ name)
  | name :: path, .file _ => .directory [(name, put tree path (.directory []))]

end FileTree

end LayerLint
