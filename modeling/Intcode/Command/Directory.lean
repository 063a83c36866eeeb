/-!
A directory of files, as a command sees it: names with their bytes, and no directory inside it.
Paths are followed from the directory, component by component.
-/
namespace Intcode.Command

/-- Why a file cannot be read as text. -/
inductive ReadFault where
  | notFound
  | notDirectory
  | isDirectory
  | nameTooLong
  | invalidText
  /-- Another reason, in the words of the system. -/
  | other (message : String)
  deriving DecidableEq, Repr

def ReadFault.message : ReadFault → String
  | notFound => "No such file or directory (os error 2)"
  | notDirectory => "Not a directory (os error 20)"
  | isDirectory => "Is a directory (os error 21)"
  | nameTooLong => "File name too long (os error 36)"
  | invalidText => "stream did not contain valid UTF-8"
  | other message => message

/-- The text that bytes encode in UTF-8. -/
def decode (bytes : ByteArray) : Except ReadFault String :=
  match String.fromUTF8? bytes with
  | some text => .ok text
  | none => .error .invalidText

abbrev Directory := List (String × ByteArray)

namespace Directory

/-- The most bytes that a component of a path may have. -/
def maxName : Nat := 255

/-- The most bytes that a path may have. -/
def maxPath : Nat := 4095

/-- Goes on from a file, which has nothing inside it. -/
def followFile (bytes : ByteArray) : List String → Except ReadFault ByteArray
  | [] => .ok bytes
  | _ :: _ => .error .notDirectory

/-- Goes on from the directory. Of its parent only that it is a directory is known. -/
def follow (directory : Directory) : List String → Except ReadFault ByteArray
  | [] => .error .isDirectory
  | component :: rest =>
    if component = "" ∨ component = "." then follow directory rest
    else if component = ".." then follow [] rest
    else if maxName < component.utf8ByteSize then .error .nameTooLong
    else
      match directory.lookup component with
      | none => .error .notFound
      | some bytes => followFile bytes rest

def read (directory : Directory) (path : String) : Except ReadFault ByteArray :=
  if path = "" then .error .notFound
  else if maxPath < path.utf8ByteSize then .error .nameTooLong
  else if path.startsWith "/" then follow [] (path.splitOn "/")
  else follow directory (path.splitOn "/")

end Directory

end Intcode.Command
