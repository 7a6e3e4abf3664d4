import Rulebook.Entries

/-!
# Directory trees

The files that a command can see, as a tree. Paths lead from the directory where the command runs;
nothing above it can be seen.
-/

namespace Rulebook.Command

/-- The entries of a directory are sorted by name. -/
inductive Tree where
  | file (bytes : ByteArray)
  | directory (entries : List (String × Tree))

/-- Why something cannot be opened or read. -/
inductive FileError where
  | notFound
  | notDirectory
  | isDirectory
  | notUtf8
deriving DecidableEq, Repr

def FileError.message : FileError → String
  | .notFound => "No such file or directory (os error 2)"
  | .notDirectory => "Not a directory (os error 20)"
  | .isDirectory => "Is a directory (os error 21)"
  | .notUtf8 => "stream did not contain valid UTF-8"

namespace Path

def parts (path : String) : List String := path.splitToList (· = '/')

/-- The names on a path, without the parts that stay where they are. -/
def names (path : String) : List String :=
  (parts path).filter fun name => name ≠ "" && name ≠ "."

/-- The last name on a path, unless it leads up. -/
def fileName? (path : String) : Option String :=
  (names path).getLast?.filter (· ≠ "..")

def join (path name : String) : String :=
  if path.endsWith "/" then path ++ name else path ++ "/" ++ name

/-- A name split at its last dot; one at its beginning does not count. -/
def splitExtension (name : String) : String × Option String :=
  let cs := name.toList.reverse
  let extension := cs.takeWhile (· ≠ '.')
  match cs.dropWhile (· ≠ '.') with
  | [] | [_] => (name, none)
  | _ :: stem => (String.ofList stem.reverse, some (String.ofList extension.reverse))

end Path

namespace Tree

/-- Goes along the parts of a path from `here`, where `above` are the directories around it, the
nearest first. A part that stays where it is must stay in a directory. -/
def resolve (above : List Tree) (here : Tree) : List String → Except FileError Tree
  | [] => .ok here
  | name :: rest =>
    match here with
    | file _ => .error .notDirectory
    | directory entries =>
      if name = "" ∨ name = "." then resolve above here rest
      else if name = ".." then
        match above with
        | [] => .error .notFound
        | parent :: above => resolve above parent rest
      else
        match Entries.get? entries name with
        | some t => resolve (here :: above) t rest
        | none => .error .notFound

/-- What a path leads to. -/
def find (root : Tree) (path : String) : Except FileError Tree :=
  if path.startsWith "/" then .error .notFound else resolve [] root (Path.parts path)

def read (root : Tree) (path : String) : Except FileError ByteArray := do
  match ← root.find path with
  | file bytes => return bytes
  | directory _ => throw .isDirectory

def readText (root : Tree) (path : String) : Except FileError String := do
  match String.fromUTF8? (← root.read path) with
  | some text => return text
  | none => throw .notUtf8

mutual

/-- Everything below a path, the path first, and each directory before what it holds. -/
def walk (path : String) : Tree → List (String × Tree)
  | file bytes => [(path, file bytes)]
  | directory entries => (path, directory entries) :: walkAll path entries

def walkAll (path : String) : List (String × Tree) → List (String × Tree)
  | [] => []
  | (name, t) :: rest => t.walk (Path.join path name) ++ walkAll path rest

end

def entries : Tree → List (String × Tree)
  | file _ => []
  | directory es => es

/-- Puts a file where names lead from a directory, with the directories on the way. -/
def insert (t : Tree) (bytes : ByteArray) : (names : List String) → Tree
  | [] => file bytes
  | name :: rest =>
    let child := (Entries.get? t.entries name).getD (directory [])
    directory (Entries.insert t.entries name (child.insert bytes rest))

end Tree

end Rulebook.Command
