import Collate.Disk

/-!
Blobs: files under a root directory, found again by references. A reference is a
path that cannot lead out of the root. Writing never replaces a file: while a
name is taken, the stem of the name gets a number, up to a limit.
-/

namespace Collate

inductive BlobFault where
  | noDirectory (path : String) (error : DiskError)
  | unreadable (path : String) (error : DiskError)
  | unwritable (path : String) (error : DiskError)
  | invalidReference (reference : String)
  | allTaken (path : String)
  deriving DecidableEq, Repr

def BlobFault.message : BlobFault → String
  | .noDirectory path e => s!"Failed to create directory '{path}': {e.message}"
  | .unreadable path e => s!"Failed to read file '{path}': {e.message}"
  | .unwritable path e => s!"Failed to write file '{path}': {e.message}"
  | .invalidReference reference => s!"Storage reference escapes the storage root: {reference}"
  | .allTaken path => s!"File already exists: {path}"

structure Blobs where
  root : String
  deriving DecidableEq, Repr

namespace Blobs

/-- How many names are tried for a file. -/
def maxNames : Nat := 1000

def isInside (reference : String) : Bool :=
  !reference.isEmpty && reference.front != '/' &&
    !(Path.parts reference.toList).contains Path.up.toList

def resolve (b : Blobs) (reference : String) : Except BlobFault String :=
  if isInside reference then .ok (b.root ++ "/" ++ reference)
  else .error (.invalidReference reference)

def read (b : Blobs) (d : Disk) (reference : String) : Except BlobFault Octets := do
  let path ← b.resolve reference
  (d.read path).mapError (.unreadable path)

def isFileName (name : String) : Bool :=
  name != "" && name != "." && name != ".." &&
    name.toList.all fun c => c != '/' && c != '\\'

/-- The nth name tried for a file, the first one being the name itself. -/
def candidate (filename : String) (n : Nat) : String :=
  if n ≤ 1 then filename
  else
    let parts := Path.splitName filename
    { parts with stem := s!"{parts.stem}_{n}" }.name

/-- Puts a file into a directory under the first free of the names from the nth
on. -/
def store (d : Disk) (directory filename : String) (content : Octets) (n : Nat) :
    Nat → Except BlobFault (String × Disk)
  | 0 => .error (.allTaken (directory ++ "/" ++ filename))
  | tries + 1 =>
    let name := candidate filename n
    let path := directory ++ "/" ++ name
    match d.create path content with
    | .ok d => .ok (name, d)
    | .error .alreadyThere => store d directory filename content (n + 1) tries
    | .error e => .error (.unwritable path e)

def trimSlashes (directory : String) : String :=
  let kept := directory.toList.dropWhile (· == '/')
  String.ofList (kept.reverse.dropWhile (· == '/')).reverse

/-- The path of a directory below the root, the root itself when nothing is
named. -/
def directoryPath (b : Blobs) (directory : String) : Except BlobFault String :=
  if directory.isEmpty then .ok b.root else b.resolve directory

def ensureDirectory (d : Disk) (path : String) : Except BlobFault Unit × Disk :=
  if d.hasPath path then (.ok (), d)
  else
    let (made, d) := d.makeDirectories path
    (made.mapError (.noDirectory path), d)

/-- Writes a blob into a directory and gives its reference. -/
def write (b : Blobs) (d : Disk) (directory filename : String) (content : Octets) :
    Except BlobFault String × Disk :=
  if isFileName filename then
    let directory := trimSlashes directory
    match b.directoryPath directory with
    | .error e => (.error e, d)
    | .ok path =>
      match ensureDirectory d path with
      | (.error e, d) => (.error e, d)
      | (.ok (), d) =>
        match store d path filename content 1 maxNames with
        | .error e => (.error e, d)
        | .ok (name, d) =>
          (.ok (if directory.isEmpty then name else directory ++ "/" ++ name), d)
  else (.error (.invalidReference filename), d)

end Blobs

end Collate
