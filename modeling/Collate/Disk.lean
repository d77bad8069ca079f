import Collate.Path
import Collate.Text.Utf8

/-!
A disk: directories and files, each under the steps that lead to it from the
top. A path is walked part by part, which fails where a step is missing or leads
through a file; an empty part or a point still demands a directory. Nothing is
ever removed.
-/

namespace Collate

inductive DiskError where
  | notFound
  | notDirectory
  | isDirectory
  | alreadyThere
  | nulInName
  /-- A file that should be text. -/
  | notText
  deriving DecidableEq, Repr

def DiskError.message : DiskError → String
  | .notFound => "No such file or directory (os error 2)"
  | .notDirectory => "Not a directory (os error 20)"
  | .isDirectory => "Is a directory (os error 21)"
  | .alreadyThere => "File exists (os error 17)"
  | .nulInName => "file name contained an unexpected NUL byte"
  | .notText => "stream did not contain valid UTF-8"

/-- The steps from the top of a disk to a place. -/
abbrev Place := List String

structure Disk where
  directories : List Place
  files : List (Place × Octets)
  deriving DecidableEq, Repr

namespace Disk

/-- A disk with nothing but its top directory. -/
def empty : Disk := ⟨[], []⟩

def hasDirectory (d : Disk) (place : Place) : Bool :=
  place.isEmpty || d.directories.contains place

def file? (d : Disk) (place : Place) : Option Octets :=
  d.files.lookup place

def hasFile (d : Disk) (place : Place) : Bool :=
  (d.file? place).isSome

/-- Follows the parts of a path from a place. -/
def walk (d : Disk) (place : Place) : List (List Char) → Except DiskError Place
  | [] => .ok place
  | part :: rest =>
    if d.hasDirectory place then
      if Path.isStep part then
        if part = Path.up.toList then d.walk place.dropLast rest
        else d.walk (place ++ [String.ofList part]) rest
      else d.walk place rest
    else if d.hasFile place then .error .notDirectory
    else .error .notFound

/-- The place that a path leads to, where there need not be anything. -/
def locate (d : Disk) (path : String) : Except DiskError Place :=
  if path.isEmpty then .error .notFound
  else if path.toList.contains '\x00' then .error .nulInName
  else d.walk [] (Path.parts path.toList)

def hasPath (d : Disk) (path : String) : Bool :=
  match d.locate path with
  | .ok place => d.hasDirectory place || d.hasFile place
  | .error _ => false

def read (d : Disk) (path : String) : Except DiskError Octets := do
  let place ← d.locate path
  match d.file? place with
  | some content => .ok content
  | none => if d.hasDirectory place then .error .isDirectory else .error .notFound

def readText (d : Disk) (path : String) : Except DiskError String := do
  let content ← d.read path
  match Text.Utf8.decode content with
  | .ok text => .ok (String.ofList text)
  | .error _ => .error .notText

/-- Puts a file where there is nothing yet. -/
def create (d : Disk) (path : String) (content : Octets) : Except DiskError Disk := do
  let place ← d.locate path
  if d.hasDirectory place || d.hasFile place then .error .alreadyThere
  else .ok { d with files := d.files ++ [(place, content)] }

/-- Puts a file somewhere, in place of one that is there. -/
def put (d : Disk) (path : String) (content : Octets) : Except DiskError Disk := do
  let place ← d.locate path
  if d.hasDirectory place then .error .isDirectory
  else .ok { d with files := d.files.filter (fun f => f.1 != place) ++ [(place, content)] }

/-- Makes the directory that some parts of a path lead to, if it is not there. -/
def makeDirectory (d : Disk) (parts : List (List Char)) : Except DiskError Disk := do
  let place ← d.walk [] parts
  if d.hasDirectory place then .ok d
  else if d.hasFile place then .error .alreadyThere
  else .ok { d with directories := d.directories ++ [place] }

/-- Makes the directory of a path whose parts are given last part first, and those
that lead to it if there is no way to it. Points after its last step ask for the
directory itself, so that all but the last step is made before that fails. -/
def makeWay (d : Disk) (points : List (List Char)) :
    List (List Char) → Except DiskError Unit × Disk
  | [] => (.ok (), d)
  | part :: before =>
    if Path.isStep part then
      let parts := (part :: before).reverse ++ points
      match d.makeDirectory parts with
      | .ok d => (.ok (), d)
      | .error .notFound =>
        match d.makeWay [] before with
        | (.error e, d) => (.error e, d)
        | (.ok (), d) =>
          match d.makeDirectory parts with
          | .ok d => (.ok (), d)
          | .error e => (.error e, d)
      | .error e => (.error e, d)
    else d.makeWay points before

/-- The points that a path ends in, with slashes between them or not. -/
def endingPoints (parts : List (List Char)) : List (List Char) :=
  (parts.reverse.takeWhile fun part => !Path.isStep part).filter (· != [])

/-- Makes the directory of a path and all that lead to it. -/
def makeDirectories (d : Disk) (path : String) : Except DiskError Unit × Disk :=
  if path.toList.contains '\x00' then (.error .nulInName, d)
  else
    let parts := Path.parts path.toList
    d.makeWay (endingPoints parts) parts.reverse

end Disk

end Collate
