/-!
Paths as text. A path is cut at its slashes; empty parts and single points lead
nowhere and are passed over. A file name falls into a stem and an extension at
its last point, unless that point stands first.
-/

namespace Collate.Path

def parts : List Char → List (List Char)
  | [] => [[]]
  | c :: rest =>
    if c = '/' then [] :: parts rest
    else match parts rest with
      | [] => [[c]]
      | part :: more => (c :: part) :: more

/-- Whether a part of a path leads anywhere. -/
def isStep (part : List Char) : Bool :=
  part != [] && part != ['.']

def steps (path : String) : List String :=
  ((parts path.toList).filter isStep).map String.ofList

/-- The part that leads one level up. -/
def up : String := ".."

/-- The file that a path names, if its last step names one. -/
def fileName? (path : String) : Option String :=
  ((steps path).getLast?).filter fun name => name != up

structure NameParts where
  stem : String
  /-- What follows the last point, unless that point stands first. -/
  extension? : Option String
  deriving DecidableEq, Repr

def splitName (name : String) : NameParts :=
  let reversed := name.toList.reverse
  match reversed.dropWhile (· != '.') with
  | [] | [_] => ⟨name, none⟩
  | _ :: before =>
    ⟨String.ofList before.reverse,
      some (String.ofList (reversed.takeWhile (· != '.')).reverse)⟩

def NameParts.name (p : NameParts) : String :=
  match p.extension? with
  | some e => p.stem ++ "." ++ e
  | none => p.stem

def nameParts? (path : String) : Option NameParts :=
  (fileName? path).map splitName

def extension? (path : String) : Option String :=
  (nameParts? path).bind (·.extension?)

end Collate.Path
