import Collate.Text.Utf8

/-!
Archives of named entries in one file. A directory at the end lists the entries
and where each begins; an end record after it says where the directory is. Only
archives whose entries are all stored as they are can be opened: one that has a
compressed entry is refused. `pack` writes such an archive and `unpack` reads it.
-/

namespace Collate.Workbook

/-- The entries of an archive. -/
structure Archive where
  entries : List (String × Octets)
  deriving DecidableEq, Repr

inductive ArchiveFault where
  | notArchive
  /-- It has an entry that is not stored as it is. -/
  | compressed
  deriving DecidableEq, Repr

def ArchiveFault.message : ArchiveFault → String
  | .notArchive => "invalid Zip archive: Could not find EOCD"
  | .compressed => "unsupported Zip archive: Compression method not supported"

namespace Archive

/-- A number as `count` octets, the lowest first. -/
def littleEndian : Nat → Nat → Octets
  | 0, _ => []
  | count + 1, n => UInt8.ofNat (n % 256) :: littleEndian count (n / 256)

def number : Octets → Nat
  | [] => 0
  | b :: rest => b.toNat + 256 * number rest

def entryMark : Octets := [0x50, 0x4B, 0x03, 0x04]

def lineMark : Octets := [0x50, 0x4B, 0x01, 0x02]

def endMark : Octets := [0x50, 0x4B, 0x05, 0x06]

/-- The fields that an entry and its line of the directory share: versions and
flags, method, time and checksum left zero, sizes, and the name's length. -/
def sharedFields (name content : Octets) : Octets :=
  littleEndian 2 10 ++ littleEndian 2 0 ++ littleEndian 2 0 ++ littleEndian 4 0 ++
    littleEndian 4 0 ++ littleEndian 4 content.length ++ littleEndian 4 content.length ++
    littleEndian 2 name.length ++ littleEndian 2 0

def packEntry (name content : Octets) : Octets :=
  entryMark ++ sharedFields name content ++ name ++ content

def packLine (name content : Octets) (offset : Nat) : Octets :=
  lineMark ++ littleEndian 2 10 ++ sharedFields name content ++ littleEndian 2 0 ++
    littleEndian 2 0 ++ littleEndian 2 0 ++ littleEndian 4 0 ++ littleEndian 4 offset ++ name

def packFrom (offset : Nat) : List (String × Octets) → Octets × Octets
  | [] => ([], [])
  | (name, content) :: rest =>
    let name := Text.Utf8.ofText name
    let entry := packEntry name content
    let (entries, lines) := packFrom (offset + entry.length) rest
    (entry ++ entries, packLine name content offset ++ lines)

def pack (a : Archive) : Octets :=
  let (entries, lines) := packFrom 0 a.entries
  entries ++ lines ++ endMark ++ littleEndian 4 0 ++ littleEndian 2 a.entries.length ++
    littleEndian 2 a.entries.length ++ littleEndian 4 lines.length ++
    littleEndian 4 entries.length ++ littleEndian 2 0

def slice (octets : Octets) (offset count : Nat) : Octets :=
  (octets.drop offset).take count

def isStored (line : Octets) : Bool := number (slice line 10 2) == 0

/-- The content of the stored entry whose line of the directory is given. -/
def contentAt (file line : Octets) : Octets :=
  let offset := number (slice line 42 4)
  let size := number (slice line 20 4)
  let header := slice file offset 30
  let skipped := 30 + number (slice header 26 2) + number (slice header 28 2)
  slice file (offset + skipped) size

def readLines (file : Octets) : Nat → Octets → Except ArchiveFault (List (String × Octets))
  | 0, _ => .ok []
  | count + 1, lines => do
    if !lineMark.isPrefixOf lines then .error .notArchive
    else if !isStored lines then .error .compressed
    else
      let nameLength := number (slice lines 28 2)
      let length := 46 + nameLength + number (slice lines 30 2) + number (slice lines 32 2)
      let name := String.ofList (Text.Utf8.decodeLossy (slice lines 46 nameLength))
      .ok ((name, contentAt file lines) :: (← readLines file count (lines.drop length)))

/-- The end record: the last place where its mark stands. -/
def endRecord? : Octets → Option Octets
  | [] => none
  | b :: rest =>
    match endRecord? rest with
    | some found => some found
    | none => if endMark.isPrefixOf (b :: rest) then some (b :: rest) else none

/-- Opens an archive, if the file is one. -/
def unpack (file : Octets) : Except ArchiveFault Archive :=
  match endRecord? file with
  | none => .error .notArchive
  | some record => do
    let count := number (slice record 10 2)
    let offset := number (slice record 16 4)
    .ok ⟨← readLines file count (file.drop offset)⟩

/-- The content of the entry with a name, the last one if it is repeated. -/
def entry? (a : Archive) (name : String) : Option Octets :=
  (a.entries.reverse.find? (·.1 == name)).map (·.2)

end Archive

end Collate.Workbook
