import Collate.Blobs
import Collate.Extraction
import Collate.MappingFile
import Collate.Matching.Rule
import Collate.Progress
import Collate.Store.Basic
import Collate.Table.File
import Collate.Table.Flatten

/-!
What the service works on: the store, the disk, the events announced so far, a
clock and a supply of ids. How it works is a `Policy`.
-/

namespace Collate

open Time (Timestamp)

inductive ServiceFault where
  | mapping (fault : MappingFault)
  | payload (error : PayloadError)
  | merge (error : MergeError)
  | order (fault : OrderFault)
  | blob (fault : BlobFault)
  | mappingFile (fault : MappingFile.Fault)
  | constraint (broken : Constraint)
  | table (fault : Table.FileFault)
  deriving DecidableEq, Repr

namespace ServiceFault

def ofStore : StoreFault → ServiceFault
  | .order fault => .order fault
  | .mapping fault => .mapping fault
  | .constraint broken => .constraint broken

/-- The wording of a fault, which says where it comes from. -/
def message : ServiceFault → String
  | .mapping fault => s!"Configuration error: {fault.message}"
  | .payload error => s!"Normalization error: {error.message}"
  | .merge error => s!"Merge error: {error.message}"
  | .order fault => s!"Order error: {fault.message}"
  | .blob fault => s!"Storage error: {fault.message}"
  | .mappingFile fault => s!"Mapping file error: {fault.message}"
  | .constraint broken => s!"Database error: {broken.message}"
  | .table fault => s!"CSV error: {fault.message}"

end ServiceFault

/-- Turns the content of a document into a payload, or says why it cannot. The
first argument counts the earlier calls. -/
abbrev Extractor := Nat → DocumentConfig → Octets → Except String String

/-- The extractor for documents that need no recognition. -/
def Extractor.local : Extractor := fun _ config content =>
  (Extraction.passThrough config content).mapError (·.message)

/-- How the service works. -/
structure Policy where
  flatten : FlattenOptions
  rule : MatchRule
  blobs : Blobs
  extract : Extractor
  /-- Whether progress is announced. -/
  announces : Bool
  [types : ContentType.Registry]

/-- What the service works on. -/
structure Desk where
  store : Store
  disk : Disk
  /-- Events announced, the first one first. -/
  events : List ProgressEvent
  /-- How often the extractor was called. -/
  calls : Nat
  /-- How many ids were given out. -/
  ids : Nat
  clock : Timestamp

namespace Desk

def empty : Desk := ⟨Store.empty, Disk.empty, [], 0, 0, ⟨0, 0⟩⟩

def idOf (n : Nat) : String :=
  "00000000-0000-4000-8000-" ++ Timestamp.padded 12 n

end Desk

end Collate
