import Collate.Disk
import Collate.Table.Csv

/-!
Tables in files of comma-separated values.
-/

namespace Collate.Table

inductive FileFault where
  | disk (error : DiskError)
  | csv (fault : Csv.Fault)
  deriving DecidableEq, Repr

def FileFault.message : FileFault → String
  | .disk e => e.message
  | .csv fault => fault.message

def ofFile (d : Disk) (path : String) : Except FileFault Table :=
  match d.read path with
  | .ok content => (ofCsv content).mapError .csv
  | .error e => .error (.disk e)

end Collate.Table
