import Collate.Path

/-!
Content types by file name. The extension decides, case set aside: the long s
counts as an s and the ligature of two f as two letters. Which types extensions
have is a registry's matter; one of common document types is used unless
another is given.
-/

namespace Collate.ContentType

def csv : String := "text/csv"

def json : String := "application/json"

def plain : String := "text/plain"

/-- The content types of extensions in lower case. -/
class Registry where
  ofExtension? : String → Option String

/-- Extensions of common documents. -/
def common : List (String × String) :=
  [("pdf", "application/pdf"), ("json", json), ("csv", csv), ("txt", plain), ("log", plain),
    ("png", "image/png"), ("jpg", "image/jpeg"), ("jpeg", "image/jpeg"), ("gif", "image/gif"),
    ("tif", "image/tiff"), ("tiff", "image/tiff"),
    ("xlsx", "application/vnd.openxmlformats-officedocument.spreadsheetml.sheet"),
    ("xls", "application/vnd.ms-excel"), ("doc", "application/msword"),
    ("docx", "application/vnd.openxmlformats-officedocument.wordprocessingml.document"),
    ("xml", "text/xml"), ("html", "text/html"), ("gz", "application/gzip"),
    ("zip", "application/zip"), ("md", "text/markdown"), ("tsv", "text/tab-separated-values")]

instance : Registry := ⟨fun extension => common.lookup extension⟩

def folded (c : Char) : List Char :=
  if c = '\u017F' then ['s'] else if c = '\uFB00' then ['f', 'f'] else [c.toLower]

/-- The content type of a file, if its extension is a known one. -/
def ofFilename? [Registry] (path : String) : Option String := do
  let extension ← Path.extension? path
  Registry.ofExtension? (String.ofList (extension.toList.flatMap folded))

end Collate.ContentType
