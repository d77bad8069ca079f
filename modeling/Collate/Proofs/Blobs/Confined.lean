import Collate.Proofs.Blobs

/-!
No reference leads out of the root. What is refused is refused before the disk is looked
at. What is accepted has no step that goes up, so its path denotes a place below that of
the root, and a file that is written lies directly in its directory under a name that is a
single step. So whatever is read and written in turn, it is below the root.
-/

namespace Collate

namespace Path

theorem components_join (path reference : String) :
    components (path ++ "/" ++ reference) = components path ++ components reference := by
  rw [← parts_eq_components, parts_join, List.map_append, parts_eq_components,
    parts_eq_components]

theorem components_of_no_slash {name : String} (h : '/' ∉ name.toList) :
    components name = [name] := by
  rw [← parts_eq_components, parts_of_no_slash h, List.map_singleton, String.ofList_toList]

end Path

namespace Blobs

variable {b : Blobs} {d d' : Disk} {directory filename name path reference : String}
  {content : Octets}

theorem NamesFile.components (h : NamesFile name) : Path.components name = [name] :=
  Path.components_of_no_slash h.noSlash

theorem NamesFile.steps (h : NamesFile name) : Path.steps name = [name] := by
  rw [Path.steps_eq_filter, h.components]
  simp [h.named, h.notHere]

theorem steps_inDirectory (h : NamesFile name) (directory : String) :
    Path.steps (inDirectory directory name) = Path.steps directory ++ [name] := by
  rw [inDirectory]
  by_cases hroot : directory.isEmpty = true
  · rw [if_pos hroot, h.steps, String.isEmpty_iff.mp hroot]
    rfl
  · rw [if_neg hroot, Path.steps_join, h.steps]

/-- The reference of a file in a directory stays below the root. -/
theorem IsDirectory.inDirectory (h : IsDirectory directory) (hname : NamesFile name) :
    StaysInside (inDirectory directory name) := by
  rw [Blobs.inDirectory]
  by_cases hroot : directory.isEmpty = true
  · rw [if_pos hroot]
    refine ⟨hname.named, fun hslash => ?_, ?_⟩
    · exact hname.noSlash (List.mem_of_head? hslash)
    · rw [hname.components, List.mem_singleton]
      exact hname.notUp.symm
  · have hinside := h.resolve_left (mt String.isEmpty_iff.mpr hroot)
    rw [if_neg hroot]
    refine ⟨by simp, fun hslash => hinside.relative ?_, ?_⟩
    · obtain ⟨c, rest, hchars⟩ : ∃ c rest, directory.toList = c :: rest :=
        List.exists_cons_of_ne_nil (by simpa using hinside.named)
      simpa [hchars] using hslash
    · rw [Path.components_join, hname.components, List.mem_append, List.mem_singleton, not_or]
      exact ⟨hinside.downward, hname.notUp.symm⟩

theorem StaysInside.place (h : StaysInside reference) (b : Blobs) :
    Path.place (b.pathOf reference) = Path.place b.root ++ Path.steps reference := by
  apply Path.place_join
  rw [← Path.mem_components, String.ofList_toList]
  exact h.downward

theorem StaysInside.up_not_mem_steps (h : StaysInside reference) :
    Path.up ∉ Path.steps reference := by
  rw [Path.steps_eq_filter]
  exact fun hup => h.downward (List.mem_filter.mp hup).1

/-- A place below that of the root. -/
def Below (b : Blobs) (place : Place) : Prop :=
  ∃ below, Path.up ∉ below ∧ place = Path.place b.root ++ below

def placeIn (b : Blobs) (directory name : String) : Place :=
  Path.place b.root ++ Path.steps directory ++ [name]

theorem place_inDirectory (h : IsDirectory directory) (hname : NamesFile name) (b : Blobs) :
    Path.place (b.pathOf (inDirectory directory name)) = b.placeIn directory name := by
  rw [(h.inDirectory hname).place, steps_inDirectory hname, placeIn, List.append_assoc]

theorem below_placeIn (h : IsDirectory directory) (hname : NamesFile name) (b : Blobs) :
    b.Below (b.placeIn directory name) := by
  refine ⟨Path.steps directory ++ [name], ?_, List.append_assoc _ _ _⟩
  rw [List.mem_append, List.mem_singleton, not_or]
  refine ⟨?_, hname.notUp.symm⟩
  rcases h with rfl | hinside
  · decide
  · exact hinside.up_not_mem_steps

/-- A blob that is stored is in its directory, under the name that was found for it. -/
theorem Stored.file {n : Nat} (h : b.Stored d directory filename content n reference d') :
    ∃ name, NamesFile name ∧ d'.files = d.files ++ [(b.placeIn directory name, content)] := by
  have hname := (nthName_candidate filename h.first).namesFile h.name
  obtain ⟨place, hlocate, -, rfl⟩ := Disk.create_eq_ok_iff.mp h.create
  refine ⟨_, hname, ?_⟩
  rw [Disk.withFile_files, ensureDirectory_files, Disk.locate_eq_place hlocate, h.found,
    place_inDirectory h.inside hname]

/-- What is read is the content of a file below the root. -/
theorem read_below (h : b.read d reference = .ok content) :
    ∃ place, b.Below place ∧ d.file? place = some content := by
  by_cases hinside : StaysInside reference
  · rw [read_eq_ok_iff hinside] at h
    obtain ⟨place, hlocate, hfile⟩ := Disk.read_eq_ok_iff.mp h
    rw [Disk.locate_eq_place hlocate, hinside.place] at hfile
    exact ⟨_, ⟨_, hinside.up_not_mem_steps, rfl⟩, hfile⟩
  · rw [read, resolve_eq_error hinside] at h
    cases h

/-! One use after the other. -/

inductive Use where
  | read (reference : String)
  | write (directory filename : String) (content : Octets)

def Use.after (b : Blobs) (d : Disk) : Use → Disk
  | .read _ => d
  | .write directory filename content => (b.write d directory filename content).2

/-- All files that are new on a disk are below the root. -/
def AddsBelow (b : Blobs) (d d' : Disk) : Prop :=
  ∃ new, d'.files = d.files ++ new ∧ ∀ file ∈ new, b.Below file.1

theorem AddsBelow.of_same (h : d'.files = d.files) : b.AddsBelow d d' :=
  ⟨[], by rw [h, List.append_nil], nofun⟩

theorem AddsBelow.trans {d'' : Disk} (h : b.AddsBelow d d') (h' : b.AddsBelow d' d'') :
    b.AddsBelow d d'' := by
  obtain ⟨new, hnew, hbelow⟩ := h
  obtain ⟨more, hmore, hbelow'⟩ := h'
  refine ⟨new ++ more, by rw [hmore, hnew, List.append_assoc], fun file hfile => ?_⟩
  exact (List.mem_append.mp hfile).elim (hbelow file) (hbelow' file)

/-- A write adds a file in its directory, or none. -/
theorem write_files (b : Blobs) (d : Disk) (directory filename : String) (content : Octets) :
    (b.write d directory filename content).2.files = d.files ∨
      ∃ name, NamesFile name ∧ (b.write d directory filename content).2.files =
        d.files ++ [(b.placeIn (trimSlashes directory) name, content)] := by
  cases hwrite : b.write d directory filename content with
  | mk result d' =>
  cases result with
  | error fault => exact .inl (write_error hwrite)
  | ok reference =>
    obtain ⟨n, hstored⟩ := exists_stored hwrite
    exact .inr hstored.file

theorem write_badName (h : ¬ NamesFile filename) (b : Blobs) (d : Disk) (directory : String)
    (content : Octets) :
    b.write d directory filename content = (.error (.invalidReference filename), d) := by
  rw [write, if_neg (mt isFileName_iff.mp h)]

theorem write_badDirectory (hname : NamesFile filename)
    (h : ¬ IsDirectory (trimSlashes directory)) (b : Blobs) (d : Disk) (content : Octets) :
    b.write d directory filename content =
      (.error (.invalidReference (trimSlashes directory)), d) := by
  rw [write, if_pos (isFileName_iff.mpr hname)]
  simp only [directoryPath_eq_error h]

theorem addsBelow_use (b : Blobs) (d : Disk) (use : Use) : b.AddsBelow d (use.after b d) := by
  cases use with
  | read => exact .of_same rfl
  | write directory filename content =>
    by_cases hname : NamesFile filename
    case neg => exact .of_same (by rw [Use.after, write_badName hname])
    by_cases hdirectory : IsDirectory (trimSlashes directory)
    case neg => exact .of_same (by rw [Use.after, write_badDirectory hname hdirectory])
    rcases b.write_files d directory filename content with hsame | ⟨name, hnamed, hnew⟩
    · exact .of_same hsame
    · refine ⟨_, hnew, fun file hfile => ?_⟩
      rw [List.mem_singleton.mp hfile]
      exact below_placeIn hdirectory hnamed b

theorem addsBelow_uses (b : Blobs) (d : Disk) (uses : List Use) :
    b.AddsBelow d (uses.foldl (Use.after b) d) := by
  induction uses generalizing d with
  | nil => exact .of_same rfl
  | cons use rest ih => exact (addsBelow_use b d use).trans (ih _)

/-- A reference is accepted exactly if it stays below the root, and then its path denotes the
place that its components lead to from there. A write is refused, with the disk as it was,
or puts at most one file directly into its directory; and after any uses of the blobs all
that is new or can be read is below the root. -/
theorem confined (b : Blobs) :
    (∀ reference, (∃ path, b.resolve reference = .ok path) ↔ StaysInside reference) ∧
    (∀ reference path, b.resolve reference = .ok path →
      Path.place path = Path.place b.root ++
        (Path.components reference).filter (fun c => c ≠ "" && c ≠ ".") ∧
      ∀ d : Disk, ∀ place, d.locate path = .ok place → place = Path.place path) ∧
    (∀ d directory filename content,
      (¬ NamesFile filename →
        b.write d directory filename content = (.error (.invalidReference filename), d)) ∧
      (NamesFile filename → ¬ IsDirectory (trimSlashes directory) →
        b.write d directory filename content =
          (.error (.invalidReference (trimSlashes directory)), d)) ∧
      (NamesFile filename → IsDirectory (trimSlashes directory) →
        (b.write d directory filename content).2.files = d.files ∨
        ∃ name, NamesFile name ∧ (b.write d directory filename content).2.files =
          d.files ++ [(b.placeIn (trimSlashes directory) name, content)])) ∧
    (∀ (d : Disk) (uses : List Use), b.AddsBelow d (uses.foldl (Use.after b) d) ∧
      ∀ reference content, b.read (uses.foldl (Use.after b) d) reference = .ok content →
        ∃ place, b.Below place ∧
          (uses.foldl (Use.after b) d).file? place = some content) := by
  refine ⟨fun reference => ?_, fun reference path hresolve => ?_, fun d directory filename
    content => ⟨?_, ?_, ?_⟩, fun d uses => ⟨addsBelow_uses b d uses, ?_⟩⟩
  · constructor
    · exact fun ⟨_, hresolve⟩ => (resolve_eq_ok_iff.mp hresolve).1
    · exact fun hinside => ⟨_, resolve_eq_ok_iff.mpr ⟨hinside, rfl⟩⟩
  · obtain ⟨hinside, rfl⟩ := resolve_eq_ok_iff.mp hresolve
    rw [hinside.place, Path.steps_eq_filter]
    refine ⟨rfl, fun d place hlocate => ?_⟩
    rw [Disk.locate_eq_place hlocate, hinside.place, Path.steps_eq_filter]
  · exact fun hname => write_badName hname b d directory content
  · exact fun hname hdirectory => write_badDirectory hname hdirectory b d content
  · exact fun _ _ => b.write_files d directory filename content
  · exact fun reference content hread => read_below hread

/-- A name that goes up is refused, and points and doubled slashes lead nowhere. -/
theorem uploads_confined :
    (⟨"uploads"⟩ : Blobs).write .empty "orders" ".." [1] =
      (.error (.invalidReference ".."), .empty) ∧
    Path.place "uploads/orders//./7" = ["uploads", "orders", "7"] := by
  obtain ⟨-, hplace, hwrite, -⟩ := confined ⟨"uploads"⟩
  refine ⟨(hwrite .empty "orders" ".." [1]).1 ?_, ?_⟩
  · exact fun h => h.notUp rfl
  · exact (hplace "orders//./7" "uploads/orders//./7" (by decide +kernel)).1.trans
      (by decide +kernel)

end Blobs

end Collate
