import Collate.Proofs.Blobs.Names
import Collate.Proofs.Disk

/-!
What writing a blob does. A name or a directory that could lead out of the root is refused
at once; otherwise the directory is made sure of and the file gets the first of its names
that is free. Nothing is ever removed, so the reference of a blob that was written is one
that led nowhere before, and no two blobs have the same reference.
-/

namespace Collate.Blobs

variable {b : Blobs} {d d' : Disk} {directory filename name path reference : String}
  {content : Octets}

def pathOf (b : Blobs) (reference : String) : String := b.root ++ "/" ++ reference

def inDirectory (directory name : String) : String :=
  if directory.isEmpty then name else directory ++ "/" ++ name

/-! References. -/

/-- A reference stays below the root if it names something, does not start at the top and
never goes up. -/
structure StaysInside (reference : String) : Prop where
  named : reference ≠ ""
  relative : reference.toList.head? ≠ some '/'
  downward : Path.up ∉ Path.components reference

theorem isInside_iff : isInside reference = true ↔ StaysInside reference := by
  have hfront : reference.front = '/' ↔ reference.toList.head? = some '/' := by
    rw [String.front_eq, String.front?_eq]
    cases reference.toList.head? with
    | none => exact iff_of_false (by decide) nofun
    | some c => exact (Option.some_inj (a := c) (b := '/')).symm
  have hup : Path.up.toList ∈ Path.parts reference.toList ↔
      Path.up ∈ Path.components reference := by
    rw [← Path.mem_components, String.ofList_toList]
  simp only [isInside, Bool.and_eq_true, Bool.not_eq_true', bne_iff_ne, ne_eq, hfront,
    String.isEmpty_eq_false_iff, List.contains_eq_mem, decide_eq_false_iff_not, hup]
  exact ⟨fun ⟨⟨h, h'⟩, h''⟩ => ⟨h, h', h''⟩, fun ⟨h, h', h''⟩ => ⟨⟨h, h'⟩, h''⟩⟩

theorem resolve_eq_ok_iff :
    b.resolve reference = .ok path ↔ StaysInside reference ∧ path = b.pathOf reference := by
  rw [← isInside_iff, resolve, pathOf]
  by_cases h : isInside reference = true
  · rw [if_pos h, and_iff_right h, Except.ok.injEq, eq_comm]
  · rw [if_neg h]
    exact iff_of_false nofun fun ⟨hinside, _⟩ => h hinside

theorem resolve_eq_error (h : ¬ StaysInside reference) :
    b.resolve reference = .error (.invalidReference reference) := by
  rw [resolve, if_neg (mt isInside_iff.mp h)]

/-- What can be read at all is what the disk has at the path. -/
theorem read_eq_ok_iff (h : StaysInside reference) :
    b.read d reference = .ok content ↔ d.read (b.pathOf reference) = .ok content := by
  rw [read, resolve_eq_ok_iff.mpr ⟨h, rfl⟩]
  cases hread : d.read (b.pathOf reference) with
  | ok found => simp [bind, Except.bind, Except.mapError, hread]
  | error e => simp [bind, Except.bind, Except.mapError, hread]

/-- A directory is the root itself or stays below it. -/
def IsDirectory (directory : String) : Prop := directory = "" ∨ StaysInside directory

def folder (b : Blobs) (directory : String) : String :=
  if directory = "" then b.root else b.pathOf directory

theorem directoryPath_eq_ok (h : IsDirectory directory) :
    b.directoryPath directory = .ok (b.folder directory) := by
  rw [directoryPath, folder]
  by_cases hroot : directory = ""
  · rw [if_pos hroot, if_pos (String.isEmpty_iff.mpr hroot)]
  · rw [if_neg hroot, if_neg (mt String.isEmpty_iff.mp hroot)]
    exact resolve_eq_ok_iff.mpr ⟨h.resolve_left hroot, rfl⟩

theorem directoryPath_eq_error (h : ¬ IsDirectory directory) :
    b.directoryPath directory = .error (.invalidReference directory) := by
  obtain ⟨hroot, hbelow⟩ := not_or.mp h
  rw [directoryPath, if_neg (mt String.isEmpty_iff.mp hroot), resolve_eq_error hbelow]

theorem folder_join (b : Blobs) (directory name : String) :
    b.folder directory ++ "/" ++ name = b.pathOf (inDirectory directory name) := by
  rw [folder, inDirectory, pathOf, pathOf]
  by_cases hroot : directory = ""
  · rw [if_pos hroot, if_pos (String.isEmpty_iff.mpr hroot)]
  · rw [if_neg hroot, if_neg (mt String.isEmpty_iff.mp hroot)]
    simp only [String.append_assoc]

/-! Writing. -/

theorem keeps_ensureDirectory (d : Disk) (path : String) : d.Keeps (ensureDirectory d path).2 := by
  unfold ensureDirectory
  split
  · exact .refl d
  · exact (d.makeDirectories_paved path).keeps

theorem ensureDirectory_files (d : Disk) (path : String) :
    (ensureDirectory d path).2.files = d.files := by
  unfold ensureDirectory
  split
  · rfl
  · exact (d.makeDirectories_paved path).files

/-- Something has each of the names that are tried for a file, from one up to another. -/
def AllTaken (d : Disk) (path filename : String) (first next : Nat) : Prop :=
  ∀ n, first ≤ n → n < next → d.hasPath (path ++ "/" ++ candidate filename n) = true

theorem AllTaken.cons {first next : Nat}
    (hfirst : d.hasPath (path ++ "/" ++ candidate filename first) = true)
    (h : AllTaken d path filename (first + 1) next) : AllTaken d path filename first next := by
  intro n hn hlast
  rcases Nat.eq_or_lt_of_le hn with rfl | hlater
  · exact hfirst
  · exact h n hlater hlast

/-- What comes of the attempts to store a file. -/
inductive Attempted (d : Disk) (path filename : String) (content : Octets) (first next : Nat) :
    Except BlobFault (String × Disk) → Prop
  | stored {n : Nat} {d' : Disk} (hfirst : first ≤ n) (hnext : n < next)
      (hcreate : d.create (path ++ "/" ++ candidate filename n) content = .ok d')
      (htaken : AllTaken d path filename first n) :
      Attempted d path filename content first next (.ok (candidate filename n, d'))
  | unwritable {n : Nat} {e : DiskError} (hfirst : first ≤ n)
      (hcreate : d.create (path ++ "/" ++ candidate filename n) content = .error e)
      (hother : e ≠ .alreadyThere) :
      Attempted d path filename content first next
        (.error (.unwritable (path ++ "/" ++ candidate filename n) e))
  | allTaken (htaken : AllTaken d path filename first next) :
      Attempted d path filename content first next (.error (.allTaken (path ++ "/" ++ filename)))

theorem store_attempted (d : Disk) (path filename : String) (content : Octets)
    (first tries : Nat) : Attempted d path filename content first (first + tries)
      (store d path filename content first tries) := by
  induction tries generalizing first with
  | zero =>
    apply Attempted.allTaken
    intro n hn hlast
    omega
  | succ tries ih =>
    rw [store]
    split
    · rename_i hcreate
      refine .stored (Nat.le_refl _) (by omega) hcreate fun n hn hlast => ?_
      omega
    · rename_i htaken
      have htaken := Disk.create_eq_alreadyThere_iff.mp htaken
      have hlater := ih (first + 1)
      rw [Nat.add_right_comm, Nat.add_assoc] at hlater
      generalize store d path filename content (first + 1) tries = result at hlater ⊢
      cases hlater with
      | stored hfirst hnext hcreate hothers =>
        exact .stored (by omega) hnext hcreate (hothers.cons htaken)
      | unwritable hfirst hcreate hother => exact .unwritable (by omega) hcreate hother
      | allTaken hothers => exact .allTaken (hothers.cons htaken)
    · rename_i hother hcreate
      exact .unwritable (Nat.le_refl _) hcreate fun h => hother h

/-- A blob is stored under the nth name that is tried for it, the first that is free. -/
structure Stored (b : Blobs) (d : Disk) (directory filename : String) (content : Octets) (n : Nat)
    (reference : String) (d' : Disk) : Prop where
  name : NamesFile filename
  inside : IsDirectory directory
  first : 1 ≤ n
  last : n ≤ maxNames
  found : reference = inDirectory directory (candidate filename n)
  create : (ensureDirectory d (b.folder directory)).2.create (b.pathOf reference) content = .ok d'
  taken : AllTaken (ensureDirectory d (b.folder directory)).2 (b.folder directory) filename 1 n

inductive Written (b : Blobs) (d : Disk) (directory filename : String) (content : Octets) :
    Except BlobFault String × Disk → Prop
  | badName (hname : ¬ NamesFile filename) :
      Written b d directory filename content (.error (.invalidReference filename), d)
  | badDirectory (hname : NamesFile filename) (hdirectory : ¬ IsDirectory directory) :
      Written b d directory filename content (.error (.invalidReference directory), d)
  | noDirectory {e : DiskError} (hname : NamesFile filename) (hdirectory : IsDirectory directory)
      (hmissing : ¬ d.hasPath (b.folder directory) = true) :
      Written b d directory filename content
        (.error (.noDirectory (b.folder directory) e), (ensureDirectory d (b.folder directory)).2)
  | unwritable {n : Nat} {e : DiskError} (hname : NamesFile filename)
      (hdirectory : IsDirectory directory) (hfirst : 1 ≤ n)
      (hcreate : (ensureDirectory d (b.folder directory)).2.create
        (b.pathOf (inDirectory directory (candidate filename n))) content = .error e)
      (hother : e ≠ .alreadyThere) :
      Written b d directory filename content
        (.error (.unwritable (b.pathOf (inDirectory directory (candidate filename n))) e),
          (ensureDirectory d (b.folder directory)).2)
  | allTaken (hname : NamesFile filename) (hdirectory : IsDirectory directory)
      (htaken : AllTaken (ensureDirectory d (b.folder directory)).2 (b.folder directory) filename
        1 (1 + maxNames)) :
      Written b d directory filename content
        (.error (.allTaken (b.folder directory ++ "/" ++ filename)),
          (ensureDirectory d (b.folder directory)).2)
  | stored {n : Nat} {reference : String} {d' : Disk}
      (h : b.Stored d directory filename content n reference d') :
      Written b d directory filename content (.ok reference, d')

theorem ensureDirectory_error {fault : BlobFault}
    (h : (ensureDirectory d path).1 = .error fault) :
    ¬ d.hasPath path = true ∧ ∃ e, fault = .noDirectory path e := by
  unfold ensureDirectory at h
  split at h
  · cases h
  · rename_i hmissing
    dsimp only at h
    refine ⟨hmissing, ?_⟩
    cases hmade : (d.makeDirectories path).1 with
    | ok _ =>
      rw [hmade] at h
      cases h
    | error e =>
      rw [hmade] at h
      cases h
      exact ⟨e, rfl⟩

theorem write_written (b : Blobs) (d : Disk) (directory filename : String) (content : Octets) :
    b.Written d (trimSlashes directory) filename content
      (b.write d directory filename content) := by
  rw [write]
  split
  case isFalse hname => exact .badName (mt isFileName_iff.mpr hname)
  rename_i hname
  have hname := isFileName_iff.mp hname
  dsimp only
  by_cases hdirectory : IsDirectory (trimSlashes directory)
  case neg =>
    rw [directoryPath_eq_error hdirectory]
    exact .badDirectory hname hdirectory
  rw [directoryPath_eq_ok hdirectory]
  dsimp only
  cases hmade : ensureDirectory d (b.folder (trimSlashes directory)) with
  | mk made d₁ =>
  have hd₁ : d₁ = (ensureDirectory d (b.folder (trimSlashes directory))).2 := by rw [hmade]
  cases made with
  | error fault =>
    obtain ⟨hmissing, e, rfl⟩ := ensureDirectory_error (congrArg Prod.fst hmade)
    rw [hd₁]
    exact .noDirectory hname hdirectory hmissing
  | ok _ =>
    have hattempted := store_attempted d₁ (b.folder (trimSlashes directory)) filename content
      1 maxNames
    dsimp only
    rw [hd₁] at hattempted ⊢
    generalize store _ _ filename content 1 maxNames = result at hattempted ⊢
    cases hattempted with
    | stored hfirst hlast hcreate htaken =>
      rw [folder_join] at hcreate
      exact .stored ⟨hname, hdirectory, hfirst, Nat.lt_one_add_iff.mp hlast, rfl, hcreate, htaken⟩
    | unwritable hfirst hcreate hother =>
      rw [folder_join] at hcreate ⊢
      exact .unwritable hname hdirectory hfirst hcreate hother
    | allTaken htaken => exact .allTaken hname hdirectory htaken

/-- Nothing is lost when a blob is written, or cannot be written. -/
theorem keeps_write (b : Blobs) (d : Disk) (directory filename : String) (content : Octets) :
    d.Keeps (b.write d directory filename content).2 := by
  have hwritten := b.write_written d directory filename content
  generalize b.write d directory filename content = result at hwritten ⊢
  cases hwritten with
  | badName | badDirectory => exact .refl d
  | noDirectory | unwritable | allTaken =>
    dsimp only
    exact keeps_ensureDirectory d _
  | stored h =>
    obtain ⟨place, -, -, rfl⟩ := Disk.create_eq_ok_iff.mp h.create
    exact (keeps_ensureDirectory d _).trans (Disk.keeps_withFile _ place content)

theorem within_write (b : Blobs) (d : Disk) (directory filename : String) (content : Octets) :
    d.Within (b.write d directory filename content).2 :=
  (b.keeps_write d directory filename content).within

/-- A blob that cannot be written leaves no file. -/
theorem write_error {fault : BlobFault}
    (h : b.write d directory filename content = (.error fault, d')) : d'.files = d.files := by
  have hwritten := b.write_written d directory filename content
  rw [h] at hwritten
  cases hwritten with
  | badName | badDirectory => rfl
  | noDirectory | unwritable | allTaken => exact ensureDirectory_files d _

theorem exists_stored (h : b.write d directory filename content = (.ok reference, d')) :
    ∃ n, b.Stored d (trimSlashes directory) filename content n reference d' := by
  have hwritten := b.write_written d directory filename content
  rw [h] at hwritten
  cases hwritten with
  | stored h => exact ⟨_, h⟩

/-- The reference of a blob led nowhere before, and leads to the blob from now on. -/
theorem write_ok (h : b.write d directory filename content = (.ok reference, d')) :
    d.hasPath (b.pathOf reference) = false ∧ d'.hasPath (b.pathOf reference) = true := by
  obtain ⟨n, hstored⟩ := exists_stored h
  obtain ⟨hfree, hthere⟩ := Disk.create_ok hstored.create
  refine ⟨Bool.eq_false_iff.mpr fun hbefore => ?_, hthere⟩
  rw [(keeps_ensureDirectory d _).within.hasPath hbefore] at hfree
  cases hfree

end Collate.Blobs
