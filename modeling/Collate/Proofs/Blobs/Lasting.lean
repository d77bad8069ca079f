import Collate.Proofs.Blobs.Confined

/-!
Blobs last. A write takes the first of its names that is free in the directory as it was,
for a directory that is made on the way is none that a name could lead to. What was written
is read back from then on, since later writes put files only where nothing is.
-/

namespace Collate

namespace Blobs

variable {b : Blobs} {d d' : Disk} {directory filename name path reference : String}
  {content : Octets}

/-! The root. -/

/-- The root is there, or its path never goes up. -/
def Rooted (b : Blobs) (d : Disk) : Prop :=
  d.hasPath b.root = true ∨ Path.up ∉ Path.components b.root

theorem Rooted.mono (h : b.Rooted d) (hwithin : d.Within d') : b.Rooted d' :=
  h.imp_left hwithin.hasPath

/-- A way to some place that leads at most to the root is one to a directory, if the place is
below the root and the root is there or never goes up. -/
theorem hasDirectory_above_root (hroot : b.Rooted d) {way : List (List Char)} {below : Place}
    (hway : way <+: Path.parts b.root.toList) (hbelow : below ≠ [])
    (hplace : Path.follow [] way = Path.place b.root ++ below) :
    d.hasDirectory (Path.follow [] way) = true := by
  obtain ⟨rest, hrest⟩ := hway
  rcases hroot with hthere | hdown
  · obtain ⟨place, hlocate, -⟩ := Disk.hasPath_eq_true_iff.mp hthere
    have hwalk := Disk.locate_eq_ok hlocate
    rw [← hrest] at hwalk
    refine Disk.hasDirectory_of_walk hwalk fun hnone => hbelow ?_
    rw [hnone, List.append_nil] at hrest
    rwa [hrest, Path.place, List.self_eq_append_right] at hplace
  -- a path that never goes up only gets longer
  · have hdown : Path.up.toList ∉ Path.parts b.root.toList := by
      rwa [← Path.mem_components, String.ofList_toList]
    rw [Path.place, ← hrest, Path.follow_append] at hplace
    rw [← hrest, List.mem_append, not_or] at hdown
    rw [Path.follow_of_down hdown.2, List.append_assoc, List.self_eq_append_right,
      List.append_eq_nil_iff] at hplace
    exact absurd hplace.2 hbelow

/-- A place in a directory that lies on the way to the directory is one on the way to the
root, which was there if the way goes up. -/
theorem hasDirectory_of_way (h : IsDirectory directory) (hroot : b.Rooted d)
    {way : List (List Char)} (hway : way <+: Path.parts (b.folder directory).toList)
    (hplace : Path.follow [] way = b.placeIn directory name) :
    d.hasDirectory (b.placeIn directory name) = true := by
  rw [← hplace]
  rw [placeIn, List.append_assoc] at hplace
  have hbelow : Path.steps directory ++ [name] ≠ [] := by simp
  rw [folder] at hway
  split at hway
  case isTrue => exact hasDirectory_above_root hroot hway hbelow hplace
  rename_i hnamed
  rw [pathOf, Path.parts_join] at hway
  rcases List.prefix_or_prefix_of_prefix hway (List.prefix_append _ _) with hup | ⟨within, rfl⟩
  · exact hasDirectory_above_root hroot hup hbelow hplace
  -- below the root the way is no longer than the directory
  · have hwithin := (List.prefix_append_right_inj _).mp hway
    have hdown : Path.up.toList ∉ Path.parts directory.toList := by
      rw [← Path.mem_components, String.ofList_toList]
      exact (h.resolve_left hnamed).downward
    rw [Path.follow_append, Path.follow_of_down fun hup => hdown (hwithin.subset hup)] at hplace
    have hlength := congrArg List.length hplace
    have hshort := (hwithin.filter Path.isStep).length_le
    simp only [Path.place, Path.steps, List.length_append, List.length_map, List.length_cons,
      List.length_nil] at hlength
    omega

/-- What is in a directory that was made sure of was there before. -/
theorem occupied_of_ensureDirectory (h : IsDirectory directory) (hroot : b.Rooted d)
    (htaken : (ensureDirectory d (b.folder directory)).2.Occupied (b.placeIn directory name)) :
    d.Occupied (b.placeIn directory name) := by
  rcases htaken with hdir | hfile
  · refine .inl ?_
    unfold ensureDirectory at hdir
    split at hdir
    · exact hdir
    · rcases (d.makeDirectories_paved (b.folder directory)).new _ hdir with
        hthere | ⟨way, hway, hplace⟩
      · exact hthere
      · exact hasDirectory_of_way h hroot hway hplace.symm
  · refine .inr ?_
    rwa [Disk.hasFile, Disk.file?, ensureDirectory_files] at hfile

/-! Names that are taken. -/

def Taken (b : Blobs) (d : Disk) (directory name : String) : Prop :=
  d.Occupied (Path.place (b.pathOf (inDirectory directory name)))

/-- Each of the names that are tried for a file before the nth is taken. -/
def TakenBelow (b : Blobs) (d : Disk) (directory filename : String) (n : Nat) : Prop :=
  ∀ k name, k < n → NthName filename k name → b.Taken d directory name

theorem AllTaken.takenBelow {n : Nat} (hfile : NamesFile filename)
    (hdirectory : IsDirectory directory) (hroot : b.Rooted d)
    (h : AllTaken (ensureDirectory d (b.folder directory)).2 (b.folder directory) filename 1 n) :
    b.TakenBelow d directory filename n := by
  intro k name hk hnth
  have hname := hnth.namesFile hfile
  have hpath := h k hnth.one_le hk
  rw [← hnth.eq_candidate, folder_join] at hpath
  obtain ⟨place, hlocate, htaken⟩ := Disk.hasPath_eq_true_iff.mp hpath
  rw [Disk.locate_eq_place hlocate, place_inDirectory hdirectory hname] at htaken
  rw [Taken, place_inDirectory hdirectory hname]
  exact occupied_of_ensureDirectory hdirectory hroot htaken

/-- A write that ran out of names found each of them taken. -/
theorem write_allTaken (hroot : b.Rooted d)
    (h : (b.write d directory filename content).1 = .error (.allTaken path)) :
    b.TakenBelow d (trimSlashes directory) filename (1 + maxNames) := by
  have hwritten := b.write_written d directory filename content
  generalize b.write d directory filename content = result at hwritten h
  cases hwritten with
  | badName | badDirectory | noDirectory | unwritable | stored => cases h
  | allTaken hname hdirectory htaken => exact htaken.takenBelow hname hdirectory hroot

/-- A blob that is stored has the first name that was free. -/
theorem Stored.first_free {n : Nat} (h : b.Stored d directory filename content n reference d')
    (hroot : b.Rooted d) : ∃ name, NthName filename n name ∧
      reference = inDirectory directory name ∧ ¬ b.Taken d directory name ∧
      b.TakenBelow d directory filename n := by
  refine ⟨_, nthName_candidate filename h.first, h.found, fun hold => ?_,
    h.taken.takenBelow h.name h.inside hroot⟩
  have hthere := (keeps_ensureDirectory d (b.folder directory)).within.occupied hold
  obtain ⟨place, hlocate, hfree, -⟩ := Disk.create_eq_ok_iff.mp h.create
  rw [← h.found, ← Disk.locate_eq_place hlocate] at hthere
  exact hfree hthere

/-- A blob that is stored can be read. -/
theorem Stored.read {n : Nat} (h : b.Stored d directory filename content n reference d') :
    b.read d' reference = .ok content := by
  have hname := (nthName_candidate filename h.first).namesFile h.name
  have hinside : StaysInside reference := by
    rw [h.found]
    exact h.inside.inDirectory hname
  obtain ⟨place, hlocate, hfree, rfl⟩ := Disk.create_eq_ok_iff.mp h.create
  rw [read_eq_ok_iff hinside]
  exact Disk.read_eq_ok_iff.mpr ⟨place,
    (Disk.keeps_withFile _ place content).within.locate hlocate, Disk.file?_withFile hfree⟩

/-! Directories that can be written to. -/

/-- A directory is there, and a name can be that of a file in it. -/
structure Writable (b : Blobs) (d : Disk) (directory filename : String) : Prop where
  name : NamesFile filename
  plain : '\x00' ∉ filename.toList
  inside : IsDirectory directory
  there : ∃ place, d.locate (b.folder directory) = .ok place ∧ d.hasDirectory place = true

theorem ensureDirectory_of_writable (h : b.Writable d directory filename) :
    ensureDirectory d (b.folder directory) = (.ok (), d) := by
  obtain ⟨place, hlocate, hthere⟩ := h.there
  have hpath := Disk.hasPath_eq_true_iff.mpr ⟨place, hlocate, .inl hthere⟩
  rw [ensureDirectory, if_pos hpath]

theorem locate_of_writable (h : b.Writable d directory filename) {n : Nat} (hn : 1 ≤ n) :
    ∃ place, d.locate (b.pathOf (inDirectory directory (candidate filename n))) = .ok place := by
  obtain ⟨place, hlocate, hthere⟩ := h.there
  have hnth := nthName_candidate filename hn
  have hname := hnth.namesFile h.name
  rw [← folder_join]
  refine ⟨_, Disk.locate_join hlocate hthere ?_ hname.notUp hname.noSlash
    (hnth.not_mem h.plain (by decide) rfl)⟩
  rw [Path.isStep, Bool.and_eq_true, bne_iff_ne, bne_iff_ne]
  exact ⟨fun hempty => hname.named (String.toList_injective hempty),
    fun hpoint => hname.notHere (String.toList_injective hpoint)⟩

/-- A write to such a directory succeeds, unless all names are taken. -/
theorem write_of_writable (h : b.Writable d (trimSlashes directory) filename)
    (content : Octets) :
    (∃ reference, (b.write d directory filename content).1 = .ok reference) ∨
      ∃ path, (b.write d directory filename content).1 = .error (.allTaken path) := by
  have hsame := ensureDirectory_of_writable h
  have hwritten := b.write_written d directory filename content
  generalize b.write d directory filename content = result at hwritten ⊢
  cases hwritten with
  | badName hname => exact absurd h.name hname
  | badDirectory _ hdirectory => exact absurd h.inside hdirectory
  | noDirectory _ _ hmissing =>
    obtain ⟨place, hlocate, hthere⟩ := h.there
    exact absurd (Disk.hasPath_eq_true_iff.mpr ⟨place, hlocate, .inl hthere⟩) hmissing
  | unwritable _ _ hfirst hcreate hother =>
    obtain ⟨place, hlocate⟩ := locate_of_writable h hfirst
    rw [hsame, Disk.create_eq hlocate] at hcreate
    split at hcreate
    · cases hcreate
      exact absurd rfl hother
    · cases hcreate
  | allTaken => exact .inr ⟨_, rfl⟩
  | stored => exact .inl ⟨_, rfl⟩

/-! Writing one after the other. -/

structure Write where
  directory : String
  filename : String
  content : Octets

def Write.run (b : Blobs) (d : Disk) (w : Write) : Except BlobFault String × Disk :=
  b.write d w.directory w.filename w.content

def writeAll (b : Blobs) (d : Disk) (writes : List Write) : Disk :=
  writes.foldl (fun d w => (w.run b d).2) d

theorem keeps_writeAll (b : Blobs) (d : Disk) (writes : List Write) :
    d.Keeps (b.writeAll d writes) := by
  induction writes generalizing d with
  | nil => exact .refl d
  | cons w rest ih => exact (b.keeps_write d _ _ _).trans (ih _)

/-- A blob that was read is read again. -/
theorem read_of_keeps (h : d.Keeps d') (hread : b.read d reference = .ok content) :
    b.read d' reference = .ok content := by
  by_cases hinside : StaysInside reference
  · rw [read_eq_ok_iff hinside] at hread ⊢
    exact h.read hread
  · rw [read, resolve_eq_error hinside] at hread
    cases hread

/-- Whatever is written before and after it, a write that succeeds takes the first of its
names that is free, and its reference goes on to give what was written; one that fails leaves
the files as they were, and fails for want of a name only when all of them are taken. What
could be read can be read as it was. -/
theorem lasting (hroot : b.Rooted d) (earlier later : List Write) (w : Write) :
    let here := b.writeAll d earlier
    let (result, next) := w.run b here
    let there := b.writeAll next later
    (∀ reference, result = .ok reference →
      (∃ n name, n ≤ maxNames ∧ NthName w.filename n name ∧
        reference = inDirectory (trimSlashes w.directory) name ∧
        ¬ b.Taken here (trimSlashes w.directory) name ∧
        b.TakenBelow here (trimSlashes w.directory) w.filename n) ∧
      b.read there reference = .ok w.content) ∧
    (∀ fault, result = .error fault → next.files = here.files) ∧
    (∀ path, result = .error (.allTaken path) →
      b.TakenBelow here (trimSlashes w.directory) w.filename (1 + maxNames)) ∧
    (b.Writable here (trimSlashes w.directory) w.filename →
      (∃ reference, result = .ok reference) ∨ ∃ path, result = .error (.allTaken path)) ∧
    ∀ reference content, b.read here reference = .ok content →
      b.read there reference = .ok content := by
  intro here
  have hkept : here.Keeps (w.run b here).2 := b.keeps_write here _ _ _
  have hlater : ∀ next : Disk, next.Keeps (b.writeAll next later) := (b.keeps_writeAll · later)
  have hhere : b.Rooted here := hroot.mono (b.keeps_writeAll d earlier).within
  cases hrun : w.run b here with
  | mk result next =>
  rw [hrun] at hkept
  refine ⟨?_, ?_, ?_, ?_, ?_⟩
  · rintro reference rfl
    obtain ⟨n, hstored⟩ := exists_stored hrun
    obtain ⟨name, hfirst⟩ := hstored.first_free hhere
    exact ⟨⟨n, name, hstored.last, hfirst⟩, read_of_keeps (hlater next) hstored.read⟩
  · rintro fault rfl
    exact write_error hrun
  · rintro path rfl
    exact write_allTaken hhere (congrArg Prod.fst hrun)
  · intro hwritable
    have hresult := write_of_writable hwritable w.content
    rwa [← Write.run, hrun] at hresult
  · exact fun reference content hread => read_of_keeps (hkept.trans (hlater next)) hread

/-- A name that was uploaded as such is passed over when names are numbered. -/
theorem third_name_lasting :
    let b : Blobs := ⟨"blobs"⟩
    let d : Disk := ⟨[["blobs"]], []⟩
    let earlier : List Write := [⟨"x/", "a_2.csv", [1]⟩, ⟨"x", "a.csv", [2]⟩]
    let w : Write := ⟨"/x", "a.csv", [3]⟩
    let later : List Write := [⟨"x", "a.csv", [4]⟩]
    b.Rooted d ∧ (w.run b (b.writeAll d earlier)).1 = .ok "x/a_3.csv" ∧
      b.read (b.writeAll (w.run b (b.writeAll d earlier)).2 later) "x/a_3.csv" = .ok [3] := by
  intro b d earlier w later
  have hroot : b.Rooted d := .inl (by decide +kernel)
  have hresult : (w.run b (b.writeAll d earlier)).1 = .ok "x/a_3.csv" := by decide +kernel
  obtain ⟨hok, -⟩ := lasting hroot earlier later w
  exact ⟨hroot, hresult, (hok _ hresult).2⟩

end Blobs

end Collate
