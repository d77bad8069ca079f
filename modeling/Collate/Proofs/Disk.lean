import Collate.Disk
import Collate.Proofs.Path
import Mathlib.Data.List.Infix

/-!
What happens to a disk. A path that leads somewhere leads to the place it denotes. A file
is put where nothing was, and nothing is ever removed or changed, so a path that leads
somewhere goes on to lead there and what was read from it is read again. Making a directory
makes directories only on the way to it.
-/

namespace Collate.Disk

variable {d d' : Disk} {path : String} {place : Place} {content : Octets}

/-! Where paths lead. -/

theorem walk_eq_follow {parts : List (List Char)} {start : Place}
    (h : d.walk start parts = .ok place) : place = Path.follow start parts := by
  induction parts generalizing start with
  | nil =>
    cases h
    rfl
  | cons part rest ih =>
    rw [walk] at h
    rw [Path.follow]
    split at h
    · split at h
      · rename_i hstep
        rw [if_pos hstep]
        split at h
        · rename_i hup
          rw [if_pos hup]
          exact ih h
        · rename_i hup
          rw [if_neg hup]
          exact ih h
      · rename_i hstep
        rw [if_neg hstep]
        exact ih h
    · split at h <;> cases h

theorem locate_eq_ok (h : d.locate path = .ok place) :
    d.walk [] (Path.parts path.toList) = .ok place := by
  unfold locate at h
  split at h
  · cases h
  · split at h
    · cases h
    · exact h

/-- A path leads to the place it denotes, if it leads anywhere. -/
theorem locate_eq_place (h : d.locate path = .ok place) : place = Path.place path :=
  walk_eq_follow (locate_eq_ok h)

theorem walk_append {left : List (List Char)} {start : Place} (h : d.walk start left = .ok place)
    (right : List (List Char)) : d.walk start (left ++ right) = d.walk place right := by
  induction left generalizing start with
  | nil =>
    cases h
    rfl
  | cons part rest ih =>
    rw [walk] at h
    rw [List.cons_append, walk]
    split at h
    case isFalse => split at h <;> cases h
    rename_i hhere
    rw [if_pos hhere]
    split at h
    · rename_i hstep
      rw [if_pos hstep]
      split at h
      · rename_i hup
        rw [if_pos hup]
        exact ih h
      · rename_i hup
        rw [if_neg hup]
        exact ih h
    · rename_i hstep
      rw [if_neg hstep]
      exact ih h

/-- Below a directory every name leads somewhere. -/
theorem locate_join {name : String} (h : d.locate path = .ok place)
    (hhere : d.hasDirectory place = true) (hstep : Path.isStep name.toList = true)
    (hup : name ≠ Path.up) (hslash : '/' ∉ name.toList) (hplain : '\x00' ∉ name.toList) :
    d.locate (path ++ "/" ++ name) = .ok (place ++ [name]) := by
  have hwalk := walk_append (locate_eq_ok h) [name.toList]
  rw [walk, if_pos hhere, if_pos hstep, if_neg fun hsame => hup (String.toList_injective hsame),
    String.ofList_toList, ← Path.parts_of_no_slash hslash, ← Path.parts_join] at hwalk
  unfold locate at h ⊢
  split at h
  · cases h
  · split at h
    · cases h
    · rename_i hpath
      rw [if_neg (by simp), if_neg ?_]
      · exact hwalk
      · simpa [hplain] using hpath

theorem walk_ne_alreadyThere (parts : List (List Char)) (start : Place) :
    d.walk start parts ≠ .error .alreadyThere := by
  induction parts generalizing start with
  | nil => exact nofun
  | cons part rest ih =>
    rw [walk]
    split
    · split
      · split
        · exact ih _
        · exact ih _
      · exact ih _
    · split <;> exact nofun

theorem locate_ne_alreadyThere (path : String) : d.locate path ≠ .error .alreadyThere := by
  unfold locate
  split
  · exact nofun
  · split
    · exact nofun
    · exact walk_ne_alreadyThere _ _

/-- A walk goes through a directory wherever it has parts left. -/
theorem hasDirectory_of_walk {left right : List (List Char)} {start : Place}
    (h : d.walk start (left ++ right) = .ok place) (hright : right ≠ []) :
    d.hasDirectory (Path.follow start left) = true := by
  induction left generalizing start with
  | nil =>
    obtain ⟨part, rest, rfl⟩ := List.exists_cons_of_ne_nil hright
    rw [List.nil_append, walk] at h
    split at h
    · assumption
    · split at h <;> cases h
  | cons part rest ih =>
    rw [List.cons_append, walk] at h
    rw [Path.follow]
    split at h
    case isFalse => split at h <;> cases h
    split at h
    · rename_i hstep
      rw [if_pos hstep]
      split at h
      · rename_i hup
        rw [if_pos hup]
        exact ih h
      · rename_i hup
        rw [if_neg hup]
        exact ih h
    · rename_i hstep
      rw [if_neg hstep]
      exact ih h

/-! Reading. -/

theorem read_eq_ok_iff : d.read path = .ok content ↔
    ∃ place, d.locate path = .ok place ∧ d.file? place = some content := by
  cases hlocate : d.locate path with
  | error e =>
    simp [read, hlocate, bind, Except.bind]
  | ok place =>
    simp only [read, hlocate, bind, Except.bind]
    cases hfile : d.file? place with
    | some found => simp [hfile]
    | none =>
      refine iff_of_false ?_ (by simp [hfile])
      dsimp only
      split <;> exact nofun

/-! What is on one disk is on another. -/

/-- Whatever is on one disk is on another as well. -/
structure Within (d d' : Disk) : Prop where
  directories : ∀ place, d.hasDirectory place = true → d'.hasDirectory place = true
  files : ∀ place, d.hasFile place = true → d'.hasFile place = true

theorem Within.refl (d : Disk) : d.Within d := ⟨fun _ => id, fun _ => id⟩

/-- A walk that leads somewhere leads to the same place while directories come. -/
theorem Within.walk (h : d.Within d') {parts : List (List Char)} {start place : Place}
    (hwalk : d.walk start parts = .ok place) : d'.walk start parts = .ok place := by
  induction parts generalizing start with
  | nil => exact hwalk
  | cons part rest ih =>
    rw [Disk.walk] at hwalk ⊢
    by_cases hhere : d.hasDirectory start = true
    · rw [if_pos hhere] at hwalk
      rw [if_pos (h.directories start hhere)]
      by_cases hstep : Path.isStep part = true
      · rw [if_pos hstep] at hwalk ⊢
        by_cases hup : part = Path.up.toList
        · rw [if_pos hup] at hwalk ⊢
          exact ih hwalk
        · rw [if_neg hup] at hwalk ⊢
          exact ih hwalk
      · rw [if_neg hstep] at hwalk ⊢
        exact ih hwalk
    · rw [if_neg hhere] at hwalk
      split at hwalk <;> cases hwalk

theorem Within.locate (h : d.Within d') {path : String} {place : Place}
    (hlocate : d.locate path = .ok place) : d'.locate path = .ok place := by
  unfold Disk.locate at hlocate ⊢
  split at hlocate
  · cases hlocate
  · rename_i hsome
    rw [if_neg hsome]
    split at hlocate
    · cases hlocate
    · rename_i hplain
      rw [if_neg hplain]
      exact h.walk hlocate

theorem Within.hasPath (h : d.Within d') {path : String} (hpath : d.hasPath path = true) :
    d'.hasPath path = true := by
  unfold Disk.hasPath at hpath ⊢
  split at hpath
  · rename_i place hlocate
    rw [h.locate hlocate]
    simp only [Bool.or_eq_true] at hpath ⊢
    exact hpath.imp (h.directories place) (h.files place)
  · cases hpath

/-- Directories and files may be new on a disk, but none is gone and no file is another one. -/
structure Keeps (d d' : Disk) : Prop where
  directories : ∀ place, d.hasDirectory place = true → d'.hasDirectory place = true
  files : d.files <+: d'.files

theorem Keeps.refl (d : Disk) : d.Keeps d := ⟨fun _ => id, List.prefix_rfl⟩

theorem Keeps.trans {d'' : Disk} (h : d.Keeps d') (h' : d'.Keeps d'') : d.Keeps d'' :=
  ⟨fun p hp => h'.directories p (h.directories p hp), h.files.trans h'.files⟩

theorem Keeps.file? (h : d.Keeps d') (hfile : d.file? place = some content) :
    d'.file? place = some content := by
  obtain ⟨new, hnew⟩ := h.files
  rw [Disk.file?, ← hnew, List.lookup_append, ← Disk.file?, hfile, Option.some_or]

theorem Keeps.within (h : d.Keeps d') : d.Within d' := by
  refine ⟨h.directories, fun place hfile => ?_⟩
  obtain ⟨content, hcontent⟩ := Option.isSome_iff_exists.mp hfile
  exact Option.isSome_iff_exists.mpr ⟨content, h.file? hcontent⟩

/-- What was read is read again. -/
theorem Keeps.read (h : d.Keeps d') (hread : d.read path = .ok content) :
    d'.read path = .ok content := by
  obtain ⟨place, hlocate, hfile⟩ := read_eq_ok_iff.mp hread
  exact read_eq_ok_iff.mpr ⟨place, h.within.locate hlocate, h.file? hfile⟩

/-! Putting a file. -/

def Occupied (d : Disk) (place : Place) : Prop :=
  d.hasDirectory place = true ∨ d.hasFile place = true

theorem Within.occupied (h : d.Within d') (hold : d.Occupied place) : d'.Occupied place :=
  hold.imp (h.directories place) (h.files place)

theorem hasPath_eq_true_iff :
    d.hasPath path = true ↔ ∃ place, d.locate path = .ok place ∧ d.Occupied place := by
  unfold hasPath
  cases d.locate path with
  | ok place => simp [Occupied]
  | error e => exact iff_of_false nofun fun ⟨_, h, _⟩ => nomatch h

def withFile (d : Disk) (place : Place) (content : Octets) : Disk :=
  { d with files := d.files ++ [(place, content)] }

theorem withFile_files (d : Disk) (place : Place) (content : Octets) :
    (d.withFile place content).files = d.files ++ [(place, content)] := rfl

theorem keeps_withFile (d : Disk) (place : Place) (content : Octets) :
    d.Keeps (d.withFile place content) :=
  ⟨fun _ => id, List.prefix_append _ _⟩

theorem file?_withFile (hfree : ¬ d.Occupied place) :
    (d.withFile place content).file? place = some content := by
  have hnone : d.file? place = none :=
    Option.not_isSome_iff_eq_none.mp fun h => hfree (.inr h)
  rw [file?, withFile, List.lookup_append, ← file?, hnone, Option.none_or, List.lookup_cons_self]

theorem create_eq (h : d.locate path = .ok place) : d.create path content =
    if d.hasDirectory place || d.hasFile place then .error .alreadyThere
    else .ok (d.withFile place content) := by
  rw [create, h]
  rfl

theorem create_eq_error {e : DiskError} (h : d.locate path = .error e) :
    d.create path content = .error e := by
  rw [create, h]
  rfl

theorem create_eq_ok_iff : d.create path content = .ok d' ↔
    ∃ place, d.locate path = .ok place ∧ ¬ d.Occupied place ∧ d' = d.withFile place content := by
  cases hlocate : d.locate path with
  | error e =>
    rw [create_eq_error hlocate]
    exact iff_of_false nofun fun ⟨_, h, _⟩ => nomatch h
  | ok place =>
    rw [create_eq hlocate]
    by_cases hfree : d.Occupied place
    · rw [if_pos (by simpa [Occupied] using hfree)]
      refine iff_of_false nofun ?_
      rintro ⟨_, ⟨⟩, hother, -⟩
      exact hother hfree
    · rw [if_neg (by simpa [Occupied] using hfree)]
      simp [hfree, eq_comm]

/-- Something is there already exactly if the path leads to it. -/
theorem create_eq_alreadyThere_iff :
    d.create path content = .error .alreadyThere ↔ d.hasPath path = true := by
  rw [hasPath_eq_true_iff]
  cases hlocate : d.locate path with
  | error e =>
    rw [create_eq_error hlocate]
    refine iff_of_false (fun h => ?_) fun ⟨_, h, _⟩ => nomatch h
    cases h
    exact locate_ne_alreadyThere path hlocate
  | ok place =>
    rw [create_eq hlocate]
    by_cases hfree : d.Occupied place
    · rw [if_pos (by simpa [Occupied] using hfree)]
      exact iff_of_true rfl ⟨place, rfl, hfree⟩
    · rw [if_neg (by simpa [Occupied] using hfree)]
      simp [hfree]

/-- A file is put where nothing was. -/
theorem create_ok (h : d.create path content = .ok d') :
    d.hasPath path = false ∧ d'.hasPath path = true := by
  obtain ⟨place, hlocate, hfree, rfl⟩ := create_eq_ok_iff.mp h
  have hwithin := (d.keeps_withFile place content).within
  refine ⟨Bool.eq_false_iff.mpr fun hpath => ?_, ?_⟩
  · obtain ⟨other, hother, htaken⟩ := hasPath_eq_true_iff.mp hpath
    cases hlocate.symm.trans hother
    exact hfree htaken
  · have hfile : (d.withFile place content).hasFile place = true := by
      rw [hasFile, file?_withFile hfree]
      rfl
    exact hasPath_eq_true_iff.mpr ⟨place, hwithin.locate hlocate, .inr hfile⟩

/-! Making directories. -/

/-- Directories may be new where the first parts of a path lead to, and files are the same. -/
structure Paved (parts : List (List Char)) (d d' : Disk) : Prop where
  files : d'.files = d.files
  kept : ∀ place, d.hasDirectory place = true → d'.hasDirectory place = true
  new : ∀ place, d'.hasDirectory place = true →
    d.hasDirectory place = true ∨ ∃ way, way <+: parts ∧ place = Path.follow [] way

variable {parts points : List (List Char)}

theorem Paved.refl (parts : List (List Char)) (d : Disk) : Paved parts d d :=
  ⟨rfl, fun _ => id, fun _ => .inl⟩

theorem Paved.trans {d'' : Disk} (h : Paved parts d d') (h' : Paved parts d' d'') :
    Paved parts d d'' where
  files := h'.files.trans h.files
  kept p hp := h'.kept p (h.kept p hp)
  new p hp := by
    rcases h'.new p hp with hbefore | hway
    · exact h.new p hbefore
    · exact .inr hway

theorem Paved.mono {more : List (List Char)} (h : Paved parts d d') (hmore : parts <+: more) :
    Paved more d d' where
  files := h.files
  kept := h.kept
  new p hp := (h.new p hp).imp_right fun ⟨way, hway, hplace⟩ => ⟨way, hway.trans hmore, hplace⟩

theorem Paved.keeps (h : Paved parts d d') : d.Keeps d' :=
  ⟨h.kept, h.files ▸ List.prefix_rfl⟩

/-- What is made is the directory that the parts lead to. -/
theorem makeDirectory_paved (hpoints : ∀ part ∈ points, Path.isStep part = false)
    (h : d.makeDirectory (parts ++ points) = .ok d') : Paved parts d d' := by
  cases hwalk : d.walk [] (parts ++ points) with
  | error e =>
    rw [makeDirectory, hwalk] at h
    cases h
  | ok target =>
    have htarget : target = Path.follow [] parts := by
      rw [walk_eq_follow hwalk, Path.follow_append, Path.follow_of_points hpoints]
    rw [makeDirectory, hwalk] at h
    change (if d.hasDirectory target then _ else _) = _ at h
    split at h
    · cases h
      exact .refl parts d
    · split at h
      · cases h
      · cases h
        refine ⟨rfl, fun p hp => ?_, fun p hp => ?_⟩
        · simp only [hasDirectory, Bool.or_eq_true, List.contains_iff_mem, List.mem_append] at hp ⊢
          exact hp.imp_right .inl
        · simp only [hasDirectory, Bool.or_eq_true, List.contains_iff_mem, List.mem_append,
            List.mem_singleton, ← or_assoc] at hp ⊢
          exact hp.imp_right fun hnew => ⟨parts, List.prefix_rfl, hnew.trans htarget⟩

theorem makeWay_paved (d : Disk) (hpoints : ∀ part ∈ points, Path.isStep part = false)
    (reversed : List (List Char)) :
    Paved reversed.reverse d (d.makeWay points reversed).2 := by
  induction reversed generalizing d points with
  | nil => exact .refl _ d
  | cons part before ih =>
    have hmore : before.reverse <+: (part :: before).reverse := by
      rw [List.reverse_cons]
      exact List.prefix_append _ _
    rw [makeWay]
    split
    · dsimp only
      split
      · rename_i hmade
        exact makeDirectory_paved hpoints hmade
      · have hbefore : Paved before.reverse d (d.makeWay [] before).2 := ih d nofun
        have hway := hbefore.mono hmore
        split
        · rename_i hfailed
          rwa [hfailed] at hway
        · rename_i hdone
          rw [hdone] at hway
          split
          · rename_i hmade
            exact hway.trans (makeDirectory_paved hpoints hmade)
          · exact hway
      · exact .refl _ d
    · exact (ih d hpoints).mono hmore

theorem makeDirectories_paved (d : Disk) (path : String) :
    Paved (Path.parts path.toList) d (d.makeDirectories path).2 := by
  unfold makeDirectories
  split
  · exact .refl _ d
  · have hpoints : ∀ part ∈ endingPoints (Path.parts path.toList), Path.isStep part = false :=
      fun part hpart => by
        simpa using List.all_eq_true.mp List.all_takeWhile part (List.mem_filter.mp hpart).1
    have hpaved := d.makeWay_paved hpoints (Path.parts path.toList).reverse
    rwa [List.reverse_reverse] at hpaved

/-- A step that goes up again is made all the same. -/
example : empty.makeDirectories "a/../b" = (.ok (), ⟨[["a"], ["b"]], []⟩) := by decide +kernel

end Collate.Disk
