import Collate.Proofs.Blobs.Lasting
import Collate.Proofs.Service.Actions
import Collate.Proofs.Service.Refusals
import Collate.Proofs.Store.Choices

/-!
The headers of a mapping file, as they are shown when it is uploaded and as they are listed
later. Both lists come from the same content, but the name that the later one goes by is the
one under which the file was stored. So what is in the sheets agrees, whatever is called in
between, and the names of the sheets agree for workbooks. The one sheet of a file of
comma-separated values is called after the stem of the name, and agrees only if the uploaded
name was free.
-/

namespace Collate

/-! Headers of a file under another name. -/

namespace MappingFile

variable {filename name stem extension : String} {content : Octets} {h : Workbook.SheetHeaders}

def NamesWorkbook (filename : String) : Prop :=
  ∃ stem extension, Path.Pointed filename stem extension ∧ Text.lowerAscii extension = "xlsx"

theorem nameParts?_of_namesFile (hname : Blobs.NamesFile name) :
    Path.nameParts? name = some (Path.splitName name) := by
  have hup : (name != Path.up) = true := bne_iff_ne.mpr hname.notUp
  simp only [Path.nameParts?, Path.fileName?, hname.steps, List.getLast?_singleton,
    Option.filter_some, hup, if_true, Option.map_some]

theorem headers_of_pointed (hname : Blobs.NamesFile name)
    (hparts : Path.Pointed name stem extension) (content : Octets) : headers name content =
      if Text.lowerAscii extension = "csv" then csvHeaders stem content
      else if Text.lowerAscii extension = "xlsx" then
        (Workbook.headers content).mapError .workbook
      else if Text.lowerAscii extension = "" then .error (.unsupported name)
      else .error (.unsupported ("." ++ Text.lowerAscii extension)) := by
  simp only [headers, nameParts?_of_namesFile hname, Path.splitName_of_pointed hparts]

/-- Headers are listed of files with a point in their names. -/
theorem exists_pointed_of_headers (hname : Blobs.NamesFile name)
    (hok : headers name content = .ok h) :
    ∃ stem extension, Path.Pointed name stem extension := by
  by_contra hnone
  have hplain : '.' ∉ name.toList.tail := fun hpoint => hnone (Path.exists_pointed hpoint)
  simp only [headers, nameParts?_of_namesFile hname, Path.splitName_of_plain hplain] at hok
  cases hok

theorem csvHeaders_ok (hok : csvHeaders stem content = .ok h) :
    ∃ t, Table.ofCsv content = .ok t ∧ h = Dict.ofList [(stem, t.headers)] := by
  unfold csvHeaders at hok
  split at hok
  · rename_i t ht
    cases hok
    exact ⟨t, ht, rfl⟩
  · cases hok

theorem pointed_unique {stem' extension' : String} (hparts : Path.Pointed name stem extension)
    (hparts' : Path.Pointed name stem' extension') : stem' = stem ∧ extension' = extension := by
  have hsame := (Path.splitName_of_pointed hparts').symm.trans (Path.splitName_of_pointed hparts)
  simpa using hsame

theorem stem_numbered_ne (n : Nat) : stem ++ "_" ++ toString n ≠ stem := by
  intro hsame
  have hlength := congrArg String.length hsame
  rw [String.length_append, String.length_append] at hlength
  have hline : "_".length = 1 := rfl
  omega

/-- A file lists as many sheets with the same headers under any name that is tried for it. They
are called the same only under the first name, or if it is a workbook. -/
theorem headers_nthName {n : Nat} (hfile : Blobs.NamesFile filename)
    (hnth : Blobs.NthName filename n name) (hok : headers filename content = .ok h) :
    ∃ h', headers name content = .ok h' ∧ h'.entries.map (·.2) = h.entries.map (·.2) ∧
      (h' = h ↔ NamesWorkbook filename ∨ n = 1) := by
  have hname := hnth.namesFile hfile
  cases hnth with
  | itself => exact ⟨h, hok, rfl, iff_of_true rfl (.inr rfl)⟩
  | @numbered n stem extension hn hparts =>
    have hnumbered : Path.Pointed (stem ++ "_" ++ toString n ++ "." ++ extension)
        (stem ++ "_" ++ toString n) extension :=
      ⟨rfl, by simp [hparts.stem], hparts.extension⟩
    rw [headers_of_pointed hfile hparts] at hok
    rw [headers_of_pointed hname hnumbered]
    split at hok
    · rename_i hcsv
      obtain ⟨t, ht, rfl⟩ := csvHeaders_ok hok
      refine ⟨Dict.ofList [(stem ++ "_" ++ toString n, t.headers)], ?_, rfl, ?_⟩
      · rw [if_pos hcsv, csvHeaders, ht]
      · refine iff_of_false (fun hsame => ?_) ?_
        · have hsheets : [stem ++ "_" ++ toString n] = [stem] :=
            congrArg (fun sheets : Workbook.SheetHeaders => sheets.entries.map Prod.fst) hsame
          exact stem_numbered_ne n (List.singleton_inj.mp hsheets)
        · rintro (⟨stem', extension', hparts', hxlsx⟩ | rfl)
          · obtain ⟨-, rfl⟩ := pointed_unique hparts hparts'
            rw [hcsv] at hxlsx
            exact absurd hxlsx (by decide)
          · omega
    · rename_i hcsv
      split at hok
      · rename_i hxlsx
        exact ⟨h, by rw [if_neg hcsv, if_pos hxlsx, hok], rfl,
          iff_of_true rfl (.inl ⟨stem, extension, hparts, hxlsx⟩)⟩
      · split at hok <;> cases hok
  | numberedAtEnd hn hplain =>
    obtain ⟨stem, extension, hparts⟩ := exists_pointed_of_headers hfile hok
    have hnone := Path.splitName_of_plain hplain
    rw [Path.splitName_of_pointed hparts] at hnone
    cases hnone

end MappingFile

namespace Service

open Procedure

variable {policy reading : Policy} {id filename name reference : String} {content : Octets}
  {d d' e : Desk} {h : Workbook.SheetHeaders}

/-! What the two calls come to. -/

def mappingDirectory (order : String) : String :=
  Blobs.trimSlashes (orderDirectory order ++ "/mapping")

theorem lastPart_inDirectory (hname : Blobs.NamesFile name) (directory : String) :
    lastPart (Blobs.inDirectory directory name) = name := by
  have hparts : Path.parts name.toList = [name.toList] := Path.parts_of_no_slash hname.noSlash
  rw [lastPart, Blobs.inDirectory]
  split
  · rw [hparts, List.getLast?_singleton, Option.getD_some, String.ofList_toList]
  · rw [Path.parts_join, hparts, List.getLast?_append, List.getLast?_singleton, Option.some_or,
      Option.getD_some, String.ofList_toList]

/-- An order has a mapping file at a reference. -/
def HasMapping (id reference : String) (s : Store) : Prop :=
  ∃ o, s.order? id = some o ∧ o.mappingFile = some reference

theorem hasMapping_of_set {s s' : Store} {o : Order} (ho : s.order? id = some o)
    (hok : Store.setMappingFile id reference s = .ok ((), s')) : HasMapping id reference s' := by
  rw [Store.setMappingFile_ok hok]
  refine ⟨{ o with mappingFile := some reference }, (Store.order?_updateOrder ?_ id).trans ?_, rfl⟩
  · exact fun _ => rfl
  · rw [if_pos rfl, ho]
    rfl

/-- What an accepted upload leaves. -/
theorem uploadMappingFile_ok
    (hup : (uploadMappingFile policy id filename content).run d = (.ok h, d')) :
    MappingFile.headers filename content = .ok h ∧ ∃ reference,
      policy.blobs.write d.disk (orderDirectory id ++ "/mapping") filename content =
        (.ok reference, d'.disk) ∧ HasMapping id reference d'.store := by
  unfold uploadMappingFile at hup
  obtain ⟨o, e, horder, hup⟩ := run_bind_eq_ok hup
  obtain ⟨ho, rfl⟩ := order_ok horder
  obtain ⟨u, e, hneed, hup⟩ := run_bind_eq_ok hup
  obtain ⟨hdraft, rfl⟩ := need_ok hneed
  obtain ⟨headers, e, hlisted, hup⟩ := run_bind_eq_ok hup
  rw [run_need, Prod.mk.injEq, Except.mapError_eq_ok] at hlisted
  obtain ⟨hheaders, rfl⟩ := hlisted
  obtain ⟨reference, e, hput, hup⟩ := run_bind_eq_ok hup
  obtain ⟨disk, hwrite, rfl⟩ := writeBlob_ok hput
  obtain ⟨s, hset⟩ :=
    Store.setMappingFile_accepted ho (Order.require_eq_ok.mp hdraft) reference
  rw [run_bind_ok (run_store_ok (d := { d with disk := disk }) hset)] at hup
  cases hup
  exact ⟨hheaders, reference, hwrite, hasMapping_of_set ho hset⟩

theorem mappingFileHeaders_run (hmapping : HasMapping id reference d.store)
    (hread : policy.blobs.read d.disk reference = .ok content)
    (hheaders : MappingFile.headers (lastPart reference) content = .ok h) :
    (mappingFileHeaders policy id).run d = (.ok (some h), d) := by
  obtain ⟨o, ho, hfile⟩ := hmapping
  have horder : (Procedure.order id).run d = (.ok o, d) := by
    rw [run_order, Store.order_eq_ok.mpr ho]
    rfl
  have hblob : (Procedure.readBlob policy reference).run d = (.ok (.ok content), d) := by
    rw [← hread]
    rfl
  rw [mappingFileHeaders, run_bind_ok horder]
  simp only [hfile]
  simp only [run_bind_ok hblob, run_bind, run_need, Except.mapError, hheaders]
  rfl

/-! Calls in between. -/

/-- Whether a call puts another file in place of an order's mapping file. -/
def Replaces (policy : Policy) (id : String) (c : Call) (d : Desk) : Prop :=
  ∃ filename content h d', c = .uploadMappingFile id filename content ∧
    (uploadMappingFile policy id filename content).run d = (.ok h, d')

/-- Desks that calls lead to from a desk, none of which replaces an order's mapping file. -/
inductive Unreplaced (id : String) (d : Desk) : Desk → Prop
  | start : Unreplaced id d d
  | call {e : Desk} (policy : Policy) (c : Call) :
      Unreplaced id d e → ¬ Replaces policy id c e → Unreplaced id d (c.after policy e)
  /-- Time passes, files are added, templates and bindings are saved. -/
  | meanwhile {e e' : Desk} : Unreplaced id d e → e.store.SameRecords e'.store →
      e.disk.Keeps e'.disk → Unreplaced id d e'

/-- Only setting it changes the mapping file of an order. -/
theorem hasMapping_of_leaves {k : Store.Call} {s s' : Store} (h : Store.Leaves k s s')
    (hmapping : HasMapping id reference s) (hnot : ∀ other, k ≠ .setMappingFile id other) :
    HasMapping id reference s' := by
  obtain ⟨o, ho, hfile⟩ := hmapping
  obtain ⟨o', ho', hamends⟩ := h.orders id o ho
  rcases hamends.file with hsame | ⟨-, other, rfl, -⟩
  · exact ⟨o', ho', hsame.trans hfile⟩
  · exact absurd (by rw [(Store.order?_mem ho).2]) (hnot other)

/-- A call that does not replace it leaves the mapping file of an order. -/
theorem Call.keeps_mapping {c : Call} (hmapping : HasMapping id reference d.store)
    (hnot : ¬ Replaces policy id c d) : HasMapping id reference (c.after policy d).store := by
  by_cases hupload : ∃ filename content, c = .uploadMappingFile id filename content
  · obtain ⟨filename, content, rfl⟩ := hupload
    rw [after, procedure, run_bind_pure]
    cases hrun : (Service.uploadMappingFile policy id filename content).run d with
    | mk result d' =>
      cases result with
      | ok h => exact absurd ⟨filename, content, h, d', rfl, hrun⟩ hnot
      | error fault =>
        have hspared :
            d.Untouched ((Service.uploadMappingFile policy id filename content).run d).2 :=
          uploadMappingFile_spares id filename content fault (by rw [hrun])
        rw [hrun] at hspared
        exact hspared.store ▸ hmapping
  · have hgathers : Procedure.Gathers fun s s' =>
        HasMapping id reference s → HasMapping id reference s' := ⟨fun _ h => h, fun h h' => h' ∘ h⟩
    refine keeps_of_issues hgathers (fun hmay hok hmapping => ?_) hmapping
    refine hasMapping_of_leaves (Store.Call.leaves hok) hmapping fun other => ?_
    rintro rfl
    cases hmay
    exact hupload ⟨_, _, rfl⟩

/-- Through calls that do not replace it, the mapping file stays, and so do all blobs. -/
theorem Unreplaced.keeps (hon : Unreplaced id d e) (hmapping : HasMapping id reference d.store) :
    HasMapping id reference e.store ∧ d.disk.Keeps e.disk := by
  induction hon with
  | start => exact ⟨hmapping, .refl _⟩
  | @call e policy c _ hnot ih =>
    exact ⟨Call.keeps_mapping ih.1 hnot, ih.2.trans (c.keeps_disk policy e)⟩
  | meanwhile _ hsame hdisk ih =>
    obtain ⟨⟨o, ho, hfile⟩, hkept⟩ := ih
    refine ⟨⟨o, ?_, hfile⟩, hkept.trans hdisk⟩
    rw [Store.order?, hsame.orders, ← Store.order?, ho]

/-! The headers. -/

/-- The first of the names tried for a file that is free in a directory. -/
def FirstFree (b : Blobs) (disk : Disk) (directory filename name : String) : Prop :=
  ∃ n, Blobs.NthName filename n name ∧ ¬ b.Taken disk directory name ∧
    b.TakenBelow disk directory filename n

/-- After an upload, headers are listed of the file as long as it is not replaced, and they are
those that the upload gave: of as many sheets, each with the same texts. The names of the
sheets agree if and only if the file is a workbook or nothing had its name. -/
theorem mappingFileHeaders_uploaded (hroot : policy.blobs.Rooted d.disk)
    (hup : (uploadMappingFile policy id filename content).run d = (.ok h, d'))
    (hon : Unreplaced id d' e) (hblobs : reading.blobs = policy.blobs) :
    ∃ name h', FirstFree policy.blobs d.disk (mappingDirectory id) filename name ∧
      MappingFile.headers name content = .ok h' ∧
      (mappingFileHeaders reading id).run e = (.ok (some h'), e) ∧
      h'.entries.map (·.2) = h.entries.map (·.2) ∧
      (h' = h ↔ MappingFile.NamesWorkbook filename ∨
        ¬ policy.blobs.Taken d.disk (mappingDirectory id) filename) := by
  obtain ⟨hheaders, reference, hwrite, hmapping⟩ := uploadMappingFile_ok hup
  obtain ⟨n, hstored⟩ := Blobs.exists_stored hwrite
  obtain ⟨name, hnth, hfound, hfree, htaken⟩ := hstored.first_free hroot
  obtain ⟨hstays, hkept⟩ := hon.keeps hmapping
  obtain ⟨h', hlisted, hsame, hnames⟩ := MappingFile.headers_nthName hstored.name hnth hheaders
  have hname := hnth.namesFile hstored.name
  have hread : reading.blobs.read e.disk reference = .ok content := by
    rw [hblobs]
    exact Blobs.read_of_keeps hkept hstored.read
  have hrun : (mappingFileHeaders reading id).run e = (.ok (some h'), e) :=
    mappingFileHeaders_run hstays hread (by rw [hfound, lastPart_inDirectory hname, hlisted])
  -- the first name is passed over only if something has it
  have hfirst : n = 1 ↔ ¬ policy.blobs.Taken d.disk (mappingDirectory id) filename := by
    constructor
    · rintro rfl
      rwa [hnth.eq_candidate] at hfree
    · intro hfree
      by_contra hother
      have hlater : 1 < n := Nat.lt_of_le_of_ne hnth.one_le (Ne.symm hother)
      exact hfree (htaken 1 filename hlater .itself)
  exact ⟨name, h', ⟨n, hnth, hfree, htaken⟩, hlisted, hrun, hsame, by rw [hnames, hfirst]⟩

/-! A file that is uploaded twice under one name. -/

private def keysPolicy : Policy := ⟨.standard, .tolerant, ⟨"blobs"⟩, .local, false⟩

private def keysContent : Octets := Text.Utf8.ofText "id,no"

private def keysUpload : Procedure Workbook.SheetHeaders :=
  uploadMappingFile keysPolicy (Desk.idOf 0) "keys.csv" keysContent

private def keysListing : Procedure (Option Workbook.SheetHeaders) :=
  mappingFileHeaders keysPolicy (Desk.idOf 0)

private def uploadedOnce : Desk :=
  (Call.uploadMappingFile (Desk.idOf 0) "keys.csv" keysContent).after keysPolicy
    ((Call.createOrder none).after keysPolicy Desk.empty)

private def uploadedTwice : Desk := (keysUpload.run uploadedOnce).2

private theorem reachable_uploadedOnce : ∃ issued, Reachable uploadedOnce issued := by
  have h := Reachable.start (d := Desk.empty) rfl
  have h := h.call keysPolicy (.createOrder none) trivial
  exact ⟨_, h.call keysPolicy (.uploadMappingFile (Desk.idOf 0) "keys.csv" keysContent) trivial⟩

private theorem keysUpload_run :
    keysUpload.run uploadedOnce = (.ok (Dict.ofList [("keys", ["id", "no"])]), uploadedTwice) := by
  have hresult : (keysUpload.run uploadedOnce).1 = .ok (Dict.ofList [("keys", ["id", "no"])]) := by
    decide +kernel
  exact Prod.ext hresult rfl

/-- The listing keeps to the texts in the file and calls its sheet after the number that the
name got. -/
theorem mappingFileHeaders_uploaded_again :
    keysPolicy.blobs.Rooted uploadedOnce.disk ∧
    keysUpload.run uploadedOnce = (.ok (Dict.ofList [("keys", ["id", "no"])]), uploadedTwice) ∧
    ∃ name h', FirstFree keysPolicy.blobs uploadedOnce.disk (mappingDirectory (Desk.idOf 0))
        "keys.csv" name ∧
      MappingFile.headers name keysContent = .ok h' ∧
      (keysListing.run
        ((Call.setMappingKeys (Desk.idOf 0) ["id"]).after keysPolicy uploadedTwice)).1 =
          .ok (some h') ∧
      h'.entries.map (·.2) = [["id", "no"]] ∧
      (h' = Dict.ofList [("keys", ["id", "no"])] ↔
        MappingFile.NamesWorkbook "keys.csv" ∨ ¬ keysPolicy.blobs.Taken uploadedOnce.disk
          (mappingDirectory (Desk.idOf 0)) "keys.csv") := by
  have hroot : keysPolicy.blobs.Rooted uploadedOnce.disk := .inr (by decide +kernel)
  have hon : Unreplaced (Desk.idOf 0) uploadedTwice
      ((Call.setMappingKeys (Desk.idOf 0) ["id"]).after keysPolicy uploadedTwice) := by
    refine .call keysPolicy _ .start ?_
    rintro ⟨filename, content, h, d', hcall, -⟩
    cases hcall
  have hblobs : keysPolicy.blobs = keysPolicy.blobs := rfl
  obtain ⟨name, h', hfree, hlisted, hrun, hsame, hnames⟩ :=
    mappingFileHeaders_uploaded hroot keysUpload_run hon hblobs
  exact ⟨hroot, keysUpload_run, name, h', hfree, hlisted, congrArg Prod.fst hrun, hsame, hnames⟩

/-- The upload gives the headers of a sheet `keys`, and right after it those of a sheet `keys_2`
are listed. -/
theorem uploaded_headers_renamed : ∃ d d' h h', (∃ issued, Reachable d issued) ∧
    d.store.orders.map (fun o => (o.id, o.status)) = [(Desk.idOf 0, .draft)] ∧
    (uploadMappingFile keysPolicy (Desk.idOf 0) "keys.csv" keysContent).run d = (.ok h, d') ∧
    ((mappingFileHeaders keysPolicy (Desk.idOf 0)).run d').1 = .ok (some h') ∧
    h.entries = [("keys", ["id", "no"])] ∧ h'.entries = [("keys_2", ["id", "no"])] :=
  ⟨uploadedOnce, uploadedTwice, _, Dict.ofList [("keys_2", ["id", "no"])], reachable_uploadedOnce,
    by decide +kernel, keysUpload_run, by decide +kernel, rfl, rfl⟩

end Service

end Collate
