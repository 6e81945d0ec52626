import CodeIndex.Proofs.Run.Filing
import CodeIndex.Proofs.Run.Loading

/-!
The state files of an index are faithful. What is saved there, or was ever accepted from there, is
what is loaded again; a save that is refused changes nothing that is loaded.
-/

namespace CodeIndex

open StateDir

namespace World

variable {σ : Type} {directory : String} {home : Location} {w w' : World σ}

theorem Refused.loads (h : Refused directory home w w') (hready : Ready directory home w.disk) :
    w'.loadCheckpoint directory = w.loadCheckpoint directory ∧
      w'.loadManifest directory = w.loadManifest directory :=
  load_congr hready h.unfiled.disk.ready h.unfiled.disk.kept

end World

/-- A checkpoint comes back from its text, and is loaded once it is saved. -/
structure Checkpoint.Restored (c : Checkpoint) : Prop where
  read : ∀ path, ofFile path c.fileText.toUTF8 = .ok c
  saved : ∀ {σ : Type} (env : Surroundings) (directory : String) (home : Location) (w : World σ),
    Ready directory home w.disk → Runs (World.save env directory fileName c.fileText) w
      (fun _ w' => w'.loadCheckpoint directory = .ok (some c) ∧
        w'.loadManifest directory = w.loadManifest directory)
      (fun _ w' => w'.loadCheckpoint directory = w.loadCheckpoint directory ∧
        w'.loadManifest directory = w.loadManifest directory)

/-- A manifest comes back from its text, and is loaded once it is saved. -/
structure Manifest.Restored (m : Manifest) : Prop where
  read : ∀ path, ofFile path m.fileText.toUTF8 = .ok m
  saved : ∀ {σ : Type} (env : Surroundings) (directory : String) (home : Location) (w : World σ),
    Ready directory home w.disk → Runs (World.save env directory fileName m.fileText) w
      (fun _ w' => w'.loadManifest directory = .ok m ∧
        w'.loadCheckpoint directory = w.loadCheckpoint directory)
      (fun _ w' => w'.loadCheckpoint directory = w.loadCheckpoint directory ∧
        w'.loadManifest directory = w.loadManifest directory)

theorem Checkpoint.Storable.restored {c : Checkpoint} (h : c.Storable) : c.Restored where
  read path := ofFile_fileText c path h
  saved env directory home w hready := by
    refine runs_imp _ _ _ (World.save_filed env fileName c.fileText w hready (by decide)) ?_ ?_
    · intro _ w' hfiled
      refine ⟨World.loadCheckpoint_saved w' hfiled.ready c h hfiled.content, ?_⟩
      have hmanifest := hfiled.others Manifest.fileName (by decide) (by decide)
      rw [World.loadManifest_eq w' hfiled.ready, World.loadManifest_eq w hready, hmanifest]
    · exact fun _ w' hrefused => hrefused.1.loads hready

theorem Manifest.Storable.restored {m : Manifest} (h : m.Storable) : m.Restored where
  read path := ofFile_fileText m path h
  saved env directory home w hready := by
    refine runs_imp _ _ _ (World.save_filed env fileName m.fileText w hready (by decide)) ?_ ?_
    · intro _ w' hfiled
      refine ⟨World.loadManifest_saved w' hfiled.ready m h hfiled.content, ?_⟩
      have hcheckpoint := hfiled.others Checkpoint.fileName (by decide) (by decide)
      rw [World.loadCheckpoint_eq w' hfiled.ready, World.loadCheckpoint_eq w hready, hcheckpoint]
    · exact fun _ w' hrefused => hrefused.1.loads hready

/-- The instants of the years with four digits, leap seconds aside, are valid. -/
theorem Timestamp.valid_of_year {t : Timestamp} (hyear : 0 ≤ t.date.year ∧ t.date.year ≤ 9999)
    (hmonth : 1 ≤ t.date.month ∧ t.date.month ≤ 12)
    (hday : 1 ≤ t.date.day ∧ t.date.day ≤ Date.monthLength t.date.year t.date.month)
    (hsecond : t.second < 86400) (hnano : t.nano < Duration.second) : t.Valid where
  date := by
    have hrange : Date.yearInRange t.date.year = true := by
      simp only [Date.yearInRange, Bool.and_eq_true, decide_eq_true_eq]
      omega
    exact (Date.isValid_iff _).mpr ⟨hrange, hmonth.1, hmonth.2, hday.1, hday.2⟩
  second := hsecond
  nano := by omega
  leap h := absurd hnano (by omega)

/-- What fits its file is restored from it, and so is whatever a file was accepted for. -/
theorem state_files_restore :
    (∀ c : Checkpoint, c.Storable → c.Restored) ∧ (∀ m : Manifest, m.Storable → m.Restored) ∧
      (∀ path bytes c, Checkpoint.ofFile path bytes = .ok c → c.Restored) ∧
      ∀ path bytes m, Manifest.ofFile path bytes = .ok m → m.Restored := by
  refine ⟨fun c hc => hc.restored, fun m hm => hm.restored, ?_, ?_⟩
  · intro path bytes c hread
    exact (Checkpoint.ofFile_storable path bytes c hread).restored
  · intro path bytes m hread
    exact (Manifest.ofFile_storable path bytes m hread).restored

section Odd

/-- A checkpoint with quotes, line ends and symbols of several bytes in its names, the last batch
that fits, and instants at both ends of the years with four digits. -/
def oddCheckpoint : Checkpoint where
  runId := "\"r\u0001\\"
  status := .checkpointed
  lastIndexedCommit := none
  targetCommit := some "\u00e9\u2212"
  processedFiles := .ofList ["\u65e5\u672c.py", "a\nb.py", ""]
  lastCompletedBatch := some 18446744073709551615
  startedAt := ⟨⟨0, 2, 29⟩, 86399, 999999999⟩
  timestamp := ⟨⟨9999, 12, 31⟩, 0, 1000⟩

def oddManifest : Manifest where
  version := 4294967295
  lastUpdated := some ⟨9223372036854775807999999999⟩
  files :=
    let record : FileRecord :=
      ⟨"\u0000", "", none, 18446744073709551615, "\u65e5", ["\"", ""], true⟩
    .ofList [("a\tb.py", record)]

/-- The JSON form of a checkpoint as another program may write it: the members in another order,
one that is unknown, one left out, and an instant with an offset. -/
def foreignJson : Json :=
  .record [("timestamp", .text "2024-01-01T01:00:00.5+01:30"), ("note", .optional .text none),
    ("schema_version", .nat 1), ("run_id", .text "r"), ("status", .text "failed"),
    ("processed_files", .array (["b", "a", "b"].map .text)), ("target_commit", .text "c"),
    ("started_at", .text "2024-01-01 00:00:00Z")]

def foreignCheckpoint : Checkpoint where
  runId := "r"
  status := .failed
  lastIndexedCommit := none
  targetCommit := some "c"
  processedFiles := .ofList ["b", "a", "b"]
  lastCompletedBatch := none
  startedAt := ⟨⟨2024, 1, 1⟩, 0, 0⟩
  timestamp := ⟨⟨2023, 12, 31⟩, 84600, 500000000⟩

theorem foreign_accepted (path : String) :
    Checkpoint.ofFile path foreignJson.pretty.toUTF8 = .ok foreignCheckpoint := by
  have hplain : foreignJson.Plain := by
    unfold foreignJson
    rw [Json.plainMembers_iff]
    simp only [List.forall_mem_cons, List.not_mem_nil, false_implies, implies_true, and_true]
    exact ⟨Json.plain_text _, Json.plain_optional _ Json.plain_text _, Json.plain_nat _,
      Json.plain_text _, Json.plain_text _, Json.plain_texts _, Json.plain_text _,
      Json.plain_text _⟩
  have hslots : Json.slots ["schema_version", "run_id", "status", "last_indexed_commit",
      "target_commit", "processed_files", "last_completed_batch_index", "started_at", "timestamp"]
      false foreignJson = some [.given (.nat 1), .given (.text "r"), .given (.text "failed"),
        .absent, .given (.text "c"), .given (.array (["b", "a", "b"].map .text)), .absent,
        .given (.text "2024-01-01 00:00:00Z"), .given (.text "2024-01-01T01:00:00.5+01:30")] := by
    rfl
  have hversion : (Json.Slot.given (.nat 1)).required Json.u32? = some 1 := rfl
  have htext (t : String) : (Json.Slot.given (.text t)).required Json.text? = some t := rfl
  have hstatus : (Json.Slot.given (.text "failed")).required (Json.name? RunStatus.ofName?) =
      some .failed := rfl
  have hcommit : (Json.Slot.given (.text "c")).nullable Json.text? = some (some "c") := rfl
  have hfiles : (Json.Slot.given (.array (["b", "a", "b"].map .text))).required
      (Json.list? Json.text?) = some ["b", "a", "b"] := Json.list_texts _
  have habsent {α : Type} (read : Json → Option α) : Json.Slot.absent.nullable read = some none :=
    rfl
  have hstarted : (Json.Slot.given (.text "2024-01-01 00:00:00Z")).required
      Checkpoint.instant? = some ⟨⟨2024, 1, 1⟩, 0, 0⟩ := by decide +kernel
  have htimestamp : (Json.Slot.given (.text "2024-01-01T01:00:00.5+01:30")).required
      Checkpoint.instant? = some ⟨⟨2023, 12, 31⟩, 84600, 500000000⟩ := by decide +kernel
  have hread : Checkpoint.ofJson? foreignJson = some foreignCheckpoint := by
    unfold Checkpoint.ofJson?
    simp only [bind, Option.bind, hslots, hversion, htext, hstatus, hcommit, hfiles, habsent,
      hstarted, htimestamp]
    rfl
  exact Checkpoint.ofFile_pretty path hplain hread rfl

theorem odd_files_restore : oddCheckpoint.Restored ∧ oddManifest.Restored ∧
    Checkpoint.ofFile "" foreignJson.pretty.toUTF8 = .ok foreignCheckpoint ∧
    foreignCheckpoint.Restored := by
  obtain ⟨hcheckpoints, hmanifests, haccepted, _⟩ := state_files_restore
  refine ⟨hcheckpoints _ ?_, hmanifests _ ?_, foreign_accepted "", ?_⟩
  · refine ⟨rfl, fun n hn => ?_, ?_, ?_⟩
    · cases hn
      decide
    · apply Timestamp.valid_of_year <;> decide
    · apply Timestamp.valid_of_year <;> decide
  · refine ⟨by decide, fun d hd => ?_, fun p r hr => ?_⟩
    · cases hd
      unfold Duration.Storable
      decide
    · have htime : ∀ x ∈ oddManifest.files.toList, x.2.modificationTime < Nat.pow 2 64 := by
        decide +kernel
      exact htime (p, r) (Std.ExtTreeMap.mem_toList_iff_getElem?_eq_some.mpr hr)
  · exact haccepted "" _ _ (foreign_accepted "")

end Odd

end CodeIndex
