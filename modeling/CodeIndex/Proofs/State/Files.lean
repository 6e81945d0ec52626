import CodeIndex.Proofs.Json.Decode
import CodeIndex.Proofs.State.Manifest
import CodeIndex.Proofs.Time.Timestamp
import CodeIndex.State.CheckpointFile
import CodeIndex.State.ManifestFile

namespace CodeIndex

theorem Json.read_pretty {α : Type} (read : Json → Option α) (v : Json) (hv : v.Plain) :
    (Json.ofBytes? v.pretty.toUTF8).bind read = read v := by
  rw [Json.ofBytes_pretty v hv]
  rfl

def Duration.Storable (d : Duration) : Prop := d.secs < Nat.pow 2 63

namespace Manifest

/-- The manifest fits its file. -/
structure Storable (m : Manifest) : Prop where
  version : m.version < Nat.pow 2 32
  updated : ∀ d, m.lastUpdated = some d → d.Storable
  times : ∀ p r, m.get? p = some r → r.modificationTime < Nat.pow 2 64

theorem empty_storable : Storable empty where
  version := by decide
  updated d h := by cases h
  times p r h := by
    rw [get?_empty] at h
    cases h

theorem Storable.changed {m m' : Manifest} (h : m.Storable) (hversion : m'.version = m.version)
    (hupdated : m'.lastUpdated = m.lastUpdated ∨ ∃ d : Duration, d.Storable ∧
      m'.lastUpdated = some d)
    (htimes : ∀ p r, m'.get? p = some r → r.modificationTime < Nat.pow 2 64 ∨
      ∃ q r', m.get? q = some r' ∧ r.modificationTime = r'.modificationTime) : m'.Storable where
  version := hversion ▸ h.version
  updated d hd := by
    rcases hupdated with heq | ⟨e, he, heq⟩
    · exact h.updated d (heq ▸ hd)
    · rw [hd] at heq
      injection heq with heq
      exact heq ▸ he
  times p r hr := by
    rcases htimes p r hr with hlt | ⟨q, r', hr', heq⟩
    · exact hlt
    · rw [heq]
      exact h.times q r' hr'

theorem Storable.recordIndexed {m : Manifest} (h : m.Storable) (r : FileRecord)
    (hr : r.modificationTime < Nat.pow 2 64) (now : Duration) (hnow : now.Storable) :
    (m.recordIndexed r now).Storable := by
  refine h.changed rfl (.inr ⟨now, hnow, rfl⟩) fun p r' hp => ?_
  rw [get?_recordIndexed] at hp
  split at hp
  · injection hp with hp
    exact .inl (hp ▸ hr)
  · exact .inr ⟨p, r', hp, rfl⟩

theorem Storable.removeFile {m : Manifest} (h : m.Storable) (path : String) (now : Duration)
    (hnow : now.Storable) : (m.removeFile path now).Storable := by
  refine h.changed ?_ ?_ fun p r hp => ?_
  · unfold Manifest.removeFile
    split <;> rfl
  · unfold Manifest.removeFile
    split
    · exact .inl rfl
    · exact .inr ⟨now, hnow, rfl⟩
  · rw [get?_removeFile] at hp
    split at hp
    · cases hp
    · exact .inr ⟨p, r, hp, rfl⟩

theorem Storable.renameFile {m : Manifest} (h : m.Storable) (source target : String)
    (commit : Option String) (now : Duration) (hnow : now.Storable) :
    (m.renameFile source target commit now).Storable := by
  cases hs : m.get? source with
  | none =>
    have hsame : m.renameFile source target commit now = m := by
      unfold Manifest.renameFile
      rw [hs]
    rw [hsame]
    exact h
  | some r =>
    have hupdated : (m.renameFile source target commit now).lastUpdated = some now := by
      unfold Manifest.renameFile
      rw [hs]
    refine h.changed ?_ (.inr ⟨now, hnow, hupdated⟩) fun p r' hp => ?_
    · unfold Manifest.renameFile
      rw [hs]
    · rw [get?_renameFile m source target commit now r hs] at hp
      split at hp
      · injection hp with hp
        exact .inr ⟨source, r, hs, by rw [← hp]⟩
      · split at hp
        · cases hp
        · exact .inr ⟨p, r', hp, rfl⟩

theorem Storable.setDiverged {m : Manifest} (h : m.Storable) (path : String) (value : Bool) :
    (m.setDiverged path value).Storable := by
  have hkeep : (m.setDiverged path value).version = m.version ∧
      (m.setDiverged path value).lastUpdated = m.lastUpdated := by
    unfold Manifest.setDiverged
    split <;> exact ⟨rfl, rfl⟩
  refine h.changed hkeep.1 (.inl hkeep.2) fun p r hp => ?_
  rw [get?_setDiverged] at hp
  split at hp
  · obtain ⟨r', hr', rfl⟩ := Option.map_eq_some_iff.mp hp
    exact .inr ⟨p, r', hr', rfl⟩
  · exact .inr ⟨p, r, hp, rfl⟩

theorem Storable.settleDivergence {m : Manifest} (h : m.Storable) (found : Std.ExtTreeSet String)
    (now : Duration) (hnow : now.Storable) : (m.settleDivergence found now).Storable := by
  refine h.changed ?_ ?_ fun p r hp => ?_
  · unfold Manifest.settleDivergence
    split <;> rfl
  · unfold Manifest.settleDivergence
    split
    · exact .inr ⟨now, hnow, rfl⟩
    · exact .inl rfl
  · rw [get?_settleDivergence] at hp
    obtain ⟨r', hr', rfl⟩ := Option.map_eq_some_iff.mp hp
    exact .inr ⟨p, r', hr', rfl⟩

theorem updated_read (d : Duration) (h : d.Storable) : updated? (updatedJson d) = some d := by
  have hlt : d.nanoseconds / 1000000000 < 9223372036854775808 := h
  have hslots := Json.slots_record true
    [("secs_since_epoch", .nat d.secs), ("nanos_since_epoch", .nat d.nanos)] (by simp)
  have hparts : Duration.ofParts d.secs d.nanos = d := by
    unfold Duration.ofParts Duration.secs Duration.nanos
    rw [Nat.mul_comm, Nat.div_add_mod]
  have hmax : d.nanoseconds ≤ Duration.max.nanoseconds := by
    have hvalue : Duration.max.nanoseconds = 18446744073709551615999999999 := by decide
    omega
  have hsecs : Json.u64? (.nat d.secs) = some d.secs :=
    Json.natBelow_nat _ _ (by
      show d.nanoseconds / 1000000000 < 18446744073709551616
      omega)
  have hnanos : Json.u32? (.nat d.nanos) = some d.nanos :=
    Json.natBelow_nat _ _ (by
      show d.nanoseconds % 1000000000 < 4294967296
      omega)
  have hnamed : Json.durationNamed? "secs_since_epoch" "nanos_since_epoch" (updatedJson d) =
      some d := by
    unfold Json.durationNamed? updatedJson
    simp only [bind, Option.bind]
    rw [show ["secs_since_epoch", "nanos_since_epoch"] =
      [("secs_since_epoch", Json.nat d.secs), ("nanos_since_epoch", Json.nat d.nanos)].map (·.1)
      from rfl, hslots]
    simp only [List.map_cons, List.map_nil, Json.Slot.required, hsecs, hnanos, hparts]
    exact if_pos hmax
  unfold updated?
  rw [hnamed]
  exact if_pos h

theorem record_read (r : FileRecord) (h : r.modificationTime < Nat.pow 2 64) :
    FileRecord.ofJson? r.toJson = some r := by
  have hslots := Json.slots_record false
    [("path", .text r.path), ("content_hash", .text r.contentHash),
    ("last_seen_commit", .optional .text r.lastSeenCommit),
    ("modification_time", .nat r.modificationTime), ("lineage", .text r.lineage),
    ("entity_ids", .array (r.entityIds.map .text)), ("diverged", .bool r.diverged)] (by simp)
  have htext (s : String) : (Json.Slot.given (.text s)).required Json.text? = some s := rfl
  have hcommit : (Json.Slot.given (.optional .text r.lastSeenCommit)).nullable Json.text? =
      some r.lastSeenCommit :=
    Json.nullable_optional _ _ _ (fun _ _ => rfl) (fun _ hnull => by cases hnull)
  have htime : (Json.Slot.given (.nat r.modificationTime)).required Json.u64? =
      some r.modificationTime := Json.natBelow_nat _ _ h
  have hids : (Json.Slot.given (.array (r.entityIds.map .text))).required
      (Json.list? Json.text?) = some r.entityIds := Json.list_texts _
  have hdiverged : (Json.Slot.given (.bool r.diverged)).withDefault false Json.bool? =
      some r.diverged := rfl
  unfold FileRecord.ofJson? FileRecord.toJson
  simp only [List.map_cons, List.map_nil] at hslots
  simp only [bind, Option.bind, hslots, htext, hcommit, htime, hids, hdiverged]

theorem record_plain (r : FileRecord) : r.toJson.Plain := by
  unfold FileRecord.toJson
  rw [Json.plainMembers_iff]
  simp only [List.forall_mem_cons, List.not_mem_nil, false_implies, implies_true, and_true]
  refine ⟨Json.plain_text _, Json.plain_text _, Json.plain_optional _ Json.plain_text _,
    Json.plain_nat _, Json.plain_text _, Json.plain_texts _, ?_⟩
  rw [Json.Plain]
  exact trivial

theorem toJson_plain (m : Manifest) : m.toJson.Plain := by
  unfold toJson
  rw [Json.plainMembers_iff]
  simp only [List.forall_mem_cons, List.not_mem_nil, false_implies, implies_true, and_true]
  refine ⟨Json.plain_nat _, Json.plain_optional _ (fun d => ?_) _, ?_⟩
  · unfold updatedJson
    rw [Json.plainMembers_iff]
    simp only [List.forall_mem_cons, List.not_mem_nil, false_implies, implies_true, and_true]
    exact ⟨Json.plain_nat _, Json.plain_nat _⟩
  · rw [Json.plainMembers_iff]
    intro x hx
    obtain ⟨y, _, rfl⟩ := List.mem_map.mp hx
    exact record_plain y.2

/-- The records of a file, one by one, are the records that were written. -/
theorem files_ofList (m : Manifest) : Std.ExtTreeMap.ofList m.files.toList = m.files := by
  apply Std.ExtTreeMap.ext_getElem?
  intro p
  cases hp : m.files[p]? with
  | none =>
    apply Std.ExtTreeMap.getElem?_ofList_of_contains_eq_false
    rw [← Bool.not_eq_true, List.contains_iff_mem, List.mem_map]
    rintro ⟨⟨q, r⟩, hmem, rfl⟩
    rw [Std.ExtTreeMap.mem_toList_iff_getElem?_eq_some] at hmem
    rw [hp] at hmem
    cases hmem
  | some r =>
    exact Std.ExtTreeMap.getElem?_ofList_of_mem Std.ReflCmp.compare_self
      Std.ExtTreeMap.distinct_keys_toList
      (Std.ExtTreeMap.mem_toList_iff_getElem?_eq_some.mpr hp)

def members (m : Manifest) : List (String × Json) := [
  ("version", .nat m.version), ("last_updated", .optional updatedJson m.lastUpdated),
  ("files", .record (m.files.toList.map fun (path, r) => (path, r.toJson)))]

theorem files_read (m : Manifest) (h : m.Storable) :
    (Json.Slot.given (.record (m.files.toList.map fun (path, r) => (path, r.toJson)))).required
      (Json.entries? FileRecord.ofJson?) = some m.files.toList :=
  Json.entries_record _ _ _ fun x hx => record_read x.2
    (h.times x.1 x.2 (Std.ExtTreeMap.mem_toList_iff_getElem?_eq_some.mp hx))

/-- A manifest that fits its file is read back as it was written. -/
theorem ofFile_fileText (m : Manifest) (path : String) (h : m.Storable) :
    ofFile path m.fileText.toUTF8 = .ok m := by
  have hslots := Json.slots_record false m.members (by simp [members])
  have hversion : (Json.Slot.given (.nat m.version)).required Json.u32? = some m.version :=
    Json.natBelow_nat _ _ h.version
  have hupdated : (Json.Slot.given (.optional updatedJson m.lastUpdated)).nullable updated? =
      some m.lastUpdated :=
    Json.nullable_optional _ _ _ (fun d hd => updated_read d (h.updated d hd))
      (fun _ hnull => by cases hnull)
  have hfiles := m.files_read h
  have hread : ofJson? m.toJson = some m := by
    simp only [members, List.map_cons, List.map_nil] at hslots
    unfold ofJson? toJson
    simp only [bind, Option.bind, hslots, hversion, hupdated, hfiles, files_ofList]
  unfold ofFile fileText
  rw [Json.read_pretty _ _ (toJson_plain m), hread]

theorem getElem?_insertMany (l : List (String × FileRecord))
    (files : Std.ExtTreeMap String FileRecord) (p : String) (r : FileRecord)
    (h : (files.insertMany l)[p]? = some r) : files[p]? = some r ∨ (p, r) ∈ l := by
  induction l generalizing files with
  | nil => exact .inl (by simpa using h)
  | cons x l ih =>
    rw [show x = (x.1, x.2) from rfl, Std.ExtTreeMap.insertMany_cons] at h
    rcases ih _ h with hfiles | hl
    · rw [Std.ExtTreeMap.getElem?_insert] at hfiles
      split at hfiles
      · rename_i heq
        injection hfiles with hfiles
        rw [Std.LawfulEqCmp.compare_eq_iff_eq] at heq
        exact .inr (by rw [← heq, ← hfiles]; exact List.mem_cons_self)
      · exact .inl hfiles
    · exact .inr (List.mem_cons_of_mem _ hl)

theorem updated_storable (value : Json) (d : Duration) (h : updated? value = some d) :
    d.Storable := by
  unfold updated? at h
  simp only [bind, Option.bind_eq_some_iff] at h
  obtain ⟨found, _, h⟩ := h
  split at h
  · rename_i hlt
    injection h with h
    exact h ▸ hlt
  · cases h

theorem record_time (value : Json) (r : FileRecord) (h : FileRecord.ofJson? value = some r) :
    r.modificationTime < Nat.pow 2 64 := by
  unfold FileRecord.ofJson? at h
  simp only [bind, Option.bind_eq_some_iff] at h
  obtain ⟨fields, _, h⟩ := h
  split at h
  · simp only [Option.bind_eq_some_iff] at h
    obtain ⟨_, _, _, _, _, _, modified, htime, _, _, _, _, _, _, h⟩ := h
    injection h with h
    subst h
    obtain ⟨value, hread⟩ := Json.required_given _ _ _ htime
    exact Json.natBelow_lt _ _ _ hread
  · cases h

theorem ofFile_storable (path : String) (bytes : ByteArray) (m : Manifest)
    (h : ofFile path bytes = .ok m) : m.Storable := by
  unfold ofFile at h
  split at h
  · cases h
  rename_i found hfound
  injection h with h
  subst h
  obtain ⟨value, _, hvalue⟩ := Option.bind_eq_some_iff.mp hfound
  unfold ofJson? at hvalue
  simp only [bind, Option.bind_eq_some_iff] at hvalue
  obtain ⟨fields, _, hvalue⟩ := hvalue
  split at hvalue
  · simp only [Option.bind_eq_some_iff] at hvalue
    obtain ⟨v, hv, u, hu, l, hl, hvalue⟩ := hvalue
    injection hvalue with hvalue
    subst hvalue
    refine ⟨?_, ?_, ?_⟩
    · obtain ⟨value, hread⟩ := Json.required_given _ _ _ hv
      exact Json.natBelow_lt _ _ _ hread
    · intro d hd
      have hd : u = some d := hd
      subst hd
      obtain ⟨value, hread⟩ := Json.nullable_given _ _ _ hu
      exact updated_storable value d hread
    · intro p r hr
      rw [get?, Std.ExtTreeMap.ofList_eq_insertMany_empty] at hr
      rcases getElem?_insertMany l ∅ p r hr with hnone | hmem
      · rw [Std.ExtTreeMap.getElem?_empty] at hnone
        cases hnone
      · obtain ⟨value, hread⟩ := Json.required_given _ _ _ hl
        obtain ⟨value, hrecord⟩ := Json.entries_given _ _ _ hread _ hmem
        exact record_time value r hrecord
  · cases hvalue

end Manifest

namespace Checkpoint

/-- The checkpoint fits its file. -/
structure Storable (c : Checkpoint) : Prop where
  schema : c.schemaVersion = currentSchema
  batch : ∀ n, c.lastCompletedBatch = some n → n < Nat.pow 2 64
  started : c.startedAt.Valid
  timestamp : c.timestamp.Valid

theorem status_read (s : RunStatus) :
    (Json.Slot.given (.text s.name)).required (Json.name? RunStatus.ofName?) = some s := by
  cases s <;> rfl

theorem instant_read (t : Timestamp) (h : t.Valid) :
    (Json.Slot.given (.text t.text)).required instant? = some t := by
  have htext : Json.text? (.text t.text) = some t.text := rfl
  rw [Json.Slot.required, instant?, htext, Option.bind_some, Timestamp.parse_text t h]

theorem toJson_plain (c : Checkpoint) : c.toJson.Plain := by
  unfold toJson
  rw [Json.plainMembers_iff]
  simp only [List.forall_mem_cons, List.not_mem_nil, false_implies, implies_true, and_true]
  exact ⟨Json.plain_nat _, Json.plain_text _, Json.plain_text _,
    Json.plain_optional _ Json.plain_text _, Json.plain_optional _ Json.plain_text _,
    Json.plain_texts _, Json.plain_optional _ Json.plain_nat _, Json.plain_text _,
    Json.plain_text _⟩

theorem processed_ofList (c : Checkpoint) :
    Std.ExtTreeSet.ofList c.processedFiles.toList = c.processedFiles := by
  apply Std.ExtTreeSet.ext_mem
  intro p
  rw [Std.ExtTreeSet.mem_ofList, List.contains_iff_mem, Std.ExtTreeSet.mem_toList]

/-- All of a checkpoint but the number of its last batch is read back in any case. -/
theorem ofJson_toJson (c : Checkpoint) (batch : Option (Option Nat))
    (hschema : c.schemaVersion = currentSchema) (hstarted : c.startedAt.Valid)
    (htimestamp : c.timestamp.Valid)
    (hbatch : (Json.Slot.given (.optional .nat c.lastCompletedBatch)).nullable Json.u64? = batch) :
    ofJson? c.toJson = batch.map fun b => { c with lastCompletedBatch := b } := by
  have hslots := Json.slots_record false
    [("schema_version", .nat c.schemaVersion), ("run_id", .text c.runId),
    ("status", .text c.status.name),
    ("last_indexed_commit", .optional .text c.lastIndexedCommit),
    ("target_commit", .optional .text c.targetCommit),
    ("processed_files", .array (c.processedFiles.toList.map .text)),
    ("last_completed_batch_index", .optional .nat c.lastCompletedBatch),
    ("started_at", .text c.startedAt.text), ("timestamp", .text c.timestamp.text)] (by simp)
  have hversion : (Json.Slot.given (.nat c.schemaVersion)).required Json.u32? =
      some c.schemaVersion := Json.natBelow_nat _ _ (by rw [hschema]; decide)
  have htext (s : String) : (Json.Slot.given (.text s)).required Json.text? = some s := rfl
  have hcommit (x : Option String) : (Json.Slot.given (.optional .text x)).nullable Json.text? =
      some x := Json.nullable_optional _ _ _ (fun _ _ => rfl) (fun _ hnull => by cases hnull)
  have hfiles : (Json.Slot.given (.array (c.processedFiles.toList.map .text))).required
      (Json.list? Json.text?) = some c.processedFiles.toList := Json.list_texts _
  unfold ofJson? toJson
  simp only [List.map_cons, List.map_nil] at hslots
  simp only [bind, Option.bind, hslots, hversion, htext, status_read, hcommit, hfiles, hbatch,
    instant_read _ hstarted, instant_read _ htimestamp, processed_ofList]
  cases batch <;> rfl

/-- A file is read as the checkpoint that is read of what was printed to it. -/
theorem ofFile_pretty {value : Json} {c : Checkpoint} (path : String) (hplain : value.Plain)
    (hread : ofJson? value = some c) (hschema : c.schemaVersion = currentSchema) :
    ofFile path value.pretty.toUTF8 = .ok c := by
  unfold ofFile
  rw [Json.read_pretty _ _ hplain, hread]
  exact if_pos hschema

/-- A checkpoint that fits its file is read back as it was written. -/
theorem ofFile_fileText (c : Checkpoint) (path : String) (h : c.Storable) :
    ofFile path c.fileText.toUTF8 = .ok c := by
  have hbatch : (Json.Slot.given (.optional .nat c.lastCompletedBatch)).nullable Json.u64? =
      some c.lastCompletedBatch :=
    Json.nullable_optional _ _ _ (fun n hn => Json.natBelow_nat _ _ (h.batch n hn))
      (fun _ hnull => by cases hnull)
  exact ofFile_pretty path (toJson_plain c)
    (ofJson_toJson c _ h.schema h.started h.timestamp hbatch) h.schema

theorem instant_valid (s : Json.Slot) (t : Timestamp) (h : s.required instant? = some t) :
    t.Valid := by
  obtain ⟨value, hread⟩ := Json.required_given _ _ _ h
  obtain ⟨text, _, hparse⟩ := Option.bind_eq_some_iff.mp hread
  exact Timestamp.parse_valid text t hparse

theorem ofFile_storable (path : String) (bytes : ByteArray) (c : Checkpoint)
    (h : ofFile path bytes = .ok c) : c.Storable := by
  unfold ofFile at h
  split at h
  · cases h
  rename_i found hfound
  split at h
  · rename_i hschema
    injection h with h
    subst h
    obtain ⟨value, _, hvalue⟩ := Option.bind_eq_some_iff.mp hfound
    unfold ofJson? at hvalue
    simp only [bind, Option.bind_eq_some_iff] at hvalue
    obtain ⟨fields, _, hvalue⟩ := hvalue
    split at hvalue
    · simp only [Option.bind_eq_some_iff] at hvalue
      obtain ⟨_, _, _, _, _, _, _, _, _, _, _, _, batch, hbatch, _, hstarted, _, htimestamp,
        hvalue⟩ := hvalue
      injection hvalue with hvalue
      subst hvalue
      refine ⟨hschema, ?_, instant_valid _ _ hstarted, instant_valid _ _ htimestamp⟩
      intro n hn
      have hn : batch = some n := hn
      subst hn
      obtain ⟨value, hread⟩ := Json.nullable_given _ _ _ hbatch
      exact Json.natBelow_lt _ _ _ hread
    · cases hvalue
  · cases h

end Checkpoint

end CodeIndex
