import CodeIndex.Proofs.Run.Asking
import CodeIndex.Store.Memory
import Mathlib.Data.List.Forall2

/-!
What a batch hands to the store: of each file that it writes the new entities, each with the vector
that the provider answered for its own text.
-/

namespace CodeIndex

def VectorStore.journaled {σ : Type} (store : VectorStore σ) :
    VectorStore (σ × List (List EmbeddedEntity)) :=
  let inner := store.onPart Prod.fst fun s (p : σ × List (List EmbeddedEntity)) => (s, p.2)
  { inner with
    upsert := fun entities => do
      modify fun p => (p.1, p.2 ++ [entities])
      inner.upsert entities }

namespace RunSetting

variable {σ : Type} (setting : RunSetting σ)

/-- The setting with a journal of what the store is given to write. -/
def journaled : RunSetting (σ × List (List EmbeddedEntity)) where
  config := setting.config
  root := setting.root
  extractor := setting.extractor
  store := setting.store.journaled
  env := setting.env

/-- The provider answered a vector for a text: they stand at the same place of an accepted request
and of the answer to it. -/
def Vouches (new : List Request) (text : String) (vector : Embedding) : Prop :=
  ∃ r ∈ new, ∃ vectors, setting.Accepts r vectors ∧ (text, vector) ∈ r.texts.zip vectors

def Fits (new : List Request) (file : PreparedFile) (entries : List EmbeddedEntity) : Prop :=
  entries.map (·.entity) = file.fresh ∧
    ∀ e ∈ entries, setting.Vouches new e.entity.text e.vector

variable {setting} {new : List Request}

theorem Answered.vouches {texts : List String} {vectors : List Embedding}
    (h : setting.Answered new texts vectors) :
    List.Forall₂ (setting.Vouches new) texts vectors := by
  obtain ⟨accepted, hsub, haccepts, rfl, rfl⟩ := h
  have hnew (p : Request × List Embedding) (hp : p ∈ accepted) : p.1 ∈ new := by
    apply hsub.subset
    rw [List.mem_reverse]
    exact List.mem_map_of_mem hp
  clear hsub
  induction accepted with
  | nil => exact .nil
  | cons p accepted ih =>
    have hp : List.Forall₂ (setting.Vouches new) p.1.texts p.2 := by
      have haccepted := haccepts p List.mem_cons_self
      rw [List.forall₂_iff_zip]
      exact ⟨haccepted.2.symm, fun hmem =>
        ⟨p.1, hnew p List.mem_cons_self, p.2, haccepted, hmem⟩⟩
    exact List.rel_append hp (ih (fun q hq => haccepts q (List.mem_cons_of_mem _ hq))
      fun q hq => hnew q (List.mem_cons_of_mem _ hq))

/-- The vectors at the front are for the entities of the file, and the others for the files after
it. -/
theorem withVectors_own (entities : List Entity) (rest : List String) (vectors : List Embedding)
    (h : List.Forall₂ (setting.Vouches new) (entities.map (·.text) ++ rest) vectors) :
    ((RunState.withVectors entities vectors).map (·.entity) = entities ∧
      ∀ e ∈ RunState.withVectors entities vectors, setting.Vouches new e.entity.text e.vector) ∧
    List.Forall₂ (setting.Vouches new) rest (vectors.drop entities.length) := by
  induction entities generalizing vectors with
  | nil => exact ⟨⟨rfl, fun _ he => absurd he List.not_mem_nil⟩, h⟩
  | cons entity entities ih =>
    cases h with
    | cons hfirst hothers =>
      obtain ⟨⟨hentities, hown⟩, hrest⟩ := ih _ hothers
      refine ⟨⟨?_, ?_⟩, hrest⟩
      · exact congrArg (entity :: ·) hentities
      · rintro e (_ | ⟨_, he⟩)
        · exact hfirst
        · exact hown e he

end RunSetting

namespace World

variable {σ α : Type}

structure Hands (more : List (List EmbeddedEntity))
    (w w' : World (σ × List (List EmbeddedEntity))) : Prop where
  asked : w'.asked = w.asked
  journal : w'.store.2 = w.store.2 ++ more

variable {w w' w'' : World (σ × List (List EmbeddedEntity))}
  {more more' : List (List EmbeddedEntity)}

theorem Hands.nothing (hrequests : w'.requests = w.requests) (hstore : w'.store = w.store) :
    Hands [] w w' :=
  ⟨congrArg numbered hrequests, by rw [hstore, List.append_nil]⟩

theorem Hands.trans (h : Hands more w w') (h' : Hands more' w' w'') :
    Hands (more ++ more') w w'' :=
  ⟨h'.asked.trans h.asked, by rw [h'.journal, h.journal, List.append_assoc]⟩

variable (env : Surroundings) (store : VectorStore σ)

/-- A call to a store hands over what the store enters in its journal, or nothing if it fails ahead
of the store. -/
theorem reachOne_hands (call : StoreCall) (x : StoreM (σ × List (List EmbeddedEntity)) α)
    (hx : ∀ p : σ × List (List EmbeddedEntity),
      Runs x p (fun _ q => q.2 = p.2 ++ more) (fun _ q => q.2 = p.2 ++ more)) :
    Runs (reachOne env call x) w (fun _ w' => Hands more w w')
      (fun _ w' => Hands [] w w' ∨ Hands more w w') := by
  apply runs_reachOne env
  · exact fun _ _ => .inl (.nothing rfl rfl)
  · exact fun _ _ => runs_imp _ _ _ (hx w.store) (fun _ _ h => ⟨rfl, h⟩) fun _ _ h => .inr ⟨rfl, h⟩

/-- What the store does by itself enters nothing in the journal. -/
theorem runs_onPart_journal (x : StoreM σ α) (p : σ × List (List EmbeddedEntity)) :
    Runs (x.onPart Prod.fst fun s (p : σ × List (List EmbeddedEntity)) => (s, p.2)) p
      (fun _ q => q.2 = p.2) (fun _ q => q.2 = p.2) := by
  unfold Runs StoreM.onPart
  simp only [ExceptT.run, ExceptT.mk]
  rcases x p.1 with ⟨r, s⟩
  cases r <;> rfl

theorem deletion_hands (call : StoreCall) (x : StoreM σ α) :
    Runs (reachOne env call (x.onPart Prod.fst fun s (p : σ × List (List EmbeddedEntity)) =>
        (s, p.2))) w
      (fun _ w' => Hands [] w w') (fun _ w' => Hands [] w w') := by
  apply runs_imp _ _ _ (reachOne_hands env call _ fun p => ?_)
  · exact fun _ _ h => h
  · exact fun _ _ h => h.elim id id
  · rw [List.append_nil]
    exact runs_onPart_journal x p

/-- The update of a file hands its entries over once, unless it fails ahead of that. -/
theorem updateFile_hands (path : String) (previous current : Std.ExtTreeSet String)
    (embedded : List EmbeddedEntity) (hasRecord : Bool) :
    Runs ((reach env store.journaled).updateFile path previous current embedded hasRecord) w
      (fun _ w' => Hands [embedded] w w')
      (fun _ w' => Hands [] w w' ∨ Hands [embedded] w w') := by
  rw [VectorStore.runs_updateFile, reach_deleteByPath, reach_upsert, reach_deleteIds]
  have hleftover : Runs (if hasRecord then pure 0
      else reachOne env .deleteByPath (store.journaled.deleteByPath path)) w
      (fun _ w' => Hands [] w w') (fun _ w' => Hands [] w w') := by
    split
    · exact Hands.nothing rfl rfl
    · exact deletion_hands env _ _
  apply runs_imp _ _ _ hleftover
  · intro _ w₁ h₁
    have hupsert (p : σ × List (List EmbeddedEntity)) :
        Runs (store.journaled.upsert embedded) p (fun _ q => q.2 = p.2 ++ [embedded])
          (fun _ q => q.2 = p.2 ++ [embedded]) := by
      unfold VectorStore.journaled
      rw [runs_bind, runs_modify]
      exact runs_onPart_journal _ _
    apply runs_imp _ _ _ (reachOne_hands env .upsert _ hupsert)
    · intro _ w₂ h₂
      have hstale : Runs (if (VectorStore.staleIds previous current).isEmpty then pure 0
          else reachOne env .deleteIds (store.journaled.deleteIds
            (VectorStore.staleIds previous current))) w₂
          (fun _ w' => Hands [] w₂ w') (fun _ w' => Hands [] w₂ w') := by
        split
        · exact Hands.nothing rfl rfl
        · exact deletion_hands env _ _
      have h₁₂ : Hands [embedded] w w₂ := h₁.trans h₂
      apply runs_imp _ _ _ hstale
      · exact fun _ _ h₃ => h₁₂.trans h₃
      · exact fun _ _ h₃ => .inr (h₁₂.trans h₃)
    · exact fun _ _ h₂ => h₂.imp h₁.trans h₁.trans
  · exact fun _ _ h => .inl h

theorem save_hands (directory name text : String) :
    Runs (save env directory name text) w (fun _ w' => Hands [] w w')
      (fun _ w' => Hands [] w w') :=
  save_kept env (Hands [] w) (fun _ _ h => h.trans (.nothing rfl rfl)) w (.nothing rfl rfl)
    directory name text

end World

namespace RunState

variable {σ : Type} (setting : RunSetting σ)

/-- The files of a batch that are written: all of them if their texts are embedded, and else those
without texts. -/
def writtenOf (s : RunState (σ × List (List EmbeddedEntity))) (files : List PreparedFile) :
    List PreparedFile :=
  match ((embedAll setting.journaled (textsOf files)).run
    (s.begunBatch (files.map (·.path)))).1 with
  | .ok _ => files
  | .error _ => files.filter (·.fresh.isEmpty)

variable {s t u : RunState (σ × List (List EmbeddedEntity))}

theorem commitBatch_hands (files : List String) :
    Runs (commitBatch setting.journaled files) t (fun _ u => World.Hands [] t.world u.world)
      (fun _ u => World.Hands [] t.world u.world) := by
  rw [runs_commitBatch]
  apply runs_imp _ _ _ (World.save_hands setting.env _ _ _)
  · intro _ w hw
    apply runs_imp _ _ _ (World.save_hands setting.env _ _ _)
    · exact fun _ w' hw' => (hw.trans hw').trans (.nothing rfl rfl)
    · exact fun _ w' hw' => hw.trans hw'
  · exact fun _ _ hw => hw

theorem embedAll_hands (texts : List String) :
    Runs (embedAll setting.journaled texts) t
      (fun _ u => u.world.store = t.world.store) (fun _ u => u.world.store = t.world.store) :=
  runs_imp _ _ _ (embedAll_store setting.journaled texts t) (fun _ _ h => h.2.2) fun _ _ h => h.2.2

/-- What a batch has asked of the provider, and handed to the store when it has written some of its
files: the new entities of each of them in one call, in the order of the files. -/
def Handed (files : List PreparedFile) (s t : RunState (σ × List (List EmbeddedEntity)))
    (written : List PreparedFile) : Prop :=
  ∃ new handed, t.world.asked = new ++ s.world.asked ∧
    setting.journaled.Asks (textsOf files) s.optimizer.minSize new ∧
    t.world.store.2 = s.world.store.2 ++ handed ∧
    List.Forall₂ (setting.journaled.Fits new) written handed

variable {setting} in
theorem Handed.hands {files written : List PreparedFile} (h : Handed setting files s t written)
    (hu : World.Hands [] t.world u.world) : Handed setting files s u written := by
  obtain ⟨new, handed, hasked, hasks, hjournal, hfits⟩ := h
  refine ⟨new, handed, hu.asked.trans hasked, hasks, ?_, hfits⟩
  rw [hu.journal, hjournal, List.append_nil]

/-- A batch of which some files are written and handed to the store, and `rest` is left. The files
that are left fit the vectors that are left, unless the embedding was given up. -/
structure Handing (files : List PreparedFile) (s : RunState (σ × List (List EmbeddedEntity)))
    (new : List Request) (failure : Option IndexError) (written : List PreparedFile)
    (vectors : List Embedding) (rest : List PreparedFile)
    (t : RunState (σ × List (List EmbeddedEntity))) : Prop where
  asked : t.world.asked = new ++ s.world.asked
  asks : setting.journaled.Asks (textsOf files) s.optimizer.minSize new
  handed : ∃ handed, t.world.store.2 = s.world.store.2 ++ handed ∧
    List.Forall₂ (setting.journaled.Fits new) written handed
  goes : written ++ rest.filter (isWritten failure) = writtenOf setting s files
  vouched : failure = none → List.Forall₂ (setting.journaled.Vouches new) (textsOf rest) vectors

section Handing

variable {setting} {files written rest : List PreparedFile} {new : List Request}
  {failure : Option IndexError} {vectors : List Embedding} {file : PreparedFile}

theorem Handing.sofar (h : Handing setting files s new failure written vectors rest t) :
    Handed setting files s t written := by
  obtain ⟨handed, hjournal, hfits⟩ := h.handed
  exact ⟨new, handed, h.asked, h.asks, hjournal, hfits⟩

theorem embedAll_handing (files : List PreparedFile)
    (hreached : s.optimizer.Reached setting.env.maxBatch) :
    Runs (embedAll setting.journaled (textsOf files)) (s.begunBatch (files.map (·.path)))
      (fun vectors t => ∃ new, Handing setting files s new none [] vectors files t)
      (fun e t => ∃ new, Handing setting files s new (some e) [] [] files t) := by
  apply runs_imp _ _ _ (runs_and _ _ _ (runs_self _) (runs_and _ _ _
    (embedAll_asks (textsOf files) (s.begunBatch (files.map (·.path))) hreached)
    (embedAll_hands setting (textsOf files))))
  · rintro vectors t ⟨hran, ⟨new, hasked, hasks, hanswered⟩, hstore⟩
    refine ⟨new, hasked, hasks, ⟨[], ?_, .nil⟩, ?_, fun _ => hanswered.vouches⟩
    · rw [hstore, List.append_nil]
      rfl
    · unfold writtenOf
      rw [hran]
      exact List.filter_eq_self.mpr fun _ _ => rfl
  · rintro e t ⟨hran, ⟨new, hasked, hasks⟩, hstore⟩
    refine ⟨new, hasked, hasks, ⟨[], ?_, .nil⟩, ?_, fun h => by cases h⟩
    · rw [hstore, List.append_nil]
      rfl
    · unfold writtenOf
      rw [hran]
      rfl

theorem Handing.skip {e : IndexError} (hfresh : file.fresh ≠ [])
    (h : Handing setting files s new (some e) written vectors (file :: rest) t) :
    Handing setting files s new (some e) written vectors rest (t.addFailure file.path e) where
  asked := h.asked
  asks := h.asks
  handed := h.handed
  goes := (filter_isWritten_skips hfresh e rest) ▸ h.goes
  vouched := fun h => by cases h

/-- The vectors at hand are for the new entities of the next file, and then for those after it. -/
theorem Handing.vectors_own (hcase : failure = none ∨ file.fresh = [])
    (h : Handing setting files s new failure written vectors (file :: rest) t) :
    setting.journaled.Fits new file (withVectors file.fresh vectors) ∧
      (failure = none → List.Forall₂ (setting.journaled.Vouches new) (textsOf rest)
        (vectors.drop file.fresh.length)) := by
  cases failure with
  | none =>
    obtain ⟨hfile, hrest⟩ := RunSetting.withVectors_own file.fresh (textsOf rest) vectors
      (h.vouched rfl)
    exact ⟨hfile, fun _ => hrest⟩
  | some e =>
    have hfresh : file.fresh = [] := hcase.resolve_left (fun h => by cases h)
    rw [hfresh]
    exact ⟨⟨hfresh.symm, fun _ he => absurd he List.not_mem_nil⟩, fun h => by cases h⟩

theorem Handing.pass (hcase : failure = none ∨ file.fresh = [])
    (h : Handing setting files s new failure written vectors (file :: rest) t)
    (hu : World.Hands [withVectors file.fresh vectors] t.world u.world) :
    Handing setting files s new failure (written ++ [file]) (vectors.drop file.fresh.length) rest
      u := by
  obtain ⟨hfile, hrest⟩ := h.vectors_own hcase
  obtain ⟨handed, hjournal, hfits⟩ := h.handed
  refine ⟨hu.asked.trans h.asked, h.asks,
    ⟨handed ++ [withVectors file.fresh vectors], ?_, List.rel_append hfits (.cons hfile .nil)⟩, ?_,
    hrest⟩
  · rw [hu.journal, hjournal, List.append_assoc]
  · rw [List.append_assoc, ← h.goes, filter_isWritten_goes hcase]
    rfl

end Handing

/-- However a batch ends, the store is handed the new entities of its files with their own vectors,
file by file, up to a call of the store that fails. -/
theorem writeBatch_hands (plan : RunPlan) (files : List PreparedFile)
    (s : RunState (σ × List (List EmbeddedEntity)))
    (hreached : s.optimizer.Reached setting.env.maxBatch) :
    Runs (writeBatch setting.journaled plan files) s
      (fun _ t => Handed setting files s t (writtenOf setting s files))
      (fun _ t => ∃ written, written <+: writtenOf setting s files ∧
        Handed setting files s t written) := by
  apply writeBatch_steps setting.journaled plan files
    (fun failure _ vectors rest t =>
      ∃ new written, Handing setting files s new failure written vectors rest t)
    (fun t => Handed setting files s t (writtenOf setting s files))
  · -- the embedding
    apply runs_imp _ _ _ (embedAll_handing files hreached)
    · exact fun _ _ ⟨new, h⟩ => ⟨new, [], h⟩
    · exact fun _ _ ⟨new, h⟩ => ⟨new, [], h⟩
  · -- a file that fails with the embedding
    rintro _ _ vectors file rest t e rfl hfresh ⟨new, written, h⟩
    exact ⟨new, written, h.skip hfresh⟩
  · -- a file that is written
    rintro failure _ vectors file rest t hcase ⟨new, written, h⟩
    rw [runs_writeFile]
    apply runs_imp _ _ _ (World.updateFile_hands setting.env setting.store _ _ _ _ _)
    · exact fun _ v hv => ⟨new, written ++ [file], h.pass hcase hv⟩
    · rintro _ v (hv | hv)
      · exact ⟨written, ⟨_, h.goes⟩, h.sofar.hands hv⟩
      · -- the entries were handed over, and a later call of the update failed
        have hpassed : Handing setting files s new failure (written ++ [file])
            (vectors.drop file.fresh.length) rest { t with world := v } := h.pass hcase hv
        exact ⟨written ++ [file], ⟨_, hpassed.goes⟩, hpassed.sofar⟩
  · -- the batch is committed once no file is left
    rintro failure _ vectors t u ⟨new, written, h⟩ hcounted
    have hwritten : written = writtenOf setting s files := by
      rw [← h.goes, List.filter_nil, List.append_nil]
    have hu : Handed setting files s u written := by
      obtain ⟨_, _, rfl⟩ := hcounted.rest
      exact h.sofar.hands (.nothing rfl rfl)
    apply runs_imp _ _ _ (commitBatch_hands setting _)
    · exact fun _ v hv => hwritten ▸ hu.hands hv
    · exact fun _ v hv => ⟨written, hwritten ▸ List.prefix_rfl, hu.hands hv⟩
  · intro t u ht hcounted
    obtain ⟨_, _, rfl⟩ := hcounted.rest
    exact ht.hands (.nothing rfl rfl)

/-- A provider that answers every request has all texts embedded. -/
theorem embedAll_faithful (hstill : setting.env.Still) {vector : String → Embedding}
    (hfaithful : setting.Faithful vector) (texts : List String) (s : RunState σ) :
    ∃ vectors t, (embedAll setting texts).run s = (.ok vectors, t) := by
  obtain ⟨vectors, t, hran, _⟩ := runs_returns (embedAll setting texts)
    (runs_imp _ (fun _ _ => True) (fun _ _ => False) (embedAll_facts setting hstill texts s)
      (fun _ _ _ => trivial) fun _ _ h => h.2 vector hfaithful)
  exact ⟨vectors, t, hran⟩

/-- The embedding of texts ends after a round for each text at most, and keeps within its limits
whatever the provider does. If it succeeds, each text has the vector answered for it, and the store
is handed every new entity with the vector of its own text. -/
theorem texts_have_own_vectors :
    (∀ (texts : List String) (s : RunState σ), s.optimizer.Reached setting.env.maxBatch →
      (∀ rounds, texts.length ≤ rounds →
        (embedRounds setting rounds [] texts).run s = (embedAll setting texts).run s) ∧
      Runs (embedAll setting texts) s
        (fun vectors t => ∃ new, t.world.asked = new ++ s.world.asked ∧
          setting.Asks texts s.optimizer.minSize new ∧ setting.Answered new texts vectors)
        (fun _ t => ∃ new, t.world.asked = new ++ s.world.asked ∧
          setting.Asks texts s.optimizer.minSize new)) ∧
    ∀ (plan : RunPlan) (files : List PreparedFile)
      (s : RunState (σ × List (List EmbeddedEntity))),
      s.optimizer.Reached setting.env.maxBatch →
      Runs (writeBatch setting.journaled plan files) s
        (fun _ t => Handed setting files s t (writtenOf setting s files))
        (fun _ t => ∃ written, written <+: writtenOf setting s files ∧
          Handed setting files s t written) := by
  refine ⟨fun texts s hreached => ⟨fun rounds hrounds => ?_, embedAll_asks texts s hreached⟩,
    fun plan files s hreached => writeBatch_hands setting plan files s hreached⟩
  exact embedRounds_enough rounds texts.length [] texts s hrounds (Nat.le_refl _) hreached

section Limit

def limitedSetting (maxBatch : Nat) : RunSetting MemoryStore where
  config := {}
  root := "/w"
  extractor := ⟨fun _ => false, fun _ _ => .ok []⟩
  store := MemoryStore.calls
  env := {
    git := fun _ => .outside
    reply := fun _ texts => ⟨.zero, some (.ok (texts.map fun _ => []))⟩
    maxBatch := maxBatch
    dimensions := 1
    runId := fun _ => "run" }

def limitedState {τ : Type} (store : τ) (maxBatch : Nat) : RunState τ where
  world := { disk := {}, store := store, clock := ⟨⟨2024, 1, 1⟩, 0, 0⟩ }
  checkpoint := .newRun "run" none none ⟨⟨2024, 1, 1⟩, 0, 0⟩
  manifest := .empty
  result := default
  progress := default
  optimizer := .start {} maxBatch
  batchIndex := 0
  unreadable := 0

def limitedFile : PreparedFile :=
  let entity (id text : String) : Entity :=
    ⟨id, "a.py", .function, text, ⟨1, 1⟩, "", .full, none, none, text⟩
  ⟨"a.py", "", 0, "", false, ∅, ∅, [entity "1" "x", entity "2" "y"]⟩

theorem limited_own_vectors :
    (∃ vectors t new,
      (embedAll (limitedSetting 2) ["x", "y", "z"]).run (limitedState {} 2) = (.ok vectors, t) ∧
      t.world.asked = new ∧ (limitedSetting 2).Asks ["x", "y", "z"] 1 new ∧
      (limitedSetting 2).Answered new ["x", "y", "z"] vectors) ∧
    ∃ written, Handed (limitedSetting 2) [limitedFile] (limitedState ({}, []) 2)
      ((writeBatch (limitedSetting 2).journaled ⟨none, false, .noHistory, false⟩
        [limitedFile]).run (limitedState ({}, []) 2)).2 written := by
  obtain ⟨hall, hbatch⟩ := texts_have_own_vectors (limitedSetting 2)
  refine ⟨?_, ?_⟩
  · have hstill : (limitedSetting 2).env.Still :=
      ⟨fun _ _ => rfl, fun _ _ _ h => (by cases h), fun _ => rfl⟩
    have hfaithful : (limitedSetting 2).Faithful fun _ => [] := by
      have hintime : ¬ ({} : RetryPolicy).callTimeout < .zero := by decide
      exact ⟨rfl, fun _ _ => ⟨hintime, rfl⟩⟩
    obtain ⟨vectors, t, hran⟩ := embedAll_faithful (limitedSetting 2) hstill hfaithful
      ["x", "y", "z"] (limitedState {} 2)
    obtain ⟨new, hasked, hasks, hanswered⟩ := runs_ok _ _ _
      (hall ["x", "y", "z"] (limitedState {} 2) (.start {})).2 hran
    exact ⟨vectors, t, new, hran, hasked.trans (List.append_nil _), hasks, hanswered⟩
  · have h := hbatch ⟨none, false, .noHistory, false⟩ [limitedFile] (limitedState ({}, []) 2)
      (.start {})
    -- the batch itself is not looked into
    generalize writeBatch (limitedSetting 2).journaled _ [limitedFile] = batch at h ⊢
    generalize (limitedState _ 2 : RunState (MemoryStore × List (List EmbeddedEntity))) = s at h ⊢
    apply runs_end batch fun t => ∃ written, Handed (limitedSetting 2) [limitedFile] s t written
    apply runs_imp batch _ _ h
    · exact fun _ _ hs => ⟨_, hs⟩
    · rintro _ _ ⟨written, _, hs⟩
      exact ⟨written, hs⟩

/-- A hard limit of zero counts as one. -/
theorem zero_limit_exceeded :
    (limitedState ({} : MemoryStore) 0).optimizer.Reached (limitedSetting 0).env.maxBatch ∧
      ∃ r ∈ ((embedAll (limitedSetting 0) ["x"]).run (limitedState ({} : MemoryStore) 0)).2.world.asked,
        (limitedSetting 0).env.maxBatch < r.texts.length := by
  have hrequests : ((embedAll (limitedSetting 0) ["x"]).run (limitedState {} 0)).2.world.requests =
      [["x"]] := by decide +kernel
  refine ⟨.start {}, ⟨1, ["x"]⟩, ?_, by decide⟩
  unfold World.asked
  rw [hrequests]
  exact List.mem_singleton_self _

end Limit

end RunState

end CodeIndex
