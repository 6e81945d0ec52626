import CodeIndex.Proofs.Batch.Limits
import CodeIndex.Proofs.Run.Logic
import CodeIndex.Run.Embed

namespace CodeIndex

structure BatchOptimizer.Sound (o : BatchOptimizer) : Prop where
  least : 1 ≤ o.minSize
  most : 1 ≤ o.hardLimit
  now : 1 ≤ o.currentSize

namespace BatchOptimizer

theorem start_sound (config : BatchConfig) (hardLimit : Nat) : (start config hardLimit).Sound := by
  have hclamp (n low high : Nat) (hl : 1 ≤ low) (hh : 1 ≤ high) : 1 ≤ clampNat n low high := by
    unfold clampNat
    split
    · exact hl
    · split <;> omega
  have hhard : 1 ≤ max hardLimit 1 := by omega
  have hleast := hclamp config.minSize 1 (max hardLimit 1) (by omega) hhard
  exact ⟨hleast, hhard, hclamp config.initialSize _ _ hleast hhard⟩

/-- An observation moves the size between the least size and the hard limit. -/
theorem record_sound (o : BatchOptimizer) (m : BatchMetrics) (h : o.Sound) : (o.record m).Sound := by
  have hshrunk (n : Nat) : 1 ≤ o.shrunk n := by
    exact Nat.le_trans h.least (Nat.le_max_right _ _)
  have hgrown (n : Nat) : 1 ≤ o.grown n := by
    have hm := h.most
    unfold grown
    omega
  refine ⟨h.least, h.most, ?_⟩
  show 1 ≤ o.nextSize m
  unfold nextSize
  split
  · split
    · exact hshrunk _
    · split
      · exact hgrown _
      · exact h.now
  all_goals first | exact hshrunk _ | exact h.now

theorem LeadsTo.sound {o o' : BatchOptimizer} (h : o.LeadsTo o') (ho : o.Sound) : o'.Sound :=
  h.keeps record_sound ho

end BatchOptimizer

namespace RunState

variable {σ : Type}

structure Core (σ : Type) where
  disk : Disk
  store : σ
  calls : List StoreCall
  moments : List (Moment σ)
  manifest : Manifest
  missed : Nat
  status : RunOutcome

def core (s : RunState σ) : Core σ where
  disk := s.world.disk
  store := s.world.store
  calls := s.world.storeCalls
  moments := s.world.moments
  manifest := s.manifest
  missed := s.result.filesFailed + s.unreadable
  status := s.result.status

structure Quiet (env : Surroundings) (s t : RunState σ) : Prop where
  core : t.core = s.core
  checkpoint : t.checkpoint = s.checkpoint
  batchIndex : t.batchIndex = s.batchIndex
  clock : ∀ P : Timestamp → Prop,
    (∀ c d, P c → Date.yearInRange (c.advance d).date.year = true → P (c.advance d)) →
    P s.world.clock → P t.world.clock
  optimizer : s.optimizer.Sound → t.optimizer.Sound
  calm : (∀ n, env.cancelsAt n = false) → t.world.isCancelled = s.world.isCancelled
  unread : t.unreadable = s.unreadable
  errors : t.result.errors = s.result.errors

theorem Quiet.refl (env : Surroundings) (s : RunState σ) : Quiet env s s :=
  ⟨rfl, rfl, rfl, fun _ _ h => h, fun h => h, fun _ => rfl, rfl, rfl⟩

theorem Quiet.trans {env : Surroundings} {s t u : RunState σ} (h : Quiet env s t)
    (h' : Quiet env t u) : Quiet env s u where
  core := h'.core.trans h.core
  checkpoint := h'.checkpoint.trans h.checkpoint
  batchIndex := h'.batchIndex.trans h.batchIndex
  clock P hP hs := h'.clock P hP (h.clock P hP hs)
  optimizer hs := h'.optimizer (h.optimizer hs)
  calm hc := (h'.calm hc).trans (h.calm hc)
  unread := h'.unread.trans h.unread
  errors := h'.errors.trans h.errors

end RunState

/-- Surroundings that leave the tree of a run as it is, and the writes to its state directory. -/
structure Surroundings.Still (env : Surroundings) : Prop where
  request : ∀ n d, env.atRequest n d = d
  store : ∀ call n f, env.atStore call n ≠ .alter f
  write : ∀ n, env.atWrite n = .proceed

/-- A provider that answers every request in time, with a vector for each text by itself. -/
structure RunSetting.Faithful {σ : Type} (setting : RunSetting σ) (vector : String → Embedding) :
    Prop where
  permits : setting.env.permits = true
  reply : ∀ n texts, ¬ setting.config.retry.callTimeout < (setting.env.reply n texts).latency ∧
    (setting.env.reply n texts).answer = some (.ok (texts.map vector))

/-- A provider that may be late or refuse a request, and else answers with a vector for each text by
itself. An answer with another number of vectors counts as none. -/
def RunSetting.Answers {σ : Type} (setting : RunSetting σ) (vector : String → Embedding) : Prop :=
  ∀ n texts vectors, (setting.env.reply n texts).answer = some (.ok vectors) →
    vectors.length = texts.length → vectors = texts.map vector

theorem RunSetting.Faithful.answers {σ : Type} {setting : RunSetting σ}
    {vector : String → Embedding} (h : setting.Faithful vector) : setting.Answers vector := by
  intro n texts vectors hanswer _
  rw [(h.reply n texts).2] at hanswer
  cases hanswer
  rfl

namespace RunState

variable {σ : Type} (setting : RunSetting σ)

theorem wait_quiet (env : Surroundings) (s : RunState σ) (d : Duration) :
    Quiet env s { s with world := s.world.wait d } := by
  by_cases h : Date.yearInRange (s.world.clock.advance d).date.year = true
  · have hw : s.world.wait d = { s.world with clock := s.world.clock.advance d } := by
      simp only [World.wait, h, if_true]
    rw [hw]
    exact ⟨rfl, rfl, rfl, fun P hP hs => hP _ _ hs h, fun h => h, fun _ => rfl, rfl, rfl⟩
  · have hw : s.world.wait d = s.world := by
      simp only [World.wait, h]
      rfl
    rw [hw]
    exact Quiet.refl env s

/-- A request leaves the core alone, and a faithful provider answers it. -/
theorem request_facts (hstill : setting.env.Still) (texts : List String) (s : RunState σ) :
    Runs (request setting texts) s
      (fun r t => Quiet setting.env s t ∧
        (∀ vector, setting.Faithful vector → r.2 = some (.ok (texts.map vector))) ∧
        ∀ vectors, r.2 = some (.ok vectors) →
          ∃ n, (setting.env.reply n texts).answer = some (.ok vectors))
      (fun _ t => Quiet setting.env s t ∧ ∀ vector, ¬ setting.Faithful vector) := by
  unfold request
  simp only [runs_bind, runs_get]
  by_cases hp : setting.env.permits = true
  · rw [hp]
    simp only [Bool.not_true, Bool.false_eq_true, if_false, runs_bind, runs_pure, runs_set]
    refine ⟨?_, ?_, ?_⟩
    · -- the request is counted, the clock goes on, and the run may be cancelled
      refine Quiet.trans (t := { s with
        world := { s.world with
          requests := texts :: s.world.requests
          disk := setting.env.atRequest (s.world.requests.length + 1) s.world.disk
          isCancelled := s.world.isCancelled ||
            setting.env.cancelsAt (s.world.requests.length + 1) }
        result := { s.result with embeddingCalls := s.result.embeddingCalls + 1 } }) ?_ ?_
      · refine ⟨?_, rfl, rfl, fun _ _ h => h, fun h => h, ?_, rfl, rfl⟩
        · simp only [core, hstill.request]
        · intro hc
          simp only [hc, Bool.or_false]
      · exact wait_quiet setting.env _ _
    · intro vector hf
      obtain ⟨htime, hans⟩ := hf.reply (s.world.requests.length + 1) texts
      simp [hans, htime]
    · intro vectors hanswer
      refine ⟨s.world.requests.length + 1, ?_⟩
      split at hanswer
      · exact hanswer
      · cases hanswer
  · have hp' : setting.env.permits = false := by simpa using hp
    rw [hp']
    simp only [Bool.not_false, if_true, runs_bind, runs_throw]
    refine ⟨Quiet.refl _ _, fun vector hf => ?_⟩
    rw [hf.permits] at hp'
    cases hp'

def measured (texts : List String) (size : Nat) (latency : Duration)
    (answer : Option (Except EmbedError (List Embedding))) : BatchMetrics where
  batchSize := size
  latency := latency
  memory := estimateMemory (texts.take size) setting.env.dimensions
  outcome := outcomeOf answer.isSome (settleAnswer setting.config.retry.callTimeout size answer)

/-- One attempt is a request that the optimizer is told of. It ends with vectors, or with an error
after which the request is given up or, after a while, made again. -/
theorem runs_attempt {n : Nat} {texts : List String} {s : RunState σ}
    {Q : List Embedding × List String → RunState σ → Prop} {E : IndexError → RunState σ → Prop}
    (A : Duration → Option (Except EmbedError (List Embedding)) → RunState σ → Prop) (size : Nat)
    (hsize : min s.optimizer.currentSize texts.length = size)
    (hrequest : Runs (request setting (texts.take size)) s (fun r t => A r.1 r.2 t) E)
    (hfound : ∀ latency answer t vectors, A latency answer t →
      settleAnswer setting.config.retry.callTimeout size answer = .ok vectors →
      Q (vectors, texts.drop size)
        { t with optimizer := t.optimizer.record (measured setting texts size latency answer) })
    (hfailed : ∀ latency answer t e, A latency answer t →
      settleAnswer setting.config.retry.callTimeout size answer = .error e →
      E (givenUp size e)
        { t with optimizer := t.optimizer.record (measured setting texts size latency answer) } ∧
      ∀ delay, Runs (embedFront setting texts n)
        { t with
          world := t.world.wait delay
          optimizer := t.optimizer.record (measured setting texts size latency answer) } Q E) :
    Runs (embedFront setting texts (n + 1)) s Q E := by
  cases hsize
  rw [embedFront]
  simp only [runs_bind, runs_get]
  apply runs_imp _ _ _ hrequest
  · rintro ⟨latency, answer⟩ t hanswer
    simp only [runs_modify]
    split
    · rename_i vectors hvectors
      exact hfound latency answer t vectors hanswer hvectors
    · rename_i e he
      simp only [runs_bind, runs_get, runs_ite, runs_throw, runs_modify]
      have hnext := hfailed latency answer t e hanswer he
      exact ⟨fun _ => hnext.1, fun _ => hnext.2 _⟩
  · exact fun _ _ h => h

theorem settleAnswer_ok (limit : Duration) (count : Nat)
    (answer : Option (Except EmbedError (List Embedding))) (vectors : List Embedding)
    (h : settleAnswer limit count answer = .ok vectors) :
    answer = some (.ok vectors) ∧ vectors.length = count := by
  unfold settleAnswer at h
  split at h
  · cases h
  · cases h
  · split at h
    · cases h
      exact ⟨rfl, by assumption⟩
    · cases h

/-- The front of a list is embedded whole, and a sound size makes it one text at least. -/
theorem embedFront_facts (hstill : setting.env.Still) (texts : List String) (n : Nat)
    (s : RunState σ) :
    Runs (embedFront setting texts n) s
      (fun r t => Quiet setting.env s t ∧ ∃ size, size ≤ texts.length ∧ r.1.length = size ∧
        r.2 = texts.drop size ∧ (s.optimizer.Sound → texts ≠ [] → 1 ≤ size) ∧
        ∀ vector, setting.Answers vector → r.1 = (texts.take size).map vector)
      (fun _ t => Quiet setting.env s t ∧ (n ≠ 0 → ∀ vector, ¬ setting.Faithful vector)) := by
  -- the induction is on the attempts that are left
  induction n generalizing s with
  | zero =>
    unfold embedFront
    rw [runs_throw]
    exact ⟨Quiet.refl _ _, fun h => absurd rfl h⟩
  | succ n ih =>
    have hsize : min s.optimizer.currentSize texts.length ≤ texts.length := Nat.min_le_right _ _
    generalize hsize' : min s.optimizer.currentSize texts.length = size at *
    have hcount : (texts.take size).length = size := by
      rw [List.length_take, Nat.min_eq_left hsize]
    have hrecord {t : RunState σ} (h : Quiet setting.env s t) (m : BatchMetrics) :
        Quiet setting.env s { t with optimizer := t.optimizer.record m } :=
      h.trans ⟨rfl, rfl, rfl, fun _ _ h => h, fun h => BatchOptimizer.record_sound _ m h,
        fun _ => rfl, rfl, rfl⟩
    refine runs_attempt setting (fun _ answer t => Quiet setting.env s t ∧
      (∀ vector, setting.Faithful vector → answer = some (.ok ((texts.take size).map vector))) ∧
      ∀ vectors, answer = some (.ok vectors) →
        ∃ n, (setting.env.reply n (texts.take size)).answer = some (.ok vectors)) size hsize'
      ?_ ?_ ?_
    · exact runs_imp _ _ _ (request_facts setting hstill _ s) (fun _ _ h => h)
        fun _ _ h => ⟨h.1, fun _ => h.2⟩
    · rintro latency answer t vectors ⟨hquiet, -, hreplied⟩ hvectors
      obtain ⟨hanswer, hlength⟩ := settleAnswer_ok _ _ _ _ hvectors
      refine ⟨hrecord hquiet _, size, hsize, hlength, rfl, fun hsound hne => ?_,
        fun vector hvector => ?_⟩
      · have hlen : 0 < texts.length := List.length_pos_iff.mpr hne
        have hnow := hsound.now
        omega
      · obtain ⟨n, hn⟩ := hreplied vectors hanswer
        exact hvector n _ vectors hn (hlength.trans hcount.symm)
    · rintro latency answer t e ⟨hquiet, hfaith, -⟩ he
      -- an error of a faithful provider is impossible: its answer has the right length
      have hnever : ∀ vector, ¬ setting.Faithful vector := by
        intro vector hf
        have hright : ((texts.take size).map vector).length = size :=
          (List.length_map _).trans hcount
        rw [hfaith vector hf, settleAnswer, if_pos hright] at he
        cases he
      refine ⟨⟨hrecord hquiet _, fun _ => hnever⟩, fun delay => ?_⟩
      have hwait := (hrecord hquiet (measured setting texts size latency answer)).trans
        (wait_quiet setting.env _ delay)
      apply runs_imp _ _ _ (ih _)
      · rintro r u ⟨hu, size, hsize, hlen, hdrop, hone, hvec⟩
        exact ⟨hwait.trans hu, size, hsize, hlen, hdrop,
          fun hsound => hone (hwait.optimizer hsound), hvec⟩
      · rintro e' u ⟨hu, _⟩
        exact ⟨hwait.trans hu, fun _ => hnever⟩

theorem embedRounds_facts (hstill : setting.env.Still) (rounds : Nat) (found : List Embedding)
    (texts : List String) (s : RunState σ) :
    Runs (embedRounds setting rounds found texts) s
      (fun vectors t => Quiet setting.env s t ∧
        (s.optimizer.Sound → texts.length ≤ rounds →
          vectors.length = found.length + texts.length ∧
          ∀ vector, setting.Answers vector → vectors = found ++ texts.map vector))
      (fun _ t => Quiet setting.env s t ∧ ∀ vector, ¬ setting.Faithful vector) := by
  -- on the rounds, of which each takes a front of the texts and leaves the rest
  induction rounds generalizing found texts s with
  | zero =>
    cases texts with
    | nil =>
      rw [embedRounds, runs_pure]
      exact ⟨Quiet.refl _ _, fun _ _ => by simp⟩
    | cons text texts =>
      rw [embedRounds, runs_pure]
      · exact ⟨Quiet.refl _ _, fun _ h => by simp at h⟩
      · intro h
        cases h
  | succ rounds ih =>
    cases texts with
    | nil =>
      rw [embedRounds, runs_pure]
      exact ⟨Quiet.refl _ _, fun _ _ => by simp⟩
    | cons text texts =>
      rw [embedRounds, runs_bind]
      · apply runs_imp _ _ _ (embedFront_facts setting hstill _ _ s)
        · rintro ⟨vectors, rest⟩ t ⟨hquiet, size, hsize, hlen, hdrop, hone, hvec⟩
          apply runs_imp _ _ _ (ih (found ++ vectors) rest t)
          · rintro all u ⟨hu, hall⟩
            refine ⟨hquiet.trans hu, fun hsound hrounds => ?_⟩
            have hpos : 1 ≤ size := hone hsound (List.cons_ne_nil _ _)
            have hrest : rest = (text :: texts).drop size := hdrop
            have hrestlen : rest.length = (text :: texts).length - size := by
              rw [hrest, List.length_drop]
            obtain ⟨hl, hv⟩ := hall (hquiet.optimizer hsound) (by omega)
            have hvl : vectors.length = size := hlen
            refine ⟨?_, fun vector hf => ?_⟩
            · rw [hl, List.length_append]
              omega
            · have hfront : vectors = ((text :: texts).take size).map vector := hvec vector hf
              rw [hv vector hf, hfront, hrest, List.append_assoc, ← List.map_append,
                List.take_append_drop]
          · rintro e u ⟨hu, hnever⟩
            exact ⟨hquiet.trans hu, hnever⟩
        · rintro e t ⟨hquiet, hnever⟩
          exact ⟨hquiet, hnever (by omega)⟩
      · intro h
        cases h

/-- All texts are embedded or the provider failed; the core is left alone. -/
theorem embedAll_facts (hstill : setting.env.Still) (texts : List String) (s : RunState σ) :
    Runs (embedAll setting texts) s
      (fun vectors t => Quiet setting.env s t ∧ (s.optimizer.Sound →
        vectors.length = texts.length ∧
        ∀ vector, setting.Answers vector → vectors = texts.map vector))
      (fun _ t => Quiet setting.env s t ∧ ∀ vector, ¬ setting.Faithful vector) := by
  unfold embedAll
  apply runs_imp _ _ _ (embedRounds_facts setting hstill texts.length [] texts s)
  · rintro vectors t ⟨hquiet, hall⟩
    refine ⟨hquiet, fun hsound => ?_⟩
    simpa using hall hsound (Nat.le_refl _)
  · intro e t h
    exact h

end RunState

end CodeIndex
