import CodeIndex.Batch.Optimizer

/-!
The sizes that an optimizer can come to have. They stay between the least size and the hard limit,
and a rejected batch is followed by a smaller one while there is a smaller one. Nothing of this
depends on the factors: what a scaled size is rounded to counts only as far as it goes the right
way.
-/

namespace CodeIndex.BatchOptimizer

/-- The optimizers of a run for a provider with a hard limit: one is started, and then takes
observations into account. -/
inductive Reached (hardLimit : Nat) : BatchOptimizer → Prop
  | start (config : BatchConfig) : Reached hardLimit (start config hardLimit)
  | record {o : BatchOptimizer} (m : BatchMetrics) (h : Reached hardLimit o) :
    Reached hardLimit (o.record m)

def LeadsTo (o o' : BatchOptimizer) : Prop := ∃ seen : List BatchMetrics, o' = seen.foldl record o

theorem LeadsTo.refl (o : BatchOptimizer) : o.LeadsTo o := ⟨[], rfl⟩

theorem leadsTo_record (o : BatchOptimizer) (m : BatchMetrics) : o.LeadsTo (o.record m) :=
  ⟨[m], rfl⟩

theorem LeadsTo.trans {o o' o'' : BatchOptimizer} (h : o.LeadsTo o') (h' : o'.LeadsTo o'') :
    o.LeadsTo o'' := by
  obtain ⟨seen, rfl⟩ := h
  obtain ⟨later, rfl⟩ := h'
  exact ⟨seen ++ later, List.foldl_append.symm⟩

/-- What every observation preserves is preserved by all of them. -/
theorem LeadsTo.keeps {P : BatchOptimizer → Prop} (hrecord : ∀ o m, P o → P (o.record m))
    {o o' : BatchOptimizer} (h : o.LeadsTo o') (ho : P o) : P o' := by
  obtain ⟨seen, rfl⟩ := h
  induction seen generalizing o with
  | nil => exact ho
  | cons m seen ih => exact ih (hrecord o m ho)

/-- Observations change the size at hand and nothing that it depends on. -/
theorem LeadsTo.settings {o o' : BatchOptimizer} (h : o.LeadsTo o') :
    o'.config = o.config ∧ o'.hardLimit = o.hardLimit ∧ o'.minSize = o.minSize :=
  h.keeps (P := fun o' => o'.config = o.config ∧ o'.hardLimit = o.hardLimit ∧
    o'.minSize = o.minSize) (fun _ _ ho => ho) ⟨rfl, rfl, rfl⟩

theorem LeadsTo.reached {hardLimit : Nat} {o o' : BatchOptimizer} (h : o.LeadsTo o')
    (ho : Reached hardLimit o) : Reached hardLimit o' :=
  h.keeps (fun _ m ho => ho.record m) ho

/-- The size at hand lies between the least size and the hard limit, where a hard limit of zero
counts as one. -/
structure Bounded (hardLimit : Nat) (o : BatchOptimizer) : Prop where
  limit : o.hardLimit = max hardLimit 1
  positive : 1 ≤ o.minSize
  least : o.minSize ≤ o.currentSize
  most : o.currentSize ≤ max hardLimit 1

theorem clampNat_eq {n low high : Nat} (h : low ≤ high) :
    clampNat n low high = max low (min n high) := by
  unfold clampNat
  split
  · omega
  · split <;> omega

variable {hardLimit : Nat} {o : BatchOptimizer}

/-- The least size and the first size are the configured ones, as far as the hard limit allows. -/
theorem start_sizes (config : BatchConfig) (hardLimit : Nat) :
    (start config hardLimit).minSize = max 1 (min config.minSize (max 1 hardLimit)) ∧
      (start config hardLimit).currentSize =
        max (start config hardLimit).minSize (min config.initialSize (max 1 hardLimit)) := by
  have hleast : clampNat config.minSize 1 (max hardLimit 1) =
      max 1 (min config.minSize (max hardLimit 1)) := clampNat_eq (by omega)
  have hmost : clampNat config.minSize 1 (max hardLimit 1) ≤ max hardLimit 1 := by omega
  rw [Nat.max_comm 1 hardLimit]
  exact ⟨hleast, clampNat_eq hmost⟩

theorem start_bounded (config : BatchConfig) : (start config hardLimit).Bounded hardLimit := by
  obtain ⟨hleast, hsize⟩ := start_sizes config hardLimit
  refine ⟨rfl, ?_, ?_, ?_⟩ <;> omega

/-- A size is made smaller down to the least one, whatever the factor. -/
theorem shrunk_bounds (h : 1 ≤ o.minSize) (size : Nat) :
    o.minSize ≤ o.shrunk size ∧ o.shrunk size ≤ max size o.minSize ∧
      (o.minSize < size → o.shrunk size < size) := by
  unfold shrunk
  dsimp only
  split <;> omega

/-- A size is made larger up to the hard limit, whatever the factor. -/
theorem grown_bounds (h : o.minSize ≤ o.hardLimit) (size : Nat) (hsize : o.minSize ≤ size) :
    o.minSize ≤ o.grown size ∧ o.grown size ≤ o.hardLimit ∧
      (size < o.hardLimit → size < o.grown size) := by
  unfold grown
  omega

theorem Bounded.record (h : o.Bounded hardLimit) (m : BatchMetrics) :
    (o.record m).Bounded hardLimit := by
  obtain ⟨hlimit, hpositive, hleast, hmost⟩ := h
  have hgrown := grown_bounds (by omega) o.currentSize hleast
  have hover := shrunk_bounds hpositive o.currentSize
  -- a rejected batch may have been smaller than the least size, if no more texts were left
  have hrejected := shrunk_bounds hpositive (min o.currentSize m.batchSize)
  have hnext : o.minSize ≤ o.nextSize m ∧ o.nextSize m ≤ max hardLimit 1 := by
    unfold nextSize
    split
    · split
      · omega
      · split <;> omega
    all_goals omega
  exact ⟨hlimit, hpositive, hnext.1, hnext.2⟩

theorem Reached.bounded (h : Reached hardLimit o) : o.Bounded hardLimit := by
  induction h with
  | start config => exact start_bounded config
  | record m _ ih => exact ih.record m

/-- A rejected batch does not make the size at hand larger. After one of more than the least size,
the size at hand is below that of the batch, however the batch compares with the size before. -/
theorem record_rejected (h : o.Bounded hardLimit) {m : BatchMetrics}
    (hrejected : m.outcome.isRejection = true) :
    (o.record m).currentSize ≤ o.currentSize ∧
      (o.minSize < m.batchSize → (o.record m).currentSize < m.batchSize) := by
  have hnext : (o.record m).currentSize = o.shrunk (min o.currentSize m.batchSize) := by
    show o.nextSize m = _
    unfold nextSize
    cases houtcome : m.outcome with
    | rateLimited | payloadTooLarge => rfl
    | success | timeout | transient =>
      rw [houtcome] at hrejected
      cases hrejected
  have hshrunk := shrunk_bounds h.positive (min o.currentSize m.batchSize)
  have hleast := h.least
  rw [hnext]
  omega

/-- How an observation changes the size at hand: it steps down after a rejection and after a success
over a ceiling, it steps up after a full success under both, and else it stays. -/
structure Adapts (o : BatchOptimizer) (m : BatchMetrics) (next : Nat) : Prop where
  rejected : m.outcome.isRejection = true →
    next ≤ o.currentSize ∧ (o.minSize < m.batchSize → next < m.batchSize)
  overCeiling : m.outcome = .success →
    o.config.latencyCeiling < m.latency ∨ o.config.memoryCeiling < m.memory →
    o.currentSize = o.minSize ∨ next < o.currentSize
  full : m.outcome = .success →
    ¬ (o.config.latencyCeiling < m.latency ∨ o.config.memoryCeiling < m.memory) →
    o.currentSize ≤ m.batchSize → o.currentSize = o.hardLimit ∨ o.currentSize < next
  partly : m.outcome = .success →
    ¬ (o.config.latencyCeiling < m.latency ∨ o.config.memoryCeiling < m.memory) →
    m.batchSize < o.currentSize → next = o.currentSize
  failed : m.outcome = .transient ∨ m.outcome = .timeout → next = o.currentSize

theorem isOverCeiling_iff (m : BatchMetrics) :
    o.isOverCeiling m = true ↔
      o.config.latencyCeiling < m.latency ∨ o.config.memoryCeiling < m.memory := by
  unfold isOverCeiling
  rw [Bool.or_eq_true, decide_eq_true_iff, decide_eq_true_iff]

theorem nextSize_success {m : BatchMetrics} (houtcome : m.outcome = .success) :
    o.nextSize m = if o.isOverCeiling m then o.shrunk o.currentSize
      else if o.currentSize ≤ m.batchSize then o.grown o.currentSize else o.currentSize := by
  unfold nextSize
  rw [houtcome]

theorem Bounded.adapts (h : o.Bounded hardLimit) (m : BatchMetrics) :
    o.Adapts m (o.nextSize m) where
  rejected := record_rejected h
  overCeiling houtcome hover := by
    rw [nextSize_success houtcome, if_pos ((isOverCeiling_iff m).mpr hover)]
    have hshrunk := shrunk_bounds h.positive o.currentSize
    have hleast := h.least
    omega
  full houtcome hunder hsize := by
    rw [nextSize_success houtcome, if_neg (mt (isOverCeiling_iff m).mp hunder), if_pos hsize]
    have hlimit : o.minSize ≤ o.hardLimit ∧ o.currentSize ≤ o.hardLimit := by
      have hleast := h.least
      have hmost := h.most
      rw [h.limit]
      omega
    have hgrown := grown_bounds hlimit.1 o.currentSize h.least
    omega
  partly houtcome hunder hsize := by
    rw [nextSize_success houtcome, if_neg (mt (isOverCeiling_iff m).mp hunder),
      if_neg (Nat.not_le.mpr hsize)]
  failed houtcome := by
    unfold nextSize
    rcases houtcome with houtcome | houtcome <;> rw [houtcome]

/-- For every configuration, hard limit and sequence of observations, the least size is the
configured one as far as the hard limit allows, the size at hand stays between it and the hard
limit, and each further observation moves it the way it should. If the hard limit is below the
largest number of 64 bits, so is every size at hand, and one more than it is worked out without
overflow. -/
theorem sizes_adapt (config : BatchConfig) (hardLimit : Nat) (seen : List BatchMetrics)
    (m : BatchMetrics) :
    let o := seen.foldl record (start config hardLimit)
    (o.config = config ∧ o.hardLimit = max 1 hardLimit ∧
        o.minSize = max 1 (min config.minSize (max 1 hardLimit))) ∧
      (start config hardLimit).currentSize =
        max o.minSize (min config.initialSize (max 1 hardLimit)) ∧
      (1 ≤ o.minSize ∧ o.minSize ≤ o.currentSize ∧ o.currentSize ≤ max 1 hardLimit) ∧
      (hardLimit < UInt64.size - 1 → o.currentSize + 1 < UInt64.size) ∧
      o.Adapts m (o.record m).currentSize := by
  intro o
  have hleads : (start config hardLimit).LeadsTo o := ⟨seen, rfl⟩
  have h : o.Bounded hardLimit := (hleads.reached (.start config)).bounded
  have hlimit : o.hardLimit = max 1 hardLimit := by rw [h.limit, Nat.max_comm]
  have hmost : o.currentSize ≤ max 1 hardLimit := by rw [Nat.max_comm]; exact h.most
  have hnext (hfits : hardLimit < UInt64.size - 1) : o.currentSize + 1 < UInt64.size := by
    have hsize : UInt64.size = 18446744073709551616 := rfl
    omega
  obtain ⟨hconfig, _, hminSize⟩ := hleads.settings
  obtain ⟨hleast, hfirst⟩ := start_sizes config hardLimit
  rw [← hminSize] at hleast hfirst
  exact ⟨⟨hconfig, hlimit, hleast⟩, hfirst, ⟨h.positive, h.least, hmost⟩, hnext, h.adapts m⟩

end CodeIndex.BatchOptimizer
