import CodeIndex.Proofs.Batch.Limits
import CodeIndex.Proofs.Run.Rules
import Mathlib.Data.List.Chain

/-!
What is asked of a provider while texts are embedded, and what its answers are taken for. The
provider may do anything: answer rightly or with another number of vectors, refuse, fail, or not
answer in time.
-/

namespace CodeIndex

/-- A request with its number, counted from one. -/
structure Request where
  number : Nat
  texts : List String

namespace World

variable {σ : Type}

def numbered : List (List String) → List Request
  | [] => []
  | texts :: earlier => ⟨earlier.length + 1, texts⟩ :: numbered earlier

/-- The requests made so far, the latest first. -/
def asked (w : World σ) : List Request := numbered w.requests

def nextRequest (w : World σ) (texts : List String) : Request := ⟨w.requests.length + 1, texts⟩

theorem asked_wait (w : World σ) (d : Duration) : (w.wait d).asked = w.asked := by
  unfold asked
  rw [wait_requests]

end World

namespace RunSetting

variable {σ : Type} (setting : RunSetting σ)

def answerTo (r : Request) : Option (Except EmbedError (List Embedding)) :=
  let reply := setting.env.reply r.number r.texts
  if setting.config.retry.callTimeout < reply.latency then none else reply.answer

def Accepts (r : Request) (vectors : List Embedding) : Prop :=
  setting.answerTo r = some (.ok vectors) ∧ vectors.length = r.texts.length

def Rejects (r : Request) : Prop :=
  setting.answerTo r = some (.error .payloadTooLarge) ∨
    ∃ after, setting.answerTo r = some (.error (.rateLimited after))

theorem Accepts.not_rejects {setting : RunSetting σ} {r : Request} {vectors : List Embedding}
    (h : setting.Accepts r vectors) : ¬ setting.Rejects r := by
  rintro (hr | ⟨after, hr⟩)
  · rw [h.1] at hr
    cases hr
  · rw [h.1] at hr
    cases hr

/-- A request after one that was refused, and that had more than the least number of texts, has
fewer texts. -/
def Shrinks (least : Nat) (next earlier : Request) : Prop :=
  setting.Rejects earlier → least < earlier.texts.length →
    next.texts.length < earlier.texts.length

structure Slice (texts : List String) (r : Request) : Prop where
  nonempty : r.texts ≠ []
  contiguous : r.texts <:+: texts
  limit : r.texts.length ≤ max setting.env.maxBatch 1

/-- The requests that are made to embed some texts, the latest first. -/
structure Asks (texts : List String) (least : Nat) (new : List Request) : Prop where
  slices : ∀ r ∈ new, setting.Slice texts r
  few : new.length ≤ texts.length * max setting.config.retry.maxAttempts 1
  shrinks : new.IsChain (setting.Shrinks least)

/-- Some texts are those of accepted requests, one request after the other, and some vectors are the
answers to these requests. -/
def Answered (new : List Request) (texts : List String) (vectors : List Embedding) : Prop :=
  ∃ accepted : List (Request × List Embedding), (accepted.map (·.1)).reverse.Sublist new ∧
    (∀ p ∈ accepted, setting.Accepts p.1 p.2) ∧
    texts = accepted.flatMap (·.1.texts) ∧ vectors = accepted.flatMap (·.2)

end RunSetting

namespace RunState

variable {σ : Type} (setting : RunSetting σ)

theorem request_asks (texts : List String) (s : RunState σ) :
    Runs (request setting texts) s
      (fun r t => r.2 = setting.answerTo (s.world.nextRequest texts) ∧
        t.world.asked = s.world.nextRequest texts :: s.world.asked ∧ t.optimizer = s.optimizer)
      (fun _ t => t = s) := by
  unfold request
  simp only [runs_bind, runs_get]
  cases setting.env.permits with
  | false => rfl
  | true =>
    refine ⟨?_, World.asked_wait _ _, rfl⟩
    -- an answer that never comes is as good as one that is late
    show (if _ then _ else none) = setting.answerTo _
    unfold RunSetting.answerTo World.nextRequest
    dsimp only
    cases (setting.env.reply (s.world.requests.length + 1) texts).answer <;>
      by_cases hlate : setting.config.retry.callTimeout <
        (setting.env.reply (s.world.requests.length + 1) texts).latency <;> simp [hlate]

variable {setting}

theorem outcomeOf_rejected {r : Request} (h : setting.Rejects r) (limit : Duration) (count : Nat) :
    (outcomeOf (setting.answerTo r).isSome
      (settleAnswer limit count (setting.answerTo r))).isRejection = true := by
  rcases h with h | ⟨after, h⟩ <;> rw [h] <;> rfl

/-- The requests, latest first, for texts off the front of a list, where the size at hand was
`first` before them. -/
structure Tries (setting : RunSetting σ) (texts : List String) (least first : Nat)
    (new : List Request) : Prop where
  slices : ∀ r ∈ new, setting.Slice texts r
  shrinks : new.IsChain (setting.Shrinks least)
  first : ∀ r ∈ new.getLast?, r.texts.length ≤ first

theorem Tries.none (texts : List String) (least first : Nat) :
    Tries setting texts least first [] :=
  ⟨fun _ h => absurd h List.not_mem_nil, .nil, fun _ h => by cases h⟩

theorem Tries.one {texts : List String} {r : Request} (h : setting.Slice texts r)
    (least first : Nat) (hfirst : r.texts.length ≤ first) : Tries setting texts least first [r] := by
  refine ⟨fun r' hr' => ?_, .singleton _, fun r' hr' => ?_⟩
  · rwa [List.mem_singleton.mp hr']
  · cases hr'
    exact hfirst

/-- A request is made again, with the size that it leaves at hand. -/
theorem Tries.again {texts : List String} {least first next : Nat} {r : Request}
    {new : List Request} (h : Tries setting texts least first [r])
    (h' : Tries setting texts least next new)
    (hshrunk : setting.Rejects r → least < r.texts.length → next < r.texts.length) :
    Tries setting texts least first (new ++ [r]) where
  slices r' hr' := (List.mem_append.mp hr').elim (h'.slices r') (h.slices r')
  shrinks := by
    refine h'.shrinks.append h.shrinks fun r' hr' earlier hearlier hrejects hmore => ?_
    cases hearlier
    exact Nat.lt_of_le_of_lt (h'.first r' hr') (hshrunk hrejects hmore)
  first r' hr' := h.first r' (by simpa using hr')

/-- The texts that an attempt takes off the front of a list are a request of the right size. -/
theorem slice_front {o : BatchOptimizer} {texts : List String} {size : Nat}
    (h : o.Bounded setting.env.maxBatch) (htexts : texts ≠ [])
    (hsize : min o.currentSize texts.length = size) :
    (texts.take size).length = size ∧ (∀ nth, setting.Slice texts ⟨nth, texts.take size⟩) ∧
      (texts.take size).length ≤ o.currentSize := by
  have hlength := List.length_pos_iff.mpr htexts
  have hpositive := h.positive
  have hleast := h.least
  have hmost := h.most
  have hcount : (texts.take size).length = size := by
    rw [List.length_take]
    omega
  refine ⟨hcount, fun nth => ⟨List.ne_nil_of_length_pos ?_, (List.take_prefix _ _).isInfix, ?_⟩,
    by omega⟩
  · show 0 < (texts.take size).length
    omega
  · show (texts.take size).length ≤ _
    omega

/-- Texts are taken off the front of a list in a request that is made again as long as it fails. -/
theorem embedFront_asks (n : Nat) (texts : List String) (htexts : texts ≠ []) (s : RunState σ)
    (hreached : s.optimizer.Reached setting.env.maxBatch) :
    Runs (embedFront setting texts n) s
      (fun r t => t.optimizer.Reached setting.env.maxBatch ∧
        t.optimizer.minSize = s.optimizer.minSize ∧
        ∃ last earlier, t.world.asked = last :: earlier ++ s.world.asked ∧
          Tries setting texts s.optimizer.minSize s.optimizer.currentSize (last :: earlier) ∧
          (last :: earlier).length ≤ n ∧ setting.Accepts last r.1 ∧ texts = last.texts ++ r.2)
      (fun _ t => ∃ new, t.world.asked = new ++ s.world.asked ∧
        Tries setting texts s.optimizer.minSize s.optimizer.currentSize new ∧ new.length ≤ n) := by
  -- the induction is on the attempts that are left
  induction n generalizing s with
  | zero =>
    unfold embedFront
    exact ⟨[], rfl, .none _ _ _, Nat.le_refl _⟩
  | succ n ih =>
    have hbounded := hreached.bounded
    generalize hsize : min s.optimizer.currentSize texts.length = size
    obtain ⟨hcount, hslice, hfirst⟩ := slice_front hbounded htexts hsize
    let r : Request := s.world.nextRequest (texts.take size)
    have hone : Tries setting texts s.optimizer.minSize s.optimizer.currentSize [r] :=
      .one (hslice _) _ _ hfirst
    refine runs_attempt setting (fun _ answer t => answer = setting.answerTo r ∧
      t.world.asked = [r] ++ s.world.asked ∧ t.optimizer = s.optimizer) size hsize ?_ ?_ ?_
    · refine runs_imp _ _ _ (request_asks setting (texts.take size) s) (fun _ _ h => h) ?_
      rintro _ _ rfl
      exact ⟨[], rfl, .none _ _ _, Nat.zero_le _⟩
    · rintro latency answer t vectors ⟨rfl, hasked, hoptimizer⟩ hvectors
      obtain ⟨hok, hlength⟩ := settleAnswer_ok _ _ _ _ hvectors
      rw [hoptimizer]
      exact ⟨hreached.record _, rfl, r, [], hasked, hone, by simp,
        ⟨hok, hlength.trans hcount.symm⟩, (List.take_append_drop size texts).symm⟩
    · rintro latency answer t e ⟨rfl, hasked, hoptimizer⟩ -
      refine ⟨⟨[r], hasked, hone, by simp⟩, fun delay => ?_⟩
      rw [hoptimizer]
      generalize hm : measured setting texts size latency (setting.answerTo r) = m
      -- the size at hand after a refusal is smaller, if it can be
      have hshrunk (hrejects : setting.Rejects r) (hmore : s.optimizer.minSize < r.texts.length) :
          (s.optimizer.record m).currentSize < r.texts.length := by
        have hr : r.texts.length = m.batchSize := hcount.trans (congrArg BatchMetrics.batchSize hm)
        have hrejected : m.outcome.isRejection = true := by
          rw [← hm]
          exact outcomeOf_rejected hrejects _ _
        rw [hr]
        exact (BatchOptimizer.record_rejected hbounded hrejected).2 (by omega)
      have hwait (asked : List Request) : asked ++ (t.world.wait delay).asked =
          asked ++ [r] ++ s.world.asked := by
        rw [World.asked_wait, hasked, List.append_assoc]
      apply runs_imp _ _ _ (ih _ (hreached.record m))
      · rintro found u ⟨hu, hmin, last, earlier, huasked, htries, hfew, haccepts, hrest⟩
        exact ⟨hu, hmin, last, earlier ++ [r], huasked.trans (hwait _), hone.again htries hshrunk,
          by simpa using hfew, haccepts, hrest⟩
      · rintro _ u ⟨new, huasked, htries, hfew⟩
        exact ⟨new ++ [r], huasked.trans (hwait _), hone.again htries hshrunk, by simpa using hfew⟩

/-- The requests for the front of a list, and for the rest of it after one was accepted. -/
theorem asks_after {texts rest : List String} {least first : Nat} {last : Request}
    {earlier new : List Request} {vectors : List Embedding}
    (hfront : Tries setting texts least first (last :: earlier))
    (hfew : (last :: earlier).length ≤ max setting.config.retry.maxAttempts 1)
    (haccepts : setting.Accepts last vectors) (hrest : texts = last.texts ++ rest)
    (h : setting.Asks rest least new) : setting.Asks texts least (new ++ last :: earlier) where
  slices r hr := by
    rcases List.mem_append.mp hr with hr | hr
    · obtain ⟨hnonempty, hcontiguous, hlimit⟩ := h.slices r hr
      have hsuffix : rest <:+ texts := ⟨last.texts, hrest.symm⟩
      exact ⟨hnonempty, hcontiguous.trans hsuffix.isInfix, hlimit⟩
    · exact hfront.slices r hr
  few := by
    have hlast := List.length_pos_iff.mpr (hfront.slices last List.mem_cons_self).nonempty
    have hlength : rest.length + 1 ≤ texts.length := by
      rw [hrest, List.length_append]
      omega
    calc (new ++ last :: earlier).length
        = new.length + (last :: earlier).length := List.length_append
      _ ≤ rest.length * max setting.config.retry.maxAttempts 1 +
            max setting.config.retry.maxAttempts 1 := Nat.add_le_add h.few hfew
      _ = (rest.length + 1) * max setting.config.retry.maxAttempts 1 := (Nat.succ_mul _ _).symm
      _ ≤ texts.length * max setting.config.retry.maxAttempts 1 := Nat.mul_le_mul_right _ hlength
  shrinks := by
    refine h.shrinks.append hfront.shrinks fun next _ before hbefore hrejects => ?_
    cases hbefore
    exact absurd hrejects haccepts.not_rejects

/-- The requests for the front of a list, when none was accepted. -/
theorem Tries.asks {texts : List String} {least first : Nat} {new : List Request}
    (h : Tries setting texts least first new) (htexts : texts ≠ [])
    (hfew : new.length ≤ max setting.config.retry.maxAttempts 1) :
    setting.Asks texts least new where
  slices := h.slices
  few := hfew.trans (Nat.le_mul_of_pos_left _ (List.length_pos_iff.mpr htexts))
  shrinks := h.shrinks

theorem asks_nothing (least : Nat) : setting.Asks [] least [] :=
  ⟨fun _ h => absurd h List.not_mem_nil, Nat.zero_le _, .nil⟩

theorem embedRounds_nil (rounds : Nat) (found : List Embedding) :
    embedRounds setting rounds found [] = pure found := by
  cases rounds <;> rfl

/-- Every round embeds at least one text, so there are rounds enough. -/
theorem embedRounds_asks (rounds : Nat) (found : List Embedding) (texts : List String)
    (s : RunState σ) (hrounds : texts.length ≤ rounds)
    (hreached : s.optimizer.Reached setting.env.maxBatch) :
    Runs (embedRounds setting rounds found texts) s
      (fun vectors t => ∃ new, t.world.asked = new ++ s.world.asked ∧
        setting.Asks texts s.optimizer.minSize new ∧
        ∃ more, vectors = found ++ more ∧ setting.Answered new texts more)
      (fun _ t => ∃ new, t.world.asked = new ++ s.world.asked ∧
        setting.Asks texts s.optimizer.minSize new) := by
  -- a round accepts one front of the texts at least, so as many rounds are enough as there are
  -- texts
  induction rounds generalizing found texts s with
  | zero =>
    rw [List.length_eq_zero_iff.mp (Nat.le_zero.mp hrounds), embedRounds_nil, runs_pure]
    exact ⟨[], rfl, asks_nothing _, [], (List.append_nil _).symm, [], .slnil, by simp, rfl, rfl⟩
  | succ rounds ih =>
    cases texts with
    | nil =>
      rw [embedRounds_nil, runs_pure]
      exact ⟨[], rfl, asks_nothing _, [], (List.append_nil _).symm, [], .slnil, by simp, rfl, rfl⟩
    | cons text texts =>
      rw [embedRounds, runs_bind]
      · apply runs_imp _ _ _ (embedFront_asks _ _ (List.cons_ne_nil text texts) s hreached)
        · rintro ⟨vectors, rest⟩ t ⟨ht, hmin, last, earlier, hasked, htries, hfew, haccepts, hrest⟩
          have hrest : text :: texts = last.texts ++ rest := hrest
          have hless : rest.length ≤ rounds := by
            have hlast := List.length_pos_iff.mpr (htries.slices last List.mem_cons_self).nonempty
            have hlength := congrArg List.length hrest
            rw [List.length_append] at hlength
            omega
          apply runs_imp _ _ _ (ih (found ++ vectors) rest t hless ht)
          · rintro all u ⟨new, huasked, hasks, more, hall, accepted, hsub, haccepted, hparts, hmore⟩
            rw [hmin] at hasks
            refine ⟨new ++ last :: earlier, ?_, asks_after htries hfew haccepts hrest hasks,
              vectors ++ more, by rw [hall, List.append_assoc], (last, vectors) :: accepted, ?_, ?_,
              ?_, ?_⟩
            · rw [huasked, hasked, List.append_assoc]
            · rw [List.map_cons, List.reverse_cons]
              exact hsub.append (.cons_cons _ (List.nil_sublist _))
            · rintro p (_ | ⟨_, hp⟩)
              · exact haccepts
              · exact haccepted p hp
            · rw [List.flatMap_cons, ← hparts, hrest]
            · rw [List.flatMap_cons, ← hmore]
          · -- a later round failed
            rintro _ u ⟨new, huasked, hasks⟩
            rw [hmin] at hasks
            refine ⟨new ++ last :: earlier, ?_, asks_after htries hfew haccepts hrest hasks⟩
            rw [huasked, hasked, List.append_assoc]
        · rintro _ t ⟨new, hasked, htries, hfew⟩
          exact ⟨new, hasked, htries.asks (List.cons_ne_nil _ _) hfew⟩
      · intro h
        cases h

theorem embedRounds_enough (rounds more : Nat) (found : List Embedding) (texts : List String)
    (s : RunState σ) (hrounds : texts.length ≤ rounds) (hmore : texts.length ≤ more)
    (hreached : s.optimizer.Reached setting.env.maxBatch) :
    (embedRounds setting rounds found texts).run s =
      (embedRounds setting more found texts).run s := by
  induction rounds generalizing more found texts s with
  | zero =>
    rw [List.length_eq_zero_iff.mp (Nat.le_zero.mp hrounds), embedRounds_nil, embedRounds_nil]
  | succ rounds ih =>
    cases texts with
    | nil => rw [embedRounds_nil, embedRounds_nil]
    | cons text texts =>
      cases more with
      | zero => cases hmore
      | succ more =>
        rw [embedRounds, embedRounds]
        · apply run_bind_same
          rintro ⟨vectors, rest⟩ t hran
          obtain ⟨ht, _, last, earlier, _, htries, _, _, hrest⟩ := runs_ok _ _ _
            (embedFront_asks _ _ (List.cons_ne_nil text texts) s hreached) hran
          have hlast := List.length_pos_iff.mpr (htries.slices last List.mem_cons_self).nonempty
          have hlength := congrArg List.length hrest
          rw [List.length_append] at hlength
          simp only [List.length_cons] at hrounds hmore hlength
          exact ih more (found ++ vectors) rest t (by omega) (by omega) ht
        all_goals
          intro h
          cases h

/-- The embedding of some texts comes to its end, within its limits. If it succeeds, each text has
the vector that the provider answered for it. -/
theorem embedAll_asks (texts : List String) (s : RunState σ)
    (hreached : s.optimizer.Reached setting.env.maxBatch) :
    Runs (embedAll setting texts) s
      (fun vectors t => ∃ new, t.world.asked = new ++ s.world.asked ∧
        setting.Asks texts s.optimizer.minSize new ∧ setting.Answered new texts vectors)
      (fun _ t => ∃ new, t.world.asked = new ++ s.world.asked ∧
        setting.Asks texts s.optimizer.minSize new) := by
  apply runs_imp _ _ _ (embedRounds_asks texts.length [] texts s (Nat.le_refl _) hreached)
  · rintro vectors t ⟨new, hasked, hasks, more, hvectors, hanswered⟩
    exact ⟨new, hasked, hasks, hvectors ▸ hanswered⟩
  · exact fun _ _ h => h

end RunState

end CodeIndex
