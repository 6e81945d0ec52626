import CodeIndex.Proofs.Run.Bookkeeping
import CodeIndex.Proofs.Run.Torn

/-!
Runs over one state directory, one after the other. Each of them comes to its end or stops at some
moment, and the next begins with what it has left. Whenever they stop, both files of the state
directory can be read. The manifest is the one that was saved last, the checkpoint tells of the
batches that were recorded, and the manifest has all of these and at most one more save of each run
since.
-/

namespace CodeIndex

open StateDir

variable {σ : Type}

/-- A run as its saves know it. -/
def RunSetting.shift (setting : RunSetting σ) (request : RunRequest) (w : World σ) (runs : Nat) :
    Shift where
  run := runs
  head := setting.headOf (setting.openRun.run w).2.disk
  clean := ∃ report w', (setting.perform request).run w = (.ok report, w') ∧ report.state.Clean

def World.stopped (w : World σ) (m : Moment σ) : World σ :=
  { w with disk := m.disk, store := m.store }

/-- Runs over one state directory, the world they leave, and the moments they have passed through,
the latest first. Before the first run nothing is saved there. -/
inductive Chronicle (directory : String) (home : Location) (runId : Nat → String) :
    Nat → World σ → List (Sight σ) → Prop where
  | start (w : World σ) (hready : Ready directory home w.disk)
      (hempty : ∀ name ∈ kept, content home w.disk name = none) (hclock : w.clock.Valid) :
      Chronicle directory home runId 0 w []
  | between {runs : Nat} {w : World σ} {trail : List (Sight σ)}
      (past : Chronicle directory home runId runs w trail) (w' : World σ)
      (hspared : Spared directory home w.disk w'.disk) (hclock : w'.clock.Valid)
      (hdrawn : w.runsStarted ≤ w'.runsStarted) : Chronicle directory home runId runs w' trail
  /-- A run makes the state directory, if it is not there, and goes on up to some moment. It would
  have passed through some later ones. -/
  | run {runs : Nat} {w : World σ} {trail : List (Sight σ)}
      (past : Chronicle directory home runId runs w trail) (setting : RunSetting σ)
      (request : RunRequest) (hdirectory : setting.stateDir = directory)
      (hids : setting.env.runId = runId) (hspares : setting.env.Spares directory home) (d : Disk)
      (hmade : d.makeDirectoryAll directory = .ok w.disk) (w' : World σ)
      (hrun : ((setting.perform request).run { w with disk := d }).2 = w')
      (later new : List (Moment σ)) (last : Moment σ)
      (hmoments : w'.moments = later ++ (last :: new) ++ w.moments) :
      Chronicle directory home runId (runs + 1) (w'.stopped last)
        ((last :: new).map (⟨·, setting.shift request { w with disk := d } runs⟩) ++ trail)

structure Chronicle.Kept (directory : String) (home : Location) (runId : Nat → String) (runs : Nat)
    (w : World σ) (trail : List (Sight σ)) (l : Ledger) : Prop where
  ready : Ready directory home w.disk
  held : l.Held home w.disk
  account : Account directory home trail l
  clock : w.clock.Valid
  drawn : ∀ id ∈ l.ids, ∃ n ≤ w.runsStarted, runId n = id
  past : ∀ s ∈ trail, s.shift.run < runs

namespace Chronicle

variable {directory : String} {home : Location} {runId : Nat → String} {runs : Nat} {w : World σ}
  {trail : List (Sight σ)}

def booking (setting : RunSetting σ) (request : RunRequest) (runId : Nat → String) (runs : Nat)
    (w : World σ) (trail : List (Sight σ)) : Book σ :=
  ⟨setting.shift request w runs, trail, w.moments, runId⟩

theorem Kept.performed {l : Ledger} (h : Kept directory home runId runs w trail l)
    (hinjective : Function.Injective runId) (hfew : batchesBegun trail < Nat.pow 2 64)
    (setting : RunSetting σ) (request : RunRequest) (hdirectory : setting.stateDir = directory)
    (hids : setting.env.runId = runId) (hspares : setting.env.Spares directory home) :
    ∃ l', (booking setting request runId runs w trail).Keeps directory home
        ((setting.perform request).run w).2 l' 0 ∧
      match ((setting.perform request).run w).1 with
      | .ok report => ∃ c, l'.checkpoint = some c ∧
        report.Leaves (l.checkpoint.bind (·.lastIndexedCommit))
          (setting.shift request w runs).head c
      | .error _ => l' = l := by
  subst hdirectory
  have hkeeps : (booking setting request runId runs w trail).Keeps setting.stateDir home w l 0 :=
    ⟨h.ready, h.held, ⟨[], rfl, h.account, h.account.count⟩, h.clock, h.drawn⟩
  exact RunSetting.perform_keeps hspares hids hinjective request hkeeps
    (Nat.lt_of_le_of_lt h.account.count hfew)
    (fun r hr => by
      obtain ⟨s, hs, rfl⟩ := h.account.holder r hr
      exact h.past s hs)
    (fun c w₁ hopen => by
      show setting.headOf (setting.openRun.run w).2.disk = _
      rw [hopen])
    (fun report w₁ hperform hclean => ⟨report, w₁, hperform, hclean⟩)

theorem Kept.run {l : Ledger} (h : Kept directory home runId runs w trail l)
    (hinjective : Function.Injective runId) (hfew : batchesBegun trail < Nat.pow 2 64)
    (setting : RunSetting σ) (request : RunRequest) (hdirectory : setting.stateDir = directory)
    (hids : setting.env.runId = runId) (hspares : setting.env.Spares directory home)
    {w' : World σ} (hrun : ((setting.perform request).run w).2 = w')
    {later new : List (Moment σ)} {last : Moment σ}
    (hmoments : w'.moments = later ++ (last :: new) ++ w.moments) :
    ∃ l', Kept directory home runId (runs + 1) (w'.stopped last)
      ((last :: new).map (⟨·, setting.shift request w runs⟩) ++ trail) l' := by
  obtain ⟨l', hkeeps', _⟩ := h.performed hinjective hfew setting request hdirectory hids hspares
  rw [hrun] at hkeeps'
  obtain ⟨all, hall, haccount, _⟩ := hkeeps'.moments
  have heq : all = later ++ (last :: new) := List.append_cancel_right (hall.symm.trans hmoments)
  rw [heq, Book.after_append] at haccount
  obtain ⟨l'', haccount', hsubset⟩ := haccount.earlier
  obtain ⟨hready, hheld⟩ := haccount'.last
  refine ⟨l'', hready, hheld, haccount', hkeeps'.clock,
    fun id hid => hkeeps'.drawn id (hsubset hid), fun s hs => ?_⟩
  rcases List.mem_append.mp hs with hs | hs
  · obtain ⟨m, _, rfl⟩ := List.mem_map.mp hs
    exact Nat.lt_succ_self runs
  · exact Nat.lt_succ_of_lt (h.past s hs)

/-- Making the state directory first makes no difference to a run. -/
theorem shift_made (setting : RunSetting σ) (request : RunRequest) (runs : Nat) {d : Disk}
    (hmade : d.makeDirectoryAll setting.stateDir = .ok w.disk)
    (hready : Ready setting.stateDir home w.disk) :
    (setting.perform request).run { w with disk := d } = (setting.perform request).run w ∧
      setting.shift request { w with disk := d } runs = setting.shift request w runs := by
  have hperform : (setting.perform request).run { w with disk := d } =
      (setting.perform request).run w :=
    RunSetting.perform_made setting request { w with disk := d } w.disk hmade hready
  have hopen : setting.openRun.run { w with disk := d } = setting.openRun.run w :=
    RunSetting.openRun_made setting { w with disk := d } w.disk hmade hready
  refine ⟨hperform, ?_⟩
  unfold RunSetting.shift
  rw [hopen, hperform]

theorem accounted (h : Chronicle directory home runId runs w trail)
    (hinjective : Function.Injective runId) (hfew : batchesBegun trail < Nat.pow 2 64) :
    ∃ l, Kept directory home runId runs w trail l := by
  induction h with
  | start w hready hempty hclock =>
    exact ⟨{}, hready, ⟨hempty _ (by decide), hempty _ (by decide)⟩, .start, hclock,
      fun _ hid => absurd hid List.not_mem_nil, fun _ hs => absurd hs List.not_mem_nil⟩
  | between past w' hspared hclock hdrawn ih =>
    obtain ⟨l, hl⟩ := ih hfew
    refine ⟨l, hspared.ready, hl.held.spared hspared, hl.account, hclock, fun id hid => ?_, hl.past⟩
    obtain ⟨n, hn, heq⟩ := hl.drawn id hid
    exact ⟨n, Nat.le_trans hn hdrawn, heq⟩
  | @run runs w trail past setting request hdirectory hids hspares d hmade w' hrun later new last
      hmoments ih =>
    have hbefore : batchesBegun trail < Nat.pow 2 64 :=
      Nat.lt_of_le_of_lt (List.sublist_append_right _ trail).countP_le hfew
    obtain ⟨l, hl⟩ := ih hbefore
    subst hdirectory
    obtain ⟨hperform, hshift⟩ := shift_made setting request runs hmade hl.ready
    rw [hperform] at hrun
    rw [hshift]
    exact hl.run hinjective hbefore setting request rfl hids hspares hrun hmoments

end Chronicle

section Indexed

def indexedSetting : RunSetting MemoryStore :=
  let base := sampleSetting ⟨fun _ => false, fun _ _ => .ok []⟩ fun _ => .outside
  { base with env := { base.env with runId := fun n => String.ofList (List.replicate n 'r') } }

def indexedWorld : World MemoryStore where
  disk := sampleDisk [("a.py", "x")]
  store := {}
  clock := ⟨⟨2024, 1, 1⟩, 0, 0⟩

theorem indexed_injective : Function.Injective indexedSetting.env.runId := by
  intro n n' h
  have hlists : List.replicate n 'r' = List.replicate n' 'r' := String.ofList_injective h
  simpa using congrArg List.length hlists

theorem indexed_stateDir : indexedSetting.stateDir = "/w/.sift" :=
  sample_stateDir ⟨fun _ => false, fun _ _ => .ok []⟩ fun _ => .outside

theorem indexed_still : indexedSetting.env.Still where
  request _ _ := rfl
  store _ _ _ h := by cases h
  write _ := rfl

theorem indexed_ready : Ready "/w/.sift" sampleHome indexedWorld.disk := by
  apply sample_ready <;> decide

theorem indexed_start :
    Chronicle "/w/.sift" sampleHome indexedSetting.env.runId 0 indexedWorld [] :=
  .start indexedWorld indexed_ready (by decide) sample_clock

/-- The file is indexed there, in a run that comes to its end. -/
theorem indexed_ended : ∃ report w',
    (indexedSetting.perform (.repository .full)).run indexedWorld = (.ok report, w') ∧
      report.IsFinished ∧ report.state.Clean ∧ w'.moments.length = 22 ∧
      w'.clock = ⟨⟨2024, 1, 1⟩, 0, 0⟩ :=
  runs_returns _ (by decide +kernel)

end Indexed

section Torn

end Torn

namespace Chronicle

variable {directory : String} {home : Location} {runId : Nat → String} {runs : Nat} {w : World σ}
  {trail : List (Sight σ)}

end Chronicle

end CodeIndex
