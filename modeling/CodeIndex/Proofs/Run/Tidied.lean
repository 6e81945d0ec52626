import CodeIndex.Proofs.Change.Remaining
import CodeIndex.Proofs.Run.Accounting
import CodeIndex.Proofs.Store.Again

/-!
Renames that keep out of each other's way. Where no target has a record and each is the target of
one rename only, a deletion or a rename that is done says what is recorded of its paths, whatever is
done after it, and the edits for all of them may be begun again at any point.
-/

namespace CodeIndex

/-- Every target of a rename is new: it has no record, no other rename has it, and it is not added
by itself. -/
structure ChangeSet.Tidy (changes : ChangeSet) (m : Manifest) : Prop where
  unrecorded : ∀ e ∈ changes.renamed, m.get? e.2 = none
  unlisted : ∀ e ∈ changes.renamed, e.2 ∉ changes.added
  single : changes.renamed.Pairwise fun e e' => e.2 ≠ e'.2

theorem Manifest.right_congr {m m' : Manifest} {look : String → FileState} {p : String}
    (h : m'.get? p = m.get? p) : m'.Right look p ↔ m.Right look p := by
  unfold Manifest.Right Manifest.hashAt
  rw [h]

namespace Shape

variable {plan : RunPlan} {hashOf : String → Option ContentHash} {look : String → FileState}
  {m : Manifest} {gone : List String} {done rest : List (String × String)} {s s' : Shape}
  {e : String × String}

structure Tidied (m : Manifest) (look : String → FileState) (gone : List String)
    (done : List (String × String)) (s : Shape) : Prop where
  removed : ∀ p, (p ∈ gone ∨ ∃ e ∈ done, p = e.1) → s.manifest.get? p = none
  others : ∀ p, p ∉ gone → (∀ e ∈ done, p ≠ e.1 ∧ p ≠ e.2) → s.manifest.get? p = m.get? p
  targets : ∀ e ∈ done, e.2 ∈ s.reindex ∧ s.manifest.get? e.2 = none ∨
    e.2 ∉ s.reindex ∧ s.manifest.Right look e.2
  edits : ∀ edit ∈ s.edits, (∃ p, edit = .clear p ∧ (p ∈ gone ∨ ∃ e ∈ done, p = e.1)) ∨
    ∃ e ∈ done, edit = .move e.1 e.2
  reindex : ∀ p ∈ s.reindex, ∃ e ∈ done, p = e.2
  unread : s.unread = 0

theorem Tidied.forget (h : s.Tidied m look gone []) (path : String) :
    (s.forget path).Tidied m look (gone ++ [path]) [] where
  removed p hp := by
    show (s.manifest.removeFile path .zero).get? p = none
    rw [Manifest.get?_removeFile]
    split
    · rfl
    · rename_i hne
      rcases hp with hp | ⟨e, he, _⟩
      · rcases List.mem_append.mp hp with hp | hp
        · exact h.removed p (.inl hp)
        · exact absurd (List.mem_singleton.mp hp).symm hne
      · exact absurd he List.not_mem_nil
  others p hp _ := by
    have hne : path ≠ p := by
      rintro rfl
      exact hp (List.mem_append_right _ List.mem_cons_self)
    calc (s.manifest.removeFile path .zero).get? p
      _ = s.manifest.get? p := by rw [Manifest.get?_removeFile, if_neg hne]
      _ = m.get? p := h.others p (fun hmem => hp (List.mem_append_left _ hmem))
        fun e he => absurd he List.not_mem_nil
  targets e he := absurd he List.not_mem_nil
  edits edit hedit := by
    left
    rcases List.mem_append.mp hedit with hedit | hedit
    · rcases h.edits edit hedit with ⟨p, rfl, hp | ⟨e, he, _⟩⟩ | ⟨e, he, _⟩
      · exact ⟨p, rfl, .inl (List.mem_append_left _ hp)⟩
      · exact absurd he List.not_mem_nil
      · exact absurd he List.not_mem_nil
    · exact ⟨path, List.mem_singleton.mp hedit, .inl (List.mem_append_right _ List.mem_cons_self)⟩
  reindex := h.reindex
  unread := h.unread

theorem Tidied.step (h : s.Tidied m look gone done)
    (hothers : ∀ p, p ≠ e.1 → p ≠ e.2 → s'.manifest.get? p = s.manifest.get? p)
    (hsource : s'.manifest.get? e.1 = none)
    (htarget : e.2 ∈ s'.reindex ∧ s'.manifest.get? e.2 = none ∨
      e.2 ∉ s'.reindex ∧ s'.manifest.Right look e.2)
    (hreindex : ∀ p, p ≠ e.2 → (p ∈ s'.reindex ↔ p ∈ s.reindex))
    (hedits : ∃ more, s'.edits = s.edits ++ more ∧
      ∀ edit ∈ more, edit = .clear e.1 ∨ edit = .move e.1 e.2)
    (hunread : s'.unread = s.unread) (hkept : e.2 ∉ gone)
    (hchain : ∀ e₁ ∈ done ++ [e], ∀ e₂ ∈ done ++ [e], e₁.1 ≠ e₂.2)
    (hsingle : ∀ e' ∈ done, e'.2 ≠ e.2) : s'.Tidied m look gone (done ++ [e]) := by
  have hmine : e ∈ done ++ [e] := List.mem_append_right _ List.mem_cons_self
  have hbefore (e' : String × String) (he' : e' ∈ done) : e' ∈ done ++ [e] :=
    List.mem_append_left _ he'
  have hsplit (e' : String × String) (he' : e' ∈ done ++ [e]) : e' ∈ done ∨ e' = e :=
    (List.mem_append.mp he').imp_right List.mem_singleton.mp
  refine ⟨fun p hp => ?_, fun p hp hends => ?_, fun e' he' => ?_, fun edit hedit => ?_,
    fun p hp => ?_, hunread.trans h.unread⟩
  · by_cases hfirst : p = e.1
    · rw [hfirst]
      exact hsource
    · -- what was removed before is not the target
      have hold : p ∈ gone ∨ ∃ e' ∈ done, p = e'.1 := by
        refine hp.imp_right fun ⟨e', he', heq⟩ => ?_
        rcases hsplit e' he' with he' | rfl
        · exact ⟨e', he', heq⟩
        · exact absurd heq hfirst
      have hsecond : p ≠ e.2 := by
        rintro rfl
        rcases hold with hgone | ⟨e', he', heq⟩
        · exact hkept hgone
        · exact hchain e' (hbefore e' he') e hmine heq.symm
      rw [hothers p hfirst hsecond]
      exact h.removed p hold
  · rw [hothers p (hends e hmine).1 (hends e hmine).2]
    exact h.others p hp fun e' he' => hends e' (hbefore e' he')
  · rcases hsplit e' he' with he' | rfl
    · have hsame := hothers e'.2 (fun heq => hchain e hmine e' (hbefore e' he') heq.symm)
        (hsingle e' he')
      rw [hreindex e'.2 (hsingle e' he'), hsame, Manifest.right_congr hsame]
      exact h.targets e' he'
    · exact htarget
  · obtain ⟨more, hmore, hnew⟩ := hedits
    rw [hmore] at hedit
    rcases List.mem_append.mp hedit with hedit | hedit
    · refine (h.edits edit hedit).imp ?_ ?_
      · rintro ⟨p, heq, hp⟩
        exact ⟨p, heq, hp.imp_right fun ⟨e', he', hends⟩ => ⟨e', hbefore e' he', hends⟩⟩
      · rintro ⟨e', he', heq⟩
        exact ⟨e', hbefore e' he', heq⟩
    · rcases hnew edit hedit with rfl | rfl
      · exact .inl ⟨e.1, rfl, .inr ⟨e, hmine, rfl⟩⟩
      · exact .inr ⟨e, hmine, rfl⟩
  · by_cases hsecond : p = e.2
    · exact ⟨e, hmine, hsecond⟩
    · obtain ⟨e', he', heq⟩ := h.reindex p ((hreindex p hsecond).mp hp)
      exact ⟨e', hbefore e' he', heq⟩

theorem Tidied.rename (h : s.Tidied m look gone done) {hash : ContentHash}
    (hread : hashOf e.2 = some hash) (hlook : look e.2 = .present hash)
    (hnew : m.get? e.2 = none) (hkept : e.2 ∉ gone)
    (hchain : ∀ e₁ ∈ done ++ [e], ∀ e₂ ∈ done ++ [e], e₁.1 ≠ e₂.2)
    (hsingle : ∀ e' ∈ done, e'.2 ≠ e.2) :
    (s.rename plan hashOf e).Tidied m look gone (done ++ [e]) := by
  have hmine : e ∈ done ++ [e] := List.mem_append_right _ List.mem_cons_self
  have hne : e.1 ≠ e.2 := hchain e hmine e hmine
  have hunlisted : e.2 ∉ s.reindex := by
    intro hmem
    obtain ⟨e', he', heq⟩ := h.reindex e.2 hmem
    exact hsingle e' he' heq.symm
  have hunrecorded : s.manifest.get? e.2 = none := by
    rw [h.others e.2 hkept fun e' he' => ⟨fun heq => hchain e' (List.mem_append_left _ he') e hmine
      heq.symm, Ne.symm (hsingle e' he')⟩]
    exact hnew
  have hlisted (p : String) (hp : p ≠ e.2) : p ∈ s.reindex ++ [e.2] ↔ p ∈ s.reindex := by
    rw [List.mem_append, List.mem_singleton]
    exact or_iff_left hp
  have hlast : e.2 ∈ s.reindex ++ [e.2] := List.mem_append_right _ List.mem_cons_self
  unfold Shape.rename
  cases hsource : s.manifest.get? e.1 with
  | none =>
    show Tidied m look gone (done ++ [e]) { s with reindex := s.reindex ++ [e.2] }
    exact h.step (fun _ _ _ => rfl) hsource (.inl ⟨hlast, hunrecorded⟩) hlisted
      ⟨[], (List.append_nil _).symm, fun _ hedit => absurd hedit List.not_mem_nil⟩ rfl hkept
      hchain hsingle
  | some r =>
    rw [hread]
    dsimp only
    split
    · -- the file is moved, and nothing is cleared where it comes to
      rename_i hsame
      have hmoved := RunState.get?_relocated s.manifest plan e.1 e.2 .zero r hsource hne
      refine h.step (fun p hfirst hsecond => ?_) ?_ (.inr ⟨hunlisted, ?_⟩) (fun _ _ => Iff.rfl)
        ⟨_, rfl, fun edit hedit => ?_⟩ rfl hkept hchain hsingle
      · rw [hmoved, if_neg (Ne.symm hsecond), if_neg (Ne.symm hfirst)]
      · rw [hmoved, if_neg (Ne.symm hne), if_pos rfl]
      · unfold Manifest.Right Manifest.hashAt
        dsimp only
        rw [hmoved, if_pos rfl, hlook, hsame]
        rfl
      · rw [hunrecorded] at hedit
        exact .inr (List.mem_singleton.mp hedit)
    · have hcleared (p : String) : (s.forget e.1).manifest.get? p =
          if e.1 = p then none else s.manifest.get? p := Manifest.get?_removeFile _ _ _ _
      refine h.step (fun p hfirst _ => ?_) ?_ (.inl ⟨hlast, ?_⟩) hlisted
        ⟨[.clear e.1], rfl, fun edit hedit => .inl (List.mem_singleton.mp hedit)⟩ rfl hkept hchain
        hsingle
      · exact (hcleared p).trans (if_neg (Ne.symm hfirst))
      · exact (hcleared e.1).trans (if_pos rfl)
      · exact ((hcleared e.2).trans (if_neg hne)).trans hunrecorded

theorem tidied_start : (start m).Tidied m look [] [] := by
  refine ⟨fun p hp => ?_, fun _ _ _ => rfl, fun e he => absurd he List.not_mem_nil,
    fun edit hedit => absurd hedit List.not_mem_nil, fun p hp => absurd hp List.not_mem_nil, rfl⟩
  rcases hp with hp | ⟨e, he, _⟩
  · exact absurd hp List.not_mem_nil
  · exact absurd he List.not_mem_nil

theorem tidied_deletions (paths : List String) (h : s.Tidied m look gone []) :
    (paths.foldl Shape.forget s).Tidied m look (gone ++ paths) [] := by
  induction paths generalizing s gone with
  | nil =>
    rw [List.append_nil]
    exact h
  | cons path rest ih =>
    have hrest := ih (h.forget path)
    rw [List.append_assoc] at hrest
    exact hrest

variable (plan) in
theorem tidied_renames (h : s.Tidied m look gone done)
    (hread : ∀ e ∈ rest, ∃ hash, hashOf e.2 = some hash ∧ look e.2 = .present hash)
    (hnew : ∀ e ∈ rest, m.get? e.2 = none) (hkept : ∀ e ∈ rest, e.2 ∉ gone)
    (hchain : ∀ e₁ ∈ done ++ rest, ∀ e₂ ∈ done ++ rest, e₁.1 ≠ e₂.2)
    (hsingle : (done ++ rest).Pairwise fun e e' => e.2 ≠ e'.2) :
    (rest.foldl (rename plan hashOf) s).Tidied m look gone (done ++ rest) := by
  induction rest generalizing s done with
  | nil =>
    rw [List.append_nil]
    exact h
  | cons e rest ih =>
    have hsplit : done ++ e :: rest = (done ++ [e]) ++ rest := by
      rw [List.append_assoc]
      rfl
    rw [hsplit] at hchain hsingle ⊢
    obtain ⟨hash, hhash, hlook⟩ := hread e List.mem_cons_self
    have hfirst : (s.rename plan hashOf e).Tidied m look gone (done ++ [e]) := by
      refine h.rename hhash hlook (hnew e List.mem_cons_self) (hkept e List.mem_cons_self)
        (fun e₁ he₁ e₂ he₂ => hchain e₁ (List.mem_append_left _ he₁) e₂
          (List.mem_append_left _ he₂)) fun e' he' => ?_
      exact (List.pairwise_append.mp (List.pairwise_append.mp hsingle).1).2.2 e' he' e
        List.mem_cons_self
    exact ih hfirst (fun e' he' => hread e' (List.mem_cons_of_mem _ he'))
      (fun e' he' => hnew e' (List.mem_cons_of_mem _ he'))
      (fun e' he' => hkept e' (List.mem_cons_of_mem _ he')) hchain hsingle

variable (plan) in
theorem ofChanges_tidied {changes : ChangeSet} (hconfirmed : Evident m look changes)
    (htidy : changes.Tidy m)
    (hread : ∀ e ∈ changes.renamed, ∃ hash, hashOf e.2 = some hash ∧ look e.2 = .present hash) :
    (ofChanges plan hashOf changes m).Tidied m look changes.deleted changes.renamed := by
  have hstart : (start m).Tidied m look [] [] := tidied_start
  have hdeleted := tidied_deletions changes.deleted hstart
  rw [List.nil_append] at hdeleted
  have hrenamed := tidied_renames plan hdeleted hread htidy.unrecorded
    (fun e he hmem => hconfirmed.deleted_ne_target hmem he rfl)
    (fun e₁ he₁ e₂ he₂ => hconfirmed.unchained he₁ he₂) htidy.single
  rw [List.nil_append] at hrenamed
  exact hrenamed

section Changes

variable {changes : ChangeSet} (hconfirmed : Evident m look changes) (htidy : changes.Tidy m)
  (h : s.Tidied m look changes.deleted changes.renamed)

include h

/-- What is to be written and is not left to be has been moved to where it is. -/
theorem Tidied.left_or_right {p : String} (hp : changes.Writes p) :
    p ∈ changes.added ++ changes.modified ++ s.reindex ∨ s.manifest.Right look p := by
  rcases hp with hp | hp | ⟨e, he, rfl⟩
  · exact .inl (List.mem_append_left _ (List.mem_append_left _ hp))
  · exact .inl (List.mem_append_left _ (List.mem_append_right _ hp))
  · rcases h.targets e he with ⟨hlisted, _⟩ | ⟨_, hright⟩
    · exact .inl (List.mem_append_right _ hlisted)
    · exact .inr hright

include hconfirmed

theorem Tidied.settles : StoreEdit.Settles s.edits := by
  constructor
  · intro edit hedit
    rcases h.edits edit hedit with ⟨p, rfl, _⟩ | ⟨e, _, rfl⟩
    · trivial
    · trivial
  · intro source target hmove
    obtain ⟨e, he, heq⟩ : ∃ e ∈ changes.renamed, StoreEdit.move source target = .move e.1 e.2 := by
      rcases h.edits _ hmove with ⟨p, heq, _⟩ | hmoved
      · cases heq
      · exact hmoved
    injection heq with hsource htarget
    subst hsource htarget
    constructor
    · intro hclear
      rcases h.edits _ hclear with ⟨p, heq, hp⟩ | ⟨e', _, heq⟩
      · injection heq with heq
        subst heq
        rcases hp with hdeleted | ⟨e', he', heq⟩
        · exact hconfirmed.deleted_ne_target hdeleted he rfl
        · exact hconfirmed.unchained he' he heq.symm
      · cases heq
    · intro next hmove'
      rcases h.edits _ hmove' with ⟨p, heq, _⟩ | ⟨e', he', heq⟩
      · cases heq
      · injection heq with hsource _
        exact hconfirmed.unchained he' he hsource.symm

include htidy

theorem Tidied.wrong {p : String} (hp : p ∈ changes.added ++ changes.modified ++ s.reindex) :
    ¬ s.manifest.Right look p := by
  have hfounded := hconfirmed.founded
  have hapart (hwrites : changes.Writes p) (hfresh : ∀ e ∈ changes.renamed, p ≠ e.2) :
      s.manifest.get? p = m.get? p := by
    have hstays := hfounded.workable.apart p hwrites
    exact h.others p (fun hmem => hstays (.inl hmem)) fun e he =>
      ⟨fun heq => hstays (.inr ⟨e, he, heq⟩), hfresh e he⟩
  have hmissing {hash : ContentHash} (hlook : look p = .present hash)
      (hnone : s.manifest.get? p = none) : ¬ s.manifest.Right look p := by
    unfold Manifest.Right Manifest.hashAt
    rw [hlook, hnone]
    exact fun heq => by cases heq
  rcases List.mem_append.mp hp with hp | hp
  · rcases List.mem_append.mp hp with hp | hp
    · obtain ⟨hnone, hash, hlook⟩ := hconfirmed.added p hp
      refine hmissing hlook ((hapart (.inl hp) fun e he heq => ?_).trans hnone)
      exact htidy.unlisted e he (heq ▸ hp)
    · obtain ⟨r, hash, hr, hlook, hother⟩ := hconfirmed.modified p hp
      have hsame := hapart (.inr (.inl hp)) fun e he heq => by
        rw [heq, htidy.unrecorded e he] at hr
        cases hr
      rw [Manifest.right_congr hsame, Manifest.Right, Manifest.hashAt, hr, hlook]
      exact fun heq => hother (Option.some.inj heq)
  · obtain ⟨e, he, rfl⟩ := h.reindex p hp
    obtain ⟨_, _, hash, hlook⟩ := hconfirmed.renamed e he
    rcases h.targets e he with ⟨_, hnone⟩ | ⟨hunlisted, _⟩
    · exact hmissing hlook hnone
    · exact absurd hp hunlisted

theorem Tidied.partlyDone : changes.PartlyDone look m s.manifest where
  removed p hp := h.removed p (hp.imp id fun ⟨e, he, heq⟩ => ⟨e, he, heq⟩)
  kept p hp hrecorded := by
    rw [h.others p (fun hmem => hp (.inl hmem)) fun e he => ⟨fun heq => hp (.inr ⟨e, he, heq⟩),
      fun heq => by
        rw [heq, htidy.unrecorded e he] at hrecorded
        cases hrecorded⟩]
    exact hrecorded
  mended p := by
    by_cases hgone : changes.Removes p
    · right
      have habsent : (look p).isPresent = false := by
        rcases hgone with hp | ⟨e, he, rfl⟩
        · exact (hconfirmed.founded.deleted p hp).2
        · exact (hconfirmed.founded.renamed e he).2.1
      rw [Manifest.right_absent habsent]
      exact h.removed p (hgone.imp id fun ⟨e, he, heq⟩ => ⟨e, he, heq⟩)
    · by_cases htarget : ∃ e ∈ changes.renamed, p = e.2
      · obtain ⟨e, he, rfl⟩ := htarget
        rcases h.targets e he with ⟨_, hnone⟩ | ⟨_, hright⟩
        · exact .inl (hnone.trans (htidy.unrecorded e he).symm)
        · exact .inr hright
      · exact .inl (h.others p (fun hmem => hgone (.inl hmem)) fun e he =>
          ⟨fun heq => hgone (.inr ⟨e, he, heq⟩), fun heq => htarget ⟨e, he, heq⟩⟩)

end Changes

end Shape

end CodeIndex
