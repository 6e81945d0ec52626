import CodeIndex.Run.State

namespace CodeIndex

/-- From `s`, an act ends in `Q`, or with an error in `E`. -/
def Runs {ε τ α : Type} (x : ExceptT ε (StateM τ) α) (s : τ) (Q : α → τ → Prop)
    (E : ε → τ → Prop) : Prop :=
  match x.run s with
  | (.ok a, t) => Q a t
  | (.error e, t) => E e t

section Rules

variable {ε τ α β : Type} {s : τ} {Q : α → τ → Prop} {E : ε → τ → Prop}

theorem runs_imp (x : ExceptT ε (StateM τ) α) (Q' : α → τ → Prop) (E' : ε → τ → Prop)
    (h : Runs x s Q E) (hQ : ∀ a t, Q a t → Q' a t) (hE : ∀ e t, E e t → E' e t) :
    Runs x s Q' E' := by
  unfold Runs at *
  split
  · rename_i a t heq
    rw [heq] at h
    exact hQ a t h
  · rename_i e t heq
    rw [heq] at h
    exact hE e t h

theorem runs_and (x : ExceptT ε (StateM τ) α) (Q' : α → τ → Prop) (E' : ε → τ → Prop)
    (h : Runs x s Q E) (h' : Runs x s Q' E') :
    Runs x s (fun a t => Q a t ∧ Q' a t) (fun e t => E e t ∧ E' e t) := by
  unfold Runs at *
  split
  · rename_i a t heq
    rw [heq] at h h'
    exact ⟨h, h'⟩
  · rename_i e t heq
    rw [heq] at h h'
    exact ⟨h, h'⟩

theorem runs_self (x : ExceptT ε (StateM τ) α) :
    Runs x s (fun a t => x.run s = (.ok a, t)) (fun e t => x.run s = (.error e, t)) := by
  unfold Runs
  split <;> assumption

theorem runs_any (x : ExceptT ε (StateM τ) α) (s : τ) (Q : α → τ → Prop) (E : ε → τ → Prop)
    (hQ : ∀ a t, Q a t) (hE : ∀ e t, E e t) : Runs x s Q E :=
  runs_imp x Q E (runs_self x) (fun a t _ => hQ a t) fun e t _ => hE e t

theorem runs_ok (x : ExceptT ε (StateM τ) α) (a : α) (t : τ) (h : Runs x s Q E)
    (hx : x.run s = (.ok a, t)) : Q a t := by
  unfold Runs at h
  rw [hx] at h
  exact h

theorem runs_error (x : ExceptT ε (StateM τ) α) (e : ε) (t : τ) (h : Runs x s Q E)
    (hx : x.run s = (.error e, t)) : E e t := by
  unfold Runs at h
  rw [hx] at h
  exact h

theorem runs_outcome (x : ExceptT ε (StateM τ) α) (P : Except ε α → τ → Prop) {r : Except ε α}
    {t : τ} (h : Runs x s (fun a t => P (.ok a) t) fun e t => P (.error e) t)
    (hx : x.run s = (r, t)) : P r t := by
  cases r with
  | ok a => exact runs_ok x a t h hx
  | error e => exact runs_error x e t h hx

theorem runs_returns (x : ExceptT ε (StateM τ) α) (h : Runs x s Q fun _ _ => False) :
    ∃ a t, x.run s = (.ok a, t) ∧ Q a t := by
  unfold Runs at h
  rcases hx : x.run s with ⟨r, t⟩
  rw [hx] at h
  cases r with
  | ok a => exact ⟨a, t, rfl, h⟩
  | error e => exact h.elim

instance (x : ExceptT ε (StateM τ) α) [∀ a t, Decidable (Q a t)] [∀ e t, Decidable (E e t)] :
    Decidable (Runs x s Q E) :=
  match h : x.run s with
  | (.ok a, t) => decidable_of_iff (Q a t) (by unfold Runs; rw [h])
  | (.error e, t) => decidable_of_iff (E e t) (by unfold Runs; rw [h])

theorem runs_end (x : ExceptT ε (StateM τ) α) (P : τ → Prop)
    (h : Runs x s (fun _ t => P t) fun _ t => P t) : P (x.run s).2 :=
  runs_outcome x (fun _ t => P t) h rfl

@[simp] theorem runs_pure (a : α) :
    Runs (pure a : ExceptT ε (StateM τ) α) s Q E ↔ Q a s := Iff.rfl

/-- What follows an act depends on the state before it only through the act. -/
theorem run_bind_congr (x : ExceptT ε (StateM τ) α) (f : α → ExceptT ε (StateM τ) β) (s' : τ)
    (h : x.run s = x.run s') : (x >>= f).run s = (x >>= f).run s' := by
  show (ExceptT.bindCont f (x.run s).1 : StateM τ (Except ε β)) (x.run s).2 =
    (ExceptT.bindCont f (x.run s').1 : StateM τ (Except ε β)) (x.run s').2
  rw [h]

/-- Two ways to go on are the same if they are after every value that an act comes to. -/
theorem run_bind_same (x : ExceptT ε (StateM τ) α) (f g : α → ExceptT ε (StateM τ) β)
    (h : ∀ a t, x.run s = (.ok a, t) → (f a).run t = (g a).run t) :
    (x >>= f).run s = (x >>= g).run s := by
  show (ExceptT.bindCont f (x.run s).1 : StateM τ (Except ε β)) (x.run s).2 =
    (ExceptT.bindCont g (x.run s).1 : StateM τ (Except ε β)) (x.run s).2
  rcases hx : x.run s with ⟨r, t⟩
  cases r with
  | ok a => exact h a t hx
  | error e => rfl

/-- An act that comes to a value is followed by what is to be done with it. -/
theorem run_bind_ok (x : ExceptT ε (StateM τ) α) (f : α → ExceptT ε (StateM τ) β) (a : α) (t : τ)
    (h : x.run s = (.ok a, t)) : (x >>= f).run s = (f a).run t := by
  show (ExceptT.bindCont f (x.run s).1 : StateM τ (Except ε β)) (x.run s).2 = _
  rw [h]
  rfl

@[simp] theorem runs_bind (x : ExceptT ε (StateM τ) α) (f : α → ExceptT ε (StateM τ) β)
    (R : β → τ → Prop) :
    Runs (x >>= f) s R E ↔ Runs x s (fun a t => Runs (f a) t R E) E := by
  have hrun : (x >>= f).run s =
      match x.run s with
      | (.ok a, t) => (f a).run t
      | (.error e, t) => (.error e, t) := by
    show (ExceptT.bindCont f (x.run s).1 : StateM τ (Except ε β)) (x.run s).2 = _
    rcases hx : x.run s with ⟨r, t⟩
    cases r <;> rfl
  unfold Runs
  rw [hrun]
  rcases x.run s with ⟨r, t⟩
  cases r <;> rfl

@[simp] theorem runs_throw (e : ε) :
    Runs (throw e : ExceptT ε (StateM τ) α) s Q E ↔ E e s := Iff.rfl

@[simp] theorem runs_get (R : τ → τ → Prop) :
    Runs (get : ExceptT ε (StateM τ) τ) s R E ↔ R s s := Iff.rfl

@[simp] theorem runs_set (t : τ) (R : PUnit → τ → Prop) :
    Runs (set t : ExceptT ε (StateM τ) PUnit) s R E ↔ R ⟨⟩ t := Iff.rfl

@[simp] theorem runs_modify (f : τ → τ) (R : PUnit → τ → Prop) :
    Runs (modify f : ExceptT ε (StateM τ) PUnit) s R E ↔ R ⟨⟩ (f s) := Iff.rfl

@[simp] theorem runs_modifyGet (f : τ → α × τ) :
    Runs (modifyGet f : ExceptT ε (StateM τ) α) s Q E ↔ Q (f s).1 (f s).2 := Iff.rfl

@[simp] theorem runs_mk_pure (r : Except ε α) :
    Runs (ExceptT.mk (pure r) : ExceptT ε (StateM τ) α) s Q E ↔
      match r with
      | .ok a => Q a s
      | .error e => E e s := by
  cases r <;> exact Iff.rfl

/-- An act that keeps the errors of another as values never fails. -/
theorem runs_kept (y : ExceptT ε (StateM τ) β) (x : ExceptT ε (StateM τ) α) (f : α → β)
    (g : ε → β) (R : β → τ → Prop) (E' : ε → τ → Prop)
    (hok : ∀ a t, x.run s = (.ok a, t) → y.run s = (.ok (f a), t))
    (herr : ∀ e t, x.run s = (.error e, t) → y.run s = (.ok (g e), t))
    (h : Runs x s (fun a t => R (f a) t) (fun e t => R (g e) t)) : Runs y s R E' := by
  unfold Runs at *
  rcases hx : x.run s with ⟨r, t⟩
  rw [hx] at h
  cases r with
  | ok a =>
    rw [hok a t hx]
    exact h
  | error e =>
    rw [herr e t hx]
    exact h

theorem runs_ite (c : Prop) [Decidable c] (x y : ExceptT ε (StateM τ) α) :
    Runs (if c then x else y) s Q E ↔ (c → Runs x s Q E) ∧ (¬c → Runs y s Q E) := by
  split <;> simp_all

end Rules

namespace RunState

variable {σ α : Type}

@[simp] theorem runs_inWorld (act : RunM (World σ) α) (s : RunState σ)
    (Q : α → RunState σ → Prop) (E : IndexError → RunState σ → Prop) :
    Runs (inWorld act) s Q E ↔
      Runs act s.world (fun a w => Q a { s with world := w })
        (fun e w => E e { s with world := w }) := by
  unfold Runs inWorld
  simp only [ExceptT.run, ExceptT.mk]
  rcases act s.world with ⟨r, w⟩
  cases r <;> rfl

@[simp] theorem runs_inStore (call : StoreM (World σ) α) (s : RunState σ)
    (Q : α → RunState σ → Prop) (E : IndexError → RunState σ → Prop) :
    Runs (inStore call) s Q E ↔
      Runs call s.world (fun a w => Q a { s with world := w })
        (fun e w => E (.storeWrite e) { s with world := w }) := by
  unfold Runs inStore
  simp only [ExceptT.run, ExceptT.mk]
  rcases call s.world with ⟨r, w⟩
  cases r <;> rfl

end RunState

end CodeIndex
