import ShortLinks.Store

/-!
# Running computations

What the operations on files and stores share: they carry a state on and may stop with an error, and
what they did before stays done. A sequence runs its first part and, if that succeeds, the second
part on the state it left; so a success splits into successes.
-/

namespace ShortLinks

variable {ε σ α β : Type}

/-- A sequence of pure computations succeeds when both of its parts do. -/
theorem except_bind_eq_ok {x : Except ε α} {f : α → Except ε β} {b : β} :
    x >>= f = .ok b ↔ ∃ a, x = .ok a ∧ f a = .ok b := by
  cases x <;> simp [bind, Except.bind]

/-- Saying something of the result changes nothing about success. -/
theorem except_map_eq_ok {x : Except ε α} {f : α → β} {b : β} :
    x.map f = .ok b ↔ ∃ a, x = .ok a ∧ f a = b := by
  cases x <;> simp [Except.map]

/-- Reporting errors in another way changes nothing about success. -/
theorem except_mapError_eq_ok {ε' : Type} {x : Except ε α} {f : ε → ε'} {a : α} :
    x.mapError f = .ok a ↔ x = .ok a := by
  cases x with
  | error e => exact iff_of_false (by rintro ⟨⟩) (by rintro ⟨⟩)
  | ok b => constructor <;> (rintro ⟨⟩; rfl)

/-- What was successful is handed on. -/
@[simp] theorem except_ok_bind (a : α) (f : α → Except ε β) : (.ok a : Except ε α) >>= f = f a := rfl

/-- Throwing is failing. -/
@[simp] theorem except_throw (e : ε) : (throw e : Except ε α) = .error e := rfl

/-- Two ends of a computation are the same when the results and the states are. -/
@[simp] theorem end_eq_iff {a b : α} {s t : σ} : @Eq (Id (α × σ)) (a, s) (b, t) ↔ a = b ∧ s = t :=
  Prod.mk.injEq a s b t ▸ Iff.rfl

/-- A sequence runs its second part on the state that its first part left. -/
theorem run_bind (x : ExceptT ε (StateM σ) α) (f : α → ExceptT ε (StateM σ) β) (s : σ) :
    (x >>= f).run s = match x.run s with
      | (.ok a, t) => (f a).run t
      | (.error e, t) => (.error e, t) := by
  have hrun : (x >>= f).run s = (match x.run s with
      | (result, t) => StateT.run (match result with
        | .ok a => (f a).run
        | .error e => pure (.error e)) t) := rfl
  rw [hrun]
  rcases x.run s with ⟨_ | _, t⟩ <;> rfl

/-- A successful sequence had a successful first part. -/
theorem run_bind_ok {x : ExceptT ε (StateM σ) α} {f : α → ExceptT ε (StateM σ) β} {s u : σ} {b : β}
    (h : (x >>= f).run s = (.ok b, u)) :
    ∃ a t, x.run s = (.ok a, t) ∧ (f a).run t = (.ok b, u) := by
  rw [run_bind] at h
  split at h
  · next a t hx => exact ⟨a, t, hx, h⟩
  · cases h

/-- A sequence that stopped did so in its first part or, after it, in its second. -/
theorem run_bind_error {x : ExceptT ε (StateM σ) α} {f : α → ExceptT ε (StateM σ) β} {s u : σ}
    {e : ε} (h : (x >>= f).run s = (.error e, u)) :
    x.run s = (.error e, u) ∨ ∃ a t, x.run s = (.ok a, t) ∧ (f a).run t = (.error e, u) := by
  rw [run_bind] at h
  split at h
  · next a t hx => exact .inr ⟨a, t, hx, h⟩
  · next hx =>
    cases h
    exact .inl hx

/-- What is at hand succeeds and changes nothing. -/
@[simp] theorem run_pure (a : α) (s : σ) :
    (pure a : ExceptT ε (StateM σ) α).run s = (.ok a, s) := rfl

/-- Throwing fails and changes nothing. -/
@[simp] theorem run_throw (e : ε) (s : σ) :
    (throw e : ExceptT ε (StateM σ) α).run s = (.error e, s) := rfl

/-- Looking at the state changes nothing. -/
@[simp] theorem run_get (s : σ) : (get : ExceptT ε (StateM σ) σ).run s = (.ok s, s) := rfl

/-- Setting the state forgets the one before. -/
@[simp] theorem run_set (s t : σ) :
    (set t : ExceptT ε (StateM σ) PUnit).run s = (.ok ⟨⟩, t) := rfl

/-- A change acts on the state. -/
@[simp] theorem run_modify (f : σ → σ) (s : σ) :
    (modify f : ExceptT ε (StateM σ) PUnit).run s = (.ok ⟨⟩, f s) := rfl

/-- A sequence that cannot fail runs its second part on the state that its first part left. -/
theorem runState_bind (x : StateM σ α) (f : α → StateM σ β) (s : σ) :
    (x >>= f).run s = (f (x.run s).1).run (x.run s).2 := rfl

/-- What is at hand leaves the state as it is. -/
theorem runState_pure (a : α) (s : σ) : (pure a : StateM σ α).run s = (a, s) := rfl

/-- Looking at the state leaves it as it is. -/
theorem runState_get (s : σ) : (get : StateM σ σ).run s = (s, s) := rfl

/-- Reporting errors as faults changes what is reported and nothing else. -/
theorem run_orFault (x : Disk α) (fault : IoError → Fault) (fs : FileSystem) :
    (x.orFault fault).run fs = ((x.run fs).1.mapError fault, (x.run fs).2) := rfl

/-- What succeeds with errors reported as faults succeeds. -/
theorem run_orFault_ok {x : Disk α} {fault : IoError → Fault} {fs fs' : FileSystem} {a : α}
    (h : (x.orFault fault).run fs = (.ok a, fs')) : x.run fs = (.ok a, fs') := by
  rw [run_orFault] at h
  rcases hx : x.run fs with ⟨_ | b, t⟩ <;> rw [hx] at h <;> cases h
  rfl

namespace Action

/-- Looking at the store changes nothing. -/
theorem run_store (s : Setting σ) : (store : Action σ σ).run s = (.ok s.store, s) := rfl

/-- Setting the store leaves the files as they are. -/
theorem run_setStore (new : σ) (s : Setting σ) :
    (setStore new).run s = (.ok (), { s with store := new }) := rfl

/-- Looking at how work on the files ended keeps the store. -/
theorem run_outcomeOnFiles (x : StateM FileSystem α) (s : Setting σ) :
    (outcomeOnFiles x : Action σ α).run s = (.ok (x.run s.files).1, ⟨s.store, (x.run s.files).2⟩) :=
  rfl

/-- Work on the files keeps the store. -/
theorem run_onFiles (x : Stored α) (s : Setting σ) :
    (onFiles x : Action σ α).run s = ((x.run s.files).1, ⟨s.store, (x.run s.files).2⟩) := by
  rw [onFiles, run_bind, run_outcomeOnFiles]
  have hrun : StateT.run (ExceptT.run x) s.files = x.run s.files := rfl
  rw [hrun]
  rcases x.run s.files with ⟨_ | _, _⟩ <;> rfl

/-- A question about the store changes nothing. -/
theorem run_answer (question : σ → Except Fault α) (s : Setting σ) :
    (answer question).run s = (question s.store, s) := by
  rw [answer, run_bind, run_store]
  cases h : question s.store <;> simp [h]

/-- An action inside another store acts on the part that it is for. -/
theorem run_inside {τ : Type} (inner : τ) (wrap : τ → σ) (x : Action τ α) (s : Setting σ) :
    (inside inner wrap x).run s =
      ((x.run ⟨inner, s.files⟩).1,
        ⟨wrap (x.run ⟨inner, s.files⟩).2.store, (x.run ⟨inner, s.files⟩).2.files⟩) := by
  simp only [inside, run_bind, run_get]
  rcases x.run ⟨inner, s.files⟩ with ⟨_ | _, _⟩ <;> rfl

/-- Looking at how an action ended leaves what it did. -/
theorem run_outcome (x : Action σ α) (s : Setting σ) :
    (outcome x).run s = (.ok (x.run s).1, (x.run s).2) := rfl

end Action

end ShortLinks
