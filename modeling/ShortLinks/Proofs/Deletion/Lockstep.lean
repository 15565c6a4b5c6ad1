import Mathlib.Data.Option.Defs
import ShortLinks.Proofs.Deletion.Steps
import ShortLinks.Proofs.Ends

/-!
# Pipelines in lockstep

Two pipelines work on the same request for two stores. Only the answer of a deletion depends on the
store, so where every deletion ends alike on both, the pipelines take the same events and differ in
nothing but their stores. Their reports are equal.
-/

namespace ShortLinks.Deletion

variable {σ : Type} {storage : Storage σ} {owner : String} {workers : Nat} {s s' t : State σ}
  {event : Event} {stores : Setting σ → Setting σ → Prop}

/-- Two pipelines differ in nothing but their stores, and these are related. -/
def State.Beside (stores : Setting σ → Setting σ → Prop) (s t : State σ) : Prop :=
  t = { s with setting := t.setting } ∧ stores s.setting t.setting

/-- Deletions for an owner end alike on stores that are related. -/
def DeletesAlike (storage : Storage σ) (owner : String) (stores : Setting σ → Setting σ → Prop) :
    Prop :=
  ∀ code a b, stores a b →
    EndsAlike Eq stores ((storage.delete code owner).run a) ((storage.delete code owner).run b)

/-- That deletions end alike holds in both directions. -/
theorem DeletesAlike.symm (h : DeletesAlike storage owner stores) :
    DeletesAlike storage owner fun b a => stores a b :=
  fun code a b hstores => (h code b a hstores).symm

/-- What happens in one pipeline can happen in the one beside it, with the same effect. -/
theorem Moves.beside (h : Moves storage owner workers s event s')
    (hdelete : DeletesAlike storage owner stores) (hbeside : s.Beside stores t) :
    ∃ t', Moves storage owner workers t event t' ∧ s'.Beside stores t' := by
  obtain ⟨heq, hstores⟩ := hbeside
  generalize t.setting = setting at heq hstores
  subst heq
  cases h with
  | cancel huncancelled => exact ⟨_, .cancel huncancelled, rfl, hstores⟩
  | feed hwaiting hslot hfeeding hopen =>
    exact ⟨_, .feed hwaiting hslot hfeeding hopen, rfl, hstores⟩
  | quit hfeeding hcause => exact ⟨_, .quit hfeeding hcause, rfl, hstores⟩
  | @answer position job hjob =>
    have hends := hdelete job.code s.setting setting hstores
    refine ⟨_, .answer hjob, ?_, hends.states_of⟩
    simp only [hends.eq]
  | notice hphase hcancelled hunnoticed =>
    exact ⟨_, .notice hphase hcancelled hunnoticed, rfl, hstores⟩
  | look hphase hundone hnoticed => exact ⟨_, .look hphase hundone hnoticed, rfl, hstores⟩
  | gather houtcome hphase => exact ⟨_, .gather houtcome hphase, rfl, hstores⟩
  | start hslot hphase hanswered hroom =>
    exact ⟨_, .start hslot hphase hanswered hroom, rfl, hstores⟩
  | drain hphase hanswered hroom hslot hfeeding =>
    exact ⟨_, .drain hphase hanswered hroom hslot hfeeding, rfl, hstores⟩
  | leave hphase hdone => exact ⟨_, .leave hphase hdone, rfl, hstores⟩

/-- That states stand beside each other holds in both directions. -/
theorem State.Beside.symm (h : s.Beside stores t) : t.Beside (fun b a => stores a b) s :=
  ⟨by rw [h.1], h.2⟩

/-- An event happens in both pipelines or in neither. -/
theorem State.Beside.step (h : s.Beside stores t) (hdelete : DeletesAlike storage owner stores)
    (workers : Nat) (event : Event) : Option.Rel (State.Beside stores)
      (s.step storage owner workers event) (t.step storage owner workers event) := by
  cases hs : s.step storage owner workers event with
  | some s' =>
    obtain ⟨t', hmoves, hbeside⟩ := (moves_of_step hs).beside hdelete h
    rw [step_of_moves hmoves]
    exact .some hbeside
  | none =>
    cases ht : t.step storage owner workers event with
    | none => exact .none
    | some t' =>
      obtain ⟨s', hmoves, -⟩ := (moves_of_step ht).beside hdelete.symm h.symm
      rw [step_of_moves hmoves] at hs
      cases hs

/-- Of a list of events the same one is the first that can happen. -/
theorem State.Beside.first (h : s.Beside stores t) (hdelete : DeletesAlike storage owner stores)
    (workers : Nat) (events : List Event) : Option.Rel (State.Beside stores)
      (events.findSome? (s.step storage owner workers))
      (events.findSome? (t.step storage owner workers)) := by
  induction events with
  | nil => exact .none
  | cons event rest ih =>
    have hstep := h.step hdelete workers event
    rw [List.findSome?_cons, List.findSome?_cons]
    generalize s.step storage owner workers event = after at hstep
    generalize t.step storage owner workers event = after' at hstep
    cases hstep with
    | some hbeside => exact .some hbeside
    | none => exact ih

/-- The schedule takes both pipelines through the same events. -/
theorem Request.settle_beside (r : Request) (hdelete : DeletesAlike storage r.owner stores)
    (fuel : Nat) {s t : State σ} (h : s.Beside stores t) (peak : Nat) :
    (r.settle storage fuel ⟨s, peak⟩).peak = (r.settle storage fuel ⟨t, peak⟩).peak ∧
      (r.settle storage fuel ⟨s, peak⟩).state.Beside stores
        (r.settle storage fuel ⟨t, peak⟩).state := by
  induction fuel generalizing s t peak with
  | zero => exact ⟨rfl, h⟩
  | succ fuel ih =>
    have hchoices : r.choices t = r.choices s := by rw [h.1]; rfl
    have hfirst := h.first hdelete r.limit (r.choices s)
    simp only [settle, hchoices]
    generalize (r.choices s).findSome? (s.step storage r.owner r.limit) = after at hfirst
    generalize (r.choices s).findSome? (t.step storage r.owner r.limit) = after' at hfirst
    cases hfirst with
    | none => exact ⟨rfl, h⟩
    | @some s' t' hbeside =>
      have hflight : t'.inFlight = s'.inFlight := by rw [hbeside.1]; rfl
      simp only [hflight]
      exact ih hbeside _

/-- A request gives the same report on both stores. -/
theorem Request.run_alike (r : Request) (hdelete : DeletesAlike storage r.owner stores)
    {a b : Setting σ} (h : stores a b) :
    (r.run storage a).1 = (r.run storage b).1 ∧
      stores (r.run storage a).2 (r.run storage b).2 := by
  obtain ⟨hpeak, hbeside⟩ := r.settle_beside hdelete (12 * r.codes.length + 12)
    (s := .initial r.codes r.cancelled a) (t := .initial r.codes r.cancelled b) ⟨rfl, h⟩ 0
  refine ⟨?_, hbeside.2⟩
  simp only [run, hpeak]
  rw [hbeside.1]
  rfl

end ShortLinks.Deletion
