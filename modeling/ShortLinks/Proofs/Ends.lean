import ShortLinks.Proofs.Run

/-!
# How computations end

Three things are said of ends. A computation succeeds from all states that meet a condition, and
something is known of its result and of the state it leaves. Or it may stop, and something is known
of the state it leaves then, too. And two ends are alike: both are successes with related results, or
both stopped with the same error, and the states that were left are related. Each is shown of a
sequence by showing it of the parts.
-/

namespace ShortLinks

variable {ε σ α β γ δ : Type}

/-- From the states where `before` holds, a computation succeeds, and `after` holds of its result
and of the state it leaves. -/
def Succeeds (before : σ → Prop) (x : ExceptT ε (StateM σ) α) (after : α → σ → Prop) : Prop :=
  ∀ s, before s → ∃ a t, x.run s = (.ok a, t) ∧ after a t

namespace Succeeds

variable {before : σ → Prop} {x : ExceptT ε (StateM σ) α} {between : α → σ → Prop}

/-- What is at hand succeeds. -/
theorem of_pure {a : α} (h : ∀ s, before s → between a s) :
    Succeeds before (pure a : ExceptT ε (StateM σ) α) between :=
  fun s hs => ⟨a, s, rfl, h s hs⟩

/-- A sequence succeeds if its parts do, one after the other. -/
theorem bind {f : α → ExceptT ε (StateM σ) β} {after : β → σ → Prop}
    (hx : Succeeds before x between) (hf : ∀ a, Succeeds (between a) (f a) after) :
    Succeeds before (x >>= f) after := by
  intro s hs
  obtain ⟨a, t, hrun, ht⟩ := hx s hs
  obtain ⟨b, u, hrest, hu⟩ := hf a t ht
  exact ⟨b, u, by rw [run_bind, hrun]; exact hrest, hu⟩

/-- What succeeds, succeeds also where its errors would be faults. -/
theorem orFault {before : FileSystem → Prop} {x : Disk α} {after : α → FileSystem → Prop}
    (hx : Succeeds before x after) (fault : IoError → Fault) :
    Succeeds before (x.orFault fault) after := by
  intro fs hfs
  obtain ⟨a, fs', hrun, hafter⟩ := hx fs hfs
  exact ⟨a, fs', by rw [run_orFault, hrun]; rfl, hafter⟩

end Succeeds

/-- From the states where `before` holds, a computation ends so that `after` holds of a result and
`failed` of an error, each with the state that it left. -/
def Ends (before : σ → Prop) (x : ExceptT ε (StateM σ) α) (after : α → σ → Prop)
    (failed : ε → σ → Prop) : Prop :=
  ∀ s, before s → ∀ result t, x.run s = (result, t) →
    match result with
    | .ok a => after a t
    | .error e => failed e t

namespace Ends

variable {before : σ → Prop} {x : ExceptT ε (StateM σ) α} {between : α → σ → Prop}
  {failed : ε → σ → Prop}

/-- What is at hand ends well. -/
theorem of_pure {a : α} (h : ∀ s, before s → between a s) :
    Ends before (pure a : ExceptT ε (StateM σ) α) between failed := by
  intro s hs result t hrun
  cases hrun
  exact h s hs

/-- A sequence ends well if its parts do; where the first one fails, the second is not run. -/
theorem bind {f : α → ExceptT ε (StateM σ) β} {after : β → σ → Prop}
    (hx : Ends before x between failed) (hf : ∀ a, Ends (between a) (f a) after failed) :
    Ends before (x >>= f) after failed := by
  intro s hs result u hrun
  rw [run_bind] at hrun
  rcases hfirst : x.run s with ⟨e | a, t⟩ <;> rw [hfirst] at hrun
  · cases hrun
    exact hx s hs _ _ hfirst
  · exact hf a t (hx s hs _ _ hfirst) result u hrun

/-- Where errors are reported as faults, what is known of the errors is known of their faults. -/
theorem orFault {before : FileSystem → Prop} {x : Disk α} {after : α → FileSystem → Prop}
    {failed : IoError → FileSystem → Prop} {failed' : Fault → FileSystem → Prop}
    {fault : IoError → Fault} (hx : Ends before x after failed)
    (hfailed : ∀ e fs, failed e fs → failed' (fault e) fs) :
    Ends before (x.orFault fault) after failed' := by
  intro fs hfs result fs' hrun
  rw [run_orFault] at hrun
  rcases hend : x.run fs with ⟨e | a, t⟩ <;> rw [hend] at hrun <;> cases hrun
  · exact hfailed e _ (hx fs hfs _ _ hend)
  · exact hx fs hfs _ _ hend

end Ends

/-- Two ends are alike: related results or one error, and related states. -/
inductive EndsAlike (results : α → β → Prop) (states : σ → σ → Prop) :
    Except ε α × σ → Except ε β × σ → Prop
  | ok {a b s t} (hresults : results a b) (hstates : states s t) :
      EndsAlike results states (.ok a, s) (.ok b, t)
  | error (e : ε) {s t} (hstates : states s t) :
      EndsAlike results states (.error e, s) (.error e, t)

namespace EndsAlike

variable {results : α → β → Prop} {states : σ → σ → Prop}

/-- Ends with equal results are alike. -/
theorem of_eq {ended ended' : Except ε α × σ} (hresults : ended.1 = ended'.1)
    (hstates : states ended.2 ended'.2) : EndsAlike Eq states ended ended' := by
  obtain ⟨e | a, s⟩ := ended <;> obtain ⟨e' | a', s'⟩ := ended' <;> cases hresults
  · exact .error e hstates
  · exact .ok rfl hstates

/-- Ending alike holds in both directions. -/
theorem symm {ended ended' : Except ε α × σ} (h : EndsAlike Eq states ended ended') :
    EndsAlike Eq (fun t s => states s t) ended' ended := by
  obtain ⟨rfl, hstates⟩ | ⟨e, hstates⟩ := h
  · exact .ok rfl hstates
  · exact .error e hstates

/-- What ends alike has the same result. -/
theorem eq {ended ended' : Except ε α × σ} (h : EndsAlike Eq states ended ended') :
    ended.1 = ended'.1 := by
  obtain ⟨rfl, -⟩ | ⟨e, -⟩ := h <;> rfl

/-- What ends alike leaves states that are alike. -/
theorem states_of {ended : Except ε α × σ} {ended' : Except ε β × σ}
    (h : EndsAlike results states ended ended') : states ended.2 ended'.2 := by
  obtain ⟨-, hstates⟩ | ⟨e, hstates⟩ := h <;> exact hstates

/-- Sequences end alike when their first parts do, and their second parts do after results and
states that are related. -/
theorem bind {results' : γ → δ → Prop} {x : ExceptT ε (StateM σ) α} {y : ExceptT ε (StateM σ) β}
    {f : α → ExceptT ε (StateM σ) γ} {g : β → ExceptT ε (StateM σ) δ} {s t : σ}
    (hfirst : EndsAlike results states (x.run s) (y.run t))
    (hsecond : ∀ a b s t, results a b → states s t →
      EndsAlike results' states ((f a).run s) ((g b).run t)) :
    EndsAlike results' states ((x >>= f).run s) ((y >>= g).run t) := by
  rw [run_bind, run_bind]
  generalize x.run s = ended at hfirst
  generalize y.run t = ended' at hfirst
  obtain ⟨hresults, hstates⟩ | ⟨e, hstates⟩ := hfirst
  · exact hsecond _ _ _ _ hresults hstates
  · exact .error e hstates

end EndsAlike

end ShortLinks
