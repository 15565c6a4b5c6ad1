import ShortLinks.Proofs.Service
import ShortLinks.Proofs.Store.Either

/-!
# What the calls of the service do

A URL that passes its check is added where it is vacant, and otherwise its code is given out all the
same. A batch that passes its check does so with each of its URLs. Without trouble of its own a
store fails at nothing else.
-/

namespace ShortLinks.Store

/-- Shortening adds a link, finds that something is taken, or reports a fault. -/
theorem shorten_cases (s : Setting Store) (scheme : Scheme) (url owner : String) :
    let ended := (Service.add storage scheme url owner).run s
    Kept s ended.2 ∧
    ((Url.validate url = .ok () ∧ ended.1 = .ok (.created (scheme.encode url)) ∧
        Vacant s owner (scheme.encode url) url ∧ Readable ended.2 ∧
        ∀ o c l, Has ended.2 o c l ↔
          Has s o c l ∨ o = owner ∧ c = scheme.encode url ∧ l = ⟨url, false⟩) ∨
    (Url.validate url = .ok () ∧ ended.1 = .ok (.existing (scheme.encode url)) ∧
        ¬Vacant s owner (scheme.encode url) url ∧ Readable ended.2 ∧
        ∀ o c l, Has ended.2 o c l ↔ Has s o c l) ∨
    ∃ f, ended.1 = .error f ∧ (Url.validate url = .error f ∨ ¬Sound s) ∧
      ∀ o c l, Has ended.2 o c l ↔ Has s o c l) := by
  rw [Service.run_add]
  cases hvalid : Url.validate url with
  | error f => exact ⟨⟨id, id⟩, .inr (.inr ⟨f, rfl, .inl rfl, fun _ _ _ => Iff.rfl⟩)⟩
  | ok _ =>
    obtain ⟨hkept, hcases⟩ := add_cases s (scheme.encode url) url owner
    rcases hadd : (storage.add (scheme.encode url) url owner).run s with ⟨result, s'⟩
    rw [hadd] at hkept hcases
    obtain ⟨rfl, hvacant, hreadable, hlinks⟩ | ⟨f, rfl, hlinks, hconflict, hfault⟩ := hcases
    · exact ⟨hkept, .inl ⟨rfl, rfl, hvacant, hreadable, hlinks⟩⟩
    · by_cases hkind : f.kind = .conflict
      · obtain ⟨htaken, hreadable⟩ := hconflict hkind
        simp only [if_pos hkind]
        exact ⟨hkept, .inr (.inl ⟨trivial, trivial, htaken, hreadable, hlinks⟩)⟩
      · simp only [if_neg hkind]
        exact ⟨hkept, .inr (.inr ⟨f, rfl, .inr (hfault hkind), hlinks⟩)⟩

/-- Shortening a batch adds the links that are vacant, refuses a URL and does nothing, or reports
another fault. -/
theorem shortenBatch_cases (s : Setting Store) (scheme : Scheme) (batch : Keyed String String)
    (owner : String) :
    let ended := (Service.addBatch storage scheme batch owner).run s
    Kept s ended.2 ∧
    ((Service.validateAll batch.entries = .ok () ∧ ended.1 = .ok (Service.codes scheme batch) ∧
        (batch.entries ≠ [] → Readable ended.2) ∧
        ∀ o c l, Has ended.2 o c l ↔ Has s o c l ∨ o = owner ∧
          ∃ url, (Service.byCode scheme batch).find? c = some url ∧ Vacant s owner c url ∧
            l = ⟨url, false⟩) ∨
    (∃ f, Service.validateAll batch.entries = .error f ∧ ended = (.error f, s)) ∨
    (∃ f, ended.1 = .error f) ∧ ¬Sound s ∧
      ∀ o c l, Has ended.2 o c l → Has s o c l ∨ l.deleted = false) := by
  rw [Service.run_addBatch]
  cases hvalid : Service.validateAll batch.entries with
  | error f => exact ⟨⟨id, id⟩, .inr (.inl ⟨f, rfl, rfl⟩)⟩
  | ok _ =>
    by_cases hempty : batch.entries.isEmpty
    · have hentries := List.isEmpty_iff.1 hempty
      have hcodes : Service.codes scheme batch = .empty := by rw [Service.codes, hentries]; rfl
      have hbyCode : Service.byCode scheme batch = .empty := by rw [Service.byCode, hentries]; rfl
      simp only [if_pos hempty, hcodes, hbyCode]
      exact ⟨⟨id, id⟩, .inl ⟨trivial, trivial, fun h => absurd hentries h, by simp⟩⟩
    · simp only [if_neg hempty]
      have hentries : (Service.byCode scheme batch).entries ≠ [] := by
        obtain ⟨⟨id, url⟩, hmem⟩ :=
          List.exists_mem_of_ne_nil _ fun h => hempty (List.isEmpty_iff.2 h)
        obtain ⟨kept, hkept⟩ :=
          Service.exists_find?_byCode scheme ((Keyed.mem_entries_iff batch).1 hmem)
        exact List.ne_nil_of_mem ((Keyed.mem_entries_iff _).2 hkept)
      obtain ⟨hkept, hcases⟩ :=
        addBatch_cases s (Service.nodup_urls_byCode scheme batch) owner
      rcases hadd : (storage.addBatch (Service.byCode scheme batch) owner).run s with ⟨result, s'⟩
      rw [hadd] at hkept hcases
      obtain ⟨hconflict, hreadable, hlinks⟩ | ⟨⟨f, rfl, hkind, hsound⟩, hlinks⟩ := hcases
      · cases result with
        | ok _ => exact ⟨hkept, .inl ⟨trivial, rfl, fun _ => hreadable hentries, hlinks⟩⟩
        | error f =>
          simp only [if_pos (hconflict f rfl)]
          exact ⟨hkept, .inl ⟨trivial, trivial, fun _ => hreadable hentries, hlinks⟩⟩
      · simp only [if_neg hkind]
        exact ⟨hkept, .inr (.inr ⟨⟨f, rfl⟩, hsound, hlinks⟩)⟩

end ShortLinks.Store

namespace ShortLinks.Session

/-- The steps that are calls of the service. -/
def Step.IsCall : Step → Prop
  | .shorten .. | .shortenBatch .. | .get _ | .list _ | .delete .. | .stats => True
  | _ => False

/-- The step that shortens a URL is the call of the service. -/
theorem run_shorten (url owner : String) (s : Session) : (step (.shorten url owner)).run s =
    (act (Service.add Store.storage s.scheme url owner) .shortened).run s := by
  rw [step, runState_bind, runState_get]

/-- The step that shortens a batch is the call of the service. -/
theorem run_shortenBatch (batch : Keyed String String) (owner : String) (s : Session) :
    (step (.shortenBatch batch owner)).run s =
      (act (Service.addBatch Store.storage s.scheme batch owner) .codes).run s := by
  rw [step, runState_bind, runState_get]

end ShortLinks.Session
