import Mathlib.Data.List.Nodup
import ShortLinks.Proofs.Run
import ShortLinks.Service

/-!
# Running the service

Shortening asks the store only for a URL that passed its check, and turns the conflicts of the store
into success. A batch goes to the store by code, where of the URLs with one code one remains, and is
answered by correlation id.
-/

namespace ShortLinks.Service

variable {σ : Type} {scheme : Scheme} {batch : Keyed String String} {id code url : String}

/-- A URL that is valid is kept under its code, and a code that is taken already is no fault. -/
theorem run_add (storage : Storage σ) (scheme : Scheme) (url owner : String) (s : Setting σ) :
    (add storage scheme url owner).run s = match Url.validate url with
      | .error f => (.error f, s)
      | .ok () => match (storage.add (scheme.encode url) url owner).run s with
        | (.ok (), s') => (.ok (.created (scheme.encode url)), s')
        | (.error f, s') =>
          (if f.kind = .conflict then .ok (.existing (scheme.encode url)) else .error f, s') := by
  simp only [add, run_bind, Action.run_answer, Action.run_outcome]
  cases Url.validate url with
  | error f => rfl
  | ok _ =>
    simp only
    rcases (storage.add (scheme.encode url) url owner).run s with ⟨f | _, s'⟩
    · by_cases h : f.kind = .conflict <;> simp [h]
    · rfl

/-- The URLs of a batch are kept under their codes if all of them are valid. -/
theorem run_addBatch (storage : Storage σ) (scheme : Scheme) (batch : Keyed String String)
    (owner : String) (s : Setting σ) :
    (addBatch storage scheme batch owner).run s = match validateAll batch.entries with
      | .error f => (.error f, s)
      | .ok () =>
        if batch.entries.isEmpty then (.ok .empty, s)
        else match (storage.addBatch (byCode scheme batch) owner).run s with
          | (.ok (), s') => (.ok (codes scheme batch), s')
          | (.error f, s') =>
            (if f.kind = .conflict then .ok (codes scheme batch) else .error f, s') := by
  simp only [addBatch, run_bind, Action.run_answer]
  cases validateAll batch.entries with
  | error f => rfl
  | ok _ =>
    simp only
    split
    · rfl
    · simp only [run_bind, Action.run_outcome]
      rcases (storage.addBatch (byCode scheme batch) owner).run s with ⟨f | _, s'⟩
      · by_cases h : f.kind = .conflict <;> simp [h]
      · rfl

/-- The answer of a batch gives every correlation id the code of its URL. -/
theorem find?_codes (scheme : Scheme) (batch : Keyed String String) (id : String) :
    (codes scheme batch).find? id = (batch.find? id).map scheme.encode := by
  apply Option.ext
  intro code
  rw [codes, Keyed.find?_ofList_iff (by rw [List.map_map]; exact batch.nodup)]
  simp only [List.mem_map, Prod.exists, Keyed.mem_entries_iff, Option.map_eq_some_iff]
  constructor
  · rintro ⟨_, url, hfind, h⟩
    cases h
    exact ⟨url, hfind, rfl⟩
  · rintro ⟨url, hfind, rfl⟩
    exact ⟨id, url, hfind, rfl⟩

/-- What is kept under a code is a URL of the batch with that code. -/
theorem of_find?_byCode (h : (byCode scheme batch).find? code = some url) :
    code = scheme.encode url ∧ ∃ id, batch.find? id = some url := by
  obtain ⟨⟨id, url'⟩, hmem, hentry⟩ := List.mem_map.1 (Keyed.mem_of_find?_ofList h)
  cases hentry
  exact ⟨rfl, id, (Keyed.mem_entries_iff batch).1 hmem⟩

/-- Under the code of a URL of the batch some URL is kept. -/
theorem exists_find?_byCode (scheme : Scheme) (h : batch.find? id = some url) :
    ∃ kept, (byCode scheme batch).find? (scheme.encode url) = some kept := by
  rw [← Option.ne_none_iff_exists', byCode, Keyed.find?_ofList, Ne, lookup?_eq_none_iff, not_not,
    List.map_reverse, List.mem_reverse, List.map_map]
  exact List.mem_map.2 ⟨(id, url), (Keyed.mem_entries_iff batch).2 h, rfl⟩

/-- No URL is kept under two codes. -/
theorem nodup_urls_byCode (scheme : Scheme) (batch : Keyed String String) :
    ((byCode scheme batch).entries.map Prod.snd).Nodup := by
  have hcodes : (byCode scheme batch).entries.map Prod.fst =
      ((byCode scheme batch).entries.map Prod.snd).map scheme.encode := by
    rw [List.map_map]
    apply List.map_congr_left
    rintro ⟨code, url⟩ hmem
    exact (of_find?_byCode ((Keyed.mem_entries_iff _).1 hmem)).1
  exact (hcodes ▸ (byCode scheme batch).nodup).of_map _

/-- A batch passes its check when all its URLs do, and otherwise some URL that does not is named. -/
theorem validateAll_cases (entries : List (String × String)) :
    (validateAll entries = .ok () ∧ ∀ id url, (id, url) ∈ entries → Url.validate url = .ok ()) ∨
    ∃ id url f, (id, url) ∈ entries ∧ Url.validate url = .error f ∧
      validateAll entries = .error ⟨.invalidUrl, id ++ ": " ++ f.message⟩ := by
  induction entries with
  | nil => exact .inl ⟨rfl, fun _ _ h => nomatch h⟩
  | cons entry rest ih =>
    obtain ⟨id, url⟩ := entry
    rw [validateAll]
    cases hvalid : Url.validate url with
    | error f => exact .inr ⟨id, url, f, List.mem_cons_self, hvalid, rfl⟩
    | ok _ =>
      obtain ⟨hok, hrest⟩ | ⟨id', url', f, hmem, hinvalid, herror⟩ := ih
      · refine .inl ⟨hok, fun id' url' h => ?_⟩
        obtain h | h := List.mem_cons.1 h
        · cases h
          exact hvalid
        · exact hrest id' url' h
      · exact .inr ⟨id', url', f, List.mem_cons_of_mem _ hmem, hinvalid, herror⟩

/-- Where at most one entry of a batch is refused, the order of the entries does not matter to the
check. -/
theorem validateAll_congr {batch' : Keyed String String}
    (hsame : ∀ id, batch.find? id = batch'.find? id)
    (hclear : ∀ id id' url url', batch.find? id = some url → batch.find? id' = some url' →
      Url.validate url ≠ .ok () → Url.validate url' ≠ .ok () → id = id') :
    validateAll batch.entries = validateAll batch'.entries := by
  have hmem (id url : String) : (id, url) ∈ batch'.entries ↔ batch.find? id = some url := by
    rw [Keyed.mem_entries_iff, hsame]
  obtain ⟨hok, hvalid⟩ | ⟨id, url, f, hentry, hinvalid, herror⟩ :=
      validateAll_cases batch.entries <;>
    obtain ⟨hok', hvalid'⟩ | ⟨id', url', f', hentry', hinvalid', herror'⟩ :=
      validateAll_cases batch'.entries
  · rw [hok, hok']
  · have hentry := (Keyed.mem_entries_iff batch).2 ((hmem id' url').1 hentry')
    rw [hvalid id' url' hentry] at hinvalid'
    cases hinvalid'
  · have hentry' := (hmem id url).2 ((Keyed.mem_entries_iff batch).1 hentry)
    rw [hvalid' id url hentry'] at hinvalid
    cases hinvalid
  · have hfind := (Keyed.mem_entries_iff batch).1 hentry
    have hfind' := (hmem id' url').1 hentry'
    obtain rfl := hclear id id' url url' hfind hfind' (by rw [hinvalid]; nofun)
      (by rw [hinvalid']; nofun)
    obtain rfl : url = url' := Option.some.inj (hfind.symm.trans hfind')
    obtain rfl : f = f' := Except.error.inj (hinvalid.symm.trans hinvalid')
    rw [herror, herror']

/-- Where no two URLs of a batch share a code, each is kept under its code. -/
theorem find?_byCode_iff (hcodes : ∀ id id' url url', batch.find? id = some url →
      batch.find? id' = some url' → scheme.encode url = scheme.encode url' → url = url') :
    (byCode scheme batch).find? code = some url ↔
      code = scheme.encode url ∧ ∃ id, batch.find? id = some url := by
  refine ⟨of_find?_byCode, ?_⟩
  rintro ⟨rfl, id, hid⟩
  obtain ⟨kept, hkept⟩ := exists_find?_byCode scheme hid
  obtain ⟨hcode, id', hid'⟩ := of_find?_byCode hkept
  rw [hkept, hcodes id id' url kept hid hid' hcode]

end ShortLinks.Service
