import ShortLinks.Proofs.Service
import ShortLinks.Proofs.Store.Added

/-!
# A batch is its links one by one

Shortening a batch and shortening its URLs one after another ask the store in different ways: the
batch goes through a map by code, where repeated URLs fall together, and the store takes it as a
whole. Where no two URLs of the batch share a code, both add the same records, one for each link
that is vacant at the beginning. A URL that is shortened again, or whose link is there already,
deleted or not, adds nothing and is answered with its code all the same. So the order of the URLs,
and how often each is named, makes no difference to the state.
-/

namespace ShortLinks

namespace Service

variable {σ : Type} {storage : Storage σ} {scheme : Scheme} {owner url : String} {s s' : Setting σ}
  {answer : Shortened}

/-- Shorten URLs one after another, up to the first that fails. -/
def addEach (storage : Storage σ) (scheme : Scheme) (owner : String) :
    List String → Action σ (List Shortened)
  | [] => return []
  | url :: rest => do
    let answer ← add storage scheme url owner
    return answer :: (← addEach storage scheme owner rest)

/-- Shortening succeeds when the store was not disturbed, and answers with the code of the URL. -/
theorem run_add_undisturbed (hvalid : Url.validate url = .ok ())
    (h : Undisturbed ((storage.add (scheme.encode url) url owner).run s).1) :
    ∃ answer, (add storage scheme url owner).run s =
      (.ok answer, ((storage.add (scheme.encode url) url owner).run s).2) := by
  rw [run_add, hvalid]
  rcases hadd : (storage.add (scheme.encode url) url owner).run s with ⟨f | _, s'⟩
  · rw [hadd] at h
    simp only [if_pos (h f rfl)]
    exact ⟨_, rfl⟩
  · exact ⟨_, rfl⟩

/-- A URL that could be shortened was answered with its code, and the store was not disturbed. -/
theorem run_add_ok (h : (add storage scheme url owner).run s = (.ok answer, s')) :
    answer.code = scheme.encode url ∧
      Undisturbed ((storage.add (scheme.encode url) url owner).run s).1 ∧
      s' = ((storage.add (scheme.encode url) url owner).run s).2 := by
  rw [run_add] at h
  cases hvalid : Url.validate url with
  | error f =>
    rw [hvalid] at h
    cases h
  | ok _ =>
    rw [hvalid] at h
    rcases hadd : (storage.add (scheme.encode url) url owner).run s with ⟨f | _, next⟩ <;>
      rw [hadd] at h
    · by_cases hconflict : f.kind = .conflict
      · simp only [if_pos hconflict] at h
        cases h
        refine ⟨rfl, fun f' hf' => ?_, rfl⟩
        cases hf'
        exact hconflict
      · simp only [if_neg hconflict] at h
        cases h
    · cases h
      exact ⟨rfl, nofun, rfl⟩

end Service

namespace Store

variable {scheme : Scheme} {owner url : String} {urls : List String} {s s' : Setting Store}
  {records records' : List Record} {answers : List Shortened} {batch : Keyed String String}
  {p : String → Prop}

/-- The records are those of the vacant links of some URLs, each once. -/
structure Additions (scheme : Scheme) (owner : String) (p : String → Prop) (s : Setting Store)
    (records : List Record) : Prop where
  nodup : records.Nodup
  mem : ∀ r, r ∈ records ↔ r.owner = owner ∧ r.deleted = false ∧ r.code = scheme.encode r.url ∧
    p r.url ∧ Vacant s owner r.code r.url

/-- The records to add are the same in any order. -/
theorem Additions.perm (h : Additions scheme owner p s records)
    (h' : Additions scheme owner p s records') : records.Perm records' := by
  rw [List.perm_ext_iff_of_nodup h.nodup h'.nodup]
  intro r
  rw [h.mem, h'.mem]

/-- Where no two of the URLs share a code, no two of the records are about the same link. -/
theorem Additions.nodup_keys (h : Additions scheme owner p s records)
    (hcodes : ∀ url url', p url → p url' → scheme.encode url = scheme.encode url' → url = url') :
    (records.map Owners.key).Nodup := by
  apply h.nodup.map_on
  intro r hr r' hr' hkey
  obtain ⟨howner, hdeleted, hcode, hp, -⟩ := (h.mem r).1 hr
  obtain ⟨howner', hdeleted', hcode', hp', -⟩ := (h.mem r').1 hr'
  obtain ⟨-, hsame⟩ := Prod.mk.inj hkey
  have hurl : r.url = r'.url := hcodes r.url r'.url hp hp' (by rw [← hcode, ← hcode', hsame])
  obtain ⟨code, url, owner, deleted⟩ := r
  obtain ⟨code', url', owner', deleted'⟩ := r'
  simp only at howner hdeleted howner' hdeleted' hsame hurl
  rw [howner, hdeleted, howner', hdeleted', hsame, hurl]

/-- A URL whose link was vacant adds its record to those of the later URLs. -/
theorem Additions.cons_vacant {next : Setting Store}
    (hcodes : ∀ other ∈ urls, scheme.encode other = scheme.encode url → other = url)
    (hvacant : Vacant s owner (scheme.encode url) url)
    (hfirst : Added [⟨scheme.encode url, url, owner, false⟩] s next)
    (h : Additions scheme owner (· ∈ urls) next records) :
    Additions scheme owner (· ∈ url :: urls) s
      (⟨scheme.encode url, url, owner, false⟩ :: records) where
  nodup := by
    rw [List.nodup_cons]
    refine ⟨fun hmem => ?_, h.nodup⟩
    obtain ⟨-, -, -, -, hagain⟩ := (h.mem _).1 hmem
    exact hfirst.not_vacant hagain
  mem r := by
    have hother (hcode : r.code = scheme.encode r.url) (hurl : r.url ∈ urls) (hne : r.url ≠ url) :
        Vacant next owner r.code r.url ↔ Vacant s owner r.code r.url := by
      apply hfirst.vacant_other
      · rw [hcode]
        exact fun hsame => hne (hcodes r.url hurl hsame.symm)
      · exact hne.symm
    rw [List.mem_cons, h.mem]
    constructor
    · rintro (rfl | ⟨howner, hdeleted, hcode, hurl, hlater⟩)
      · exact ⟨rfl, rfl, rfl, List.mem_cons_self, hvacant⟩
      · refine ⟨howner, hdeleted, hcode, List.mem_cons_of_mem _ hurl, ?_⟩
        refine (hother hcode hurl fun hsame => ?_).1 hlater
        rw [hcode, hsame] at hlater
        exact hfirst.not_vacant hlater
    · rintro ⟨howner, hdeleted, hcode, hurl, hbefore⟩
      by_cases hsame : r.url = url
      · left
        obtain ⟨code, _, _, _⟩ := r
        simp only at howner hdeleted hcode hsame
        rw [howner, hdeleted, hcode, hsame]
      · have hurl : r.url ∈ urls := (List.mem_cons.1 hurl).resolve_left hsame
        exact .inr ⟨howner, hdeleted, hcode, hurl, (hother hcode hurl hsame).2 hbefore⟩

/-- A URL whose link was not vacant adds nothing to those of the later URLs. -/
theorem Additions.cons_taken {next : Setting Store}
    (htaken : ¬Vacant s owner (scheme.encode url) url) (hfirst : Added [] s next)
    (h : Additions scheme owner (· ∈ urls) next records) :
    Additions scheme owner (· ∈ url :: urls) s records where
  nodup := h.nodup
  mem r := by
    rw [h.mem, hfirst.vacant_nil, List.mem_cons]
    constructor
    · rintro ⟨howner, hdeleted, hcode, hurl, hvacant⟩
      exact ⟨howner, hdeleted, hcode, .inr hurl, hvacant⟩
    · rintro ⟨howner, hdeleted, hcode, hsame | hurl, hvacant⟩
      · rw [hcode, hsame] at hvacant
        exact absurd hvacant htaken
      · exact ⟨howner, hdeleted, hcode, hurl, hvacant⟩

/-- URLs that could be shortened one after another were answered with their codes, and the store
grew by the records of their links that were vacant at the beginning. -/
theorem added_addEach (hcodes : ∀ url ∈ urls, ∀ url' ∈ urls,
      scheme.encode url = scheme.encode url' → url = url')
    (h : (Service.addEach storage scheme owner urls).run s = (.ok answers, s')) :
    answers.map Shortened.code = urls.map scheme.encode ∧
      ∃ records, Added records s s' ∧ Additions scheme owner (· ∈ urls) s records := by
  induction urls generalizing s answers with
  | nil =>
    cases h
    exact ⟨rfl, [], .nil _, List.nodup_nil, by simp⟩
  | cons url rest ih =>
    obtain ⟨answer, next, hfirst, hrest⟩ := run_bind_ok h
    obtain ⟨later, last, hrest, hlast⟩ := run_bind_ok hrest
    cases hlast
    obtain ⟨hcode, hundisturbed, rfl⟩ := Service.run_add_ok hfirst
    have hcodes' : ∀ other ∈ rest, ∀ other' ∈ rest,
        scheme.encode other = scheme.encode other' → other = other' :=
      fun other hmem other' hmem' =>
        hcodes other (List.mem_cons_of_mem _ hmem) other' (List.mem_cons_of_mem _ hmem')
    obtain ⟨hlater, records, hadded, hadditions⟩ := ih hcodes' hrest
    refine ⟨by rw [List.map_cons, List.map_cons, hcode, hlater], ?_⟩
    obtain ⟨hvacant, hfirst⟩ | ⟨htaken, hfirst⟩ := added_add hundisturbed
    · have hother (other : String) (hmem : other ∈ rest) :=
        hcodes other (List.mem_cons_of_mem _ hmem) url List.mem_cons_self
      exact ⟨_, hfirst.append hadded, hadditions.cons_vacant hother hvacant hfirst⟩
    · exact ⟨records, hfirst.append hadded, hadditions.cons_taken htaken hfirst⟩

/-- A batch whose URLs pass their check is answered with their codes when the store was not
disturbed, and the store grew by the records of its links that were vacant. -/
theorem added_shortenBatch
    (hvalid : ∀ id url, batch.find? id = some url → Url.validate url = .ok ())
    (hcodes : ∀ id id' url url', batch.find? id = some url → batch.find? id' = some url' →
      scheme.encode url = scheme.encode url' → url = url')
    (h : Undisturbed ((storage.addBatch (Service.byCode scheme batch) owner).run s).1) :
    let ended := (Service.addBatch storage scheme batch owner).run s
    ended.1 = .ok (Service.codes scheme batch) ∧ ∃ records, Added records s ended.2 ∧
      Additions scheme owner (fun url => ∃ id, batch.find? id = some url) s records := by
  have hpassed : Service.validateAll batch.entries = .ok () := by
    obtain ⟨hok, -⟩ | ⟨id, url, f, hmem, hinvalid, -⟩ := Service.validateAll_cases batch.entries
    · exact hok
    · rw [hvalid id url ((Keyed.mem_entries_iff batch).1 hmem)] at hinvalid
      cases hinvalid
  rw [Service.run_addBatch, hpassed]
  by_cases hempty : batch.entries.isEmpty
  · have hentries := List.isEmpty_iff.1 hempty
    have hcodes : Service.codes scheme batch = .empty := by rw [Service.codes, hentries]; rfl
    have hnone (id : String) : batch.find? id = none := by rw [Keyed.find?, hentries]; rfl
    simp only [if_pos hempty, hcodes]
    exact ⟨trivial, [], .nil s, List.nodup_nil, by simp [hnone]⟩
  · simp only [if_neg hempty]
    obtain ⟨records, hadded, hnodup, hmem⟩ :=
      added_addBatch (Service.nodup_urls_byCode scheme batch) h
    have hadditions : Additions scheme owner (fun url => ∃ id, batch.find? id = some url) s
        records := by
      refine ⟨hnodup, fun r => ?_⟩
      rw [hmem, Service.find?_byCode_iff hcodes, and_assoc]
    rcases hadd : (storage.addBatch (Service.byCode scheme batch) owner).run s with ⟨f | _, s'⟩ <;>
      rw [hadd] at h hadded
    · simp only [if_pos (h f rfl)]
      exact ⟨trivial, records, hadded, hadditions⟩
    · exact ⟨rfl, records, hadded, hadditions⟩

/-- Where nothing goes wrong, adding a link does not disturb the store, and nothing goes wrong
afterwards. -/
theorem undisturbed_add (hsound : Sound s) (code url owner : String) :
    Undisturbed ((storage.add code url owner).run s).1 ∧
      Sound ((storage.add code url owner).run s).2 := by
  obtain ⟨hkept, ⟨hok, -⟩ | ⟨f, herror, -, -, hfault⟩⟩ := add_cases s code url owner
  · rw [hok]
    exact ⟨nofun, hkept.sound hsound⟩
  · refine ⟨fun f' hf' => ?_, hkept.sound hsound⟩
    cases herror.symm.trans hf'
    by_contra hkind
    exact hfault hkind hsound

/-- A batch is not disturbed in a store that works. -/
theorem undisturbed_addBatch {urls : Keyed String String} (hsound : Sound s)
    (hurls : (urls.entries.map Prod.snd).Nodup) (owner : String) :
    Undisturbed ((storage.addBatch urls owner).run s).1 := by
  obtain ⟨-, ⟨hconflict, -⟩ | ⟨⟨f, -, -, hunsound⟩, -⟩⟩ := addBatch_cases s hurls owner
  · exact hconflict
  · exact absurd hsound hunsound

/-- Where nothing goes wrong, URLs that pass their check can all be shortened. -/
theorem addEach_sound (hsound : Sound s) (scheme : Scheme) (owner : String)
    (hvalid : ∀ url ∈ urls, Url.validate url = .ok ()) :
    ∃ answers s', (Service.addEach storage scheme owner urls).run s = (.ok answers, s') := by
  induction urls generalizing s with
  | nil => exact ⟨[], s, rfl⟩
  | cons url rest ih =>
    obtain ⟨hundisturbed, hsound'⟩ := undisturbed_add hsound (scheme.encode url) url owner
    obtain ⟨answer, hfirst⟩ :=
      Service.run_add_undisturbed (hvalid url List.mem_cons_self) hundisturbed
    obtain ⟨answers, s', hrest⟩ := ih hsound' fun other hmem =>
      hvalid other (List.mem_cons_of_mem _ hmem)
    refine ⟨answer :: answers, s', ?_⟩
    rw [Service.addEach, run_bind, hfirst]
    simp only
    rw [run_bind, hrest]
    rfl

/-- On a store of either kind, whatever it holds, with either scheme:

* a batch with a URL that does not pass its check is refused, with the correlation id of such a URL
  and what is wrong with it, and nothing is changed;
* where all URLs pass, no two of them share a code and the store is not disturbed, a batch is
  answered with the code of each URL under its correlation id. Shortening its URLs one after
  another, in any order and each as often as one likes, answers with the same codes. Both add the
  same records and leave the same state;
* where nothing goes wrong, the store is not disturbed, and all URLs can be shortened one after
  another. -/
theorem batch_leaves_what_each_would (scheme : Scheme) (batch : Keyed String String)
    (owner : String) (s : Setting Store) :
    ((∃ id url, batch.find? id = some url ∧ Url.validate url ≠ .ok ()) →
      ∃ id url f, batch.find? id = some url ∧ Url.validate url = .error f ∧
        (Service.addBatch storage scheme batch owner).run s =
          (.error ⟨.invalidUrl, id ++ ": " ++ f.message⟩, s)) ∧
    ((∀ id url, batch.find? id = some url → Url.validate url = .ok ()) →
      (∀ id id' url url', batch.find? id = some url → batch.find? id' = some url' →
        scheme.encode url = scheme.encode url' → url = url') →
      (Undisturbed ((storage.addBatch (Service.byCode scheme batch) owner).run s).1 →
        let ended := (Service.addBatch storage scheme batch owner).run s
        (∃ codes, ended.1 = .ok codes ∧
          ∀ id, codes.find? id = (batch.find? id).map scheme.encode) ∧
        ∀ urls : List String, (∀ url, url ∈ urls ↔ ∃ id, batch.find? id = some url) →
          ∀ answers s', (Service.addEach storage scheme owner urls).run s = (.ok answers, s') →
            answers.map Shortened.code = urls.map scheme.encode ∧ SameState ended.2 s' ∧
            ∃ records records', records.Perm records' ∧ Added records s ended.2 ∧
              Added records' s s') ∧
      (Sound s →
        Undisturbed ((storage.addBatch (Service.byCode scheme batch) owner).run s).1 ∧
        ∀ urls : List String, (∀ url, url ∈ urls ↔ ∃ id, batch.find? id = some url) →
          ∃ answers s',
            (Service.addEach storage scheme owner urls).run s = (.ok answers, s'))) := by
  refine ⟨?_, fun hvalid hcodes => ⟨fun hundisturbed => ?_, fun hsound => ⟨?_, ?_⟩⟩⟩
  · rintro ⟨id, url, hfind, hinvalid⟩
    obtain ⟨-, hall⟩ | ⟨id', url', f, hmem, hrefused, herror⟩ :=
      Service.validateAll_cases batch.entries
    · exact absurd (hall id url ((Keyed.mem_entries_iff batch).2 hfind)) hinvalid
    · refine ⟨id', url', f, (Keyed.mem_entries_iff batch).1 hmem, hrefused, ?_⟩
      rw [Service.run_addBatch, herror]
  · obtain ⟨hanswer, records, hadded, hadditions⟩ :=
      added_shortenBatch hvalid hcodes hundisturbed
    refine ⟨⟨_, hanswer, Service.find?_codes scheme batch⟩, fun urls hurls answers s' heach => ?_⟩
    have hcodes' : ∀ url url', (∃ id, batch.find? id = some url) →
        (∃ id, batch.find? id = some url') → scheme.encode url = scheme.encode url' →
        url = url' := fun url url' ⟨id, hid⟩ ⟨id', hid'⟩ => hcodes id id' url url' hid hid'
    obtain ⟨hanswers, records', hadded', hadditions'⟩ :=
      added_addEach (fun url hmem url' hmem' =>
        hcodes' url url' ((hurls url).1 hmem) ((hurls url').1 hmem')) heach
    simp only [hurls] at hadditions'
    have hperm := hadditions.perm hadditions'
    exact ⟨hanswers, hadded.sameState hadded' (hadditions.nodup_keys hcodes') hperm,
      records, records', hperm, hadded, hadded'⟩
  · exact undisturbed_addBatch hsound (Service.nodup_urls_byCode scheme batch) owner
  · intro urls hurls
    apply addEach_sound hsound
    intro url hmem
    obtain ⟨id, hid⟩ := (hurls url).1 hmem
    exact hvalid id url hid

/-- A table with one tombstone. -/
def oneTombstone : Setting Store :=
  ⟨.relational { file := 0 }, { contents := [.database {
    rows := [⟨"LmNvbS9h", "https://example.com/a", "u", true⟩] }] }⟩

/-- A batch with the URL of that tombstone and with another URL twice. -/
def repeating : Keyed String String :=
  .ofList [("1", "https://example.com/a"), ("2", "https://example.com/b"),
    ("3", "https://example.com/b"), ("4", "https://example.com/c")]

/-- The batch and its URLs in another order leave the same rows, and the tombstone stands. With
something that is no URL in its place, nothing is changed. -/
theorem batch_leaves_what_each_would_repeating :
    (∃ codes answers s',
      ((Service.addBatch storage .base64Tail repeating "u").run oneTombstone).1 = .ok codes ∧
      codes.find? "1" = some "LmNvbS9h" ∧ codes.find? "3" = some "LmNvbS9i" ∧
      (Service.addEach storage .base64Tail "u" ["https://example.com/c", "https://example.com/b",
        "https://example.com/a", "https://example.com/b"]).run oneTombstone = (.ok answers, s') ∧
      answers.map Shortened.code = ["LmNvbS9j", "LmNvbS9i", "LmNvbS9h", "LmNvbS9i"] ∧
      SameState ((Service.addBatch storage .base64Tail repeating "u").run oneTombstone).2 s') ∧
    ∃ id f, (Service.addBatch storage .base64Tail (repeating.insert "1" "nowhere") "u").run
      oneTombstone = (.error ⟨.invalidUrl, id ++ ": " ++ Fault.message f⟩, oneTombstone) := by
  have hurls (id url : String) (h : repeating.find? id = some url) :
      url = "https://example.com/a" ∨ url = "https://example.com/b" ∨
        url = "https://example.com/c" := by
    have hmem := (Keyed.mem_entries_iff repeating).2 h
    have hentries : repeating.entries = [("1", "https://example.com/a"),
      ("2", "https://example.com/b"), ("3", "https://example.com/b"),
      ("4", "https://example.com/c")] := rfl
    rw [hentries] at hmem
    simp only [List.mem_cons, Prod.mk.injEq, List.not_mem_nil, or_false] at hmem
    tauto
  have hvalid (id url : String) (h : repeating.find? id = some url) :
      Url.validate url = .ok () := by
    obtain rfl | rfl | rfl := hurls id url h <;> rfl
  have hcodes (id id' url url' : String) (h : repeating.find? id = some url)
      (h' : repeating.find? id' = some url')
      (hsame : Scheme.base64Tail.encode url = Scheme.base64Tail.encode url') : url = url' := by
    obtain rfl | rfl | rfl := hurls id url h <;> obtain rfl | rfl | rfl := hurls id' url' h' <;>
      first | rfl | exact absurd hsame (by decide)
  have hsound : Sound oneTombstone := ⟨nofun, rfl, rfl, rfl, rfl, rfl⟩
  obtain ⟨-, hbatch⟩ := batch_leaves_what_each_would .base64Tail repeating "u" oneTombstone
  obtain ⟨hsame, hreached⟩ := hbatch hvalid hcodes
  obtain ⟨hundisturbed, heach⟩ := hreached hsound
  have hmembers (url : String) : url ∈ ["https://example.com/c", "https://example.com/b",
      "https://example.com/a", "https://example.com/b"] ↔ ∃ id, repeating.find? id = some url := by
    constructor
    · intro hmem
      simp only [List.mem_cons, List.not_mem_nil, or_false] at hmem
      obtain rfl | rfl | rfl | rfl := hmem
      · exact ⟨"4", rfl⟩
      · exact ⟨"2", rfl⟩
      · exact ⟨"1", rfl⟩
      · exact ⟨"3", rfl⟩
    · rintro ⟨id, h⟩
      obtain rfl | rfl | rfl := hurls id url h <;> simp
  obtain ⟨⟨codes, hanswer, hfind⟩, horder⟩ := hsame hundisturbed
  obtain ⟨answers, s', hrun⟩ := heach _ hmembers
  obtain ⟨hanswers, hstate, -⟩ := horder _ hmembers answers s' hrun
  refine ⟨⟨codes, answers, s', hanswer, hfind "1", hfind "3", hrun, hanswers, hstate⟩, ?_⟩
  obtain ⟨hrefused, -⟩ := batch_leaves_what_each_would .base64Tail
    (repeating.insert "1" "nowhere") "u" oneTombstone
  obtain ⟨id, -, f, -, -, herror⟩ := hrefused ⟨"1", "nowhere", rfl, nofun⟩
  exact ⟨id, f, herror⟩

end Store

end ShortLinks
