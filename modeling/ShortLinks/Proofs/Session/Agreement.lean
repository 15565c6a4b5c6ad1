import ShortLinks.Proofs.Session.Calls

/-!
# Stores of both kinds answer alike

A store in memory and a store in a table say different things when two owners submit one URL, or
when two URLs share a code: the table takes codes and URLs from everyone, the memory only from their
owner. Where neither happens, every link that is in the way of another is one of the same owner
under the same code. Then two sessions that have the same links answer every call of the service
alike and have the same links afterwards, whatever kinds their stores are of.
-/

namespace ShortLinks

namespace Store

variable {scheme : Scheme} {submitted : String → String → Prop} {s s₁ s₂ : Setting Store}
  {owner url code : String} {batch : Keyed String String}

/-- No URL is submitted by two owners, and no two URLs that are submitted share a code. -/
structure Apart (scheme : Scheme) (submitted : String → String → Prop) : Prop where
  owner : ∀ url o o', submitted o url → submitted o' url → o = o'
  url : ∀ o o' url url', submitted o url → submitted o' url' →
    scheme.encode url = scheme.encode url' → url = url'

/-- Where fewer URLs are submitted, they are apart as well. -/
theorem Apart.mono {fewer : String → String → Prop} (h : Apart scheme submitted)
    (hfewer : ∀ o u, fewer o u → submitted o u) : Apart scheme fewer where
  owner url o o' hurl hurl' := h.owner url o o' (hfewer o url hurl) (hfewer o' url hurl')
  url o o' url url' hurl hurl' := h.url o o' url url' (hfewer o url hurl) (hfewer o' url' hurl')

/-- A store that works and has links of submitted URLs only, each under the code of its URL. -/
structure Fit (scheme : Scheme) (submitted : String → String → Prop) (s : Setting Store) :
    Prop where
  sound : Sound s
  distinct : Distinct s
  submitted : ∀ o c l, Has s o c l → submitted o l.url ∧ c = scheme.encode l.url

/-- An owner has some link under a code. -/
def Taken (s : Setting Store) (owner code : String) : Prop := ∃ l, Has s owner code l

/-- In a store that is fit only links of the same owner under the same code are in the way. -/
theorem Fit.vacant_iff (h : Fit scheme submitted s) (hapart : Apart scheme submitted)
    (hurl : submitted owner url) :
    Vacant s owner (scheme.encode url) url ↔ ¬Taken s owner (scheme.encode url) := by
  obtain ⟨m | r, fs⟩ := s
  · simp only [Vacant, Taken, Has, not_exists, Option.eq_none_iff_forall_ne_some, ne_eq]
  · constructor
    · rintro hvacant ⟨l, hrow⟩
      exact (hvacant _ hrow).1 rfl
    · intro hfree row hrow
      have hnot (hsame : row.url = url) : False := by
        obtain ⟨hrowUrl, hcode⟩ := h.submitted row.owner row.code ⟨row.url, row.deleted⟩ hrow
        rw [hsame] at hrowUrl hcode
        obtain rfl := hapart.owner url row.owner owner hrowUrl hurl
        exact hfree ⟨⟨row.url, row.deleted⟩, hcode ▸ hrow⟩
      refine ⟨fun hcode => ?_, hnot⟩
      obtain ⟨hrowUrl, hencoded⟩ := h.submitted row.owner row.code ⟨row.url, row.deleted⟩ hrow
      exact hnot (hapart.url row.owner owner row.url url hrowUrl hurl (hencoded ▸ hcode))

/-- A store stays fit if what it gets are links of submitted URLs. -/
theorem Fit.kept (h : Fit scheme submitted s₁) (hkept : Kept s₁ s₂)
    (hlinks : ∀ o c l, Has s₂ o c l →
      Has s₁ o c l ∨ submitted o l.url ∧ c = scheme.encode l.url) : Fit scheme submitted s₂ where
  sound := hkept.sound h.sound
  distinct := hkept.distinct h.distinct
  submitted o c l hhas := (hlinks o c l hhas).elim (h.submitted o c l) id

open Classical in
/-- Shortening in a store that is fit depends on the links of the owner alone. -/
theorem Fit.shorten (h : Fit scheme submitted s) (hapart : Apart scheme submitted)
    (hurl : submitted owner url) :
    let ended := (Service.add storage scheme url owner).run s
    Fit scheme submitted ended.2 ∧
    ended.1 = (Url.validate url).map (fun _ => if Taken s owner (scheme.encode url)
      then Shortened.existing (scheme.encode url) else .created (scheme.encode url)) ∧
    ∀ o c l, Has ended.2 o c l ↔ Has s o c l ∨
      Url.validate url = .ok () ∧ ¬Taken s owner (scheme.encode url) ∧
        o = owner ∧ c = scheme.encode url ∧ l = ⟨url, false⟩ := by
  obtain ⟨hkept, hcases⟩ := shorten_cases s scheme url owner
  rw [h.vacant_iff hapart hurl] at hcases
  obtain ⟨hvalid, hnew, hfree, -, hlinks⟩ | ⟨hvalid, hold, htaken, -, hlinks⟩ |
    ⟨f, herror, hcause, hlinks⟩ := hcases
  · refine ⟨h.kept hkept fun o c l hhas => ?_, ?_, fun o c l => ?_⟩
    · obtain hbefore | ⟨rfl, rfl, rfl⟩ := (hlinks o c l).1 hhas
      · exact .inl hbefore
      · exact .inr ⟨hurl, rfl⟩
    · rw [hnew, hvalid, Except.map, if_neg hfree]
    · rw [hlinks, hvalid]
      simp only [hfree, not_false_eq_true, true_and]
  · refine ⟨h.kept hkept fun o c l hhas => .inl ((hlinks o c l).1 hhas), ?_, fun o c l => ?_⟩
    · rw [hold, hvalid, Except.map, if_pos (not_not.1 htaken)]
    · rw [hlinks]
      simp only [not_not.1 htaken, not_true_eq_false, false_and, and_false, or_false]
  · refine ⟨h.kept hkept fun o c l hhas => .inl ((hlinks o c l).1 hhas), ?_, fun o c l => ?_⟩
    · obtain hinvalid | hsound := hcause
      · rw [herror, hinvalid, Except.map]
      · exact absurd h.sound hsound
    · obtain hinvalid | hsound := hcause
      · rw [hlinks, hinvalid]
        simp only [reduceCtorEq, false_and, or_false]
      · exact absurd h.sound hsound

/-- Shortening a batch in a store that is fit depends on the links of the owner alone. -/
theorem Fit.shortenBatch (h : Fit scheme submitted s) (hapart : Apart scheme submitted)
    (hurls : ∀ id url, batch.find? id = some url → submitted owner url) :
    let ended := (Service.addBatch storage scheme batch owner).run s
    Fit scheme submitted ended.2 ∧
    ended.1 = (Service.validateAll batch.entries).map (fun _ => Service.codes scheme batch) ∧
    ∀ o c l, Has ended.2 o c l ↔ Has s o c l ∨ Service.validateAll batch.entries = .ok () ∧
      o = owner ∧ ¬Taken s owner c ∧
        ∃ id url, batch.find? id = some url ∧ c = scheme.encode url ∧ l = ⟨url, false⟩ := by
  obtain ⟨hkept, hcases⟩ := shortenBatch_cases s scheme batch owner
  obtain ⟨hvalid, hcodes, -, hlinks⟩ | ⟨f, hinvalid, hended⟩ | ⟨-, hsound, -⟩ := hcases
  · have hlinks (o c l) : Has ((Service.addBatch storage scheme batch owner).run s).2 o c l ↔
        Has s o c l ∨ o = owner ∧ ¬Taken s owner c ∧
          ∃ id url, batch.find? id = some url ∧ c = scheme.encode url ∧ l = ⟨url, false⟩ := by
      rw [hlinks]
      apply or_congr_right
      apply and_congr_right
      rintro rfl
      constructor
      · rintro ⟨url, hfind, hvacant, rfl⟩
        obtain ⟨rfl, id, hid⟩ := Service.of_find?_byCode hfind
        exact ⟨(h.vacant_iff hapart (hurls id url hid)).1 hvacant, id, url, hid, rfl, rfl⟩
      · rintro ⟨hfree, id, url, hid, rfl, rfl⟩
        refine ⟨url, (Service.find?_byCode_iff fun id id' url url' hid hid' =>
          hapart.url _ _ _ _ (hurls id url hid) (hurls id' url' hid')).2 ⟨rfl, id, hid⟩, ?_, rfl⟩
        exact (h.vacant_iff hapart (hurls id url hid)).2 hfree
    refine ⟨h.kept hkept fun o c l hhas => ?_, ?_, fun o c l => ?_⟩
    · obtain hbefore | ⟨rfl, -, id, url, hid, rfl, rfl⟩ := (hlinks o c l).1 hhas
      · exact .inl hbefore
      · exact .inr ⟨hurls id url hid, rfl⟩
    · rw [hcodes, hvalid, Except.map]
    · rw [hlinks, hvalid]
      simp only [true_and]
  · rw [hended, hinvalid]
    refine ⟨h, rfl, fun o c l => ?_⟩
    simp only [reduceCtorEq, false_and, or_false]
  · exact absurd h.sound hsound

/-- Two stores that are fit have the same links. -/
structure Alike (scheme : Scheme) (submitted : String → String → Prop)
    (s₁ s₂ : Setting Store) : Prop where
  first : Fit scheme submitted s₁
  second : Fit scheme submitted s₂
  has : ∀ o c l, Has s₁ o c l ↔ Has s₂ o c l

/-- The same codes are taken in both stores. -/
theorem Alike.taken_iff (h : Alike scheme submitted s₁ s₂) (owner code : String) :
    Taken s₁ owner code ↔ Taken s₂ owner code := exists_congr fun l => h.has owner code l

/-- Stores stay alike that are not touched. -/
theorem Alike.untouched (h : Alike scheme submitted s₁ s₂) {s₁' s₂' : Setting Store}
    (h₁ : Untouched s₁ s₁') (h₂ : Untouched s₂ s₂') : Alike scheme submitted s₁' s₂' where
  first := h.first.kept h₁.kept fun _ _ _ hhas => .inl (h₁.has.1 hhas)
  second := h.second.kept h₂.kept fun _ _ _ hhas => .inl (h₂.has.1 hhas)
  has o c l := by rw [h₁.has, h₂.has, h.has]

/-- Shortening a URL is answered alike and keeps the stores alike. -/
theorem Alike.shorten (h : Alike scheme submitted s₁ s₂) (hapart : Apart scheme submitted)
    (hurl : submitted owner url) :
    let ended₁ := (Service.add storage scheme url owner).run s₁
    let ended₂ := (Service.add storage scheme url owner).run s₂
    ended₁.1 = ended₂.1 ∧ Alike scheme submitted ended₁.2 ended₂.2 := by
  obtain ⟨hfit₁, hresult₁, hlinks₁⟩ := h.first.shorten hapart hurl
  obtain ⟨hfit₂, hresult₂, hlinks₂⟩ := h.second.shorten hapart hurl
  refine ⟨?_, hfit₁, hfit₂, fun o c l => ?_⟩
  · rw [hresult₁, hresult₂, propext (h.taken_iff owner (scheme.encode url))]
  · rw [hlinks₁, hlinks₂, h.has, h.taken_iff]

/-- Results that are maps say the same. -/
def SameMaps {α : Type} : Except Fault (Keyed String α) → Except Fault (Keyed String α) → Prop
  | .ok m, .ok m' => ∀ key, m.find? key = m'.find? key
  | .error f, .error f' => f = f'
  | _, _ => False

/-- Shortening a batch, in whatever order, is answered alike and keeps the stores alike. -/
theorem Alike.shortenBatch {batch' : Keyed String String} (h : Alike scheme submitted s₁ s₂)
    (hapart : Apart scheme submitted)
    (hurls : ∀ id url, batch.find? id = some url → submitted owner url)
    (hsame : ∀ id, batch.find? id = batch'.find? id)
    (hclear : ∀ id id' url url', batch.find? id = some url → batch.find? id' = some url' →
      Url.validate url ≠ .ok () → Url.validate url' ≠ .ok () → id = id') :
    let ended₁ := (Service.addBatch storage scheme batch owner).run s₁
    let ended₂ := (Service.addBatch storage scheme batch' owner).run s₂
    SameMaps ended₁.1 ended₂.1 ∧ Alike scheme submitted ended₁.2 ended₂.2 := by
  have hvalidate := Service.validateAll_congr hsame hclear
  have hurls' (id url : String) (hid : batch'.find? id = some url) : submitted owner url :=
    hurls id url (hsame id ▸ hid)
  obtain ⟨hfit₁, hresult₁, hlinks₁⟩ := h.first.shortenBatch hapart hurls
  obtain ⟨hfit₂, hresult₂, hlinks₂⟩ := h.second.shortenBatch hapart hurls'
  refine ⟨?_, hfit₁, hfit₂, fun o c l => ?_⟩
  · rw [hresult₁, hresult₂, ← hvalidate]
    cases Service.validateAll batch.entries with
    | error f => rfl
    | ok _ =>
      intro id
      rw [Service.find?_codes, Service.find?_codes, hsame]
  · rw [hlinks₁, hlinks₂, h.has, h.taken_iff, hvalidate]
    simp only [hsame]

/-- A deletion is answered alike and keeps the stores alike. -/
theorem Alike.delete (h : Alike scheme submitted s₁ s₂) (code owner : String) :
    let ended₁ := (storage.delete code owner).run s₁
    let ended₂ := (storage.delete code owner).run s₂
    ended₁.1 = ended₂.1 ∧ Alike scheme submitted ended₁.2 ended₂.2 := by
  have hdelete {s : Setting Store} (hfit : Fit scheme submitted s) :
      ((storage.delete code owner).run s).1 = .ok () ∧
      Fit scheme submitted ((storage.delete code owner).run s).2 ∧
      ∀ o c l, Has ((storage.delete code owner).run s).2 o c l ↔ ∃ before, Has s o c before ∧
        l = if o = owner ∧ c = code then { before with deleted := true } else before := by
    obtain ⟨hkept, ⟨hok, hlinks⟩ | ⟨f, -, -, hsound⟩⟩ := delete_cases s code owner
    · refine ⟨hok, ⟨hkept.sound hfit.sound, hkept.distinct hfit.distinct, fun o c l hhas => ?_⟩,
        hlinks⟩
      obtain ⟨before, hbefore, rfl⟩ := (hlinks o c l).1 hhas
      have hsubmitted := hfit.submitted o c before hbefore
      split <;> exact hsubmitted
    · exact absurd hfit.sound hsound
  obtain ⟨hok₁, hfit₁, hlinks₁⟩ := hdelete h.first
  obtain ⟨hok₂, hfit₂, hlinks₂⟩ := hdelete h.second
  refine ⟨hok₁.trans hok₂.symm, hfit₁, hfit₂, fun o c l => ?_⟩
  rw [hlinks₁, hlinks₂]
  simp only [h.has]

/-- A code leads to the same URL. -/
theorem Alike.get (h : Alike scheme submitted s₁ s₂) (hapart : Apart scheme submitted)
    (code : String) :
    let ended₁ := (storage.get code).run s₁
    let ended₂ := (storage.get code).run s₂
    ended₁.1 = ended₂.1 ∧ Alike scheme submitted ended₁.2 ended₂.2 := by
  obtain ⟨huntouched₁, hcases₁⟩ := get_cases s₁ code
  obtain ⟨huntouched₂, hcases₂⟩ := get_cases s₂ code
  refine ⟨?_, h.untouched huntouched₁ huntouched₂⟩
  simp only [h.has] at hcases₁
  obtain ⟨o₁, url₁, hok₁, hhas₁⟩ | ⟨hunknown₁, hnone₁⟩ | ⟨hdeleted₁, ⟨o₁, l₁, hhas₁⟩, hall₁⟩ :=
      hcases₁ h.first.sound.readable h.first.distinct <;>
    obtain ⟨o₂, url₂, hok₂, hhas₂⟩ | ⟨hunknown₂, hnone₂⟩ | ⟨hdeleted₂, ⟨o₂, l₂, hhas₂⟩, hall₂⟩ :=
      hcases₂ h.second.sound.readable h.second.distinct
  · obtain ⟨hurl₁, hcode₁⟩ := h.second.submitted _ _ _ hhas₁
    obtain ⟨hurl₂, hcode₂⟩ := h.second.submitted _ _ _ hhas₂
    obtain rfl : url₁ = url₂ := hapart.url _ _ _ _ hurl₁ hurl₂ (hcode₁ ▸ hcode₂)
    rw [hok₁, hok₂]
  · exact absurd hhas₁ (hnone₂ _ _)
  · cases hall₂ _ _ hhas₁
  · exact absurd hhas₂ (hnone₁ _ _)
  · rw [hunknown₁, hunknown₂]
  · exact absurd hhas₂ (hnone₁ _ _)
  · cases hall₁ _ _ hhas₂
  · exact absurd hhas₁ (hnone₂ _ _)
  · rw [hdeleted₁, hdeleted₂]

/-- An owner has the same links. -/
theorem Alike.list (h : Alike scheme submitted s₁ s₂) (owner : String) :
    let ended₁ := (storage.getAll owner).run s₁
    let ended₂ := (storage.getAll owner).run s₂
    SameMaps ended₁.1 ended₂.1 ∧ Alike scheme submitted ended₁.2 ended₂.2 := by
  obtain ⟨huntouched₁, hcases₁⟩ := getAll_cases s₁ owner
  obtain ⟨huntouched₂, hcases₂⟩ := getAll_cases s₂ owner
  refine ⟨?_, h.untouched huntouched₁ huntouched₂⟩
  simp only [h.has] at hcases₁
  obtain ⟨⟨links₁, hok₁, hlinks₁⟩, c₁, l₁, hhas₁⟩ | ⟨hunknown₁, hnone₁⟩ :=
      hcases₁ h.first.sound.readable h.first.distinct <;>
    obtain ⟨⟨links₂, hok₂, hlinks₂⟩, c₂, l₂, hhas₂⟩ | ⟨hunknown₂, hnone₂⟩ :=
      hcases₂ h.second.sound.readable h.second.distinct
  · rw [hok₁, hok₂]
    intro c
    apply Option.ext
    intro l
    rw [hlinks₁, hlinks₂]
  · exact absurd hhas₁ (hnone₂ _ _)
  · exact absurd hhas₂ (hnone₁ _ _)
  · rw [hunknown₁, hunknown₂]
    rfl

/-- There are as many links and owners. -/
theorem Alike.stats (h : Alike scheme submitted s₁ s₂) :
    let ended₁ := storage.stats.run s₁
    let ended₂ := storage.stats.run s₂
    ended₁.1 = ended₂.1 ∧ Alike scheme submitted ended₁.2 ended₂.2 := by
  obtain ⟨huntouched₁, hstats₁⟩ := stats_cases s₁
  obtain ⟨huntouched₂, hstats₂⟩ := stats_cases s₂
  refine ⟨?_, h.untouched huntouched₁ huntouched₂⟩
  rw [hstats₁ h.first.sound.readable h.first.distinct,
    hstats₂ h.second.sound.readable h.second.distinct]
  simp only [h.has]

end Store

namespace Session

open Store

/-- A step submits a URL for an owner. -/
def Step.Submits : Step → String → String → Prop
  | .shorten url owner, o, u => o = owner ∧ u = url
  | .shortenBatch batch owner, o, u => o = owner ∧ ∃ id, batch.find? id = some u
  | _, _, _ => False

/-- Of the entries of a batch at most one is refused. -/
def Step.Clear : Step → Prop
  | .shortenBatch batch _ => ∀ id id' url url', batch.find? id = some url →
      batch.find? id' = some url' → Url.validate url ≠ .ok () → Url.validate url' ≠ .ok () → id = id'
  | _ => True

/-- Two steps are the same, up to the order of the entries of a batch. -/
def Step.Same : Step → Step → Prop
  | .shortenBatch batch owner, .shortenBatch batch' owner' =>
    (∀ id, batch.find? id = batch'.find? id) ∧ owner = owner'
  | step, step' => step = step'

/-- Two answers are the same, up to the order of the entries of a map. -/
def Answer.Same : Answer → Answer → Prop
  | .reply (.codes codes), .reply (.codes codes') => ∀ id, codes.find? id = codes'.find? id
  | .reply (.links links), .reply (.links links') => ∀ code, links.find? code = links'.find? code
  | answer, answer' => answer = answer'

/-- The answers of a session to steps, one after another. -/
def answers (s : Session) : List Step → List Answer
  | [] => []
  | step :: rest => ((Session.step step).run s).1 :: answers ((Session.step step).run s).2 rest

/-- A store that works and is empty. -/
structure Fresh (s : Session) : Prop where
  sound : Sound s.setting
  empty : ∀ o c l, ¬Has s.setting o c l

/-- An answer is the same as itself. -/
theorem Answer.same_refl (a : Answer) : a.Same a := by
  cases a with
  | reply r => cases r <;> first | exact fun _ => rfl | rfl
  | _ => rfl

/-- Maps that say the same are answered alike, if the answer reads nothing but what they say. -/
theorem Answer.same_ofResult {α : Type} {reply : Keyed String α → Reply}
    {a b : Except Fault (Keyed String α)} (h : SameMaps a b)
    (hreply : ∀ m m', (∀ key, m.find? key = m'.find? key) →
      (Answer.reply (reply m)).Same (.reply (reply m'))) :
    (Answer.ofResult reply a).Same (.ofResult reply b) := by
  cases a <;> cases b
  · exact congrArg Answer.fault h
  · cases h
  · cases h
  · exact hreply _ _ h

/-- Two sessions with one scheme have stores that are alike. -/
structure Alike (scheme : Scheme) (submitted : String → String → Prop) (s₁ s₂ : Session) :
    Prop where
  scheme₁ : s₁.scheme = scheme
  scheme₂ : s₂.scheme = scheme
  stores : Store.Alike scheme submitted s₁.setting s₂.setting

variable {scheme : Scheme} {submitted : String → String → Prop} {s₁ s₂ : Session}
  {call call' : Step} {calls calls' : List Step}

/-- What is done in two sessions and ends alike keeps them alike. -/
theorem Alike.run_act {α : Type} {x₁ x₂ : Action Store α} (reply : α → Reply)
    (h : Alike scheme submitted s₁ s₂)
    (hanswer : (Answer.ofResult reply (x₁.run s₁.setting).1).Same
      (.ofResult reply (x₂.run s₂.setting).1))
    (hstores : Store.Alike scheme submitted (x₁.run s₁.setting).2 (x₂.run s₂.setting).2) :
    ((act x₁ reply).run s₁).1.Same ((act x₂ reply).run s₂).1 ∧
      Alike scheme submitted ((act x₁ reply).run s₁).2 ((act x₂ reply).run s₂).2 :=
  ⟨hanswer, h.scheme₁, h.scheme₂, hstores⟩

/-- What is done in two sessions and ends with the same result keeps them alike. -/
theorem Alike.run_act_eq {α : Type} {x₁ x₂ : Action Store α} (reply : α → Reply)
    (h : Alike scheme submitted s₁ s₂)
    (hresult : (x₁.run s₁.setting).1 = (x₂.run s₂.setting).1)
    (hstores : Store.Alike scheme submitted (x₁.run s₁.setting).2 (x₂.run s₂.setting).2) :
    ((act x₁ reply).run s₁).1.Same ((act x₂ reply).run s₂).1 ∧
      Alike scheme submitted ((act x₁ reply).run s₁).2 ((act x₂ reply).run s₂).2 := by
  apply h.run_act reply _ hstores
  rw [hresult]
  exact Answer.same_refl _

/-- Sessions that are alike answer a call of the service alike and stay alike. -/
theorem Alike.run_step (h : Alike scheme submitted s₁ s₂) (hapart : Apart scheme submitted)
    (hcall : call.IsCall) (hclear : call.Clear) (hsubmits : ∀ o u, call.Submits o u → submitted o u)
    (hsame : call.Same call') :
    ((step call).run s₁).1.Same ((step call').run s₂).1 ∧
      Alike scheme submitted ((step call).run s₁).2 ((step call').run s₂).2 := by
  obtain ⟨_, path₁, setting₁⟩ := s₁
  obtain ⟨_, path₂, setting₂⟩ := s₂
  obtain ⟨hscheme₁, hscheme₂, hstores⟩ := id h
  cases hscheme₁
  cases hscheme₂
  cases call with
  | shorten url owner =>
    obtain rfl : Step.shorten url owner = call' := hsame
    obtain ⟨hresult, hafter⟩ := hstores.shorten hapart (hsubmits owner url ⟨rfl, rfl⟩)
    rw [run_shorten, run_shorten]
    exact h.run_act_eq .shortened hresult hafter
  | shortenBatch batch owner =>
    cases call' with
    | shortenBatch batch' owner' =>
      obtain ⟨hbatch, rfl⟩ := hsame
      obtain ⟨hresult, hafter⟩ := hstores.shortenBatch hapart
        (fun id url hid => hsubmits owner url ⟨rfl, id, hid⟩) hbatch hclear
      rw [run_shortenBatch, run_shortenBatch]
      exact h.run_act .codes (Answer.same_ofResult hresult fun _ _ => id) hafter
    | _ => cases hsame
  | get code =>
    obtain rfl : Step.get code = call' := hsame
    obtain ⟨hresult, hafter⟩ := hstores.get hapart code
    exact h.run_act_eq .text hresult hafter
  | list owner =>
    obtain rfl : Step.list owner = call' := hsame
    obtain ⟨hresult, hafter⟩ := hstores.list owner
    exact h.run_act .links (Answer.same_ofResult hresult fun _ _ => id) hafter
  | delete code owner =>
    obtain rfl : Step.delete code owner = call' := hsame
    obtain ⟨hresult, hafter⟩ := hstores.delete code owner
    exact h.run_act_eq (fun _ => .done) hresult hafter
  | stats =>
    obtain rfl : Step.stats = call' := hsame
    obtain ⟨hresult, hafter⟩ := hstores.stats
    exact h.run_act_eq .stats hresult hafter
  | _ => cases hcall

/-- Sessions that are alike answer a run of calls alike. -/
theorem Alike.run_answers (h : Alike scheme submitted s₁ s₂) (hapart : Apart scheme submitted)
    (hcalls : ∀ call ∈ calls, call.IsCall ∧ call.Clear)
    (hsubmits : ∀ call ∈ calls, ∀ o u, call.Submits o u → submitted o u)
    (hsame : List.Forall₂ Step.Same calls calls') :
    List.Forall₂ Answer.Same (s₁.answers calls) (s₂.answers calls') := by
  induction hsame generalizing s₁ s₂ with
  | nil => exact .nil
  | @cons call call' rest rest' hcall _ ih =>
    obtain ⟨hisCall, hclear⟩ := hcalls call List.mem_cons_self
    obtain ⟨hanswer, hafter⟩ :=
      h.run_step hapart hisCall hclear (hsubmits call List.mem_cons_self) hcall
    have hrest := ih hafter (fun c hc => hcalls c (List.mem_cons_of_mem call hc))
      (fun c hc => hsubmits c (List.mem_cons_of_mem call hc))
    exact .cons hanswer hrest

/-- A session that begins in memory is fresh. -/
theorem fresh_of_begin_memory {path : String} {files : FileSystem}
    (h : (begin .memory scheme path files).2 = some s₁) : Fresh s₁ := by
  cases h
  exact ⟨fun hjournal => absurd rfl hjournal, nofun⟩

/-- A session that begins on a table is fresh, if its operations may take any time. -/
theorem fresh_of_begin_relational {path : String} {files : FileSystem} {patience : Nat}
    (h : (begin (.relational patience) scheme path files).2 = some s₂) (hpatience : patience ≠ 0) :
    Fresh s₂ := by
  cases h
  have htable : Relational.table { file := files.contents.length, patience }
      (files.fresh (.database {})).2 = {} := by
    simp [Relational.table, FileSystem.fresh, FileSystem.content]
  refine ⟨⟨hpatience, rfl, rfl, ?_, ?_, ?_⟩, fun o c l hrow => ?_⟩
  · exact congrArg Table.dropped htable
  · exact congrArg Table.locked htable
  · exact congrArg Table.poisoned htable
  · have hrow : ⟨c, l.url, o, l.deleted⟩ ∈ ({} : Table).rows := htable ▸ hrow
    cases hrow

/-- An empty store is fit for any URLs. -/
theorem Fresh.fit (h : Fresh s₁) (scheme : Scheme) (submitted : String → String → Prop) :
    Fit scheme submitted s₁.setting :=
  ⟨h.sound, distinct_of_empty h.empty, fun o c l hhas => absurd hhas (h.empty o c l)⟩

/-- Some call of a run submits a URL for an owner. -/
def Submitted (calls : List Step) (owner url : String) : Prop :=
  ∃ call ∈ calls, call.Submits owner url

/-- Two sessions that begin with empty stores, one in memory and one in a table, answer any calls of
the service alike, one by one, if no URL is submitted by two owners, no two submitted URLs share a
code, and no batch has two entries that are refused. -/
theorem answers_alike {path₁ path₂ : String} {m : Memory} {r : Relational}
    {files₁ files₂ : FileSystem} (hmemory : Fresh ⟨scheme, path₁, .memory m, files₁⟩)
    (htable : Fresh ⟨scheme, path₂, .relational r, files₂⟩)
    (hcalls : ∀ call ∈ calls, call.IsCall ∧ call.Clear)
    (hsame : List.Forall₂ Step.Same calls calls')
    (hapart : Apart scheme (Submitted calls)) :
    List.Forall₂ Answer.Same (answers ⟨scheme, path₁, .memory m, files₁⟩ calls)
      (answers ⟨scheme, path₂, .relational r, files₂⟩ calls') := by
  have halike : Alike scheme (Submitted calls) ⟨scheme, path₁, .memory m, files₁⟩
      ⟨scheme, path₂, .relational r, files₂⟩ :=
    ⟨rfl, rfl, hmemory.fit scheme _, htable.fit scheme _,
      fun o c l => iff_of_false (hmemory.empty o c l) (htable.empty o c l)⟩
  have hsubmits : ∀ call ∈ calls, ∀ o u, call.Submits o u → Submitted calls o u :=
    fun call hcall o u hsubmits => ⟨call, hcall, hsubmits⟩
  exact halike.run_answers hapart hcalls hsubmits hsame

/-- Two owners, a link that is shortened again after it was deleted, a batch with one URL twice, and
a batch that is refused for one of its URLs: the entries come in different orders. -/
theorem answers_alike_mixed : ∃ s₁ s₂ calls calls',
    (begin .memory .base64Tail "" {}).2 = some s₁ ∧
    (begin (.relational 60000) .base64Tail "" {}).2 = some s₂ ∧
    calls = [.shorten "https://example.com/a" "u1", .delete "LmNvbS9h" "u1",
      .shorten "https://example.com/a" "u1",
      .shortenBatch (.ofList [("x", "https://example.com/b"), ("y", "https://example.com/b")]) "u2",
      .shortenBatch (.ofList [("x", "https://example.com/b"), ("y", "")]) "u2",
      .delete "LmNvbS9h" "u2", .get "LmNvbS9h", .list "u2", .stats] ∧
    calls' = [.shorten "https://example.com/a" "u1", .delete "LmNvbS9h" "u1",
      .shorten "https://example.com/a" "u1",
      .shortenBatch (.ofList [("y", "https://example.com/b"), ("x", "https://example.com/b")]) "u2",
      .shortenBatch (.ofList [("y", ""), ("x", "https://example.com/b")]) "u2",
      .delete "LmNvbS9h" "u2", .get "LmNvbS9h", .list "u2", .stats] ∧
    List.Forall₂ Answer.Same (answers s₁ calls) (answers s₂ calls') := by
  refine ⟨_, _, _, _, rfl, rfl, rfl, rfl, ?_⟩
  have hvalid : Url.validate "https://example.com/b" = .ok () := rfl
  have hentry {url₁ url₂ id url : String}
      (hid : (Keyed.ofList [("x", url₁), ("y", url₂)]).find? id = some url) :
      id = "x" ∧ url = url₁ ∨ id = "y" ∧ url = url₂ := by
    have hmem := Keyed.mem_of_find?_ofList hid
    simpa only [List.mem_cons, Prod.mk.injEq, List.not_mem_nil, or_false] using hmem
  apply answers_alike (fresh_of_begin_memory rfl) (fresh_of_begin_relational rfl (by decide))
  · simp only [List.forall_mem_cons, Step.IsCall, Step.Clear, true_and, and_true]
    refine ⟨fun id id' url url' hid _ hbad _ => ?_, fun id id' url url' hid hid' hbad hbad' => ?_,
      fun _ h => absurd h List.not_mem_nil⟩
    · obtain ⟨-, rfl⟩ | ⟨-, rfl⟩ := hentry hid <;> exact absurd hvalid hbad
    · obtain ⟨-, rfl⟩ | ⟨rfl, -⟩ := hentry hid
      · exact absurd hvalid hbad
      · obtain ⟨-, rfl⟩ | ⟨rfl, -⟩ := hentry hid'
        · exact absurd hvalid hbad'
        · rfl
  · have hswap (url₁ url₂ id : String) : (Keyed.ofList [("x", url₁), ("y", url₂)]).find? id =
        (Keyed.ofList [("y", url₂), ("x", url₁)]).find? id := by
      apply Option.ext
      intro url
      rw [Keyed.find?_ofList_iff (by simp), Keyed.find?_ofList_iff (by simp)]
      simp only [List.mem_cons, List.not_mem_nil, or_false]
      exact or_comm
    exact .cons rfl <| .cons rfl <| .cons rfl <| .cons ⟨hswap _ _, rfl⟩ <|
      .cons ⟨hswap _ _, rfl⟩ <| .cons rfl <| .cons rfl <| .cons rfl <| .cons rfl .nil
  · have hapart : Apart .base64Tail fun o u => o = "u1" ∧ u = "https://example.com/a" ∨
        o = "u2" ∧ (u = "https://example.com/b" ∨ u = "") := by
      constructor
      · rintro _ _ _ (⟨rfl, rfl⟩ | ⟨rfl, rfl | rfl⟩) (⟨rfl, h⟩ | ⟨rfl, h | h⟩) <;>
          first | rfl | exact absurd h (by decide)
      · rintro _ _ _ _ (⟨rfl, rfl⟩ | ⟨rfl, rfl | rfl⟩) (⟨rfl, rfl⟩ | ⟨rfl, rfl | rfl⟩) <;> decide
    apply hapart.mono
    rintro o u ⟨call, hcall, hsubmits⟩
    revert call
    simp only [List.forall_mem_cons, Step.Submits]
    refine ⟨.inl, False.elim, .inl, ?_, ?_, False.elim, False.elim, False.elim, False.elim,
      fun _ h => absurd h List.not_mem_nil⟩
    · rintro ⟨rfl, id, hid⟩
      obtain ⟨-, rfl⟩ | ⟨-, rfl⟩ := hentry hid <;> exact .inr ⟨rfl, .inl rfl⟩
    · rintro ⟨rfl, id, hid⟩
      obtain ⟨-, rfl⟩ | ⟨-, rfl⟩ := hentry hid
      · exact .inr ⟨rfl, .inl rfl⟩
      · exact .inr ⟨rfl, .inr rfl⟩

end Session

end ShortLinks
