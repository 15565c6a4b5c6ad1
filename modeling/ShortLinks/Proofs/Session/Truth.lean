import ShortLinks.Proofs.Session.Calls

/-!
# Which codes are truthful

A code that is given out for a URL is truthful when the listing of the owner shows the URL under
it. That is so exactly when the link was added, or the owner had the code for that very URL before.
A conflict is given out as success whatever it was about, so a code that belongs to another owner or
to another URL is given out too, and then it is not truthful. Tombstones are always those that the
owner asked for.
-/

namespace ShortLinks.Session

open Store

variable {s s' : Session} {past : List Step} {owner code url : String} {link : Link}

/-- The listing of an owner shows a link under a code. -/
def Shows (s : Session) (owner code : String) (link : Link) : Prop :=
  ∃ links, ((storage.getAll owner).run s.setting).1 = .ok links ∧ links.find? code = some link

/-- The listing of an owner shows a URL under a code, and as deleted only if among the steps taken
the owner asked for that. -/
def Truthful (past : List Step) (s : Session) (owner code url : String) : Prop :=
  ∃ link, Shows s owner code link ∧ link.url = url ∧ (link.deleted → .delete code owner ∈ past)

/-- An owner has a URL under a code, deleted or not. -/
def Holds (s : Session) (owner code url : String) : Prop :=
  ∃ link, Has s.setting owner code link ∧ link.url = url

/-- A session goes on with the links of another one, perhaps with another scheme. -/
def Resumes (s s' : Session) : Prop :=
  match s.setting.store, s'.setting.store with
  | .memory m, .memory m' => m'.owners.Same m.owners
  | .relational r, .relational r' =>
    (r'.table s'.setting.files).rows = (r.table s.setting.files).rows
  | _, _ => False

/-- A session that calls of the service led to from a store without links, and those calls. -/
inductive Reached : List Step → Session → Prop
  | fresh {s : Session} (hempty : ∀ o c l, ¬Has s.setting o c l) : Reached [] s
  | call {past : List Step} {s s' : Session} {step : Step} {answer : Answer} (h : Reached past s)
      (hcall : step.IsCall) (hstep : (Session.step step).run s = (answer, s')) :
      Reached (past ++ [step]) s'
  | resume {past : List Step} {s s' : Session} (h : Reached past s) (hsame : Resumes s s') :
      Reached past s'

/-- What holds wherever calls of the service lead. -/
structure Accounted (past : List Step) (s : Session) : Prop where
  distinct : Distinct s.setting
  deleted : ∀ o c l, Has s.setting o c l → l.deleted → .delete c o ∈ past

/-- A list shows the links that are there. -/
theorem shows_iff (hreadable : Readable s.setting) (hdistinct : Distinct s.setting) :
    Shows s owner code link ↔ Has s.setting owner code link := by
  obtain ⟨-, hcases⟩ := getAll_cases s.setting owner
  obtain ⟨⟨links, hok, hlinks⟩, -⟩ | ⟨herror, hnone⟩ := hcases hreadable hdistinct
  · rw [Shows, hok]
    constructor
    · rintro ⟨_, h, hfind⟩
      cases h
      exact (hlinks code link).1 hfind
    · exact fun hhas => ⟨links, rfl, (hlinks code link).2 hhas⟩
  · rw [Shows, herror]
    constructor
    · rintro ⟨_, h, -⟩
      cases h
    · exact fun hhas => absurd hhas (hnone code link)

/-- Where the links can be read, what an owner has is what is truthful. -/
theorem Accounted.truthful_iff (h : Accounted past s) (hreadable : Readable s.setting) :
    Truthful past s owner code url ↔ Holds s owner code url := by
  constructor
  · rintro ⟨link, hshows, hurl, -⟩
    exact ⟨link, (shows_iff hreadable h.distinct).1 hshows, hurl⟩
  · rintro ⟨link, hhas, hurl⟩
    exact ⟨link, (shows_iff hreadable h.distinct).2 hhas, hurl, h.deleted owner code link hhas⟩

/-- A step that deletes nothing accounts for no tombstone. -/
theorem Accounted.of_append {step : Step} (h : Accounted (past ++ [step]) s)
    (hstep : ∀ code owner, step ≠ .delete code owner) : Accounted past s where
  distinct := h.distinct
  deleted o c l hhas hl := by
    obtain hpast | hlast := List.mem_append.1 (h.deleted o c l hhas hl)
    · exact hpast
    · exact absurd (List.mem_singleton.1 hlast).symm (hstep c o)

/-- A session that resumes another one has its links. -/
theorem Resumes.has (h : Resumes s s') :
    Has s'.setting owner code link ↔ Has s.setting owner code link := by
  obtain ⟨_, _, ⟨m | r, fs⟩⟩ := s <;> obtain ⟨_, _, ⟨m' | r', fs'⟩⟩ := s'
  · simp only [Has, h owner code]
  · cases h
  · cases h
  · simp only [Has, show (r'.table fs').rows = (r.table fs).rows from h]

/-- Codes that are distinct stay so when another session goes on with them. -/
theorem Resumes.distinct (h : Resumes s s') (hdistinct : Distinct s.setting) :
    Distinct s'.setting := by
  obtain ⟨_, _, ⟨m | r, fs⟩⟩ := s <;> obtain ⟨_, _, ⟨m' | r', fs'⟩⟩ := s'
  · trivial
  · cases h
  · cases h
  · simp only [Distinct, show (r'.table fs').rows = (r.table fs).rows from h]
    exact hdistinct

/-- What touches no link sets no tombstone. -/
theorem accounted_of_untouched {step : Step} (h : Untouched s.setting s'.setting) :
    Kept s.setting s'.setting ∧ ∀ o c l, Has s'.setting o c l → l.deleted →
      (∃ before, Has s.setting o c before ∧ before.deleted) ∨ step = .delete c o :=
  ⟨h.kept, fun _ _ l hhas hdeleted => .inl ⟨l, h.has.1 hhas, hdeleted⟩⟩

/-- A call of the service keeps rows distinct and sets no tombstone but the one it asks for. -/
theorem step_accounted {step : Step} {answer : Answer} (hcall : step.IsCall)
    (hstep : (Session.step step).run s = (answer, s')) :
    Kept s.setting s'.setting ∧ ∀ o c l, Has s'.setting o c l → l.deleted →
      (∃ before, Has s.setting o c before ∧ before.deleted) ∨ step = .delete c o := by
  cases step with
  | shorten url owner =>
    rw [run_shorten, run_act] at hstep
    cases hstep
    obtain ⟨hkept, hcases⟩ := shorten_cases s.setting s.scheme url owner
    refine ⟨hkept, fun o c l hhas hdeleted => .inl ?_⟩
    obtain ⟨-, -, -, -, hlinks⟩ | ⟨-, -, -, -, hlinks⟩ | ⟨f, -, -, hlinks⟩ := hcases
    · obtain hbefore | ⟨-, -, rfl⟩ := (hlinks o c l).1 hhas
      · exact ⟨l, hbefore, hdeleted⟩
      · cases hdeleted
    · exact ⟨l, (hlinks o c l).1 hhas, hdeleted⟩
    · exact ⟨l, (hlinks o c l).1 hhas, hdeleted⟩
  | shortenBatch batch owner =>
    rw [run_shortenBatch, run_act] at hstep
    cases hstep
    obtain ⟨hkept, hcases⟩ := shortenBatch_cases s.setting s.scheme batch owner
    refine ⟨hkept, fun o c l hhas hdeleted => .inl ?_⟩
    obtain ⟨-, -, -, hlinks⟩ | ⟨f, -, hended⟩ | ⟨-, -, hlinks⟩ := hcases
    · obtain hbefore | ⟨-, _, -, -, rfl⟩ := (hlinks o c l).1 hhas
      · exact ⟨l, hbefore, hdeleted⟩
      · cases hdeleted
    · rw [hended] at hhas
      exact ⟨l, hhas, hdeleted⟩
    · obtain hbefore | hnot := hlinks o c l hhas
      · exact ⟨l, hbefore, hdeleted⟩
      · rw [hnot] at hdeleted
        cases hdeleted
  | delete code owner =>
    cases hstep
    obtain ⟨hkept, hcases⟩ := delete_cases s.setting code owner
    refine ⟨hkept, fun o c l hhas hdeleted => ?_⟩
    obtain ⟨-, hlinks⟩ | ⟨f, -, hlinks, -⟩ := hcases
    · obtain ⟨before, hbefore, hl⟩ := (hlinks o c l).1 hhas
      split at hl
      · next hoc => exact .inr (by rw [hoc.1, hoc.2])
      · exact .inl ⟨before, hbefore, hl ▸ hdeleted⟩
    · exact .inl ⟨l, (hlinks o c l).1 hhas, hdeleted⟩
  | list owner =>
    cases hstep
    exact accounted_of_untouched (getAll_cases s.setting owner).1
  | get code =>
    cases hstep
    exact accounted_of_untouched (get_cases s.setting code).1
  | stats =>
    cases hstep
    exact accounted_of_untouched (stats_cases s.setting).1
  | _ => cases hcall

/-- Wherever calls of the service lead, rows are distinct and tombstones were asked for. -/
theorem Reached.accounted (h : Reached past s) : Accounted past s := by
  induction h with
  | fresh hempty => exact ⟨distinct_of_empty hempty, fun o c l hhas => absurd hhas (hempty o c l)⟩
  | call _ hcall hstep ih =>
    obtain ⟨hkept, hdeleted⟩ := step_accounted hcall hstep
    refine ⟨hkept.distinct ih.distinct, fun o c l hhas hl => ?_⟩
    obtain ⟨before, hbefore, hl⟩ | rfl := hdeleted o c l hhas hl
    · exact List.mem_append_left _ (ih.deleted o c before hbefore hl)
    · exact List.mem_append_right _ (List.mem_singleton.2 rfl)
  | resume _ hsame ih =>
    exact ⟨hsame.distinct ih.distinct, fun o c l hhas => ih.deleted o c l (hsame.has.1 hhas)⟩

/-- What is given out for a URL that was shortened is truthful exactly when the link is new or the
owner had this URL under this code before. -/
theorem Reached.shortened_truthful_iff (h : Reached past s) {x : Shortened}
    (hstep : (step (.shorten url owner)).run s = (.reply (.shortened x), s')) :
    x.code = s.scheme.encode url ∧ (x.isNew ↔ Vacant s.setting owner x.code url) ∧
      (Truthful past s' owner x.code url ↔ x.isNew ∨ Holds s owner x.code url) := by
  have hcall : (Step.shorten url owner).IsCall := trivial
  have haccounted : Accounted past s' := (h.call hcall hstep).accounted.of_append nofun
  rw [run_shorten, run_act] at hstep
  obtain ⟨hanswer, rfl⟩ := Prod.mk.inj hstep
  obtain ⟨-, hcases⟩ := shorten_cases s.setting s.scheme url owner
  obtain ⟨-, hnew, hvacant, hreadable, hlinks⟩ | ⟨-, hold, hvacant, hreadable, hlinks⟩ |
    ⟨f, herror, -⟩ := hcases
  · rw [hnew] at hanswer
    cases hanswer
    rw [haccounted.truthful_iff hreadable]
    refine ⟨rfl, iff_of_true rfl hvacant, iff_of_true ?_ (.inl rfl)⟩
    exact ⟨⟨url, false⟩, (hlinks _ _ _).2 (.inr ⟨rfl, rfl, rfl⟩), rfl⟩
  · rw [hold] at hanswer
    cases hanswer
    rw [haccounted.truthful_iff hreadable]
    refine ⟨rfl, iff_of_false nofun hvacant, ?_⟩
    rw [or_iff_right (by nofun : ¬(Shortened.existing (s.scheme.encode url)).isNew = true)]
    exact exists_congr fun l => and_congr_left fun _ => hlinks owner (s.scheme.encode url) l
  · rw [herror] at hanswer
    cases hanswer

/-- What is given out for a URL of a batch is truthful exactly when the URL is the one that the
batch keeps under its code and nothing was in its way, or the owner had it under this code
before. -/
theorem Reached.codes_truthful_iff (h : Reached past s) {batch codes : Keyed String String}
    (hstep : (step (.shortenBatch batch owner)).run s = (.reply (.codes codes), s')) {id : String}
    (hid : batch.find? id = some url) :
    codes.find? id = some (s.scheme.encode url) ∧
      (Truthful past s' owner (s.scheme.encode url) url ↔
        (Service.byCode s.scheme batch).find? (s.scheme.encode url) = some url ∧
            Vacant s.setting owner (s.scheme.encode url) url ∨
          Holds s owner (s.scheme.encode url) url) := by
  have hcall : (Step.shortenBatch batch owner).IsCall := trivial
  have haccounted : Accounted past s' := (h.call hcall hstep).accounted.of_append nofun
  rw [run_shortenBatch, run_act] at hstep
  obtain ⟨hanswer, rfl⟩ := Prod.mk.inj hstep
  obtain ⟨-, hcases⟩ := shortenBatch_cases s.setting s.scheme batch owner
  obtain ⟨-, hcodes, hreadable, hlinks⟩ | ⟨f, -, herror⟩ | ⟨⟨f, herror⟩, -⟩ := hcases
  · rw [hcodes] at hanswer
    cases hanswer
    have hentries : batch.entries ≠ [] :=
      List.ne_nil_of_mem ((Keyed.mem_entries_iff batch).2 hid)
    rw [haccounted.truthful_iff (hreadable hentries), Service.find?_codes, hid]
    refine ⟨rfl, ?_⟩
    constructor
    · rintro ⟨l, hhas, rfl⟩
      obtain hbefore | ⟨-, kept, hkept, hvacant, rfl⟩ := (hlinks _ _ _).1 hhas
      · exact .inr ⟨l, hbefore, rfl⟩
      · exact .inl ⟨hkept, hvacant⟩
    · rintro (⟨hkept, hvacant⟩ | ⟨l, hbefore, hurl⟩)
      · exact ⟨⟨url, false⟩, (hlinks _ _ _).2 (.inr ⟨rfl, url, hkept, hvacant, rfl⟩), rfl⟩
      · exact ⟨l, (hlinks _ _ _).2 (.inl hbefore), hurl⟩
  · rw [herror] at hanswer
    cases hanswer
  · rw [herror] at hanswer
    cases hanswer

/-- A session on an empty table. -/
def onEmptyTable (scheme : Scheme) : Session :=
  ⟨scheme, "", .relational { file := 0 }, { contents := [.database {}] }⟩

/-- A session on an empty table is where calls begin. -/
theorem reached_onEmptyTable (scheme : Scheme) : Reached [] (onEmptyTable scheme) :=
  .fresh fun _ _ _ => List.not_mem_nil

/-- Wherever calls of the service led, the codes they give out next are truthful exactly where the
link is added by that very call or the owner had the same URL under the same code before. -/
theorem truthful_iff_added_or_held (h : Reached past s) :
    (∀ url owner x s', (step (.shorten url owner)).run s = (.reply (.shortened x), s') →
      x.code = s.scheme.encode url ∧ (x.isNew ↔ Vacant s.setting owner x.code url) ∧
      (Truthful past s' owner x.code url ↔ x.isNew ∨ Holds s owner x.code url)) ∧
    ∀ batch owner codes s',
      (step (.shortenBatch batch owner)).run s = (.reply (.codes codes), s') →
      ∀ id url, batch.find? id = some url →
        codes.find? id = some (s.scheme.encode url) ∧
        (Truthful past s' owner (s.scheme.encode url) url ↔
          (Service.byCode s.scheme batch).find? (s.scheme.encode url) = some url ∧
              Vacant s.setting owner (s.scheme.encode url) url ∨
            Holds s owner (s.scheme.encode url) url) :=
  ⟨fun _ _ _ _ hstep => h.shortened_truthful_iff hstep,
    fun _ _ _ _ hstep _ _ hid => h.codes_truthful_iff hstep hid⟩

/-- An owner shortens a URL, deletes it, and shortens it again: the code is truthful, with the
tombstone that the owner asked for. -/
theorem truthful_iff_added_or_held_again : ∃ past s s',
    past = [.shorten "https://example.com/a" "u", .delete "LmNvbS9h" "u"] ∧ Reached past s ∧
    (step (.shorten "https://example.com/a" "u")).run s =
      (.reply (.shortened (.existing "LmNvbS9h")), s') ∧
    Truthful past s' "u" "LmNvbS9h" "https://example.com/a" := by
  let added := ((step (.shorten "https://example.com/a" "u")).run (onEmptyTable .base64Tail)).2
  let deleted := ((step (.delete "LmNvbS9h" "u")).run added).2
  have hadded : Reached [.shorten "https://example.com/a" "u"] added :=
    (reached_onEmptyTable _).call trivial rfl
  have hdeleted : Reached [.shorten "https://example.com/a" "u", .delete "LmNvbS9h" "u"] deleted :=
    hadded.call trivial rfl
  have hstep : (step (.shorten "https://example.com/a" "u")).run deleted =
      (.reply (.shortened (.existing "LmNvbS9h")), _) := rfl
  have hholds : Holds deleted "u" "LmNvbS9h" "https://example.com/a" :=
    ⟨⟨"https://example.com/a", true⟩, List.mem_singleton.2 rfl, rfl⟩
  obtain ⟨-, -, htruthful⟩ := (truthful_iff_added_or_held hdeleted).1 _ _ _ _ hstep
  exact ⟨_, deleted, _, rfl, hdeleted, hstep, htruthful.2 (.inr hholds)⟩

/-- Another owner shortens the same URL in a table: its code is given out, yet the listing of this
owner does not show it. -/
theorem existing_not_truthful : ∃ past s s', Reached past s ∧
    (step (.shorten "https://example.com/a" "u2")).run s =
      (.reply (.shortened (.existing "LmNvbS9h")), s') ∧
    ¬Truthful past s' "u2" "LmNvbS9h" "https://example.com/a" := by
  let added := ((step (.shorten "https://example.com/a" "u1")).run (onEmptyTable .base64Tail)).2
  let refused := ((step (.shorten "https://example.com/a" "u2")).run added).2
  have hadded : Reached [.shorten "https://example.com/a" "u1"] added :=
    (reached_onEmptyTable _).call trivial rfl
  refine ⟨_, added, refused, hadded, rfl, ?_⟩
  rintro ⟨link, ⟨links, hlisting, -⟩, -⟩
  have hunknown : ((storage.getAll "u2").run refused.setting).1 = .error (.ownerUnknown "u2") := rfl
  rw [hunknown] at hlisting
  cases hlisting

end ShortLinks.Session
