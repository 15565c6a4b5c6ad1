import ShortLinks.Proofs.Deletion.Completion
import ShortLinks.Proofs.Session.Truth
import ShortLinks.Proofs.Store.Lasting

/-!
# Links are permanent

In a session on a store of either kind any operation may be tried, by anyone, and may fail. Every
link stays, with its owner, its code and its URL, and only a deletion of its own code by its own
owner sets its tombstone, for good. So as long as the scheme of the codes stays, a URL is new for an
owner at most once: whenever it is shortened again, the same code is given out, or the backend
itself fails. A link that was deleted stays deleted.
-/

namespace ShortLinks

open Store

namespace Deletion

variable {setting setting' : Setting Store} {calls : List Outcome} {owner : String}

/-- A rehearsed deletion sets no tombstone but that of the link of this owner under this code. -/
theorem lasts_rehearsed (r : Rehearsal) (code owner : String) (setting : Setting Store) :
    Lasts (fun c o => c = code ∧ o = owner) setting
      (((r.storage storage).delete code owner).run setting).2 := by
  simp only [Rehearsal.storage]
  split
  · exact .refl _ setting
  · exact lasts_delete setting code owner

/-- Deletions for an owner set no tombstones but those of the links of this owner under their
codes. -/
theorem Performs.lasts {r : Rehearsal}
    (h : Performs (r.storage storage) owner setting calls setting') :
    Lasts (fun c o => o = owner ∧ ∃ outcome ∈ calls, c = outcome.job.code) setting setting' := by
  induction h with
  | nil => exact .refl _ setting
  | @snoc calls next job _ ih =>
    have hlast := lasts_rehearsed r job.code owner next
    refine (ih.mono fun c o => ?_).trans (hlast.mono fun c o => ?_)
    · rintro ⟨rfl, outcome, houtcome, rfl⟩
      exact ⟨rfl, outcome, List.mem_append_left _ houtcome, rfl⟩
    · rintro ⟨rfl, rfl⟩
      exact ⟨rfl, _, List.mem_append_right _ (List.mem_singleton.2 rfl), rfl⟩

/-- A request sets no tombstones but those of the links of its owner under its codes. -/
theorem lasts_run (r : Rehearsal) (setting : Setting Store) :
    Lasts (fun c o => o = r.request.owner ∧ c ∈ r.request.codes) setting
      (r.request.run (r.storage storage) setting).2 := by
  obtain ⟨events, calls, s, hruns, -, -, hsetting⟩ :=
    r.request.run_runs (r.storage storage) setting
  rw [hsetting]
  refine hruns.performs.lasts.mono fun c o => ?_
  rintro ⟨rfl, outcome, houtcome, rfl⟩
  exact ⟨rfl, List.mem_of_getElem? (hruns.books.callsAt_eq houtcome).1⟩

end Deletion

namespace Session

variable {s s' s'' : Session} {past later : List (Step × Answer)} {st : Step} {answer : Answer}
  {owner code url : String} {link : Link}

/-- The steps that are operations of the service or of the store. -/
def Step.IsOperation : Step → Prop
  | .shorten .. | .shortenBatch .. | .encode _ | .validate _ | .add .. | .addBatch .. | .get _
  | .list _ | .delete .. | .deleteMany _ | .stats | .ping | .backup | .info => True
  | _ => False

/-- The step deletes a code for an owner. -/
def Step.Deletes : Step → (code owner : String) → Prop
  | .delete code owner, c, o => c = code ∧ o = owner
  | .deleteMany r, c, o => o = r.request.owner ∧ c ∈ r.request.codes
  | _, _, _ => False

/-- Every link stays what it is through an operation, or gets its tombstone because the operation
deletes it. -/
theorem lasts_step (hoperation : st.IsOperation) (hstep : (Session.step st).run s = (answer, s')) :
    Lasts st.Deletes s.setting s'.setting ∧ s'.scheme = s.scheme := by
  cases st with
  | shorten url owner =>
    rw [run_shorten, run_act] at hstep
    cases hstep
    exact ⟨lasts_shorten s.setting s.scheme url owner, rfl⟩
  | shortenBatch batch owner =>
    rw [run_shortenBatch, run_act] at hstep
    cases hstep
    exact ⟨lasts_shortenBatch s.setting s.scheme batch owner, rfl⟩
  | encode url =>
    cases hstep
    exact ⟨.refl _ _, rfl⟩
  | validate url =>
    rw [Session.step, run_act, Action.run_answer] at hstep
    cases hstep
    exact ⟨.refl _ _, rfl⟩
  | add code url owner =>
    cases hstep
    exact ⟨lasts_add s.setting code url owner, rfl⟩
  | addBatch urls owner =>
    cases hstep
    exact ⟨lasts_addBatch s.setting urls owner, rfl⟩
  | get code =>
    cases hstep
    exact ⟨lasts_of_untouched (get_cases s.setting code).1, rfl⟩
  | list owner =>
    cases hstep
    exact ⟨lasts_of_untouched (getAll_cases s.setting owner).1, rfl⟩
  | delete code owner =>
    cases hstep
    exact ⟨lasts_delete s.setting code owner, rfl⟩
  | deleteMany r =>
    cases hstep
    exact ⟨Deletion.lasts_run r s.setting, rfl⟩
  | stats =>
    cases hstep
    exact ⟨lasts_of_untouched (stats_cases s.setting).1, rfl⟩
  | ping =>
    cases hstep
    exact ⟨lasts_ping s.setting, rfl⟩
  | backup =>
    cases hstep
    exact ⟨lasts_backup s.setting, rfl⟩
  | info =>
    cases hstep
    exact ⟨.refl _ _, rfl⟩
  | _ => cases hoperation

/-- A session that resumes another one has its links as they were. -/
theorem Resumes.lasts {may : String → String → Prop} (h : Resumes s s') :
    Lasts may s.setting s'.setting := by
  have hkind : SameKind s.setting s'.setting := by
    obtain ⟨_, _, ⟨_ | _, _⟩⟩ := s <;> obtain ⟨_, _, ⟨_ | _, _⟩⟩ := s' <;> trivial
  exact lasts_of_subset hkind h.distinct fun _ _ _ => h.has.2

/-- Operations lead from one session to another. Between them anything but the links and the scheme
may change: what fails, the journal, its mode and its file, the time limit, the locks of a table. -/
inductive Operates : Session → List (Step × Answer) → Session → Prop
  | nil (s : Session) : Operates s [] s
  | step {s s' s'' : Session} {past : List (Step × Answer)} {st : Step} {answer : Answer}
      (h : Operates s past s') (hoperation : st.IsOperation)
      (hstep : (Session.step st).run s' = (answer, s'')) :
      Operates s (past ++ [(st, answer)]) s''
  | resume {s s' s'' : Session} {past : List (Step × Answer)} (h : Operates s past s')
      (hsame : Resumes s' s'') (hscheme : s''.scheme = s'.scheme) : Operates s past s''

/-- One more operation is carried out. -/
theorem Operates.take (h : Operates s past s') (st : Step) (hoperation : st.IsOperation) :
    Operates s (past ++ [(st, ((Session.step st).run s').1)]) ((Session.step st).run s').2 :=
  h.step hoperation rfl

/-- Every link stays what it is through a run, or gets its tombstone because some operation deletes
it. -/
theorem Operates.lasts (h : Operates s past s') :
    Lasts (fun code owner => ∃ call ∈ past, call.1.Deletes code owner) s.setting s'.setting ∧
      s'.scheme = s.scheme := by
  induction h with
  | nil => exact ⟨.refl _ _, rfl⟩
  | step _ hoperation hstep ih =>
    obtain ⟨hlasts, hscheme⟩ := lasts_step hoperation hstep
    refine ⟨(ih.1.mono ?_).trans (hlasts.mono ?_), hscheme.trans ih.2⟩
    · rintro code owner ⟨call, hcall, hdeletes⟩
      exact ⟨call, List.mem_append_left _ hcall, hdeletes⟩
    · intro code owner hdeletes
      exact ⟨_, List.mem_append_right _ (List.mem_singleton.2 rfl), hdeletes⟩
  | resume _ hsame hscheme ih => exact ⟨ih.1.trans hsame.lasts, hscheme.trans ih.2⟩

/-- Whoever was given a code for a URL cannot have the same URL as a new one again. -/
def Settled (past : List (Step × Answer)) (s : Session) : Prop :=
  ∀ url owner x, (.shorten url owner, .reply (.shortened x)) ∈ past →
    x.code = s.scheme.encode url ∧ Url.validate url = .ok () ∧
      ¬Vacant s.setting owner (s.scheme.encode url) url

/-- What was given out stays taken where all links stay. -/
theorem Settled.lasts {may : String → String → Prop} (h : Settled past s)
    (hlasts : Lasts may s.setting s'.setting) (hscheme : s'.scheme = s.scheme) :
    Settled past s' := by
  intro url owner x hcall
  obtain ⟨hcode, hvalid, htaken⟩ := h url owner x hcall
  rw [hscheme]
  exact ⟨hcode, hvalid, hlasts.taken htaken⟩

/-- What a URL is shortened to is taken afterwards. -/
theorem taken_of_shortened {x : Shortened}
    (hstep : (step (.shorten url owner)).run s = (.reply (.shortened x), s')) :
    x.code = s.scheme.encode url ∧ Url.validate url = .ok () ∧
      ¬Vacant s'.setting owner (s.scheme.encode url) url := by
  have hlasts : Lasts (fun _ _ => False) s.setting
      ((Service.add storage s.scheme url owner).run s.setting).2 := lasts_shorten _ _ _ _
  rw [run_shorten, run_act] at hstep
  obtain ⟨hanswer, rfl⟩ := Prod.mk.inj hstep
  obtain ⟨-, hcases⟩ := shorten_cases s.setting s.scheme url owner
  obtain ⟨hvalid, hnew, -, -, hlinks⟩ | ⟨hvalid, hold, htaken, -, -⟩ | ⟨f, herror, -⟩ := hcases
  · rw [hnew] at hanswer
    cases hanswer
    exact ⟨rfl, hvalid, not_vacant_of_has ((hlinks _ _ _).2 (.inr ⟨rfl, rfl, rfl⟩))⟩
  · rw [hold] at hanswer
    cases hanswer
    exact ⟨rfl, hvalid, hlasts.taken htaken⟩
  · rw [herror] at hanswer
    cases hanswer

/-- A step keeps settled what was settled, and settles what it gives out itself. -/
theorem Settled.step (h : Settled past s) (hoperation : st.IsOperation)
    (hstep : (Session.step st).run s = (answer, s')) : Settled (past ++ [(st, answer)]) s' := by
  obtain ⟨hlasts, hscheme⟩ := lasts_step hoperation hstep
  intro url owner x hcall
  obtain hcall | hcall := List.mem_append.1 hcall
  · exact h.lasts hlasts hscheme url owner x hcall
  · cases List.mem_singleton.1 hcall
    rw [hscheme]
    exact taken_of_shortened hstep

/-- Whatever operations gave out is settled. -/
theorem Operates.settled (h : Operates s past s') : Settled past s' := by
  induction h with
  | nil => exact fun _ _ _ hcall => nomatch hcall
  | step _ hoperation hstep ih => exact ih.step hoperation hstep
  | @resume s' s'' _ _ hsame hscheme ih =>
    have hlasts : Lasts (fun _ _ => False) s'.setting s''.setting := hsame.lasts
    exact ih.lasts hlasts hscheme

/-- A call does not give out as new what an earlier one gave out: if both shorten the same URL for
the same owner, the later one gives out the same code as existing, or the backend fails. -/
def GivesOnce (earlier later : Step × Answer) : Prop :=
  ∀ url owner x, earlier = (.shorten url owner, .reply (.shortened x)) →
    later.1 = .shorten url owner →
      later.2 = .reply (.shortened (.existing x.code)) ∨
        ∃ f, later.2 = .fault f ∧ f.kind.isBackend

/-- What is shortened again is answered with the code given out before, unless the backend fails. -/
theorem Settled.givesOnce (h : Settled past s) (hstep : (Session.step st).run s = (answer, s')) :
    ∀ call ∈ past, GivesOnce call (st, answer) := by
  rintro _ hcall url owner x rfl rfl
  obtain ⟨hcode, hvalid, htaken⟩ := h url owner x hcall
  rw [run_shorten, run_act] at hstep
  obtain ⟨rfl, -⟩ := Prod.mk.inj hstep
  obtain hold | ⟨f, herror, hbackend⟩ := shorten_taken hvalid htaken
  · rw [hold, hcode]
    exact .inl rfl
  · rw [herror]
    exact .inr ⟨f, rfl, hbackend⟩

/-- No operation gives out as new what an earlier one gave out. -/
theorem Operates.pairwise (h : Operates s past s') : past.Pairwise GivesOnce := by
  induction h with
  | nil => exact .nil
  | step hbefore _ hstep ih =>
    rw [List.pairwise_append]
    refine ⟨ih, List.pairwise_singleton _ _, fun call hcall _ hlast => ?_⟩
    cases List.mem_singleton.1 hlast
    exact hbefore.settled.givesOnce hstep call hcall
  | resume _ _ _ ih => exact ih

/-- Wherever operations led from a store without links, whatever operations come later: each link is
there afterwards, as the only one of its owner under its code, with its URL, deleted if it was, and
deleted only if it was or one of the operations deleted its code for its owner. Of the later calls
that shorten one URL for one owner, those after the first that is answered give out the same code as
existing, unless the backend fails. -/
theorem links_permanent {first : Session} (hempty : ∀ o c l, ¬Has first.setting o c l)
    (hpast : Operates first past s) (hlater : Operates s later s') :
    (∀ owner code link, Has s.setting owner code link →
      ∃ after, Has s'.setting owner code after ∧
        (∀ other, Has s'.setting owner code other → other = after) ∧
        after.url = link.url ∧ (link.deleted → after.deleted) ∧
        (after.deleted → link.deleted ∨ ∃ call ∈ later, call.1.Deletes code owner)) ∧
    later.Pairwise GivesOnce := by
  obtain ⟨hlasts, -⟩ := hlater.lasts
  have hdistinct : Distinct s'.setting :=
    hlasts.distinct (hpast.lasts.1.distinct (distinct_of_empty hempty))
  refine ⟨fun owner code link hhas => ?_, hlater.pairwise⟩
  obtain hsame | ⟨-, hdeletes, hburied⟩ := hlasts.links owner code link hhas
  · exact ⟨link, hsame, fun _ hother => hdistinct.eq_of_has hother hsame, rfl, id, .inl⟩
  · exact ⟨_, hburied, fun _ hother => hdistinct.eq_of_has hother hburied, rfl, fun _ => rfl,
      fun _ => .inr hdeletes⟩

/-- A URL is shortened, deleted and shortened again: its code is given out as existing, and the
link stays deleted. -/
theorem links_permanent_again : ∃ s s' later,
    (∃ past, Operates (onEmptyTable .base64Tail) past s) ∧ Operates s later s' ∧
    later = [(.shorten "https://example.com/a" "u", .reply (.shortened (.existing "LmNvbS9h")))] ∧
    Has s.setting "u" "LmNvbS9h" ⟨"https://example.com/a", true⟩ ∧
    ∃ after, Has s'.setting "u" "LmNvbS9h" after ∧ after.deleted := by
  let added := ((step (.shorten "https://example.com/a" "u")).run (onEmptyTable .base64Tail)).2
  let deleted := ((step (.delete "LmNvbS9h" "u")).run added).2
  let again := ((step (.shorten "https://example.com/a" "u")).run deleted).2
  have hadded : Operates (onEmptyTable .base64Tail) _ added :=
    (Operates.nil _).take (.shorten "https://example.com/a" "u") trivial
  have hdeleted : Operates (onEmptyTable .base64Tail) _ deleted :=
    hadded.take (.delete "LmNvbS9h" "u") trivial
  have hagain : Operates deleted _ again :=
    (Operates.nil _).take (.shorten "https://example.com/a" "u") trivial
  have hhas : Has deleted.setting "u" "LmNvbS9h" ⟨"https://example.com/a", true⟩ :=
    List.mem_singleton.2 rfl
  have hempty : ∀ o c l, ¬Has (onEmptyTable .base64Tail).setting o c l :=
    fun _ _ _ => List.not_mem_nil
  obtain ⟨hlinks, -⟩ := links_permanent hempty hdeleted hagain
  obtain ⟨after, hafter, -, -, hstays, -⟩ := hlinks _ _ _ hhas
  exact ⟨deleted, again, _, ⟨_, hdeleted⟩, hagain, rfl, hhas, after, hafter, hstays rfl⟩

end Session

end ShortLinks
