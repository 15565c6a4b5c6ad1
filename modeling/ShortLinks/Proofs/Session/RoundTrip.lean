import ShortLinks.Proofs.Session.Agreement

/-!
# Codes lead back to their URLs

A session on an empty store in memory takes calls of the service, under a scheme that gives no two
of the shortened URLs one code. Then an owner has a link exactly under the code of each URL that
this owner shortened, with this URL, and with a tombstone exactly if the owner deleted the code
after that. So a code leads back to its URL as long as some owner who shortened it has not deleted
it since, and in whatever order the owners are looked through.
-/

namespace ShortLinks

namespace Store

variable {α : Type} {s : Setting Store}

/-- The links are in memory. -/
def InMemory (s : Setting Store) : Prop := ∃ m, s.store = .memory m

/-- What a store in memory does leaves it in memory. -/
theorem InMemory.delegate (h : InMemory s) (inMemory : Action Memory α)
    (inTable : Action Relational α) : InMemory ((Store.delegate inMemory inTable).run s).2 := by
  obtain ⟨_, fs⟩ := s
  obtain ⟨m, rfl⟩ := h
  rw [run_delegate_memory]
  exact ⟨_, rfl⟩

/-- Shortening a URL leaves the links in memory. -/
theorem InMemory.shorten (h : InMemory s) (scheme : Scheme) (url owner : String) :
    InMemory ((Service.add storage scheme url owner).run s).2 := by
  have hadded : InMemory ((storage.add (scheme.encode url) url owner).run s).2 := h.delegate _ _
  rw [Service.run_add]
  split
  · exact h
  · rcases hadd : (storage.add (scheme.encode url) url owner).run s with ⟨_ | _, s'⟩ <;>
      rw [hadd] at hadded <;> exact hadded

/-- Shortening a batch leaves the links in memory. -/
theorem InMemory.shortenBatch (h : InMemory s) (scheme : Scheme) (batch : Keyed String String)
    (owner : String) : InMemory ((Service.addBatch storage scheme batch owner).run s).2 := by
  have hadded : InMemory ((storage.addBatch (Service.byCode scheme batch) owner).run s).2 :=
    h.delegate _ _
  rw [Service.run_addBatch]
  split
  · exact h
  · split
    · exact h
    · rcases hadd : (storage.addBatch (Service.byCode scheme batch) owner).run s with ⟨_ | _, s'⟩ <;>
        rw [hadd] at hadded <;> exact hadded

/-- In memory only a link of the same owner under the same code is in the way. -/
theorem InMemory.vacant_iff (h : InMemory s) (owner code url : String) :
    Vacant s owner code url ↔ ∀ link, ¬Has s owner code link := by
  obtain ⟨_, fs⟩ := s
  obtain ⟨m, rfl⟩ := h
  simp only [Vacant, Has, Option.eq_none_iff_forall_ne_some, ne_eq]

end Store

namespace Session

open Store

variable {past : List (Step × Answer)} {call : Step × Answer} {s s' : Session}
  {owner code url : String}

/-- A call shortens a URL for an owner: it submits the URL and succeeds. -/
def Shortens (call : Step × Answer) (owner url : String) : Prop :=
  call.1.Submits owner url ∧ ∃ reply, call.2 = .reply reply

/-- An owner has shortened a URL in some calls. -/
def HasShortened (past : List (Step × Answer)) (owner url : String) : Prop :=
  ∃ call ∈ past, Shortens call owner url

/-- An owner has deleted a code after shortening a URL. -/
def HasBuried (past : List (Step × Answer)) (owner code url : String) : Prop :=
  ∃ before later, past = before ++ (.delete code owner, .reply .done) :: later ∧
    HasShortened before owner url

/-- What was shortened was shortened earlier or later. -/
theorem hasShortened_append {later : List (Step × Answer)} :
    HasShortened (past ++ later) owner url ↔
      HasShortened past owner url ∨ HasShortened later owner url := by
  simp only [HasShortened, List.mem_append, or_and_right, exists_or]

/-- What was shortened was shortened before the last call or by it. -/
theorem hasShortened_concat : HasShortened (past ++ [call]) owner url ↔
    HasShortened past owner url ∨ Shortens call owner url := by
  simp [HasShortened, or_and_right, exists_or]

/-- Who deletes a code after shortening a URL has shortened it. -/
theorem HasBuried.hasShortened (h : HasBuried past owner code url) :
    HasShortened past owner url := by
  obtain ⟨before, later, rfl, hshortened⟩ := h
  exact hasShortened_append.2 (.inl hshortened)

/-- One more call deletes a code after a URL was shortened, or some call before it did. -/
theorem hasBuried_concat : HasBuried (past ++ [call]) owner code url ↔ HasBuried past owner code url ∨
    call = (.delete code owner, .reply .done) ∧ HasShortened past owner url := by
  constructor
  · rintro ⟨before, later, heq, hshortened⟩
    obtain rfl | ⟨later', last, rfl⟩ := List.eq_nil_or_concat later
    · obtain ⟨rfl, hcall⟩ := List.append_inj' heq rfl
      exact .inr ⟨(List.cons.inj hcall).1, hshortened⟩
    · rw [List.concat_eq_append, ← List.cons_append, ← List.append_assoc] at heq
      obtain ⟨rfl, -⟩ := List.append_inj' heq rfl
      exact .inl ⟨before, later', rfl, hshortened⟩
  · rintro (⟨before, later, rfl, hshortened⟩ | ⟨rfl, hshortened⟩)
    · exact ⟨before, later ++ [call], by simp, hshortened⟩
    · exact ⟨past, [], rfl, hshortened⟩

/-- No two URLs that were shortened share a code. -/
def Injective (scheme : Scheme) (past : List (Step × Answer)) : Prop :=
  Set.InjOn scheme.encode {url | ∃ owner, HasShortened past owner url}

/-- The links of a store are those that its owners shortened, with tombstones where they deleted
them since. -/
structure Remembers (past : List (Step × Answer)) (s : Session) : Prop where
  memory : InMemory s.setting
  sound : Sound s.setting
  has : ∀ owner code link, Has s.setting owner code link ↔
    HasShortened past owner link.url ∧ code = s.scheme.encode link.url ∧
      (link.deleted ↔ HasBuried past owner code link.url)

variable {shortened : String → Prop}

/-- A call that shortens nothing and deletes nothing changes neither the links nor what was
shortened. -/
theorem Remembers.unchanged (h : Remembers past s) (hmemory : InMemory s'.setting)
    (hsound : Sound s'.setting) (hscheme : s'.scheme = s.scheme)
    (hlinks : ∀ o c l, Has s'.setting o c l ↔ Has s.setting o c l)
    (hshortens : ∀ o u, ¬Shortens call o u)
    (hdelete : ∀ o c, call ≠ (.delete c o, .reply .done)) : Remembers (past ++ [call]) s' where
  memory := hmemory
  sound := hsound
  has o c l := by
    rw [hlinks, h.has, hscheme, hasShortened_concat, hasBuried_concat]
    simp only [hshortens, hdelete, or_false, false_and]

/-- A call that shortens URLs adds the links that are vacant. The URLs whose links are in the way
are the same ones, shortened before. -/
theorem Remembers.shorten (h : Remembers past s) (hmemory : InMemory s'.setting)
    (hsound : Sound s'.setting) (hscheme : s'.scheme = s.scheme)
    (hinjective : Injective s.scheme (past ++ [call]))
    (hshortens : ∀ o u, Shortens call o u ↔ o = owner ∧ shortened u)
    (hdelete : ∀ o c, call ≠ (.delete c o, .reply .done))
    (hlinks : ∀ o c l, Has s'.setting o c l ↔ Has s.setting o c l ∨ o = owner ∧
      ∃ u, shortened u ∧ c = s.scheme.encode u ∧ Vacant s.setting owner c u ∧ l = ⟨u, false⟩) :
    Remembers (past ++ [call]) s' where
  memory := hmemory
  sound := hsound
  has o c l := by
    rw [hlinks, h.has, hscheme, hasShortened_concat, hasBuried_concat, hshortens]
    simp only [hdelete, false_and, or_false]
    constructor
    · rintro (⟨hpast, hcode, hburied⟩ | ⟨rfl, u, hu, rfl, hvacant, rfl⟩)
      · exact ⟨.inl hpast, hcode, hburied⟩
      · refine ⟨.inr ⟨rfl, hu⟩, rfl, iff_of_false Bool.false_ne_true fun hburied => ?_⟩
        have hhas : Has s.setting o (s.scheme.encode u) ⟨u, true⟩ :=
          (h.has _ _ _).2 ⟨hburied.hasShortened, rfl, iff_of_true rfl hburied⟩
        exact (h.memory.vacant_iff _ _ _).1 hvacant _ hhas
    · rintro ⟨hpast | ⟨rfl, hu⟩, rfl, hburied⟩
      · exact .inl ⟨hpast, rfl, hburied⟩
      · by_cases hpast : HasShortened past o l.url
        · exact .inl ⟨hpast, rfl, hburied⟩
        · obtain ⟨url, deleted⟩ := l
          have hkept : deleted = false :=
            Bool.eq_false_iff.2 fun hdeleted => hpast (hburied.1 hdeleted).hasShortened
          refine .inr ⟨rfl, url, hu, rfl, (h.memory.vacant_iff _ _ _).2 fun link hlink => ?_,
            by rw [hkept]⟩
          obtain ⟨hlinked, hcode, -⟩ := (h.has _ _ _).1 hlink
          have hsame : link.url = url := hinjective ⟨o, hasShortened_concat.2 (.inl hlinked)⟩
            ⟨o, hasShortened_concat.2 (.inr ((hshortens o url).2 ⟨rfl, hu⟩))⟩ hcode.symm
          exact hpast (hsame ▸ hlinked)

/-- A question changes nothing. -/
theorem Remembers.ask (h : Remembers past s) {st : Step} {answer : Answer}
    (huntouched : Untouched s.setting s'.setting) (hmemory : InMemory s'.setting)
    (hscheme : s'.scheme = s.scheme) (hsubmits : ∀ o u, ¬st.Submits o u)
    (hdelete : ∀ o c, st ≠ .delete c o) : Remembers (past ++ [(st, answer)]) s' :=
  h.unchanged hmemory (huntouched.kept.sound h.sound) hscheme (fun _ _ _ => huntouched.has)
    (fun o u hshortens => hsubmits o u hshortens.1)
    (fun o c hcall => hdelete o c (Prod.mk.inj hcall).1)

/-- A store remembers a URL that is shortened. -/
theorem Remembers.run_shorten (h : Remembers past s) (url owner : String)
    {answer : Answer} (hstep : (step (.shorten url owner)).run s = (answer, s'))
    (hinjective : Injective s.scheme (past ++ [(.shorten url owner, answer)])) :
    Remembers (past ++ [(.shorten url owner, answer)]) s' := by
  have hmemory := h.memory.shorten s.scheme url owner
  obtain ⟨hkept, hcases⟩ := shorten_cases s.setting s.scheme url owner
  rw [Session.run_shorten, run_act] at hstep
  cases hstep
  have hshortens (x : Shortened) (o u : String) :
      Shortens (.shorten url owner, .ofResult .shortened (.ok x)) o u ↔ o = owner ∧ u = url :=
    ⟨And.left, fun hsubmits => ⟨hsubmits, _, rfl⟩⟩
  obtain ⟨-, hnew, hvacant, -, hlinks⟩ | ⟨-, hold, htaken, -, hlinks⟩ | ⟨f, herror, -, hlinks⟩ :=
    hcases
  · rw [hnew] at hinjective ⊢
    refine h.shorten hmemory (hkept.sound h.sound) rfl hinjective (hshortens _) nofun
      fun o c l => ?_
    simp only [hlinks, exists_eq_left]
    constructor
    · rintro (hbefore | ⟨rfl, rfl, rfl⟩)
      · exact .inl hbefore
      · exact .inr ⟨rfl, rfl, hvacant, rfl⟩
    · rintro (hbefore | ⟨rfl, rfl, -, rfl⟩)
      · exact .inl hbefore
      · exact .inr ⟨rfl, rfl, rfl⟩
  · rw [hold] at hinjective ⊢
    refine h.shorten hmemory (hkept.sound h.sound) rfl hinjective (hshortens _) nofun
      fun o c l => ?_
    simp only [hlinks, exists_eq_left]
    constructor
    · exact .inl
    · rintro (hbefore | ⟨rfl, rfl, hvacant, -⟩)
      · exact hbefore
      · exact absurd hvacant htaken
  · rw [herror]
    refine h.unchanged hmemory (hkept.sound h.sound) rfl hlinks (fun o u hshortens => ?_) nofun
    obtain ⟨-, reply, hreply⟩ := hshortens
    cases hreply

/-- A store remembers the URLs of a batch that is shortened. -/
theorem Remembers.run_shortenBatch (h : Remembers past s) (batch : Keyed String String)
    (owner : String) {answer : Answer} (hstep : (step (.shortenBatch batch owner)).run s = (answer, s'))
    (hinjective : Injective s.scheme (past ++ [(.shortenBatch batch owner, answer)])) :
    Remembers (past ++ [(.shortenBatch batch owner, answer)]) s' := by
  have hmemory := h.memory.shortenBatch s.scheme batch owner
  obtain ⟨hkept, hcases⟩ := shortenBatch_cases s.setting s.scheme batch owner
  rw [Session.run_shortenBatch, run_act] at hstep
  cases hstep
  have hfailed (f : Fault) (o u : String) :
      ¬Shortens (.shortenBatch batch owner, .ofResult .codes (.error f)) o u := by
    rintro ⟨-, reply, hreply⟩
    cases hreply
  obtain ⟨-, hcodes, -, hlinks⟩ | ⟨f, -, hended⟩ | ⟨-, hsound, -⟩ := hcases
  · rw [hcodes] at hinjective ⊢
    have hshortens (o u : String) :
        Shortens (.shortenBatch batch owner, .ofResult .codes (.ok (Service.codes s.scheme batch))) o u ↔
          o = owner ∧ ∃ id, batch.find? id = some u :=
      ⟨And.left, fun hsubmits => ⟨hsubmits, _, rfl⟩⟩
    refine h.shorten hmemory (hkept.sound h.sound) rfl hinjective hshortens (by simp) fun o c l => ?_
    have hbyCode (u : String) : (Service.byCode s.scheme batch).find? c = some u ↔
        c = s.scheme.encode u ∧ ∃ id, batch.find? id = some u :=
      Service.find?_byCode_iff fun id id' u u' hid hid' hcode => hinjective
        ⟨owner, hasShortened_concat.2 (.inr ((hshortens _ _).2 ⟨rfl, id, hid⟩))⟩
        ⟨owner, hasShortened_concat.2 (.inr ((hshortens _ _).2 ⟨rfl, id', hid'⟩))⟩ hcode
    simp only [hlinks, hbyCode]
    constructor
    · rintro (hbefore | ⟨rfl, u, ⟨hcode, hid⟩, hvacant, rfl⟩)
      · exact .inl hbefore
      · exact .inr ⟨rfl, u, hid, hcode, hvacant, rfl⟩
    · rintro (hbefore | ⟨rfl, u, hid, hcode, hvacant, rfl⟩)
      · exact .inl hbefore
      · exact .inr ⟨rfl, u, ⟨hcode, hid⟩, hvacant, rfl⟩
  · rw [hended]
    exact h.unchanged h.memory h.sound rfl (fun _ _ _ => Iff.rfl) (hfailed f) (by simp)
  · exact absurd h.sound hsound

open Classical in
/-- A store remembers a deletion. -/
theorem Remembers.run_delete (h : Remembers past s) (code owner : String) {answer : Answer}
    (hstep : (step (.delete code owner)).run s = (answer, s')) :
    Remembers (past ++ [(.delete code owner, answer)]) s' := by
  have hmemory : InMemory ((storage.delete code owner).run s.setting).2 := h.memory.delegate _ _
  obtain ⟨hkept, hcases⟩ := delete_cases s.setting code owner
  rw [step, run_act] at hstep
  cases hstep
  obtain ⟨hok, hlinks⟩ | ⟨f, -, -, hsound⟩ := hcases
  · rw [hok]
    refine ⟨hmemory, hkept.sound h.sound, fun o c l => ?_⟩
    have hshortens (o u : String) : ¬Shortens (.delete code owner, .reply .done) o u :=
      fun hshortens => hshortens.1
    simp only [Answer.ofResult, hlinks, hasShortened_concat, hasBuried_concat, hshortens, or_false,
      Prod.mk.injEq, Step.delete.injEq, and_true]
    constructor
    · rintro ⟨before, hbefore, rfl⟩
      obtain ⟨hshortened, hcode, hburied⟩ := (h.has _ _ _).1 hbefore
      split
      · next hmatch =>
        exact ⟨hshortened, hcode,
          iff_of_true rfl (.inr ⟨⟨hmatch.2.symm, hmatch.1.symm⟩, hshortened⟩)⟩
      · next hother =>
        have hnot : ¬(code = c ∧ owner = o) := fun hmatch => hother ⟨hmatch.2.symm, hmatch.1.symm⟩
        exact ⟨hshortened, hcode, by rw [hburied]; simp only [hnot, false_and, or_false]⟩
    · rintro ⟨hshortened, hcode, hburied⟩
      by_cases hmatch : o = owner ∧ c = code
      · have hdeleted : l.deleted :=
          hburied.2 (.inr ⟨⟨hmatch.2.symm, hmatch.1.symm⟩, hshortened⟩)
        refine ⟨⟨l.url, decide (HasBuried past o c l.url)⟩,
          (h.has _ _ _).2 ⟨hshortened, hcode, decide_eq_true_iff⟩, ?_⟩
        rw [if_pos hmatch, ← hdeleted]
      · have hnot : ¬(code = c ∧ owner = o) := fun hsame => hmatch ⟨hsame.2.symm, hsame.1.symm⟩
        simp only [hnot, false_and, or_false] at hburied
        exact ⟨l, (h.has _ _ _).2 ⟨hshortened, hcode, hburied⟩, by rw [if_neg hmatch]⟩
  · exact absurd h.sound hsound

/-- A call of the service keeps what the store remembers. -/
theorem Remembers.run_step (h : Remembers past s) {st : Step} {answer : Answer} (hcall : st.IsCall)
    (hstep : (step st).run s = (answer, s'))
    (hinjective : Injective s.scheme (past ++ [(st, answer)])) :
    Remembers (past ++ [(st, answer)]) s' ∧ s'.scheme = s.scheme := by
  cases st with
  | shorten url owner =>
    refine ⟨h.run_shorten url owner hstep hinjective, ?_⟩
    rw [Session.run_shorten] at hstep
    cases hstep
    rfl
  | shortenBatch batch owner =>
    refine ⟨h.run_shortenBatch batch owner hstep hinjective, ?_⟩
    rw [Session.run_shortenBatch] at hstep
    cases hstep
    rfl
  | delete code owner =>
    refine ⟨h.run_delete code owner hstep, ?_⟩
    cases hstep
    rfl
  | get code =>
    cases hstep
    exact ⟨h.ask (get_cases s.setting code).1 (h.memory.delegate _ _) rfl (fun _ _ => id) nofun, rfl⟩
  | list owner =>
    cases hstep
    exact ⟨h.ask (getAll_cases s.setting owner).1 (h.memory.delegate _ _) rfl (fun _ _ => id) nofun,
      rfl⟩
  | stats =>
    cases hstep
    exact ⟨h.ask (stats_cases s.setting).1 (h.memory.delegate _ _) rfl (fun _ _ => id) nofun, rfl⟩
  | _ => cases hcall

/-- Fewer calls shorten fewer URLs. -/
theorem Injective.take {scheme : Scheme} {later : List (Step × Answer)}
    (h : Injective scheme (past ++ later)) : Injective scheme past :=
  Set.InjOn.mono (fun _ => Exists.imp fun _ hshortened => hasShortened_append.2 (.inl hshortened)) h

/-- A run of calls of the service keeps what the store remembers. -/
theorem Remembers.run {later : List (Step × Answer)} (h : Remembers past s)
    (hrun : Leads (fun step _ => step.IsCall) s later s')
    (hinjective : Injective s.scheme (past ++ later)) :
    Remembers (past ++ later) s' ∧ s'.scheme = s.scheme := by
  induction hrun generalizing past with
  | nil => exact ⟨by rwa [List.append_nil], rfl⟩
  | cons hstep hcall _ ih =>
    rw [List.append_cons] at hinjective ⊢
    obtain ⟨hnext, hscheme⟩ := h.run_step hcall hstep hinjective.take
    obtain ⟨hlast, hsame⟩ := ih hnext (hscheme ▸ hinjective)
    exact ⟨hlast, hsame.trans hscheme⟩

/-- A store that is empty and works remembers that nothing was shortened. -/
theorem Fresh.remembers (h : Fresh s) (hmemory : InMemory s.setting) : Remembers [] s where
  memory := hmemory
  sound := h.sound
  has o c l := iff_of_false (h.empty o c l) fun hshortened => by
    obtain ⟨⟨_, hcall, -⟩, -⟩ := hshortened
    cases hcall

/-- Links that are those that were shortened, in whatever order their owners come. -/
def Recorded (scheme : Scheme) (past : List (Step × Answer)) (links : Owners) : Prop :=
  ∀ owner code link, links.link? owner code = some link ↔
    HasShortened past owner link.url ∧ code = scheme.encode link.url ∧
      (link.deleted ↔ HasBuried past owner code link.url)

/-- What a store remembers is recorded in every order of its links. -/
theorem Remembers.recorded {m : Memory} (h : Remembers past s) (hstore : s.setting.store = .memory m)
    {links : Owners} (hsame : links.Same m.owners) : Recorded s.scheme past links := by
  intro owner code link
  rw [hsame, ← h.has, Has, hstore]

variable {scheme : Scheme} {links : Owners}

/-- Whatever is kept under the code of a URL that was shortened is this URL. -/
theorem Recorded.url_eq (h : Recorded scheme past links) (hinjective : Injective scheme past)
    (hshortened : ∃ owner, HasShortened past owner url) {link : Link}
    (hlink : links.link? owner (scheme.encode url) = some link) : link.url = url := by
  obtain ⟨hlinked, hcode, -⟩ := (h _ _ _).1 hlink
  exact hinjective ⟨owner, hlinked⟩ hshortened hcode.symm

open Classical in
/-- Who shortened a URL has a link for it. -/
theorem Recorded.link?_eq (h : Recorded scheme past links)
    (hshortened : HasShortened past owner url) : links.link? owner (scheme.encode url) =
      some ⟨url, decide (HasBuried past owner (scheme.encode url) url)⟩ :=
  (h _ _ _).2 ⟨hshortened, rfl, decide_eq_true_iff⟩

/-- A URL that some owner shortened and has not deleted since is found by its code. -/
theorem Recorded.resolve_kept (h : Recorded scheme past links) (hinjective : Injective scheme past)
    (hshortened : HasShortened past owner url)
    (hkept : ¬HasBuried past owner (scheme.encode url) url) :
    links.resolve (scheme.encode url) = .ok url := by
  have hlink := h.link?_eq hshortened
  obtain ⟨owner', url', hresolve, hlink'⟩ | ⟨-, hnone⟩ | ⟨-, -, hdeleted⟩ :=
    Owners.resolve_cases links (scheme.encode url)
  · obtain rfl : url' = url := h.url_eq hinjective ⟨owner, hshortened⟩ hlink'
    exact hresolve
  · exact absurd hlink (hnone _ _)
  · exact absurd (((h _ _ _).1 hlink).2.2.1 (hdeleted _ _ hlink)) hkept

/-- A URL that all who shortened it have deleted since is known as deleted. -/
theorem Recorded.resolve_buried (h : Recorded scheme past links)
    (hinjective : Injective scheme past) (hshortened : HasShortened past owner url)
    (hburied : ∀ owner, HasShortened past owner url →
      HasBuried past owner (scheme.encode url) url) :
    links.resolve (scheme.encode url) = .error (.codeDeleted (scheme.encode url)) := by
  obtain ⟨owner', url', -, hlink⟩ | ⟨-, hnone⟩ | ⟨hresolve, -⟩ :=
    Owners.resolve_cases links (scheme.encode url)
  · obtain rfl : url' = url := h.url_eq hinjective ⟨owner, hshortened⟩ hlink
    obtain ⟨hshortened', -, hdeleted⟩ := (h _ _ _).1 hlink
    exact absurd (hdeleted.2 (hburied owner' hshortened')) Bool.false_ne_true
  · exact absurd (h.link?_eq hshortened) (hnone _ _)
  · exact hresolve

/-- A code that belongs to no URL that was shortened is not found. -/
theorem Recorded.resolve_unknown (h : Recorded scheme past links)
    (hunknown : ∀ owner url, HasShortened past owner url → scheme.encode url ≠ code) :
    links.resolve code = .error (.codeNotFound code) := by
  have hnone (owner : String) (link : Link) : links.link? owner code ≠ some link := fun hlink => by
    obtain ⟨hshortened, hcode, -⟩ := (h _ _ _).1 hlink
    exact hunknown owner link.url hshortened hcode.symm
  obtain ⟨owner, url, -, hlink⟩ | ⟨hresolve, -⟩ | ⟨-, ⟨owner, link, hlink⟩, -⟩ :=
    Owners.resolve_cases links code
  · exact absurd hlink (hnone _ _)
  · exact hresolve
  · exact absurd hlink (hnone _ _)

/-- The session with the links of its memory store laid out anew. -/
def withLinks (s : Session) (m : Memory) (links : Owners) : Session :=
  { s with setting := ⟨.memory { m with owners := links }, s.setting.files⟩ }

/-- A code is answered from the links. -/
theorem run_get_withLinks (s : Session) (m : Memory) (links : Owners) (code : String) :
    (step (.get code)).run (s.withLinks m links) =
      (.ofResult .text (links.resolve code), s.withLinks m links) := by
  rw [step, Store.storage, Memory.storage, withLinks, run_act_answer]

/-- After any calls of the service on an empty store in memory, of which no two shortened URLs share
a code: under the code of a shortened URL every owner has this URL and no other. Asked for the code,
the store gives the URL as long as some owner who shortened it has not deleted the code since, and
otherwise says that it was deleted. A code of no shortened URL is not found. The order in which the
owners are kept does not matter. -/
theorem codes_lead_back {path : String} {m : Memory} {fs : FileSystem}
    {history : List (Step × Answer)} (hfresh : Fresh ⟨scheme, path, .memory m, fs⟩)
    (hrun : Leads (fun step _ => step.IsCall) ⟨scheme, path, .memory m, fs⟩ history s)
    (hinjective : Injective scheme history) :
    ∃ m', s.setting.store = .memory m' ∧ ∀ links : Owners, links.Same m'.owners →
      (∀ url, (∃ owner, HasShortened history owner url) →
        (∀ owner link, links.link? owner (scheme.encode url) = some link → link.url = url) ∧
        ((∃ owner, HasShortened history owner url ∧
            ¬HasBuried history owner (scheme.encode url) url) →
          ((step (.get (scheme.encode url))).run (s.withLinks m' links)).1 =
            .reply (.text url)) ∧
        ((∀ owner, HasShortened history owner url →
            HasBuried history owner (scheme.encode url) url) →
          ((step (.get (scheme.encode url))).run (s.withLinks m' links)).1 =
            .fault (.codeDeleted (scheme.encode url)))) ∧
      ∀ code, (∀ owner url, HasShortened history owner url → scheme.encode url ≠ code) →
        ((step (.get code)).run (s.withLinks m' links)).1 = .fault (.codeNotFound code) := by
  obtain ⟨hremembers, hscheme⟩ := (hfresh.remembers ⟨m, rfl⟩).run hrun hinjective
  obtain ⟨m', hstore⟩ := hremembers.memory
  refine ⟨m', hstore, fun links hsame => ?_⟩
  have hscheme : s.scheme = scheme := hscheme
  have hrecorded : Recorded scheme history links := hscheme ▸ hremembers.recorded hstore hsame
  refine ⟨fun url hshortened => ⟨fun owner link => hrecorded.url_eq hinjective hshortened, ?_, ?_⟩,
    fun code hunknown => ?_⟩
  · rintro ⟨owner, hshortened, hkept⟩
    rw [run_get_withLinks, hrecorded.resolve_kept hinjective hshortened hkept]
    rfl
  · intro hburied
    obtain ⟨owner, hshortened⟩ := hshortened
    rw [run_get_withLinks, hrecorded.resolve_buried hinjective hshortened hburied]
    rfl
  · rw [run_get_withLinks, hrecorded.resolve_unknown hunknown]
    rfl

/-- Two owners shorten one URL and one of them deletes it, so the other still leads back. A URL of a
batch is deleted and shortened again, which does not bring it back. -/
theorem codes_lead_back_again : ∃ m' links history s,
    history.map Prod.fst = [.shorten "https://example.com/a" "u1",
      .shorten "https://example.com/a" "u2", .delete "LmNvbS9h" "u1",
      .shortenBatch (.ofList [("x", "https://example.com/b")]) "u2", .delete "LmNvbS9i" "u2",
      .shorten "https://example.com/b" "u2"] ∧
    Leads (fun step _ => step.IsCall) ⟨.base64Tail, "", .memory {}, {}⟩ history s ∧
    s.setting.store = .memory m' ∧ links = m'.owners ∧
    ((step (.get "LmNvbS9h")).run (s.withLinks m' links)).1 =
      .reply (.text "https://example.com/a") ∧
    ((step (.get "LmNvbS9i")).run (s.withLinks m' links)).1 = .fault (.codeDeleted "LmNvbS9i") ∧
    ((step (.get "missing")).run (s.withLinks m' links)).1 = .fault (.codeNotFound "missing") := by
  let history : List (Step × Answer) :=
    [(.shorten "https://example.com/a" "u1", .reply (.shortened (.created "LmNvbS9h"))),
      (.shorten "https://example.com/a" "u2", .reply (.shortened (.created "LmNvbS9h"))),
      (.delete "LmNvbS9h" "u1", .reply .done),
      (.shortenBatch (.ofList [("x", "https://example.com/b")]) "u2",
        .reply (.codes (.ofList [("x", "LmNvbS9i")]))),
      (.delete "LmNvbS9i" "u2", .reply .done),
      (.shorten "https://example.com/b" "u2", .reply (.shortened (.existing "LmNvbS9i")))]
  have hrun : Leads (fun step _ => step.IsCall) ⟨.base64Tail, "", .memory {}, {}⟩ history _ :=
    .cons rfl trivial <| .cons rfl trivial <| .cons rfl trivial <| .cons rfl trivial <|
    .cons rfl trivial <| .cons rfl trivial <| .nil _
  have hshortened (o u : String) : HasShortened history o u ↔
      (o = "u1" ∨ o = "u2") ∧ u = "https://example.com/a" ∨
        o = "u2" ∧ u = "https://example.com/b" := by
    have hbatch : (∃ id, (Keyed.ofList [("x", "https://example.com/b")]).find? id = some u) ↔
        u = "https://example.com/b" := by
      simp [Keyed.find?_ofList_iff]
    simp only [HasShortened, history, List.exists_mem_cons_iff, List.not_mem_nil, false_and,
      exists_false, or_false, Shortens, Step.Submits, hbatch, Answer.reply.injEq, exists_eq',
      and_true]
    tauto
  have hinjective : Injective .base64Tail history := by
    rintro u ⟨o, hu⟩ u' ⟨o', hu'⟩
    obtain ⟨-, rfl⟩ | ⟨-, rfl⟩ := (hshortened o u).1 hu <;>
      obtain ⟨-, rfl⟩ | ⟨-, rfl⟩ := (hshortened o' u').1 hu' <;> decide
  obtain ⟨m', hstore, hlinks⟩ :=
    codes_lead_back (fresh_of_begin_memory rfl) hrun hinjective
  obtain ⟨hfound, hunknown⟩ := hlinks m'.owners (Owners.Same.refl _)
  have ha : HasShortened history "u2" "https://example.com/a" :=
    (hshortened _ _).2 (.inl ⟨.inr rfl, rfl⟩)
  have hb : HasShortened history "u2" "https://example.com/b" := (hshortened _ _).2 (.inr ⟨rfl, rfl⟩)
  refine ⟨m', m'.owners, history, _, rfl, hrun, hstore, rfl, ?_, ?_, ?_⟩
  · refine (hfound _ ⟨_, ha⟩).2.1 ⟨"u2", ha, ?_⟩
    rintro ⟨before, later, heq, -⟩
    have hmem : ((.delete "LmNvbS9h" "u2", .reply .done) : Step × Answer) ∈ history :=
      heq ▸ List.mem_append_right _ List.mem_cons_self
    simp [history] at hmem
  · refine (hfound _ ⟨_, hb⟩).2.2 fun o ho => ?_
    obtain ⟨-, hother⟩ | ⟨rfl, -⟩ := (hshortened _ _).1 ho
    · exact absurd hother (by decide)
    · exact ⟨history.take 4, history.drop 5, rfl, _, .tail _ (.tail _ (.tail _ (.head _))),
        ⟨rfl, "x", rfl⟩, _, rfl⟩
  · refine hunknown "missing" fun o u hu => ?_
    obtain ⟨-, rfl⟩ | ⟨-, rfl⟩ := (hshortened _ _).1 hu <;> decide

end Session

end ShortLinks
