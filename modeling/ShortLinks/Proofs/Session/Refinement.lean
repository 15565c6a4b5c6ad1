import ShortLinks.Proofs.Session.Steps
import ShortLinks.Proofs.Store.Flat
import ShortLinks.Proofs.Store.Written

/-!
# The memory store answers like one flat map

What a memory store answers is said here of one map from owner and code to link, and so is what
each call makes of that map. A call on a store that the map is a picture of is answered so, unless
its journal failed, and the map after the call is a picture of the links after it. So from an empty
store on, a whole run is answered as the map says, with and without a journal.
-/

namespace ShortLinks

namespace Flat

/-- The codes of a batch that are taken for its owner. -/
def known (f : Flat) (urls : Keyed String String) (owner : String) : List String :=
  (urls.entries.filter fun (code, _) => f.contains (owner, code)).map Prod.fst

/-- The records of a batch under whose codes its owner has no link. -/
def absent (f : Flat) (urls : Keyed String String) (owner : String) : List Record :=
  (urls.entries.filter fun (code, _) => !f.contains (owner, code)).map
    fun (code, url) => { code, url, owner }

/-- The map with a tombstone on the link under a key, if there is one. -/
def bury (f : Flat) (code owner : String) : Flat :=
  match f.find? (owner, code) with
  | none => f
  | some link => f.insert (owner, code) { link with deleted := true }

/-- A code resolves to the URL of a link that is not deleted, if any owner has one. Otherwise it is
deleted if any owner has the code, and unknown if none has. -/
def Resolves (f : Flat) (code : String) (result : Except Fault String) : Prop :=
  (∃ owner url, f.find? (owner, code) = some ⟨url, false⟩ ∧ result = .ok url) ∨
  ((∃ owner link, f.find? (owner, code) = some link) ∧
    (∀ owner link, f.find? (owner, code) = some link → link.deleted) ∧
    result = .error (.codeDeleted code)) ∨
  (∀ owner, f.find? (owner, code) = none) ∧ result = .error (.codeNotFound code)

/-- An owner is shown exactly the own keys, if there are any. -/
def Lists (f : Flat) (owner : String) (result : Except Fault (Keyed String Link)) : Prop :=
  (∃ links, (∀ code, links.find? code = f.find? (owner, code)) ∧
    (∃ code link, f.find? (owner, code) = some link) ∧ result = .ok links) ∨
  (∀ code, f.find? (owner, code) = none) ∧ result = .error (.ownerUnknown owner)

end Flat

namespace Session

open Flat

/-- What a call on one flat map answers. -/
def Says (f : Flat) : Step → Answer → Prop
  | .add code _ owner, answer => answer =
      if f.contains (owner, code) then
        .fault ⟨.conflict, "short code " ++ code ++ " already exists for owner " ++ owner⟩
      else .reply .done
  | .addBatch urls owner, answer => answer =
      if f.known urls owner = [] then .reply .done
      else .fault (Memory.taken owner (f.known urls owner))
  | .get code, answer => ∃ result, f.Resolves code result ∧ answer = .ofResult .text result
  | .list owner, answer => ∃ result, f.Lists owner result ∧ answer = .ofResult .links result
  | .delete _ _, answer => answer = .reply .done
  | .stats, answer => answer = .reply (.stats f.stats)
  | .backup, answer => answer = .reply .done
  | _, _ => False

/-- What a call makes of one flat map. -/
def Step.flat (f : Flat) : Step → Flat
  | .add code url owner => if f.contains (owner, code) then f else f.put { code, url, owner }
  | .addBatch urls owner => f.putAll (f.absent urls owner)
  | .delete code owner => f.bury code owner
  | _ => f

/-- Calls that are answered as one flat map says, one after another. -/
inductive SaysAll : Flat → List (Step × Answer) → Flat → Prop
  | nil (f : Flat) : SaysAll f [] f
  | cons {f last : Flat} {step : Step} {answer : Answer} {later : List (Step × Answer)}
      (hstep : Says f step answer) (hlater : SaysAll (step.flat f) later last) :
      SaysAll f ((step, answer) :: later) last

/-- The calls of a store, answered without a failure of its journal. -/
def Smooth : Step → Answer → Prop
  | .add .., answer | .addBatch .., answer | .get _, answer | .list _, answer | .delete .., answer
  | .stats, answer | .backup, answer => ∀ fault, answer = .fault fault → ¬fault.kind.isBackend
  | _, _ => False

end Session

namespace Memory

variable {m : Memory} {f : Flat} {fs fs' : FileSystem} {code url owner : String}

/-- The journal did not fail: no fault of the backend was reported. -/
def Unfailing {α : Type} (result : Except Fault α) : Prop :=
  ∀ fault, result = .error fault → ¬fault.kind.isBackend

/-- A record that is logged without a failure is logged. -/
theorem ok_of_run_log {r : Record} {result : Except Fault Unit}
    (hlog : (m.log r).run fs = (result, fs')) (h : Unfailing result) : result = .ok () := by
  cases result with
  | ok => rfl
  | error fault =>
    have hkind := kind_of_run_log hlog
    have hbackend := h fault rfl
    rw [hkind] at hbackend
    exact absurd rfl hbackend

/-- An addition that does not fail by itself is answered, and changes the links, as in the flat
map. -/
theorem add_flat (h : f.Pictures m.owners)
    (hsmooth : Unfailing ((add code url owner).run ⟨m, fs⟩).1) :
    ((add code url owner).run ⟨m, fs⟩).1 = (if f.contains (owner, code) then
        .error ⟨.conflict, "short code " ++ code ++ " already exists for owner " ++ owner⟩
      else .ok ()) ∧
    ((Session.Step.add code url owner).flat f).Pictures
      ((add code url owner).run ⟨m, fs⟩).2.store.owners := by
  rw [run_add] at hsmooth ⊢
  rw [Session.Step.flat, h.contains]
  split
  · exact ⟨rfl, h⟩
  · next hfree =>
    rw [if_neg hfree] at hsmooth
    rcases hlog : (m.log { code, url, owner }).run fs with ⟨fault | _, fs'⟩ <;>
      rw [hlog] at hsmooth
    · cases ok_of_run_log hlog hsmooth
    · exact ⟨rfl, h.put _⟩

/-- A deletion that does not fail by itself changes the links as in the flat map. -/
theorem delete_flat (h : f.Pictures m.owners)
    (hsmooth : Unfailing ((delete code owner).run ⟨m, fs⟩).1) :
    ((delete code owner).run ⟨m, fs⟩).1 = .ok () ∧
    ((Session.Step.delete code owner).flat f).Pictures
      ((delete code owner).run ⟨m, fs⟩).2.store.owners := by
  have hlink := h owner code
  rw [run_delete] at hsmooth ⊢
  rw [Session.Step.flat, Flat.bury, hlink]
  cases hlink' : m.owners.link? owner code with
  | none => exact ⟨rfl, h⟩
  | some link =>
    rw [hlink'] at hsmooth hlink
    dsimp only at hsmooth ⊢
    split
    · next hdeleted =>
      refine ⟨rfl, fun o c => ?_⟩
      rw [Keyed.find?_insert, ← hdeleted]
      split
      · next hkey =>
        cases hkey
        exact hlink'.symm
      · exact h o c
    · next hkept =>
      rw [if_neg hkept] at hsmooth
      rcases hlog : (m.log { code, url := link.url, owner, deleted := true }).run fs
        with ⟨fault | _, fs'⟩ <;> rw [hlog] at hsmooth
      · cases ok_of_run_log hlog hsmooth
      · exact ⟨rfl, h.put ⟨code, link.url, owner, true⟩⟩

/-- The codes of a batch that are known are those that the flat map has. -/
theorem known_eq (h : f.Pictures m.owners) (urls : Keyed String String) (owner : String) :
    m.known urls owner = f.known urls owner := by
  simp only [known, Flat.known, h.contains]

/-- The links of a batch that are new are those that the flat map lacks. -/
theorem fresh_eq (h : f.Pictures m.owners) (urls : Keyed String String) (owner : String) :
    m.fresh urls owner = f.absent urls owner := by
  simp only [fresh, Flat.absent, h.contains]

/-- A batch that does not fail by itself is answered, and changes the links, as in the flat map. -/
theorem addBatch_flat (h : f.Pictures m.owners) {urls : Keyed String String}
    (hsmooth : Unfailing ((addBatch urls owner).run ⟨m, fs⟩).1) :
    ((addBatch urls owner).run ⟨m, fs⟩).1 = (if f.known urls owner = [] then .ok ()
      else .error (taken owner (f.known urls owner))) ∧
    ((Session.Step.addBatch urls owner).flat f).Pictures
      ((addBatch urls owner).run ⟨m, fs⟩).2.store.owners := by
  rw [run_addBatch] at hsmooth ⊢
  rw [known_eq h] at hsmooth ⊢
  have hfailures : failures ((m.logAll (m.fresh urls owner)).run fs).1 = [] :=
    eq_nil_of_verdict fun fault hfault hkind => hsmooth fault hfault (by rw [hkind]; rfl)
  have hwritten := written_of_failures_eq_nil hfailures
  rw [map_fst_logAll, fresh_eq h] at hwritten
  dsimp only
  rw [fresh_eq h] at hfailures ⊢
  rw [hfailures, hwritten]
  refine ⟨?_, h.putAll _⟩
  cases f.known urls owner <;> rfl

/-- Adding a link puts at most its record in. -/
theorem populated_add (h : m.owners.Populated) (fs : FileSystem) (code url owner : String) :
    ((add code url owner).run ⟨m, fs⟩).2.store.owners.Populated := by
  rw [run_add]
  split
  · exact h
  · rcases (m.log { code, url, owner }).run fs with ⟨_ | _, _⟩
    · exact h
    · exact h.put _

/-- A batch puts records in, whether all of them could be written or not. -/
theorem populated_addBatch (h : m.owners.Populated) (fs : FileSystem)
    (urls : Keyed String String) (owner : String) :
    ((addBatch urls owner).run ⟨m, fs⟩).2.store.owners.Populated := by
  rw [run_addBatch]
  exact h.replay _

/-- Deleting a link puts at most its tombstone in. -/
theorem populated_delete (h : m.owners.Populated) (fs : FileSystem) (code owner : String) :
    ((delete code owner).run ⟨m, fs⟩).2.store.owners.Populated := by
  rw [run_delete]
  cases m.owners.link? owner code with
  | none => exact h
  | some link =>
    dsimp only
    split
    · exact h
    · rcases (m.log { code, url := link.url, owner, deleted := true }).run fs with ⟨_ | _, _⟩
      · exact h
      · exact h.put _

/-- A backup that is answered without a failure of the journal is done. -/
theorem backup_unfailing (h : Unfailing (backup.run ⟨m, fs⟩).1) :
    (backup.run ⟨m, fs⟩).1 = .ok () := by
  rw [backup, run_bind, Action.run_store] at h ⊢
  cases hjournal : m.journal with
  | none => simp [hjournal]
  | some journal =>
    simp only [hjournal, run_bind, Action.run_onFiles] at h ⊢
    rcases hreplace : (journal.replace m.owners.snapshot).run fs with ⟨fault | _, fs'⟩
    · rw [hreplace] at h
      exact absurd (Journal.technical_replace _ _ fs fault fs' hreplace) (h fault rfl)
    · rfl

/-- A code leads to a URL that the flat map has under it. -/
theorem resolve_flat (h : f.Pictures m.owners) (code : String) :
    f.Resolves code (m.owners.resolve code) := by
  obtain ⟨owner, url, hresolve, hlink⟩ | ⟨hresolve, hnone⟩ | ⟨hresolve, ⟨o, l, hlink⟩, hdeleted⟩ :=
    m.owners.resolve_cases code
  · exact .inl ⟨owner, url, (h owner code).trans hlink, hresolve⟩
  · refine .inr (.inr ⟨fun owner => ?_, hresolve⟩)
    rw [h owner code]
    exact Option.eq_none_iff_forall_ne_some.2 (hnone owner)
  · refine .inr (.inl ⟨⟨o, l, (h o code).trans hlink⟩, fun owner link hfind => ?_, hresolve⟩)
    exact hdeleted owner link ((h owner code).symm.trans hfind)

/-- The links of an owner are those of the flat map. -/
theorem listing_flat (h : f.Pictures m.owners) (owner : String) :
    f.Lists owner (m.owners.listing owner) := by
  obtain ⟨⟨links, hlisting, hlinks⟩, c, l, hlink⟩ | ⟨hlisting, hnone⟩ :=
    m.owners.listing_cases owner
  · refine .inl ⟨links, fun code => ?_, ⟨c, l, (h owner c).trans hlink⟩, hlisting⟩
    rw [h owner code]
    exact Option.ext (hlinks code)
  · refine .inr ⟨fun code => ?_, hlisting⟩
    rw [h owner code]
    exact Option.eq_none_iff_forall_ne_some.2 (hnone code)

end Memory

namespace Session

variable {m : Memory} {f : Flat} {s s' : Session} {st : Step} {answer : Answer}
  {history : List (Step × Answer)}

/-- A session on a memory store of which a flat map is a picture. Every owner in the store has a
link. -/
structure Depicts (f : Flat) (m : Memory) (s : Session) : Prop where
  store : s.setting.store = .memory m
  links : f.Pictures m.owners
  populated : m.owners.Populated

/-- What answers a step without a failure of the journal ended without one. -/
theorem unfailing_of_ofResult {α : Type} {reply : α → Reply} {result : Except Fault α}
    (h : ∀ fault, Answer.ofResult reply result = .fault fault → ¬fault.kind.isBackend) :
    Memory.Unfailing result := by
  rintro fault rfl
  exact h fault rfl

/-- A step is answered as the flat map says, and what it makes of the map is a picture again. -/
theorem Depicts.step (h : Depicts f m s) (hstep : (Session.step st).run s = (answer, s'))
    (hsmooth : Smooth st answer) :
    Says f st answer ∧ ∃ m', Depicts (st.flat f) m' s' := by
  obtain ⟨scheme, place, ⟨store, fs⟩⟩ := s
  obtain ⟨hstore, hlinks, hpopulated⟩ := h
  cases hstore
  cases st with
  | add code url owner =>
    rw [Session.step, Store.storage, run_act_memory] at hstep
    cases hstep
    obtain ⟨hanswer, hafter⟩ := Memory.add_flat hlinks (unfailing_of_ofResult hsmooth)
    refine ⟨?_, _, rfl, hafter, Memory.populated_add hpopulated fs code url owner⟩
    change Answer.ofResult _ ((Memory.add code url owner).run ⟨m, fs⟩).1 = _
    rw [hanswer]
    split <;> rfl
  | addBatch urls owner =>
    rw [Session.step, Store.storage, run_act_memory] at hstep
    cases hstep
    obtain ⟨hanswer, hafter⟩ := Memory.addBatch_flat hlinks (unfailing_of_ofResult hsmooth)
    refine ⟨?_, _, rfl, hafter, Memory.populated_addBatch hpopulated fs urls owner⟩
    change Answer.ofResult _ ((Memory.addBatch urls owner).run ⟨m, fs⟩).1 = _
    rw [hanswer]
    split <;> rfl
  | delete code owner =>
    rw [Session.step, Store.storage, run_act_memory] at hstep
    cases hstep
    obtain ⟨hanswer, hafter⟩ := Memory.delete_flat hlinks (unfailing_of_ofResult hsmooth)
    refine ⟨?_, _, rfl, hafter, Memory.populated_delete hpopulated fs code owner⟩
    change Answer.ofResult _ ((Memory.delete code owner).run ⟨m, fs⟩).1 = _
    rw [hanswer]
    rfl
  | get code =>
    rw [Session.step, Store.storage, Memory.storage, run_act_answer] at hstep
    cases hstep
    exact ⟨⟨_, Memory.resolve_flat hlinks code, rfl⟩, m, rfl, hlinks, hpopulated⟩
  | list owner =>
    rw [Session.step, Store.storage, Memory.storage, run_act_answer] at hstep
    cases hstep
    exact ⟨⟨_, Memory.listing_flat hlinks owner, rfl⟩, m, rfl, hlinks, hpopulated⟩
  | stats =>
    rw [Session.step, Store.storage, Memory.storage, run_act_answer] at hstep
    cases hstep
    exact ⟨congrArg (Answer.reply ∘ .stats) hlinks.stats_eq, m, rfl, hlinks, hpopulated⟩
  | backup =>
    rw [Session.step, Store.storage, run_act_memory] at hstep
    cases hstep
    have howners := Memory.owners_backup m fs
    refine ⟨?_, _, rfl, howners ▸ hlinks, howners ▸ hpopulated⟩
    change Answer.ofResult _ (Memory.backup.run ⟨m, fs⟩).1 = _
    rw [Memory.backup_unfailing (unfailing_of_ofResult hsmooth)]
    rfl
  | _ => cases hsmooth

/-- A run is answered as the flat map says. -/
theorem Depicts.run (h : Depicts f m s) (hrun : Leads Smooth s history s') :
    ∃ f' m', SaysAll f history f' ∧ Depicts f' m' s' := by
  induction hrun generalizing f m with
  | nil => exact ⟨f, m, .nil f, h⟩
  | cons hstep hsmooth _ ih =>
    obtain ⟨hnow, next, hnext⟩ := h.step hstep hsmooth
    obtain ⟨f', m', hlater, hlast⟩ := ih hnext
    exact ⟨f', m', .cons hnow hlater, hlast⟩

/-- A memory store that is empty takes any calls, with or without a journal, and its journal does
not fail. Every call is answered as one flat map says that began empty, and in the end the store has
exactly the links of that map. No owner is kept without a link. -/
theorem answers_like_flat_map {scheme : Scheme} {place : String} {fs : FileSystem}
    (hempty : m.owners = .empty) (hrun : Leads Smooth ⟨scheme, place, .memory m, fs⟩ history s) :
    ∃ f m', SaysAll .empty history f ∧ s.setting.store = .memory m' ∧
      (∀ owner code, m'.owners.link? owner code = f.find? (owner, code)) ∧
      ∀ owner links, m'.owners.find? owner = some links → ∃ code, (links.find? code).isSome := by
  have hbegin : Depicts .empty m ⟨scheme, place, .memory m, fs⟩ :=
    ⟨rfl, hempty ▸ Flat.pictures_empty, hempty ▸ Owners.populated_empty⟩
  obtain ⟨f, m', hall, hstore, hlinks, hpopulated⟩ := hbegin.run hrun
  exact ⟨f, m', hall, hstore, fun owner code => (hlinks owner code).symm, hpopulated⟩

/-- Calls of two owners with a conflict, a batch that is taken in part, and a tombstone. -/
def mixedCalls : List (Step × Answer) :=
  [(.add "a" "http://a/" "u", .reply .done),
    (.add "a" "http://b/" "u",
      .fault ⟨.conflict, "short code " ++ "a" ++ " already exists for owner " ++ "u"⟩),
    (.addBatch (.ofList [("a", "http://c/"), ("b", "http://b/")]) "u",
      .fault (Memory.taken "u" ["a"])),
    (.delete "a" "u", .reply .done),
    (.get "a", .fault (.codeDeleted "a")),
    (.list "v", .fault (.ownerUnknown "v")),
    (.stats, .reply (.stats ⟨2, 1⟩)),
    (.backup, .reply .done)]

/-- A fault of another kind is no failure of the backend. -/
theorem smooth_fault {kind : Fault.Kind} {message : String} (h : ¬kind.isBackend) (fault : Fault)
    (hfault : Answer.fault ⟨kind, message⟩ = .fault fault) : ¬fault.kind.isBackend := by
  cases hfault
  exact h

/-- The calls lead from an empty store to one where the link has its tombstone. -/
theorem leads_mixedCalls : ∃ s m', Leads Smooth ⟨.digest, "", .memory {}, {}⟩ mixedCalls s ∧
    s.setting.store = .memory m' ∧ m'.owners.link? "u" "a" = some ⟨"http://a/", true⟩ :=
  ⟨_, _, .cons rfl nofun <| .cons rfl (smooth_fault nofun) <| .cons rfl (smooth_fault nofun) <|
    .cons rfl nofun <| .cons rfl (smooth_fault nofun) <| .cons rfl (smooth_fault nofun) <|
    .cons rfl nofun <| .cons rfl nofun <| .nil _, rfl, rfl⟩

/-- These calls are answered like one flat map. -/
theorem answers_like_flat_map_mixed : ∃ s f m',
    Leads Smooth ⟨.digest, "", .memory {}, {}⟩ mixedCalls s ∧ SaysAll .empty mixedCalls f ∧
    s.setting.store = .memory m' ∧ m'.owners.link? "u" "a" = f.find? ("u", "a") ∧
    f.find? ("u", "a") = some ⟨"http://a/", true⟩ := by
  obtain ⟨s, m', hrun, hstore, hlink⟩ := leads_mixedCalls
  obtain ⟨f, m'', hall, hstore', hlinks, -⟩ := answers_like_flat_map rfl hrun
  cases hstore.symm.trans hstore'
  exact ⟨s, f, m', hrun, hall, hstore, hlinks _ _, (hlinks _ _).symm.trans hlink⟩

end Session

end ShortLinks
