import ShortLinks.Proofs.Deletion.Completion
import ShortLinks.Proofs.Session.Agreement
import ShortLinks.Proofs.Store.Isolation

/-!
# Owners do not notice each other

In a session on a memory store each owner is answered as if there were no others. The argument is
the one for noninterference: what an owner has is the links under the owner's codes; a step that is
not the owner's leaves them, and a step of the owner's is answered from them alone and changes them
by themselves. So two runs in which the owner makes the same calls give the owner the same answers,
whatever else happens between these calls.
-/

namespace ShortLinks

namespace Deletion

variable {setting setting' t : Setting Store} {calls : List Outcome} {owner other : String}

/-- A rehearsed deletion for another owner does not matter to an owner. -/
theorem leaves_rehearsed (h : other ≠ owner) (r : Rehearsal) (code : String) :
    Store.Leaves owner ((r.storage Store.storage).delete code other) := by
  simp only [Rehearsal.storage]
  split
  · exact fun _ _ hshares => hshares
  · exact Store.leaves_delete h code

/-- Deletions for another owner do not matter to an owner. -/
theorem Performs.shares {r : Rehearsal} (h : other ≠ owner)
    (hperforms : Performs (r.storage Store.storage) other setting calls setting')
    (hshares : Store.Shares owner setting t) : Store.Shares owner setting' t := by
  induction hperforms with
  | nil => exact hshares
  | snoc job _ ih => exact leaves_rehearsed h r job.code _ _ ih

/-- A request of another owner does not matter to an owner. -/
theorem shares_run {r : Rehearsal} (h : r.request.owner ≠ owner)
    (hshares : Store.Shares owner setting t) :
    Store.Shares owner (r.request.run (r.storage Store.storage) setting).2 t := by
  obtain ⟨events, calls, last, hruns, -, -, hsetting⟩ :=
    r.request.run_runs (r.storage Store.storage) setting
  rw [hsetting]
  exact hruns.performs.shares h hshares

end Deletion

namespace Session

variable {owner : String} {s s' t t' : Session} {step step' : Step} {answer answer' : Answer}
  {first second : List (Step × Answer)}

/-- The owner that a step is for. -/
def Step.caller? : Step → Option String
  | .shorten _ owner | .shortenBatch _ owner | .add _ _ owner | .addBatch _ owner | .list owner
  | .delete _ owner => some owner
  | .deleteMany r => some r.request.owner
  | _ => none

/-- Two steps are the same call, up to the order of the entries of a batch. -/
def Step.SameCall : Step → Step → Prop
  | .addBatch urls owner, .addBatch urls' owner' =>
    (∀ code, urls.find? code = urls'.find? code) ∧ owner = owner'
  | step, step' => step = step'

/-- The steps that an owner may see in a store that goes on: what is not for this owner is anything
but another store, and what is for this owner is a call that does not fail on the files. -/
structure Serves (owner : String) (step : Step) (answer : Answer) : Prop where
  stays : ∀ mode patience, step ≠ .reopen mode patience
  call : step.caller? = some owner → ∀ r, step ≠ .deleteMany r
  unfailed : step.caller? = some owner → ∀ f, answer = .fault f → f.kind ≠ .fileOperation

/-- The calls of an owner in a run, with their answers. -/
def callsOf (owner : String) (run : List (Step × Answer)) : List (Step × Answer) :=
  run.filter fun call => call.1.caller? = some owner

/-- Two sessions on memory stores with one scheme have the same links of an owner. -/
structure Shares (owner : String) (s t : Session) : Prop where
  scheme : s.scheme = t.scheme
  settings : Store.Shares owner s.setting t.setting

/-- That sessions share the links of an owner holds in both directions. -/
theorem Shares.symm (h : Shares owner s t) : Shares owner t s := ⟨h.scheme.symm, h.settings.symm⟩

/-- What is done with the store for others does not matter to an owner. -/
theorem Shares.act {α : Type} {x : Action Store α} (reply : α → Reply) (h : Shares owner s t)
    (hx : Store.Leaves owner x) (hstep : (act x reply).run s = (answer, s')) :
    Shares owner s' t := by
  rw [run_act] at hstep
  cases hstep
  exact ⟨h.scheme, hx _ _ h.settings⟩

/-- What is done with the files does not matter to an owner. -/
theorem Shares.onFiles {α : Type} (x : Disk α) {f : Except IoError α → StateM Session Answer}
    (h : Shares owner s t) (hf : ∀ result u, ((f result).run u).2 = u)
    (hstep : (Session.onFiles x >>= f).run s = (answer, s')) : Shares owner s' t := by
  obtain ⟨scheme, path, setting⟩ := s
  obtain ⟨scheme', path', setting'⟩ := t
  obtain ⟨hscheme, ⟨hshares⟩⟩ := h
  obtain rfl := (hf _ _).symm.trans (congrArg Prod.snd hstep)
  exact ⟨hscheme, .memory hshares⟩

/-- A memory store has no table to change. -/
theorem Shares.tamper {change : Table → Table} (h : Shares owner s t)
    (hstep : (Session.tamper change).run s = (answer, s')) : Shares owner s' t := by
  obtain ⟨scheme, path, setting⟩ := s
  obtain ⟨scheme', path', setting'⟩ := t
  obtain ⟨hscheme, ⟨hshares⟩⟩ := h
  cases hstep
  exact ⟨hscheme, .memory hshares⟩

/-- A step that is not for an owner does not matter to this owner. -/
theorem Shares.leave (h : Shares owner s t) (hserves : Serves owner step answer)
    (hcaller : step.caller? ≠ some owner) (hstep : (Session.step step).run s = (answer, s')) :
    Shares owner s' t := by
  have hother {other : String} (h : some other ≠ some owner) : other ≠ owner :=
    fun hsame => h (congrArg some hsame)
  cases step with
  | shorten url other =>
    rw [run_shorten] at hstep
    exact h.act _ (Store.leaves_shorten (hother hcaller) _ url) hstep
  | shortenBatch batch other =>
    rw [run_shortenBatch] at hstep
    exact h.act _ (Store.leaves_shortenBatch (hother hcaller) _ batch) hstep
  | encode url =>
    cases hstep
    exact h
  | validate url =>
    rw [Session.step, run_act, Action.run_answer] at hstep
    cases hstep
    exact h
  | add code url other => exact h.act _ (Store.leaves_add (hother hcaller) code url) hstep
  | addBatch urls other => exact h.act _ (Store.leaves_addBatch (hother hcaller) urls) hstep
  | get code => exact h.act _ (Store.leaves_get code) hstep
  | list other => exact h.act _ (Store.leaves_getAll other) hstep
  | delete code other => exact h.act _ (Store.leaves_delete (hother hcaller) code) hstep
  | deleteMany r =>
    have hrun : ((Session.step (.deleteMany r)).run s).2 = { s with
        setting := (r.request.run (r.storage Store.storage) s.setting).2 } := rfl
    obtain rfl := hrun.symm.trans (congrArg Prod.snd hstep)
    exact ⟨h.scheme, Deletion.shares_run (hother hcaller) h.settings⟩
  | stats => exact h.act _ Store.leaves_stats hstep
  | ping => exact h.act _ Store.leaves_ping hstep
  | backup => exact h.act _ Store.leaves_backup hstep
  | info =>
    cases hstep
    exact h
  | reopen mode patience => exact absurd rfl (hserves.stays mode patience)
  | showFile path | showLines path =>
    rw [Session.step, runState_bind, runState_get] at hstep
    exact h.onFiles _ (fun result u => by cases result <;> rfl) hstep
  | writeFile path bytes | appendFile path bytes =>
    exact h.onFiles _ (fun result u => by cases result <;> rfl) hstep
  | removeFile path | makeDirectory path =>
    exact h.onFiles _ (fun result u => by cases result <;> rfl) hstep
  | poison url | dropTable | lock =>
    rw [Session.step] at hstep
    exact h.tamper hstep

/-- What does not fail on the files in a session does not fail on the files in its store. -/
theorem unfailed_of_act {α : Type} {x : Action Store α} {reply : α → Reply}
    (hstep : (act x reply).run s = (answer, s'))
    (hanswer : ∀ f, answer = .fault f → f.kind ≠ .fileOperation) :
    Unfailed (x.run s.setting).1 := by
  intro f hf
  rw [run_act] at hstep
  cases hstep
  rw [hf] at hanswer
  exact hanswer f rfl

/-- What ends alike on two stores is answered alike in their sessions. -/
theorem Shares.act_alike {α : Type} {x x' : Action Store α} {reply : α → Reply}
    {results : α → α → Prop} (h : Shares owner s t)
    (halike : EndsAlike results (Store.Shares owner) (x.run s.setting) (x'.run t.setting))
    (hreply : ∀ a b, results a b → (Answer.reply (reply a)).Same (.reply (reply b)))
    (hstep : (Session.act x reply).run s = (answer, s'))
    (hstep' : (Session.act x' reply).run t = (answer', t')) :
    answer.Same answer' ∧ Shares owner s' t' := by
  rw [run_act] at hstep hstep'
  cases hstep
  cases hstep'
  generalize x.run s.setting = ended at halike
  generalize x'.run t.setting = ended' at halike
  obtain ⟨hresults, hsettings⟩ | ⟨f, hsettings⟩ := halike
  · exact ⟨hreply _ _ hresults, h.scheme, hsettings⟩
  · exact ⟨Answer.same_refl _, h.scheme, hsettings⟩

/-- A call of an owner is answered alike in sessions that have the same links of the owner, and
leaves them with the same links of the owner. -/
theorem Shares.call (h : Shares owner s t) (hcaller : step.caller? = some owner)
    (hserves : Serves owner step answer) (hserves' : Serves owner step' answer')
    (hsame : step.SameCall step') (hstep : (Session.step step).run s = (answer, s'))
    (hstep' : (Session.step step').run t = (answer', t')) :
    answer.Same answer' ∧ Shares owner s' t' := by
  have hunfailed := hserves.unfailed hcaller
  have hequal {α : Type} (reply : α → Reply) (a b : α) (hab : a = b) :
      (Answer.reply (reply a)).Same (.reply (reply b)) := hab ▸ Answer.same_refl _
  cases step with
  | shorten url caller =>
    obtain rfl : Step.shorten url caller = step' := hsame
    obtain rfl : caller = owner := Option.some.inj hcaller
    rw [run_shorten] at hstep hstep'
    rw [← h.scheme] at hstep'
    exact h.act_alike (h.settings.shorten (unfailed_of_act hstep hunfailed)
      (unfailed_of_act hstep' (hserves'.unfailed rfl))) (hequal _) hstep hstep'
  | shortenBatch batch caller =>
    obtain rfl : Step.shortenBatch batch caller = step' := hsame
    obtain rfl : caller = owner := Option.some.inj hcaller
    rw [run_shortenBatch] at hstep hstep'
    rw [← h.scheme] at hstep'
    exact h.act_alike (h.settings.shortenBatch (unfailed_of_act hstep hunfailed)
      (unfailed_of_act hstep' (hserves'.unfailed rfl))) (hequal _) hstep hstep'
  | add code url caller =>
    obtain rfl : Step.add code url caller = step' := hsame
    obtain rfl : caller = owner := Option.some.inj hcaller
    exact h.act_alike (h.settings.add (unfailed_of_act hstep hunfailed)
      (unfailed_of_act hstep' (hserves'.unfailed rfl))) (hequal _) hstep hstep'
  | addBatch urls caller =>
    obtain rfl : caller = owner := Option.some.inj hcaller
    cases step' with
    | addBatch urls' caller' =>
      obtain ⟨hurls, rfl⟩ := hsame
      exact h.act_alike (h.settings.addBatch hurls (unfailed_of_act hstep hunfailed)
        (unfailed_of_act hstep' (hserves'.unfailed rfl))) (hequal _) hstep hstep'
    | _ => cases hsame
  | list caller =>
    obtain rfl : Step.list caller = step' := hsame
    obtain rfl : caller = owner := Option.some.inj hcaller
    refine h.act_alike h.settings.getAll (fun _ _ hlinks => ?_) hstep hstep'
    exact hlinks
  | delete code caller =>
    obtain rfl : Step.delete code caller = step' := hsame
    obtain rfl : caller = owner := Option.some.inj hcaller
    exact h.act_alike (h.settings.delete (unfailed_of_act hstep hunfailed)
      (unfailed_of_act hstep' (hserves'.unfailed rfl))) (hequal _) hstep hstep'
  | deleteMany r => exact absurd rfl (hserves.call hcaller r)
  | _ => cases hcaller

/-- Where an owner calls nothing, nothing of the owner changes. -/
theorem Leads.shares (hleads : Leads (Serves owner) s first s') (hnone : callsOf owner first = [])
    (h : Shares owner s t) : Shares owner s' t := by
  induction hleads with
  | nil => exact h
  | cons hstep hserves _ ih =>
    rw [callsOf, List.filter_eq_nil_iff, List.forall_mem_cons] at hnone
    have hcaller := by simpa using hnone.1
    exact ih (List.filter_eq_nil_iff.2 hnone.2) (h.leave hserves hcaller hstep)

/-- A run in which an owner calls something goes on without the owner up to that call. -/
theorem Leads.split {later : List (Step × Answer)} (hleads : Leads (Serves owner) s first s')
    (hcalls : callsOf owner first = (step, answer) :: later) (h : Shares owner s t) :
    ∃ before after rest, Shares owner before t ∧ Serves owner step answer ∧
      (Session.step step).run before = (answer, after) ∧ Leads (Serves owner) after rest s' ∧
      callsOf owner rest = later := by
  induction hleads with
  | nil => cases hcalls
  | @cons s next last step₁ answer₁ rest hstep hserves hlater ih =>
    by_cases hcaller : step₁.caller? = some owner
    · rw [callsOf, List.filter_cons_of_pos (by simpa using hcaller)] at hcalls
      obtain ⟨hcall, hrest⟩ := List.cons.inj hcalls
      cases hcall
      exact ⟨s, next, rest, h, hserves, hstep, hlater, hrest⟩
    · rw [callsOf, List.filter_cons_of_neg (by simpa using hcaller)] at hcalls
      exact ih hcalls (h.leave hserves hcaller hstep)

/-- Two runs on memory stores that have the same links of an owner: whatever the others do in them,
be it nothing, and whenever they do it, if the owner makes the same calls in both, and none of these
fails on the files, the owner gets the same answers, and the stores have the same links of the owner
in the end. -/
theorem owner_noninterference (hshares : Shares owner s t)
    (hfirst : Leads (Serves owner) s first s') (hsecond : Leads (Serves owner) t second t')
    (hcalls : List.Forall₂ (fun call call' => call.1.SameCall call'.1)
      (callsOf owner first) (callsOf owner second)) :
    List.Forall₂ (fun call call' => call.2.Same call'.2)
      (callsOf owner first) (callsOf owner second) ∧ Shares owner s' t' := by
  induction hfirst generalizing t second with
  | nil =>
    have hnone : callsOf owner second = [] := List.forall₂_nil_left_iff.1 hcalls
    rw [hnone]
    exact ⟨.nil, (hsecond.shares hnone hshares.symm).symm⟩
  | @cons s next last step answer later hstep hserves hlater ih =>
    by_cases hcaller : step.caller? = some owner
    · have hfirst : callsOf owner ((step, answer) :: later) =
          (step, answer) :: callsOf owner later := List.filter_cons_of_pos (by simpa using hcaller)
      rw [hfirst] at hcalls ⊢
      obtain ⟨⟨step', answer'⟩, others, hsame, hrest, hothers⟩ :=
        List.forall₂_cons_left_iff.1 hcalls
      obtain ⟨before, after, rest, hbefore, hserves', hstep', hgoes, hcallsOf⟩ :=
        hsecond.split hothers hshares.symm
      obtain ⟨hanswer, hafter⟩ := hbefore.symm.call hcaller hserves hserves' hsame hstep hstep'
      rw [← hcallsOf] at hrest
      obtain ⟨hanswers, hlast⟩ := ih hafter hgoes hrest
      rw [hothers, ← hcallsOf]
      exact ⟨.cons hanswer hanswers, hlast⟩
    · have hfirst : callsOf owner ((step, answer) :: later) = callsOf owner later :=
        List.filter_cons_of_neg (by simpa using hcaller)
      rw [hfirst] at hcalls ⊢
      exact ih (hshares.leave hserves hcaller hstep) hsecond hcalls

/-- A store on which two owners have a link under one code, each deleted or not. -/
def shared (deleted deleted' : Bool) : Session where
  scheme := .base64Tail
  path := ""
  setting := ⟨.memory { owners := Owners.replay .empty [⟨"c", "http://a/", "a", deleted⟩,
    ⟨"c", "http://b/", "b", deleted'⟩] }, {}⟩

/-- An owner tries to take a code again and deletes it. The other owner deletes the link under this
code in between, or does nothing. -/
theorem owner_noninterference_one_code : ∃ first second,
    Leads (Serves "a") (shared false false) first (shared true true) ∧
    Leads (Serves "a") (shared false false) second (shared true false) ∧
    first.length = 4 ∧ second.length = 3 ∧
    List.Forall₂ (fun call call' => call.2.Same call'.2)
      (callsOf "a" first) (callsOf "a" second) ∧
    Shares "a" (shared true true) (shared true false) := by
  have hconflict : Serves "a" (.add "c" "http://z/" "a")
      (.fault ⟨.conflict, "short code c already exists for owner a"⟩) :=
    ⟨nofun, fun _ => nofun, by rintro - f ⟨⟩; decide⟩
  have hreply (step : Step) (reply : Reply) (hstep : step = .delete "c" "a" ∨ step = .list "a") :
      Serves "a" step (.reply reply) := by
    obtain rfl | rfl := hstep <;> exact ⟨nofun, fun _ => nofun, fun _ => nofun⟩
  have hother : Serves "a" (.delete "c" "b") (.reply .done) :=
    ⟨nofun, fun _ => nofun, fun h => absurd h (by decide)⟩
  have hadd : (step (.add "c" "http://z/" "a")).run (shared false false) =
      (.fault ⟨.conflict, "short code c already exists for owner a"⟩, shared false false) := rfl
  have hforeign : (step (.delete "c" "b")).run (shared false false) =
      (.reply .done, shared false true) := rfl
  have hdelete (deleted' : Bool) : (step (.delete "c" "a")).run (shared false deleted') =
      (.reply .done, shared true deleted') := rfl
  have hlist (deleted' : Bool) : (step (.list "a")).run (shared true deleted') =
      (.reply (.links (.ofList [("c", ⟨"http://a/", true⟩)])), shared true deleted') := rfl
  have hend (deleted' : Bool) := Leads.cons (hdelete deleted') (hreply _ _ (.inl rfl))
    (.cons (hlist deleted') (hreply _ _ (.inr rfl)) (.nil _))
  have hfirst := Leads.cons hadd hconflict (.cons hforeign hother (hend true))
  have hsecond := Leads.cons hadd hconflict (hend false)
  obtain ⟨hanswers, hshares⟩ := owner_noninterference ⟨rfl, .memory (.refl "a" _)⟩ hfirst hsecond
    (.cons rfl (.cons rfl (.cons rfl .nil)))
  exact ⟨_, _, hfirst, hsecond, rfl, rfl, hanswers, hshares⟩

end Session

end ShortLinks
