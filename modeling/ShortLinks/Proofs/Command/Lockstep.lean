import Mathlib.Data.List.Nodup
import ShortLinks.Command.Run
import ShortLinks.Proofs.Deletion.Lockstep
import ShortLinks.Proofs.Service
import ShortLinks.Proofs.Sorted

/-!
# Commands in lockstep

Two consoles show the same text so far, and their stores are related so that every operation ends
alike on both. Then every command prints the same on both and ends with the same success or fault.
Lists and batches are printed in the order of their keys, so the order in which a store keeps its
entries does not show.
-/

namespace ShortLinks

namespace Keyed

variable {κ ν : Type} [DecidableEq κ] {m m' : Keyed κ ν}

/-- Maps that find the same have the same entries, in some order. -/
theorem entries_perm (h : ∀ key, m.find? key = m'.find? key) : m.entries.Perm m'.entries := by
  rw [List.perm_ext_iff_of_nodup m.nodup.of_map m'.nodup.of_map]
  rintro ⟨key, value⟩
  rw [mem_entries_iff, mem_entries_iff, h]

/-- In the order of their keys the entries of maps that find the same are the same. -/
theorem sorted_entries_eq {m m' : Keyed String ν} (h : ∀ key, m.find? key = m'.find? key) :
    (m.entries.mergeSort fun a b => decide (a.1 ≤ b.1)) =
      m'.entries.mergeSort fun a b => decide (a.1 ≤ b.1) := by
  apply mergeSort_congr Prod.fst _ (entries_perm h)
  exact fun a ha b hb hkeys => List.inj_on_of_nodup_map m.nodup ha hb hkeys

end Keyed

variable {σ α β : Type} {stores : Setting σ → Setting σ → Prop} {storage : Storage σ}
  {results : α → β → Prop}

/-- Operations end alike on stores that are related, and leave them related. Of resolving a code
nothing is said. -/
structure Storage.Blind (storage : Storage σ) (stores : Setting σ → Setting σ → Prop) : Prop where
  name : ∀ a b, stores a b → storage.name a.store = storage.name b.store
  add : ∀ code url owner a b, stores a b →
    EndsAlike Eq stores ((storage.add code url owner).run a) ((storage.add code url owner).run b)
  addBatch : ∀ urls owner a b, stores a b →
    EndsAlike Eq stores ((storage.addBatch urls owner).run a) ((storage.addBatch urls owner).run b)
  getAll : ∀ owner a b, stores a b →
    EndsAlike (fun links links' => ∀ code, links.find? code = links'.find? code) stores
      ((storage.getAll owner).run a) ((storage.getAll owner).run b)
  delete : ∀ owner, Deletion.DeletesAlike storage owner stores
  stats : ∀ a b, stores a b → EndsAlike Eq stores (storage.stats.run a) (storage.stats.run b)
  ping : ∀ a b, stores a b → EndsAlike Eq stores (storage.ping.run a) (storage.ping.run b)

namespace Service

variable {a b : Setting σ}

/-- Shortening a URL cannot tell stores apart that are alike. -/
theorem add_alike (hstorage : storage.Blind stores) (scheme : Scheme) (url owner : String)
    (h : stores a b) : EndsAlike Eq stores ((add storage scheme url owner).run a)
      ((add storage scheme url owner).run b) := by
  rw [run_add, run_add]
  cases Url.validate url with
  | error f => exact .error f h
  | ok _ =>
    have hadd := hstorage.add (scheme.encode url) url owner a b h
    simp only
    generalize (storage.add (scheme.encode url) url owner).run a = ended at hadd
    generalize (storage.add (scheme.encode url) url owner).run b = ended' at hadd
    obtain ⟨-, hafter⟩ | ⟨f, hafter⟩ := hadd <;> exact .of_eq rfl hafter

/-- Shortening a batch cannot tell stores apart that are alike. -/
theorem addBatch_alike (hstorage : storage.Blind stores) (scheme : Scheme)
    (batch : Keyed String String) (owner : String) (h : stores a b) :
    EndsAlike Eq stores ((addBatch storage scheme batch owner).run a)
      ((addBatch storage scheme batch owner).run b) := by
  rw [run_addBatch, run_addBatch]
  cases validateAll batch.entries with
  | error f => exact .error f h
  | ok _ =>
    simp only
    split
    · exact .ok rfl h
    · have hadd := hstorage.addBatch (byCode scheme batch) owner a b h
      generalize (storage.addBatch (byCode scheme batch) owner).run a = ended at hadd
      generalize (storage.addBatch (byCode scheme batch) owner).run b = ended' at hadd
      obtain ⟨-, hafter⟩ | ⟨f, hafter⟩ := hadd <;> exact .of_eq rfl hafter

end Service

/-- Two consoles show the same, and their stores are related. -/
structure Console.Alike (stores : Setting σ → Setting σ → Prop) (c d : Console σ) : Prop where
  color : c.color = d.color
  printed : c.printed = d.printed
  stores : stores c.setting d.setting

/-- Consoles stay alike when their stores go on to others that are related. -/
theorem Console.Alike.moved {c d : Console σ} {a b : Setting σ} (h : c.Alike stores d)
    (hstores : stores a b) :
    Console.Alike stores { c with setting := a } { d with setting := b } :=
  ⟨h.color, h.printed, hstores⟩

/-- A file is read alike on settings that are related, and they stay as they are. -/
def ReadsAlike (stores : Setting σ → Setting σ → Prop) (path : String) : Prop :=
  ∀ a b, stores a b → ∃ text, (Disk.readText path).run a.files = (text, a.files) ∧
    (Disk.readText path).run b.files = (text, b.files)

namespace Terminal

open Console

variable {c d : Console σ}

/-- Looking at how an action of the store ended keeps what is printed. -/
theorem run_outcome (x : Action σ α) (c : Console σ) : (outcome x).run c =
    (.ok (x.run c.setting).1, { c with setting := (x.run c.setting).2 }) := rfl

/-- An action of the store prints nothing, and its fault is one of the service. -/
theorem run_onStore (x : Action σ α) (c : Console σ) : (onStore x).run c =
    ((x.run c.setting).1.mapError .service, { c with setting := (x.run c.setting).2 }) := by
  rw [onStore, run_bind, run_outcome]
  rcases x.run c.setting with ⟨_ | _, _⟩ <;> rfl

/-- Work on the files prints nothing, and its error is a fault with a message. -/
theorem run_onFiles (x : Disk α) (message : IoError → String) (c : Console σ) :
    (onFiles x message).run c = ((x.run c.setting.files).1.mapError (.failed ∘ message),
      { c with setting := ⟨c.setting.store, (x.run c.setting.files).2⟩ }) := by
  rw [onFiles, run_bind, run_outcome, Action.run_outcomeOnFiles]
  have hrun : StateT.run x.run c.setting.files = x.run c.setting.files := rfl
  rw [hrun]
  rcases x.run c.setting.files with ⟨_ | _, _⟩ <;> rfl

/-- Printing the same pieces keeps consoles alike. -/
theorem print_alike (h : c.Alike stores d) (pieces : List String) :
    EndsAlike Eq (Alike stores) ((print pieces).run c) ((print pieces).run d) := by
  rw [print, run_modify, run_modify]
  exact .ok rfl ⟨h.color, by rw [h.printed], h.stores⟩

/-- Printing the same line keeps consoles alike. -/
theorem printLine_alike (h : c.Alike stores d) (pieces : List String) :
    EndsAlike Eq (Alike stores) ((printLine pieces).run c) ((printLine pieces).run d) :=
  print_alike h _

/-- Printing the same lines keeps consoles alike. -/
theorem printLines_alike (h : c.Alike stores d) (lineOf : α → List String) (items : List α) :
    EndsAlike Eq (Alike stores) ((printLines lineOf items).run c)
      ((printLines lineOf items).run d) := by
  induction items generalizing c d with
  | nil => exact .ok rfl h
  | cons item rest ih => exact (printLine_alike h _).bind fun _ _ _ _ _ hafter => ih hafter

/-- Consoles that are alike paint alike. -/
theorem painter_alike (h : c.Alike stores d) :
    EndsAlike Eq (Alike stores) (painter.run c) (painter.run d) := by
  simp only [painter, run_bind, run_get, run_pure, h.color]
  exact .ok rfl h

/-- What an action does alike to stores it does alike to consoles. -/
theorem onStore_alike {x : Action σ α} {y : Action σ β} (h : c.Alike stores d)
    (hends : EndsAlike results stores (x.run c.setting) (y.run d.setting)) :
    EndsAlike results (Alike stores) ((onStore x).run c) ((onStore y).run d) := by
  rw [run_onStore, run_onStore]
  generalize x.run c.setting = ended at hends
  generalize y.run d.setting = ended' at hends
  obtain ⟨hresults, hafter⟩ | ⟨f, hafter⟩ := hends
  · exact .ok hresults (h.moved hafter)
  · exact .error _ (h.moved hafter)

/-- A file that reads alike is read with the same result. -/
theorem readText_alike {path : String} (h : c.Alike stores d) (hread : ReadsAlike stores path)
    (message : IoError → String) :
    EndsAlike Eq (Alike stores) ((onFiles (Disk.readText path) message).run c)
      ((onFiles (Disk.readText path) message).run d) := by
  obtain ⟨text, hleft, hright⟩ := hread c.setting d.setting h.stores
  rw [run_onFiles, run_onFiles, hleft, hright]
  exact .of_eq rfl h

end Terminal

namespace Context

open Terminal Console

variable {x : Context σ} {c d : Console σ}

/-- A link is added with the same result and the same words. -/
theorem addLink_alike (hstorage : x.storage.Blind stores) (h : c.Alike stores d) (url : String) :
    EndsAlike Eq (Alike stores) ((x.addLink url).run c) ((x.addLink url).run d) := by
  refine (painter_alike h).bind ?_
  rintro paint _ c d rfl h
  refine (onStore_alike h (Service.add_alike hstorage _ url _ h.stores)).bind ?_
  rintro shortened _ c d rfl h
  cases shortened <;> exact printLine_alike h _

/-- A batch is added alike if its file is read alike. -/
theorem addBatch_alike (hstorage : x.storage.Blind stores) (h : c.Alike stores d) {path : String}
    (hread : ReadsAlike stores path) :
    EndsAlike Eq (Alike stores) ((x.addBatch path).run c) ((x.addBatch path).run d) := by
  refine (painter_alike h).bind ?_
  rintro paint _ c d rfl h
  refine (readText_alike h hread _).bind ?_
  rintro content _ c d rfl h
  cases Batch.read content with
  | error problem => exact .error _ h
  | ok batch =>
    refine (onStore_alike h (Service.addBatch_alike hstorage _ batch _ h.stores)).bind ?_
    rintro codes _ c d rfl h
    exact (printLines_alike h _ _).bind fun _ _ _ _ _ h => printLine_alike h _

/-- The URL behind a code is shown alike if the code resolves alike on both sides. -/
theorem getLink_alike (h : c.Alike stores d) {code : String}
    (hget : EndsAlike Eq stores ((x.storage.get code).run c.setting)
      ((x.storage.get code).run d.setting)) :
    EndsAlike Eq (Alike stores) ((x.getLink code).run c) ((x.getLink code).run d) := by
  refine (onStore_alike h hget).bind ?_
  rintro url _ c d rfl h
  exact printLine_alike h _

/-- The links of an owner are listed in the same words. -/
theorem listLinks_alike (hstorage : x.storage.Blind stores) (h : c.Alike stores d) :
    EndsAlike Eq (Alike stores) (x.listLinks.run c) (x.listLinks.run d) := by
  refine (painter_alike h).bind ?_
  rintro paint _ c d rfl h
  have hlinks := hstorage.getAll x.owner c.setting d.setting h.stores
  rw [run_bind, run_bind, run_outcome, run_outcome]
  generalize (x.storage.getAll x.owner).run c.setting = ended at hlinks
  generalize (x.storage.getAll x.owner).run d.setting = ended' at hlinks
  obtain ⟨hsame, hafter⟩ | ⟨fault, hafter⟩ := hlinks
  · have hperm := Keyed.entries_perm hsame
    simp only [Keyed.sorted_entries_eq hsame, Keyed.size, hperm.length_eq, hperm.countP_eq]
    refine (printLine_alike (h.moved hafter) _).bind fun _ _ _ _ _ h => ?_
    refine (printLine_alike h _).bind fun _ _ _ _ _ h => ?_
    refine (printLines_alike h _ _).bind fun _ _ _ _ _ h => ?_
    exact (printLine_alike h _).bind fun _ _ _ _ _ h => printLine_alike h _
  · simp only
    split
    · exact printLine_alike (h.moved hafter) _
    · exact .error _ (h.moved hafter)

/-- The deletions of a command are a run of the pipeline. -/
theorem run_deletions (x : Context σ) (codes : List String) (s : Setting σ) :
    (x.deletions codes).run s =
      let request : Deletion.Request := { codes, owner := x.owner, workers := x.workers }
      (.ok (request.run x.storage s).1.report, (request.run x.storage s).2) := rfl

/-- Links are deleted with the same report. -/
theorem deleteLinks_alike (hstorage : x.storage.Blind stores) (h : c.Alike stores d)
    (codes : List String) :
    EndsAlike Eq (Alike stores) ((x.deleteLinks codes).run c) ((x.deleteLinks codes).run d) := by
  refine (painter_alike h).bind ?_
  rintro paint _ c d rfl h
  have hdeletions : EndsAlike Eq stores ((x.deletions codes).run c.setting)
      ((x.deletions codes).run d.setting) := by
    obtain ⟨hrun, hafter⟩ := Deletion.Request.run_alike
      { codes, owner := x.owner, workers := x.workers } (hstorage.delete x.owner) h.stores
    simp only [run_deletions, hrun]
    exact .ok rfl hafter
  refine (onStore_alike h hdeletions).bind ?_
  rintro report _ c d rfl h
  refine (printLines_alike h _ _).bind fun _ _ _ _ _ h => ?_
  refine (printLines_alike h _ _).bind fun _ _ _ _ _ h => ?_
  refine (printLines_alike h _ _).bind fun _ _ _ _ _ h => ?_
  split
  · exact .error _ h
  · exact .ok rfl h

/-- The statistics are shown in the same words. -/
theorem showStats_alike (hstorage : x.storage.Blind stores) (h : c.Alike stores d) :
    EndsAlike Eq (Alike stores) (x.showStats.run c) (x.showStats.run d) := by
  refine (painter_alike h).bind ?_
  rintro paint _ c d rfl h
  refine (onStore_alike h (hstorage.stats _ _ h.stores)).bind ?_
  rintro stats _ c d rfl h
  rw [run_bind, run_bind, run_get, run_get]
  simp only [hstorage.name _ _ h.stores]
  refine (printLine_alike h _).bind fun _ _ _ _ _ h => ?_
  refine (printLine_alike h _).bind fun _ _ _ _ _ h => ?_
  exact (printLine_alike h _).bind fun _ _ _ _ _ h => printLine_alike h _

/-- A ping is answered in the same words. -/
theorem pingStore_alike (hstorage : x.storage.Blind stores) (h : c.Alike stores d) :
    EndsAlike Eq (Alike stores) (x.pingStore.run c) (x.pingStore.run d) := by
  refine (painter_alike h).bind ?_
  rintro paint _ c d rfl h
  refine (onStore_alike h (hstorage.ping _ _ h.stores)).bind ?_
  rintro _ _ c d - h
  rw [run_bind, run_bind, run_get, run_get]
  simp only [hstorage.name _ _ h.stores]
  exact printLine_alike h _

/-- A command prints the same on both consoles and ends alike. -/
theorem run_alike (hstorage : x.storage.Blind stores) (h : c.Alike stores d) (command : Command)
    (hget : ∀ code, command = .get code → EndsAlike Eq stores
      ((x.storage.get code).run c.setting) ((x.storage.get code).run d.setting))
    (hread : ∀ path, command = .batch path → ReadsAlike stores path) :
    EndsAlike Eq (Alike stores) ((x.run command).run c) ((x.run command).run d) := by
  cases command with
  | add url => exact addLink_alike hstorage h url
  | batch path => exact addBatch_alike hstorage h (hread path rfl)
  | get code => exact getLink_alike h (hget code rfl)
  | list => exact listLinks_alike hstorage h
  | delete codes => exact deleteLinks_alike hstorage h codes
  | stats => exact showStats_alike hstorage h
  | ping => exact pingStore_alike hstorage h
  | generateConfig path force => exact .error _ h

end Context

end ShortLinks
