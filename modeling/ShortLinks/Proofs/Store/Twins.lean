import ShortLinks.Proofs.Journal.Site
import ShortLinks.Proofs.Session.Steps
import ShortLinks.Proofs.Store.Durable

/-!
# Stores with the same links

Two memory stores have the same links and keep their journals at one site, where nothing fails. They
may differ in the order of their entries and in what their journals hold by now. Every operation of
a store ends alike on both: with the same answer, or the same fault, and with the same links
afterwards. Only resolving a code asks for more, as it takes the first link that it meets: the links
under the code that are not deleted must have one URL.
-/

namespace ShortLinks

namespace Owners

variable {a b : Owners} {owner code : String}

/-- The same links have the same records, in some order. -/
theorem Same.records_perm (h : Same a b) : a.records.Perm b.records := by
  rw [List.perm_ext_iff_of_nodup (nodup_keys_records a).of_map (nodup_keys_records b).of_map]
  intro r
  rw [mem_records, mem_records, h]

/-- The same links have the same owners, in some order. -/
theorem Same.holders_perm (h : Same a b) : a.holders.Perm b.holders := by
  rw [List.perm_ext_iff_of_nodup (nodup_holders a) (nodup_holders b)]
  intro owner
  simp only [mem_holders, h owner]

/-- Maps with the same links have the same statistics. -/
theorem Same.stats (h : Same a b) : a.stats = b.stats := by
  rw [stats_eq, stats_eq, h.records_perm.length_eq, h.holders_perm.length_eq]

/-- Maps with the same links list the same links for an owner, or both list none. -/
theorem Same.listing (h : Same a b) (owner : String) :
    (∃ links links', a.listing owner = .ok links ∧ b.listing owner = .ok links' ∧
      ∀ code, links.find? code = links'.find? code) ∨
    ∃ f, a.listing owner = .error f ∧ b.listing owner = .error f :=
  SameOf.listing fun code => h owner code

/-- The links under a code that are not deleted have one URL. -/
def OneUrl (o : Owners) (code : String) : Prop :=
  ∀ l ∈ o.linksUnder code, ∀ l' ∈ o.linksUnder code,
    l.deleted = false → l'.deleted = false → l.url = l'.url

instance (o : Owners) (code : String) : Decidable (o.OneUrl code) :=
  inferInstanceAs (Decidable (∀ l ∈ o.linksUnder code, ∀ l' ∈ o.linksUnder code,
    l.deleted = false → l'.deleted = false → l.url = l'.url))

/-- Maps with the same links resolve a code alike, if there is one URL to choose from. -/
theorem Same.resolve (h : Same a b) (hone : a.OneUrl code) : a.resolve code = b.resolve code := by
  obtain ⟨o, url, hok, hlink⟩ | ⟨hunknown, hnone⟩ | ⟨hdeleted, ⟨o, l, hlink⟩, hall⟩ :=
      resolve_cases a code <;>
    obtain ⟨o', url', hok', hlink'⟩ | ⟨hunknown', hnone'⟩ | ⟨hdeleted', ⟨o', l', hlink'⟩, hall'⟩ :=
      resolve_cases b code
  · have hlink' := (h o' code).trans hlink'
    have hurl := hone _ (mem_linksUnder.2 ⟨o, hlink⟩) _ (mem_linksUnder.2 ⟨o', hlink'⟩) rfl rfl
    rw [hok, hok', show url = url' from hurl]
  · exact absurd (h o code ▸ hlink) (hnone' o _)
  · cases hall' o _ (h o code ▸ hlink)
  · exact absurd ((h o' code).trans hlink') (hnone o' _)
  · rw [hunknown, hunknown']
  · exact absurd ((h o' code).trans hlink') (hnone o' _)
  · cases hall o' _ ((h o' code).trans hlink')
  · exact absurd (h o code ▸ hlink) (hnone' o _)
  · rw [hdeleted, hdeleted']

end Owners

namespace Memory

variable {w : Site} {m : Memory} {fs fs' : FileSystem} {s t : Setting Memory}

/-- A memory store on files where its journal can be written. -/
structure At (w : Site) (s : Setting Memory) : Prop where
  kept : w.Kept s.files
  journal : ∃ j, s.store.journal = some j ∧ w.Holds j
  populated : s.store.owners.Populated

/-- Two memory stores at one site with the same links. -/
structure Twins (w : Site) (s t : Setting Memory) : Prop where
  same : s.store.owners.Same t.store.owners
  first : At w s
  second : At w t

/-- A record is logged where nothing fails. -/
theorem At.run_log (h : At w ⟨m, fs⟩) (r : Record) :
    ∃ fs', (m.log r).run fs = (.ok (), fs') ∧ w.Kept fs' := by
  obtain ⟨j, hjournal, hj⟩ := h.journal
  obtain ⟨_, fs', hrun, hkept⟩ := w.succeeds_append_record hj r fs h.kept
  exact ⟨fs', by rw [log, hjournal]; exact hrun, hkept⟩

/-- Records are logged where nothing fails. -/
theorem At.run_logAll (h : At w ⟨m, fs⟩) (records : List Record) :
    ∃ fs', (m.logAll records).run fs = (records.map fun r => (r, .ok ()), fs') ∧ w.Kept fs' := by
  induction records generalizing fs with
  | nil => exact ⟨fs, rfl, h.kept⟩
  | cons r rest ih =>
    obtain ⟨fs₁, hrun, hkept⟩ := h.run_log r
    obtain ⟨fs₂, hrest, hkept₂⟩ := ih ⟨hkept, h.journal, h.populated⟩
    refine ⟨fs₂, ?_, hkept₂⟩
    rw [run_logAll_cons rest hrun, hrest]
    rfl

/-- A store that keeps its journal and gets more records stays at its site. -/
theorem At.replay (h : At w ⟨m, fs⟩) (hkept : w.Kept fs') (records : List Record) :
    At w ⟨{ m with owners := m.owners.replay records }, fs'⟩ :=
  ⟨hkept, h.journal, h.populated.replay records⟩

/-- A link is added to a store at a site, whose journal can be written as before. -/
theorem At.put (h : At w ⟨m, fs⟩) (hkept : w.Kept fs') (r : Record) :
    At w ⟨{ m with owners := m.owners.put r }, fs'⟩ := h.replay hkept [r]

/-- An addition ends alike in twins and leaves twins. -/
theorem Twins.add (h : Twins w s t) (code url owner : String) :
    EndsAlike Eq (Twins w) ((add code url owner).run s) ((Memory.add code url owner).run t) := by
  obtain ⟨m, fs⟩ := s
  obtain ⟨m', fs'⟩ := t
  have hlink := h.same owner code
  rw [run_add, run_add, ← hlink]
  split
  · exact .error _ h
  · obtain ⟨fs₁, hrun, hkept⟩ := h.first.run_log { code, url, owner }
    obtain ⟨fs₁', hrun', hkept'⟩ := h.second.run_log { code, url, owner }
    rw [hrun, hrun']
    exact .ok rfl ⟨h.same.replay [_], h.first.put hkept _, h.second.put hkept' _⟩

/-- A batch ends alike in twins and leaves twins. -/
theorem Twins.addBatch (h : Twins w s t) (urls : Keyed String String) (owner : String) :
    EndsAlike Eq (Twins w) ((addBatch urls owner).run s) ((Memory.addBatch urls owner).run t) := by
  obtain ⟨m, fs⟩ := s
  obtain ⟨m', fs'⟩ := t
  have hlink (code : String) : m'.owners.link? owner code = m.owners.link? owner code :=
    (h.same owner code).symm
  have hfresh : m'.fresh urls owner = m.fresh urls owner := by simp only [fresh, hlink]
  have hknown : m'.known urls owner = m.known urls owner := by simp only [known, hlink]
  obtain ⟨fs₁, hrun, hkept⟩ := h.first.run_logAll (m.fresh urls owner)
  obtain ⟨fs₁', hrun', hkept'⟩ := h.second.run_logAll (m.fresh urls owner)
  rw [run_addBatch, run_addBatch, hfresh, hknown, hrun, hrun']
  exact .of_eq rfl ⟨h.same.replay _, h.first.replay hkept _, h.second.replay hkept' _⟩

/-- A deletion ends alike in twins and leaves twins. -/
theorem Twins.delete (h : Twins w s t) (code owner : String) :
    EndsAlike Eq (Twins w) ((delete code owner).run s) ((Memory.delete code owner).run t) := by
  obtain ⟨m, fs⟩ := s
  obtain ⟨m', fs'⟩ := t
  have hlink : m.owners.link? owner code = m'.owners.link? owner code := h.same owner code
  rw [run_delete, run_delete, ← hlink]
  cases m.owners.link? owner code with
  | none => exact .ok rfl h
  | some link =>
    simp only
    split
    · exact .ok rfl h
    · obtain ⟨fs₁, hrun, hkept⟩ := h.first.run_log { code, url := link.url, owner, deleted := true }
      obtain ⟨fs₁', hrun', hkept'⟩ :=
        h.second.run_log { code, url := link.url, owner, deleted := true }
      rw [hrun, hrun']
      exact .ok rfl ⟨h.same.replay [_], h.first.put hkept _, h.second.put hkept' _⟩

/-- Twins count alike. -/
theorem Twins.stats (h : Twins w s t) :
    EndsAlike Eq (Twins w) (storage.stats.run s) (storage.stats.run t) := by
  simp only [storage, Action.run_answer, h.same.stats]
  exact .ok rfl h

/-- The listings of an owner find the same links. -/
theorem Twins.getAll (h : Twins w s t) (owner : String) :
    EndsAlike (fun links links' => ∀ code, links.find? code = links'.find? code) (Twins w)
      ((storage.getAll owner).run s) ((storage.getAll owner).run t) := by
  simp only [storage, Action.run_answer]
  obtain ⟨links, links', hok, hok', hlinks⟩ | ⟨f, herror, herror'⟩ := h.same.listing owner
  · rw [hok, hok']
    exact .ok hlinks h
  · rw [herror, herror']
    exact .error f h

/-- Twins look a code up alike, where it leads to one URL. -/
theorem Twins.get (h : Twins w s t) {code : String} (hone : s.store.owners.OneUrl code) :
    EndsAlike Eq (Twins w) ((storage.get code).run s) ((storage.get code).run t) := by
  simp only [storage, Action.run_answer, h.same.resolve hone]
  exact .of_eq rfl h

/-- Where nothing fails and the journal can be written anew, a store that was opened is at a
site. -/
theorem exists_at {path : String} {mode : JournalMode} {skipped : List Journal.Skipped}
    {scratch : Place} (h : («open» path mode).run fs = ({ result := .ok m, skipped }, fs'))
    (hfaults : fs.faults = noFaults) (hscratch : fs'.slot (path ++ ".tmp") = .ok scratch)
    (hfree : fs'.node? scratch ≠ some .directory) :
    ∃ w : Site, w.path = path ∧ w.base = fs' ∧ w.scratch = scratch ∧ At w ⟨m, fs'⟩ := by
  obtain ⟨file, ⟨place, hslot, hnode⟩, -, howners, hjournal, -⟩ := run_open_ok h
  let w : Site := ⟨path, fs', (faults_open h).trans hfaults, place, hslot, file, hnode, scratch,
    hscratch, hfree⟩
  refine ⟨w, rfl, rfl, rfl, w.kept_base, ⟨_, hjournal, Site.holds_attached (.inl rfl) mode⟩, ?_⟩
  exact howners ▸ Owners.populated_empty.replay _

/-- A backup at a site succeeds, and a store that is opened there is at the site again, with the
links that were backed up. -/
theorem At.run_backup (h : At w ⟨m, fs⟩) :
    ∃ m' fs', backup.run ⟨m, fs⟩ = (.ok (), ⟨m', fs'⟩) ∧
      ∀ mode, ∃ reopened, («open» w.path mode).run fs' =
        ({ result := .ok reopened }, fs'.tick) ∧ m.owners.Same reopened.owners ∧
          At w ⟨reopened, fs'.tick⟩ := by
  obtain ⟨j, hjournal, hpath, hj⟩ := h.journal
  obtain ⟨j', fs', hreplace, hkept, -⟩ :=
    w.succeeds_replace ⟨hpath, hj⟩ m.owners.snapshot fs h.kept
  have hjournal : m.journal = some j := hjournal
  have hrun : backup.run ⟨m, fs⟩ = (.ok (), ⟨{ m with journal := some j' }, fs'⟩) := by
    rw [backup, run_bind, Action.run_store]
    simp only [hjournal, run_bind, Action.run_onFiles, hreplace]
    rfl
  obtain ⟨file, hstands, hbytes, -⟩ := run_backup_ok hjournal hrun
  rw [hpath] at hstands
  have hread : Journal.read (fs'.bytes file) = { records := m.owners.snapshot } := by
    rw [hbytes, Journal.read_lines]
  refine ⟨_, fs', hrun, fun mode => ?_⟩
  have hopen : («open» w.path mode).run fs' = _ := run_open_stands hstands (by rw [hread])
  rw [hkept.faultless, hread] at hopen
  exact ⟨_, hopen, fun owner code => (Owners.same_replay_snapshot m.owners owner code).symm,
    hkept.tick, ⟨_, rfl, Site.holds_attached (hkept.owns hstands) mode⟩,
    Owners.populated_empty.replay _⟩

end Memory

namespace Store

variable {w : Site} {s t : Setting Store}

/-- Two memory stores that are twins, each as a store of either kind. -/
inductive Twins (w : Site) : Setting Store → Setting Store → Prop
  | memory {m m' fs fs'} (h : Memory.Twins w ⟨m, fs⟩ ⟨m', fs'⟩) :
    Twins w ⟨.memory m, fs⟩ ⟨.memory m', fs'⟩

/-- What ends alike on memory stores ends alike where a store of either kind delegates to them. -/
theorem Twins.delegate {α β : Type} {results : α → β → Prop} {inMemory : Action Memory α}
    {inMemory' : Action Memory β} (inTable : Action Relational α) (inTable' : Action Relational β)
    {m m' : Memory} {fs fs' : FileSystem}
    (h : EndsAlike results (Memory.Twins w) (inMemory.run ⟨m, fs⟩) (inMemory'.run ⟨m', fs'⟩)) :
    EndsAlike results (Twins w) ((Store.delegate inMemory inTable).run ⟨.memory m, fs⟩)
      ((Store.delegate inMemory' inTable').run ⟨.memory m', fs'⟩) := by
  rw [run_delegate_memory, run_delegate_memory]
  generalize inMemory.run ⟨m, fs⟩ = ended at h
  generalize inMemory'.run ⟨m', fs'⟩ = ended' at h
  obtain ⟨hresults, hstates⟩ | ⟨f, hstates⟩ := h
  · exact .ok hresults (.memory hstates)
  · exact .error f (.memory hstates)

/-- An addition ends alike in twins of either kind and leaves twins. -/
theorem Twins.add (h : Twins w s t) (code url owner : String) :
    EndsAlike Eq (Twins w) ((storage.add code url owner).run s)
      ((storage.add code url owner).run t) := by
  obtain ⟨h⟩ := h
  exact delegate _ _ (h.add code url owner)

/-- A batch ends alike in twins of either kind and leaves twins. -/
theorem Twins.addBatch (h : Twins w s t) (urls : Keyed String String) (owner : String) :
    EndsAlike Eq (Twins w) ((storage.addBatch urls owner).run s)
      ((storage.addBatch urls owner).run t) := by
  obtain ⟨h⟩ := h
  exact delegate _ _ (h.addBatch urls owner)

/-- A deletion ends alike in twins of either kind and leaves twins. -/
theorem Twins.delete (h : Twins w s t) (code owner : String) :
    EndsAlike Eq (Twins w) ((storage.delete code owner).run s)
      ((storage.delete code owner).run t) := by
  obtain ⟨h⟩ := h
  exact delegate _ _ (h.delete code owner)

/-- A ping ends alike in twins of either kind. -/
theorem Twins.ping (h : Twins w s t) :
    EndsAlike Eq (Twins w) (storage.ping.run s) (storage.ping.run t) := by
  obtain ⟨h⟩ := h
  exact delegate _ _ (.ok rfl h)

/-- Twins of either kind count alike. -/
theorem Twins.stats (h : Twins w s t) :
    EndsAlike Eq (Twins w) (storage.stats.run s) (storage.stats.run t) := by
  obtain ⟨h⟩ := h
  exact delegate _ _ h.stats

/-- The listings of an owner find the same links. -/
theorem Twins.getAll (h : Twins w s t) (owner : String) :
    EndsAlike (fun links links' => ∀ code, links.find? code = links'.find? code) (Twins w)
      ((storage.getAll owner).run s) ((storage.getAll owner).run t) := by
  obtain ⟨h⟩ := h
  exact delegate _ _ (h.getAll owner)

/-- The links of a store, if it is in memory, under a code that are not deleted have one URL. -/
def OneUrl (s : Store) (code : String) : Prop :=
  match s with
  | .memory m => m.owners.OneUrl code
  | .relational _ => True

instance (s : Store) (code : String) : Decidable (s.OneUrl code) :=
  match s with
  | .memory m => inferInstanceAs (Decidable (m.owners.OneUrl code))
  | .relational _ => inferInstanceAs (Decidable True)

/-- Twins of either kind look a code up alike, where it leads to one URL. -/
theorem Twins.get (h : Twins w s t) {code : String} (hone : s.store.OneUrl code) :
    EndsAlike Eq (Twins w) ((storage.get code).run s) ((storage.get code).run t) := by
  obtain ⟨h⟩ := h
  exact delegate _ _ (h.get hone)

/-- A backup of the second store succeeds. A store that is opened at the site afterwards, in either
mode, has the owners and links of the first store, and is its twin. -/
theorem Twins.backup (h : Twins w s t) :
    ∃ m after, s.store = .memory m ∧ storage.backup.run t = (.ok (), after) ∧
      ∀ mode, ∃ reopened, (Memory.open w.path mode).run after.files =
          ({ result := .ok reopened }, after.files.tick) ∧
        reopened.owners.Agree m.owners ∧ Twins w s ⟨.memory reopened, after.files.tick⟩ := by
  obtain @⟨m, m', fs, fs', h⟩ := h
  obtain ⟨m₂, fs₂, hbackup, hreopen⟩ := h.second.run_backup
  have hrun : storage.backup.run ⟨.memory m', fs'⟩ = (.ok (), ⟨.memory m₂, fs₂⟩) := by
    simp only [storage, run_delegate_memory, Memory.storage, hbackup]
  refine ⟨m, _, rfl, hrun, fun mode => ?_⟩
  obtain ⟨reopened, hopen, hsame, hat⟩ := hreopen mode
  have hsame : m.owners.Same reopened.owners := fun owner code =>
    (h.same owner code).trans (hsame owner code)
  exact ⟨reopened, hopen,
    Owners.Same.agree (fun owner code => (hsame owner code).symm) hat.populated h.first.populated,
    .memory ⟨hsame, h.first, hat⟩⟩

end Store

end ShortLinks
