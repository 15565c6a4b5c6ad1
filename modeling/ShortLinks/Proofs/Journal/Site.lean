import ShortLinks.Proofs.Ends
import ShortLinks.Proofs.Journal.Writing

/-!
# The site of a journal

A journal has two places among the files: where it lies, and where it is written anew before it
takes its own place. Whatever works on the journal touches these places and the files that stood
there or were made since. All other names stand for what they stood for, and all other files hold
what they held. Where no operation fails by itself and the two places can have files, nothing keeps
a journal from being written.
-/

namespace ShortLinks

open FileSystem

/-- The places of a journal in a file system where nothing fails and the journal is there. -/
structure Site where
  path : String
  base : FileSystem
  faultless : base.faults = noFaults
  place : Place
  slot : base.slot path = .ok place
  file : FileId
  stands : base.node? place = some (.file file)
  scratch : Place
  scratch_slot : base.slot (path ++ ".tmp") = .ok scratch
  scratch_free : base.node? scratch ≠ some .directory

namespace Site

variable {w : Site} {fs fs' : FileSystem} {id : FileId}

/-- The files of the journal: what stood at its places, and what was made since. -/
def Owns (w : Site) (id : FileId) : Prop :=
  id = w.file ∨ w.base.node? w.scratch = some (.file id) ∨ w.base.contents.length ≤ id

/-- Nothing has changed outside the site, and the journal is there. -/
structure Kept (w : Site) (fs : FileSystem) : Prop where
  faultless : fs.faults = noFaults
  node : ∀ p, p ≠ w.place → p ≠ w.scratch → fs.node? p = w.base.node? p
  stands : ∃ id, fs.node? w.place = some (.file id) ∧ w.Owns id
  scratch : ∀ n, fs.node? w.scratch = some n → ∃ id, n = .file id ∧ w.Owns id
  content : ∀ id, ¬w.Owns id → fs.content id = w.base.content id
  grown : w.base.contents.length ≤ fs.contents.length

/-- A site is kept at the beginning. -/
theorem kept_base (w : Site) : w.Kept w.base where
  faultless := w.faultless
  node _ _ _ := rfl
  stands := ⟨w.file, w.stands, .inl rfl⟩
  scratch n hn := by
    cases n with
    | directory => exact absurd hn w.scratch_free
    | file id => exact ⟨id, rfl, .inr (.inl hn)⟩
  content _ _ := rfl
  grown := Nat.le_refl _

/-- What changes the names no further and the files of the journal only keeps the site. -/
theorem Kept.of_names (h : w.Kept fs) (hfaults : fs'.faults = fs.faults)
    (hnames : fs'.names = fs.names)
    (hcontent : ∀ id, ¬w.Owns id → fs'.content id = fs.content id)
    (hgrown : fs.contents.length ≤ fs'.contents.length) : w.Kept fs' where
  faultless := hfaults.trans h.faultless
  node := node?_congr hnames ▸ h.node
  stands := node?_congr hnames ▸ h.stands
  scratch := node?_congr hnames ▸ h.scratch
  content id hid := (hcontent id hid).trans (h.content id hid)
  grown := Nat.le_trans h.grown hgrown

/-- Counting an operation keeps a site. -/
theorem Kept.tick (h : w.Kept fs) : w.Kept fs.tick :=
  h.of_names rfl rfl (fun _ _ => rfl) (Nat.le_refl _)

/-- Files of the journal may hold anything. -/
theorem Kept.setContent (h : w.Kept fs) (hid : w.Owns id) (c : Content) :
    w.Kept (fs.setContent id c) := by
  refine h.of_names rfl rfl (fun j hj => ?_) (length_le_placeContent c id fs.contents)
  rw [content_setContent, if_neg]
  rintro rfl
  exact hj hid

/-- Every directory of a site stays one while the site is kept. -/
theorem Kept.keepsDirectories (h : w.Kept fs) : KeepsDirectories w.base fs := by
  intro p hp
  rw [h.node, hp]
  · rintro rfl
    rw [w.stands] at hp
    cases hp
  · rintro rfl
    exact w.scratch_free hp

/-- The path of the journal leads to its place while the site is kept. -/
theorem Kept.slot (h : w.Kept fs) : fs.slot w.path = .ok w.place :=
  h.keepsDirectories.slot w.slot

/-- The path of the second file leads to its place while the site is kept. -/
theorem Kept.scratch_slot (h : w.Kept fs) : fs.slot (w.path ++ ".tmp") = .ok w.scratch :=
  h.keepsDirectories.slot w.scratch_slot

/-- The second file can be made while the site is kept. -/
theorem Kept.scratch_free (h : w.Kept fs) : fs.node? w.scratch ≠ some .directory := by
  intro hdirectory
  obtain ⟨id, hfile, -⟩ := h.scratch _ hdirectory
  cases hfile

/-- The journal stands at its path, in a file of its own. -/
theorem Kept.exists_stands (h : w.Kept fs) : ∃ id, fs.Stands w.path id ∧ w.Owns id := by
  obtain ⟨id, hnode, hid⟩ := h.stands
  exact ⟨id, ⟨w.place, h.slot, hnode⟩, hid⟩

/-- What stands at the path of the journal is a file of the journal. -/
theorem Kept.owns (h : w.Kept fs) (hstands : fs.Stands w.path id) : w.Owns id := by
  obtain ⟨id', ⟨place', hslot', hnode'⟩, hid'⟩ := h.exists_stands
  obtain ⟨place, hslot, hnode⟩ := hstands
  cases hslot.symm.trans hslot'
  cases hnode.symm.trans hnode'
  exact hid'

/-- A file that exists outside the site is found by its path as before, and holds what it held. -/
theorem Kept.find?_outside {path : String} (h : w.Kept fs)
    (hfind : w.base.find? path = .ok (.file id)) (hid : ¬w.Owns id) :
    fs.find? path = .ok (.file id) ∧ fs.bytes id = w.base.bytes id := by
  obtain ⟨p, hlocate, hnode⟩ := locate_of_find? hfind
  have hsame : fs.node? p = some (.file id) := by
    rw [h.node, hnode]
    · rintro rfl
      exact hid (.inl (by rw [w.stands] at hnode; cases hnode; rfl))
    · rintro rfl
      exact hid (.inr (.inl hnode))
  refine ⟨?_, by rw [FileSystem.bytes, h.content id hid]; rfl⟩
  rw [FileSystem.find?, except_bind_eq_ok] at hfind ⊢
  refine ⟨p, h.keepsDirectories.locate hlocate, ?_⟩
  obtain ⟨p', hlocate', hend⟩ := hfind
  cases hlocate.symm.trans hlocate'
  rw [hnode] at hend
  rwa [hsame]

/-- A journal of the site is being written in the file `id`. -/
structure Writing (w : Site) (id : FileId) (fs : FileSystem) : Prop where
  kept : w.Kept fs
  stands : fs.node? w.scratch = some (.file id)
  owns : w.Owns id

/-- Asking the fault plan keeps the site and never fails. -/
theorem Kept.run_attempt (h : w.Kept fs) (op : Operation) :
    (Disk.attempt op).run fs = (.ok (), fs.tick) := by
  rw [Disk.run_attempt, h.faultless]
  rfl

/-- Octets can be added to the files of the journal. -/
theorem Kept.run_append (h : w.Kept fs) (hid : w.Owns id) (bytes : Bytes) :
    ∃ fs', (Disk.append id bytes).run fs = (.ok (), fs') ∧ fs'.names = fs.names ∧ w.Kept fs' := by
  unfold Disk.append
  split
  · exact ⟨fs, rfl, rfl, h⟩
  · rw [run_bind, h.run_attempt]
    exact ⟨_, rfl, rfl, h.tick.setContent hid _⟩

/-- The file at the path where the journal is written anew can be opened; it is made if it is not
there. -/
theorem Kept.run_obtain_scratch (h : w.Kept fs) :
    ∃ id fs', (Disk.obtain (w.path ++ ".tmp")).run fs = (.ok id, fs') ∧ w.Writing id fs' := by
  have hslot := h.scratch_slot
  rw [Disk.obtain, run_bind, Disk.run_ask, hslot]
  simp only [run_bind, run_get]
  cases hnode : fs.node? w.scratch with
  | some n =>
    obtain ⟨id, rfl, hid⟩ := h.scratch n hnode
    exact ⟨id, fs, rfl, h, hnode, hid⟩
  | none =>
    have hfree : (fs.fresh (.octets [])).2.node? w.scratch ≠ some .directory := by
      rw [node?_congr (show (fs.fresh (.octets [])).2.names = fs.names from rfl), hnode]
      simp
    have hid : w.Owns fs.contents.length := .inr (.inr h.grown)
    have hlength : fs.contents.length ≤ (fs.fresh (.octets [])).2.contents.length := by
      simp [fresh]
    have hfresh : w.Kept (fs.fresh (.octets [])).2 :=
      h.of_names rfl rfl (fun id _ => content_fresh fs id) hlength
    refine ⟨fs.contents.length, _, rfl, ⟨h.faultless, fun p hp hp' => ?_, ?_, fun n hn => ?_,
      hfresh.content, hfresh.grown⟩, ?_, hid⟩
    · rw [node?_bind hfree, if_neg hp']
      exact hfresh.node p hp hp'
    · rw [node?_bind hfree]
      split
      · exact ⟨_, rfl, hid⟩
      · exact hfresh.stands
    · rw [node?_bind hfree, if_pos rfl] at hn
      cases hn
      exact ⟨_, rfl, hid⟩
    · rw [node?_bind hfree, if_pos rfl]
      rfl

/-- The second file is made, and a journal can be written in it. -/
theorem succeeds_create (w : Site) :
    Succeeds w.Kept (Disk.create (w.path ++ ".tmp")) fun id fs => w.Writing id fs := by
  intro fs h
  obtain ⟨id, fs', hrun, hwriting⟩ := h.tick.run_obtain_scratch
  refine ⟨id, fs'.setContent id (.octets []), ?_, hwriting.kept.setContent hwriting.owns _,
    hwriting.stands, hwriting.owns⟩
  rw [Disk.create, run_bind, h.run_attempt]
  simp only [run_bind, hrun, run_modify, run_pure]

/-- Octets are written to the second file. -/
theorem succeeds_append (w : Site) (id : FileId) (bytes : Bytes) :
    Succeeds (w.Writing id) (Disk.append id bytes) fun _ fs => w.Writing id fs := by
  intro fs h
  obtain ⟨fs', hrun, hnames, hkept⟩ := h.kept.run_append h.owns bytes
  exact ⟨(), fs', hrun, hkept, (congrFun (node?_congr hnames) w.scratch).trans h.stands, h.owns⟩

/-- The second file is synced. -/
theorem succeeds_sync (w : Site) (id : FileId) :
    Succeeds (w.Writing id) (Disk.sync id) fun _ fs => w.Writing id fs :=
  fun fs h => ⟨(), fs.tick, h.kept.run_attempt .sync, h.kept.tick, h.stands, h.owns⟩

/-- What was written takes the place of the journal. -/
theorem succeeds_rename (w : Site) (id : FileId) :
    Succeeds (w.Writing id) (Disk.rename (w.path ++ ".tmp") w.path) fun _ => w.Kept := by
  rintro fs ⟨hkept, hstands, hid⟩
  have hscratch : fs.tick.slot (w.path ++ ".tmp") = .ok w.scratch := hkept.tick.scratch_slot
  have hslot : fs.tick.slot w.path = .ok w.place := hkept.tick.slot
  have hfind : fs.tick.find? (w.path ++ ".tmp") = .ok (.file id) := find?_of_slot hscratch hstands
  have hplace : fs.tick.node? w.place ≠ some .directory := by
    obtain ⟨id', hnode, -⟩ := hkept.tick.stands
    simp [hnode]
  have hold : fs.tick.node? w.scratch ≠ some .directory := hkept.tick.scratch_free
  have hnew : (fs.tick.unbind w.scratch).node? w.place ≠ some .directory := by
    rw [node?_unbind hold]
    split
    · simp
    · exact hplace
  refine ⟨(), (fs.tick.unbind w.scratch).bind w.place (.file id), ?_, hkept.faultless,
    fun p hp hp' => ?_, ⟨id, ?_, hid⟩, fun n hn => ?_, hkept.content, hkept.grown⟩
  · rw [Disk.rename, run_bind, hkept.run_attempt]
    simp only [run_bind, Disk.run_ask, hfind, locate_of_slot hscratch, hslot, run_get,
      if_neg hplace, run_modify]
  · rw [node?_bind hnew, if_neg hp, node?_unbind hold, if_neg hp']
    exact hkept.tick.node p hp hp'
  · rw [node?_bind hnew, if_pos rfl]
  · rw [node?_bind hnew] at hn
    split at hn
    · cases hn
      exact ⟨id, rfl, hid⟩
    · rw [node?_unbind hold, if_pos rfl] at hn
      cases hn

/-- The journal is opened, and what is opened belongs to the site. -/
theorem succeeds_openFile (w : Site) :
    Succeeds w.Kept (Journal.openFile w.path) fun id fs => w.Kept fs ∧ w.Owns id := by
  refine Succeeds.orFault (fun fs h => ?_) _
  obtain ⟨id, hstands, hid⟩ := h.exists_stands
  rw [Disk.run_openAppend_stands hstands, h.faultless]
  exact ⟨id, fs.tick, rfl, h.tick, hid⟩

section Buffers

variable (w : Site) (b : Journal.Buffer) (bytes : Bytes)

/-- The buffer stands in front of the file that is being written. -/
def Filling (id : FileId) (b : Journal.Buffer) (fs : FileSystem) : Prop :=
  b.file = id ∧ w.Writing id fs

/-- A buffer in front of the second file is emptied. -/
theorem succeeds_flush : Succeeds (w.Writing b.file) b.flush (w.Filling b.file) :=
  (w.succeeds_append b.file b.held).bind fun _ => Succeeds.of_pure fun _ h => ⟨rfl, h⟩

/-- A buffer in front of the second file takes octets. -/
theorem succeeds_put : Succeeds (w.Writing b.file) (b.put bytes) (w.Filling b.file) := by
  have hroom : Succeeds (w.Writing b.file) (b.makeRoom bytes) (w.Filling b.file) := by
    unfold Journal.Buffer.makeRoom
    split
    · exact w.succeeds_flush b
    · exact Succeeds.of_pure fun _ h => ⟨rfl, h⟩
  refine hroom.bind fun ready => ?_
  rintro fs ⟨hfile, h⟩
  split
  · rw [← hfile] at h ⊢
    exact (w.succeeds_append ready.file bytes).bind
      (fun _ => Succeeds.of_pure fun _ h => ⟨rfl, h⟩) fs h
  · exact ⟨_, fs, rfl, hfile, h⟩

/-- A buffer in front of the second file takes records. -/
theorem succeeds_putRecords (records : List Record) :
    Succeeds (w.Writing b.file) (b.putRecords records) (w.Filling b.file) := by
  induction records generalizing b with
  | nil => exact Succeeds.of_pure fun _ h => ⟨rfl, h⟩
  | cons r rest ih =>
    refine ((w.succeeds_put b _).orFault _).bind fun b₁ => ?_
    rintro fs ⟨hfile₁, h₁⟩
    rw [← hfile₁] at h₁ ⊢
    refine ((w.succeeds_put b₁ _).orFault _).bind (fun b₂ => ?_) fs h₁
    rintro fs₂ ⟨hfile₂, h₂⟩
    rw [← hfile₂] at h₂ ⊢
    exact ih b₂ fs₂ h₂

end Buffers

/-- A journal of the site: it lies at its path, and what it has at hand is a file of its own. -/
def Holds (w : Site) (j : Journal) : Prop := j.path = w.path ∧ ∀ id ∈ j.writer, w.Owns id

/-- A journal that is opened for a file of its own is one of the site. -/
theorem holds_attached (hid : w.Owns id) (mode : JournalMode) :
    w.Holds { path := w.path, writer := if mode = .append then some id else none } := by
  refine ⟨rfl, fun file hfile => ?_⟩
  split at hfile
  · cases hfile
    exact hid
  · cases hfile

/-- A journal of the site can be written as a whole. -/
theorem succeeds_replace {j : Journal} (hj : w.Holds j) (records : List Record) :
    Succeeds w.Kept (j.replace records) fun j' fs => w.Kept fs ∧ w.Holds j' := by
  obtain ⟨path, writer⟩ := j
  obtain ⟨rfl, hwriter⟩ := hj
  have hrenew : Succeeds w.Kept (Journal.renew ⟨w.path, writer⟩ records) fun _ => w.Kept := by
    refine (w.succeeds_create.orFault _).bind fun id => ?_
    refine (w.succeeds_putRecords { file := id } records).bind fun b => ?_
    rintro fs ⟨hfile, h⟩
    rw [← hfile] at h
    refine ((w.succeeds_flush b).orFault _).bind (fun _ => ?_) fs h
    rintro fs₁ ⟨-, h₁⟩
    rw [hfile] at h₁
    refine ((w.succeeds_sync id).orFault _).bind (fun _ => ?_) fs₁ h₁
    exact ((w.succeeds_rename id).orFault _).bind fun _ => Succeeds.of_pure fun _ h => h
  refine hrenew.bind fun _ => ?_
  cases writer with
  | none => exact Succeeds.of_pure fun fs h => ⟨h, rfl, hwriter⟩
  | some old =>
    refine w.succeeds_openFile.bind fun new => Succeeds.of_pure fun fs h => ⟨h.1, rfl, ?_⟩
    rintro _ ⟨⟩
    exact h.2

/-- A record can be added to a journal of the site. -/
theorem succeeds_append_record {j : Journal} (hj : w.Holds j) (r : Record) :
    Succeeds w.Kept (j.append r) fun _ => w.Kept := by
  unfold Journal.append
  split
  · exact Succeeds.of_pure fun _ h => h
  · next file hfile =>
    refine Succeeds.orFault (fun fs h => ?_) _
    obtain ⟨fs', hrun, -, hkept⟩ := h.run_append (hj.2 file hfile) (Journal.lineBytes r)
    exact ⟨(), fs', hrun, hkept⟩

end Site

end ShortLinks
