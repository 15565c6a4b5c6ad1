import ShortLinks.Proofs.Journal.Site

/-!
# A journal that cannot be written anew

Writing a journal as a whole takes one operation after another, and it succeeds only if each of them
is let through. Where one fails before the new file takes the place of the journal, the file of the
journal stands where it stood and holds what it held. Only the last operation comes after that: a
journal that adds records opens its new file. If this fails, the new file stands at the path, and
what the journal has at hand is the file that was replaced. The fault says which of both it was.
-/

namespace ShortLinks

namespace FileSystem

variable {fs fs' fs'' : FileSystem} {path : String} {id file : FileId}
  {first second : List Operation} {op : Operation}

/-- The fault plan let these operations through, one after another. -/
structure Granted (operations : List Operation) (fs fs' : FileSystem) : Prop where
  performed : fs'.performed = fs.performed + operations.length
  faults : fs'.faults = fs.faults
  granted : ∀ i op, operations[i]? = some op → fs.faults (fs.performed + i) op = none

/-- Where nothing was performed, nothing had to be granted. -/
theorem granted_nil (hperformed : fs'.performed = fs.performed) (hfaults : fs'.faults = fs.faults) :
    Granted [] fs fs' := ⟨hperformed, hfaults, nofun⟩

/-- Operations that were granted one after another were granted together. -/
theorem Granted.trans (h : Granted first fs fs') (h' : Granted second fs' fs'') :
    Granted (first ++ second) fs fs'' where
  performed := by rw [h'.performed, h.performed, List.length_append, Nat.add_assoc]
  faults := h'.faults.trans h.faults
  granted i op hop := by
    obtain hless | hmore := Nat.lt_or_ge i first.length
    · rw [List.getElem?_append_left hless] at hop
      exact h.granted i op hop
    · rw [List.getElem?_append_right hmore] at hop
      have hgranted := h'.granted (i - first.length) op hop
      rw [h'.faults.symm.trans (h'.faults.trans h.faults), h.performed, Nat.add_assoc,
        Nat.add_sub_of_le hmore] at hgranted
      exact hgranted

/-- Writes that were let through, one after another. -/
theorem Granted.writes {n k : Nat} (h : Granted (List.replicate n .write) fs fs')
    (h' : Granted (List.replicate k .write) fs' fs'') :
    Granted (List.replicate (n + k) .write) fs fs'' := by
  rw [← List.replicate_append_replicate]
  exact h.trans h'

/-- At most one file stands at a path. -/
theorem Stands.unique {id' : FileId} (h : fs.Stands path id) (h' : fs.Stands path id') :
    id = id' := by
  obtain ⟨place, hslot, hnode⟩ := h
  obtain ⟨place', hslot', hnode'⟩ := h'
  cases hslot.symm.trans hslot'
  cases hnode.symm.trans hnode'
  rfl

/-- A file stands at the path of a journal and holds this content. The path through which the
journal is written anew is not another name of it. -/
structure Keeping (path : String) (file : FileId) (content : Bytes) (fs : FileSystem) : Prop where
  stands : fs.Stands path file
  made : file < fs.contents.length
  apart : ¬fs.Stands (path ++ ".tmp") file
  bytes : fs.bytes file = content

/-- A journal is kept, with another content perhaps, while its name stands for the same file. -/
theorem Keeping.of_names {content content' : Bytes} (h : Keeping path file content fs)
    (hnames : fs'.names = fs.names) (hbytes : fs'.bytes file = content')
    (hmade : fs.contents.length ≤ fs'.contents.length) : Keeping path file content' fs' where
  stands := h.stands.of_names hnames
  made := Nat.lt_of_lt_of_le h.made hmade
  apart hstands := h.apart (hstands.of_names hnames.symm)
  bytes := hbytes

/-- Counting an operation keeps a journal as it is. -/
theorem Keeping.tick {content : Bytes} (h : Keeping path file content fs) :
    Keeping path file content fs.tick := h.of_names rfl h.bytes (Nat.le_refl _)

/-- What is put into other files does not matter. -/
theorem Keeping.setContent {content : Bytes} (h : Keeping path file content fs) (hid : id ≠ file)
    (c : Content) : Keeping path file content (fs.setContent id c) := by
  refine h.of_names rfl ?_ (length_le_placeContent c id fs.contents)
  rw [FileSystem.bytes, content_setContent, if_neg hid.symm]
  exact h.bytes

end FileSystem

namespace Disk

open FileSystem

variable {fs fs' : FileSystem} {path : String} {id file : FileId} {op : Operation} {content : Bytes}

/-- An operation that succeeded was granted. -/
theorem granted_attempt (h : (attempt op).run fs = (.ok (), fs')) : Granted [op] fs fs' := by
  rw [run_attempt] at h
  split at h <;> cases h
  next hplan =>
    refine ⟨rfl, rfl, fun i op' hop => ?_⟩
    cases i with
    | zero =>
      cases hop
      exact hplan
    | succ i => cases hop

/-- Obtaining a file asks the fault plan nothing. -/
theorem performed_obtain (path : String) (fs : FileSystem) :
    ((obtain path).run fs).2.performed = fs.performed := by
  rw [obtain, run_bind, run_ask]
  cases fs.slot path with
  | error e => rfl
  | ok place =>
    simp only [run_bind, run_get]
    split <;> rfl

/-- Making a file that succeeded was one operation, which was granted. -/
theorem granted_create (h : (create path).run fs = (.ok id, fs')) : Granted [.create] fs fs' := by
  obtain ⟨_, counted, hattempt, hcreate⟩ := run_bind_ok h
  obtain ⟨found, opened, hobtain, hempty⟩ := run_bind_ok hcreate
  have hperformed := performed_obtain path counted
  rw [hobtain] at hperformed
  have hopened := granted_nil hperformed (run_obtain_ok hobtain).2.1
  cases hempty
  have hgranted := (granted_attempt hattempt).trans hopened
  exact ⟨hgranted.performed, hgranted.faults, hgranted.granted⟩

/-- Opening a file that succeeded was one operation, which was granted. -/
theorem granted_openAppend (h : (openAppend path).run fs = (.ok id, fs')) :
    Granted [.openAppend] fs fs' := by
  obtain ⟨_, counted, hattempt, hobtain⟩ := run_bind_ok h
  have hperformed := performed_obtain path counted
  rw [hobtain] at hperformed
  exact (granted_attempt hattempt).trans (granted_nil hperformed (run_obtain_ok hobtain).2.1)

/-- Octets are added with one write, or with none where there are none. -/
theorem granted_append {bytes : Bytes} (h : (append id bytes).run fs = (.ok (), fs')) :
    ∃ n, Granted (List.replicate n .write) fs fs' := by
  unfold append at h
  split at h
  · cases h
    exact ⟨0, granted_nil rfl rfl⟩
  · obtain ⟨_, counted, hattempt, hwrite⟩ := run_bind_ok h
    have hgranted := granted_attempt hattempt
    cases hwrite
    exact ⟨1, hgranted.performed, hgranted.faults, hgranted.granted⟩

/-- A name is given on, or nothing happens. -/
theorem run_rename_cases (source target : String) (fs : FileSystem) :
    (∃ e, (rename source target).run fs = (.error e, fs.tick)) ∨
    fs.faults fs.performed .rename = none ∧ ∃ old new node,
      (rename source target).run fs = (.ok (), (fs.tick.unbind old).bind new node) := by
  rw [rename, run_bind, run_attempt]
  cases fs.faults fs.performed .rename with
  | some e => exact .inl ⟨e, rfl⟩
  | none =>
    simp only [run_bind, run_ask]
    cases fs.tick.find? source with
    | error e => exact .inl ⟨e, rfl⟩
    | ok node =>
      simp only
      cases fs.tick.locate source with
      | error e => exact .inl ⟨e, rfl⟩
      | ok old =>
        simp only
        cases fs.tick.slot target with
        | error e => exact .inl ⟨e, rfl⟩
        | ok new =>
          simp only [run_get]
          split
          · exact .inl ⟨_, rfl⟩
          · exact .inr ⟨trivial, old, new, node, rfl⟩

/-- Renaming that succeeded was one operation, which was granted. -/
theorem granted_rename {source target : String}
    (h : (rename source target).run fs = (.ok (), fs')) : Granted [.rename] fs fs' := by
  obtain ⟨e, hrun⟩ | ⟨hplan, old, new, node, hrun⟩ := run_rename_cases source target fs
  · rw [hrun] at h
    cases h
  · rw [hrun] at h
    cases h
    refine ⟨rfl, rfl, fun i op hop => ?_⟩
    cases i with
    | zero =>
      cases hop
      exact hplan
    | succ i => cases hop

/-- A file that is opened for writing has been made. -/
theorem made_create (h : (create path).run fs = (.ok id, fs')) : id < fs'.contents.length := by
  obtain ⟨_, counted, -, hcreate⟩ := run_bind_ok h
  obtain ⟨found, opened, -, hempty⟩ := run_bind_ok hcreate
  cases hempty
  exact lt_length_placeContent _ _ _

/-- Asking the fault plan keeps a journal. -/
theorem ends_attempt (op : Operation) : Ends (Keeping path file content) (attempt op)
    (fun _ => Keeping path file content) (fun _ => Keeping path file content) := by
  intro fs h result fs' hrun
  rw [run_attempt] at hrun
  split at hrun <;> cases hrun <;> exact h.tick

/-- The file through which a journal is written anew is another one. -/
theorem ends_obtain : Ends (Keeping path file content) (obtain (path ++ ".tmp"))
    (fun id fs => id ≠ file ∧ Keeping path file content fs)
    (fun _ => Keeping path file content) := by
  intro fs h result fs' hrun
  rw [obtain, run_bind, run_ask] at hrun
  cases hslot : fs.slot (path ++ ".tmp") with
  | error e =>
    rw [hslot] at hrun
    cases hrun
    exact h
  | ok place =>
    simp only [hslot, run_bind, run_get] at hrun
    split at hrun
    · cases hrun
      exact h
    · next id hnode =>
      cases hrun
      exact ⟨fun hid => h.apart ⟨place, hslot, hid ▸ hnode⟩, h⟩
    · next hnode =>
      cases hrun
      have hid : fs.contents.length ≠ file := Nat.ne_of_gt h.made
      have hfree : (fs.fresh (.octets [])).2.node? place ≠ some .directory := by
        rw [node?_congr (show (fs.fresh (.octets [])).2.names = fs.names from rfl), hnode]
        simp
      have hbound : KeepsDirectories fs
          ((fs.fresh (.octets [])).2.bind place (.file fs.contents.length)) :=
        KeepsDirectories.bind hfree _
      refine ⟨hid, ?_, ?_, fun hstands => ?_, ?_⟩
      · obtain ⟨place', hslot', hnode'⟩ := h.stands
        refine ⟨place', hbound.slot hslot', ?_⟩
        rw [node?_bind hfree, if_neg]
        · exact hnode'
        · rintro rfl
          cases hnode.symm.trans hnode'
      · simpa [FileSystem.bind, fresh] using Nat.lt_succ_of_lt h.made
      · obtain ⟨place', hslot', hnode'⟩ := hstands
        cases (hbound.slot hslot).symm.trans hslot'
        rw [node?_bind hfree, if_pos rfl] at hnode'
        cases hnode'
        exact hid rfl
      · have hcontent := content_fresh fs file
        exact (congrArg Content.bytes hcontent).trans h.bytes

/-- Making the second file leaves the journal as it is, whether it succeeds or not. -/
theorem ends_create : Ends (Keeping path file content) (create (path ++ ".tmp"))
    (fun id fs => id ≠ file ∧ Keeping path file content fs)
    (fun _ => Keeping path file content) := by
  refine (ends_attempt .create).bind fun _ => ends_obtain.bind fun id => ?_
  rintro fs ⟨hid, h⟩ result fs' hrun
  cases hrun
  exact ⟨hid, h.setContent hid _⟩

/-- Octets that are added to another file do not matter. -/
theorem ends_append (hid : id ≠ file) (bytes : Bytes) : Ends (Keeping path file content)
    (append id bytes) (fun _ => Keeping path file content) (fun _ => Keeping path file content) := by
  unfold append
  split
  · exact .of_pure fun _ h => h
  · refine (ends_attempt .write).bind fun _ => ?_
    intro fs h result fs' hrun
    cases hrun
    exact h.setContent hid _

end Disk

namespace Journal

open FileSystem

variable {fs fs' : FileSystem} {path : String} {id file : FileId} {content : Bytes} {j j' : Journal}
  {records : List Record}

namespace Buffer

variable {b b' : Buffer}

/-- Emptying a buffer that succeeded was writes, all of them granted. -/
theorem granted_flush (h : b.flush.run fs = (.ok b', fs')) :
    ∃ n, Granted (List.replicate n .write) fs fs' := by
  obtain ⟨_, grown, happend, hflush⟩ := run_bind_ok h
  cases hflush
  exact Disk.granted_append happend

/-- Making room in a buffer that succeeded was writes, all of them granted. -/
theorem granted_makeRoom {bytes : Bytes} (h : (b.makeRoom bytes).run fs = (.ok b', fs')) :
    ∃ n, Granted (List.replicate n .write) fs fs' := by
  unfold makeRoom at h
  split at h
  · exact granted_flush h
  · cases h
    exact ⟨0, granted_nil rfl rfl⟩

/-- Octets were put into a buffer by writes, all of them granted. -/
theorem granted_put {bytes : Bytes} (h : (b.put bytes).run fs = (.ok b', fs')) :
    ∃ n, Granted (List.replicate n .write) fs fs' := by
  obtain ⟨ready, fs₁, hroom, hput⟩ := run_bind_ok h
  obtain ⟨n, hgranted⟩ := granted_makeRoom hroom
  split at hput
  · obtain ⟨_, fs₂, happend, hput⟩ := run_bind_ok hput
    obtain ⟨k, hgranted'⟩ := Disk.granted_append happend
    cases hput
    exact ⟨n + k, hgranted.writes hgranted'⟩
  · cases hput
    exact ⟨n, hgranted⟩

/-- Records were put into a buffer by writes, all of them granted. -/
theorem granted_putRecords (h : (b.putRecords records).run fs = (.ok b', fs')) :
    ∃ n, Granted (List.replicate n .write) fs fs' := by
  induction records generalizing b fs with
  | nil =>
    cases h
    exact ⟨0, granted_nil rfl rfl⟩
  | cons r rest ih =>
    obtain ⟨b₁, fs₁, htext, h₁⟩ := run_bind_ok h
    obtain ⟨b₂, fs₂, hend, hrest⟩ := run_bind_ok h₁
    obtain ⟨n₁, hgranted₁⟩ := granted_put (run_orFault_ok htext)
    obtain ⟨n₂, hgranted₂⟩ := granted_put (run_orFault_ok hend)
    obtain ⟨n₃, hgranted₃⟩ := ih hrest
    exact ⟨_, (hgranted₁.writes hgranted₂).writes hgranted₃⟩

end Buffer

/-- The operations that writing a journal as a whole takes, with so many writes. -/
def operations (j : Journal) (writes : Nat) : List Operation :=
  [.create] ++ List.replicate writes .write ++ [.sync] ++ [.rename] ++
    (j.writer.map fun _ => Operation.openAppend).toList

/-- Records that were written through the second file took all operations but the last. -/
theorem granted_renew (h : (j.renew records).run fs = (.ok id, fs')) :
    ∃ writes, Granted ([.create] ++ List.replicate writes .write ++ [.sync] ++ [.rename]) fs fs' := by
  obtain ⟨file, fs₁, hcreate, h₁⟩ := run_bind_ok h
  obtain ⟨b₁, fs₂, hput, h₂⟩ := run_bind_ok h₁
  obtain ⟨b₂, fs₃, hflush, h₃⟩ := run_bind_ok h₂
  obtain ⟨_, fs₄, hsync, h₄⟩ := run_bind_ok h₃
  obtain ⟨_, fs₅, hrename, hrenewed⟩ := run_bind_ok h₄
  cases hrenewed
  obtain ⟨n, hputs⟩ := Buffer.granted_putRecords hput
  obtain ⟨k, hflushed⟩ := Buffer.granted_flush (run_orFault_ok hflush)
  exact ⟨n + k, ((Disk.granted_create (run_orFault_ok hcreate)).trans
    (hputs.writes hflushed)).trans (Disk.granted_attempt (run_orFault_ok hsync)) |>.trans
    (Disk.granted_rename (run_orFault_ok hrename))⟩

/-- A journal that was written as a whole took all operations, and each was let through. -/
theorem granted_replace (h : (j.replace records).run fs = (.ok j', fs')) :
    ∃ writes, Granted (j.operations writes) fs fs' := by
  obtain ⟨id, fs₁, hrenew, htakeUp⟩ := run_bind_ok h
  obtain ⟨writes, hrenewed⟩ := granted_renew hrenew
  refine ⟨writes, ?_⟩
  obtain ⟨path, _ | old⟩ := j
  · cases htakeUp
    exact hrenewed.trans (granted_nil rfl rfl)
  · obtain ⟨new, fs₂, hopen, hopened⟩ := run_bind_ok htakeUp
    cases hopened
    exact hrenewed.trans (Disk.granted_openAppend (run_orFault_ok hopen))

/-- The fault says that the file at the path of a journal could not be opened. -/
def Unopened (path : String) (f : Fault) : Prop := ∃ e, f = pathFault "Failed to open" path e

/-- An error that is reported by its text alone does not say that the journal could not be
opened. -/
theorem not_unopened_toFault (e : IoError) : ¬Unopened path e.toFault := by
  rintro ⟨e', h⟩
  have h := congrArg (fun f => f.message.toList.take 3) h
  cases e <;> simp [pathFault, IoError.toFault, IoError.text] at h

/-- A fault of writing a record does not say that the journal could not be opened. -/
theorem not_unopened_serialization (message : String) :
    ¬Unopened path ⟨.serialization, message⟩ := by
  rintro ⟨e, h⟩
  cases congrArg Fault.kind h

/-- A fault of taking the place of the journal does not say that it could not be opened. -/
theorem not_unopened_replace (e : IoError) :
    ¬Unopened path (pathFault "Failed to replace" path e) := by
  rintro ⟨e', h⟩
  have h := congrArg (fun f => f.message.toList.take 11) h
  simp [pathFault] at h

/-- This holds, and the fault does not say that the file of the journal could not be opened. -/
def Spared (path : String) (P : FileSystem → Prop) (f : Fault) (fs : FileSystem) : Prop :=
  ¬Unopened path f ∧ P fs

section Buffers

variable {P : FileSystem → Prop} {b : Buffer}

/-- What is kept is kept where errors are reported by their text. -/
theorem ends_toFault {α : Type} {before : FileSystem → Prop} {x : Disk α}
    {after : α → FileSystem → Prop} (h : Ends before x after fun _ => P) :
    Ends before (x.orFault IoError.toFault) after (Spared path P) :=
  h.orFault fun e _ hkept => ⟨not_unopened_toFault e, hkept⟩

/-- What adding to the file behind a buffer keeps, the buffer keeps. -/
theorem ends_flush (happend : ∀ bytes, Ends P (Disk.append b.file bytes) (fun _ => P) fun _ => P) :
    Ends P b.flush (fun b' fs => b'.file = b.file ∧ P fs) fun _ => P :=
  (happend b.held).bind fun _ => .of_pure fun _ h => ⟨rfl, h⟩

/-- What every write to the file of a buffer keeps, putting octets into the buffer keeps. -/
theorem ends_put (happend : ∀ bytes, Ends P (Disk.append b.file bytes) (fun _ => P) fun _ => P)
    (bytes : Bytes) : Ends P (b.put bytes) (fun b' fs => b'.file = b.file ∧ P fs) fun _ => P := by
  have hroom : Ends P (b.makeRoom bytes) (fun b' fs => b'.file = b.file ∧ P fs) fun _ => P := by
    unfold Buffer.makeRoom
    split
    · exact ends_flush happend
    · exact .of_pure fun _ h => ⟨rfl, h⟩
  refine hroom.bind fun ready => ?_
  rintro fs ⟨hfile, h⟩
  split
  · rw [← hfile] at happend ⊢
    exact ((happend bytes).bind fun _ => .of_pure fun _ h => ⟨rfl, h⟩) fs h
  · intro result fs' hrun
    cases hrun
    exact ⟨hfile, h⟩

/-- What every write to the file of a buffer keeps, putting records into the buffer keeps. -/
theorem ends_putRecords
    (happend : ∀ bytes, Ends P (Disk.append b.file bytes) (fun _ => P) fun _ => P)
    (records : List Record) :
    Ends P (b.putRecords records) (fun b' fs => b'.file = b.file ∧ P fs) (Spared path P) := by
  induction records generalizing b with
  | nil => exact .of_pure fun _ h => ⟨rfl, h⟩
  | cons r rest ih =>
    have htext : Ends P
        ((b.put (Text.encode r.lineText)).orFault fun e => ⟨.serialization, e.text⟩)
        (fun b' fs => b'.file = b.file ∧ P fs) (Spared path P) :=
      (ends_put happend _).orFault fun e _ h => ⟨not_unopened_serialization e.text, h⟩
    refine htext.bind fun b₁ => ?_
    rintro fs ⟨hfile₁, h⟩
    rw [← hfile₁] at happend ⊢
    refine ((ends_toFault (ends_put happend [10])).bind fun b₂ => ?_) fs h
    rintro fs₂ ⟨hfile₂, h₂⟩
    rw [← hfile₂] at happend ⊢
    exact ih happend fs₂ h₂

end Buffers

/-- Where writing a journal anew fails before the new file takes its place, the journal is as it was.
Otherwise what has taken its place is another file. -/
theorem ends_renew (j : Journal) (records : List Record) :
    Ends (Keeping j.path file content) (j.renew records) (fun id _ => id ≠ file)
      (Spared j.path (Keeping j.path file content)) := by
  refine (ends_toFault Disk.ends_create).bind fun id => ?_
  rintro fs ⟨hid, h⟩
  refine ((ends_putRecords (b := { file := id }) (Disk.ends_append hid) records).bind
    fun b => ?_) fs h
  rintro fs₁ ⟨hfile, h₁⟩
  have hb : b.file ≠ file := hfile ▸ hid
  refine ((ends_toFault (ends_flush (Disk.ends_append hb))).bind fun _ => ?_) fs₁ h₁
  rintro fs₂ ⟨-, h₂⟩
  refine ((ends_toFault (Disk.ends_attempt .sync)).bind fun _ => ?_) fs₂ h₂
  intro fs₃ h₃ result fs₄ hrun
  rw [run_bind, run_orFault] at hrun
  obtain ⟨e, hrename⟩ | ⟨-, old, new, node, hrename⟩ :=
    Disk.run_rename_cases j.scratch j.path fs₃
  · rw [hrename] at hrun
    cases hrun
    exact ⟨not_unopened_replace e, h₃.tick⟩
  · rw [hrename] at hrun
    cases hrun
    exact hid

/-- The second file of a journal is not the journal by another name. -/
theorem slot_scratch_ne (j : Journal) {p q : Place} (h : fs.slot j.scratch = .ok p)
    (h' : fs.slot j.path = .ok q) : p ≠ q :=
  slot_append_ne (by decide) (by decide) h' h

/-- A journal that was written anew is kept from then on. -/
theorem keeping_renew (h : (j.renew records).run fs = (.ok file, fs')) :
    Keeping j.path file (records.flatMap lineBytes) fs' := by
  obtain ⟨hstands, hbytes, -⟩ := run_renew_ok h
  obtain ⟨made, grown, hcreate, hgrew, hrename⟩ := run_renew_parts h
  obtain ⟨hscratch, -, -⟩ := Disk.run_create_ok hcreate
  have hscratch' := hscratch.of_names hgrew.names
  obtain ⟨old, new, -, -, -, -, hplaces⟩ := Disk.run_rename_places hscratch' hrename
  have hmade := Nat.lt_of_lt_of_le (Disk.made_create hcreate) hgrew.made
  exact ⟨hstands, hplaces ▸ hmade,
    Disk.not_stands_rename hscratch' (fun _ _ => j.slot_scratch_ne) hrename file, hbytes⟩

/-- A journal that was written as a whole is kept from then on. -/
theorem keeping_replace (h : (j.replace records).run fs = (.ok j', fs')) :
    ∃ file, Keeping j.path file (records.flatMap lineBytes) fs' := by
  obtain ⟨file, fs₁, hrenew, htakeUp⟩ := run_bind_ok h
  have hkeeping := keeping_renew hrenew
  rw [run_takeUp hkeeping.stands] at htakeUp
  split at htakeUp
  · cases htakeUp
    exact ⟨file, hkeeping⟩
  · split at htakeUp <;> cases htakeUp
    exact ⟨file, hkeeping.tick⟩

/-- A journal could not be written as a whole. Either its file stands at its path and holds what it
held, or another file stands there, with the lines of the records, and was not opened. -/
theorem run_replace_error {f : Fault} (h : Keeping j.path file content fs)
    (hrun : (j.replace records).run fs = (.error f, fs')) :
    Spared j.path (Keeping j.path file content) f fs' ∨
    ∃ e new, f = pathFault "Failed to open" j.path e ∧ j.writer.isSome ∧
      fs.faults (fs'.performed - 1) .openAppend = some e ∧ new ≠ file ∧ fs'.Stands j.path new ∧
      fs'.bytes new = records.flatMap lineBytes := by
  obtain hfirst | ⟨new, fs₁, hrenew, htakeUp⟩ := run_bind_error hrun
  · exact .inl (ends_renew j records fs h _ _ hfirst)
  · have hnew : new ≠ file := ends_renew j records fs h _ _ hrenew
    obtain ⟨hstands, hbytes, hfaults⟩ := run_renew_ok hrenew
    rw [run_takeUp hstands] at htakeUp
    obtain ⟨path, _ | old⟩ := j
    · cases htakeUp
    · simp only at htakeUp
      split at htakeUp
      · next e hplan =>
        cases htakeUp
        rw [hfaults] at hplan
        exact .inr ⟨e, new, rfl, rfl, hplan, hnew, hstands.of_names rfl, hbytes⟩
      · cases htakeUp

end Journal

end ShortLinks
