import ShortLinks.Proofs.FileSystem.Effects
import ShortLinks.Proofs.Journal.Lines

/-!
# Writing a journal

A record is added to a journal with all its octets or with none. Writing a journal as a whole passes
its lines through a buffer, so what the buffer took in is in the file or still held at every moment.
When all went well, the file at the path of the journal holds exactly the lines of the records, and
a journal that adds records goes on with that file.
-/

namespace ShortLinks.Journal

open FileSystem

variable {fs fs' fs'' : FileSystem} {path : String} {mode : JournalMode} {file : FileId}

namespace Buffer

variable {b b' b'' : Buffer} {first second bytes : Bytes}

/-- The buffer took octets in: they are at the end of what it passed on and what it holds. -/
structure Took (bytes : Bytes) (b : Buffer) (fs : FileSystem) (b' : Buffer) (fs' : FileSystem) :
    Prop where
  file : b'.file = b.file
  kept : ∃ passed, Grew b.file passed fs fs' ∧ b.held ++ bytes = passed ++ b'.held

/-- A buffer to which nothing happens took nothing in. -/
theorem Took.refl (b : Buffer) (fs : FileSystem) : Took [] b fs b fs :=
  ⟨rfl, [], Grew.refl b.file fs, List.append_nil _⟩

/-- A buffer that took octets in twice took in both, in this order. -/
theorem Took.trans (h₁ : Took first b fs b' fs') (h₂ : Took second b' fs' b'' fs'') :
    Took (first ++ second) b fs b'' fs'' := by
  obtain ⟨hfile₁, passed₁, hgrew₁, hkept₁⟩ := h₁
  obtain ⟨hfile₂, passed₂, hgrew₂, hkept₂⟩ := h₂
  refine ⟨hfile₂.trans hfile₁, passed₁ ++ passed₂, hgrew₁.trans (hfile₁ ▸ hgrew₂), ?_⟩
  rw [← List.append_assoc, hkept₁, List.append_assoc, hkept₂, List.append_assoc]

/-- A buffer that is flushed holds nothing. -/
theorem run_flush_ok (h : b.flush.run fs = (.ok b', fs')) :
    Took [] b fs b' fs' ∧ b'.held = [] := by
  obtain ⟨_, grown, happend, hflush⟩ := run_bind_ok h
  cases hflush
  have hgrew := Disk.run_append_ok happend
  exact ⟨⟨rfl, b.held, hgrew, rfl⟩, rfl⟩

/-- A buffer has made room for octets when they fit, or it holds nothing. -/
theorem run_makeRoom_ok (h : (b.makeRoom bytes).run fs = (.ok b', fs')) :
    Took [] b fs b' fs' ∧ (capacity < bytes.length → b'.held = []) := by
  unfold makeRoom at h
  split at h
  · obtain ⟨htook, hempty⟩ := run_flush_ok h
    exact ⟨htook, fun _ => hempty⟩
  · cases h
    exact ⟨Took.refl b fs, fun hlarge => by omega⟩

/-- A buffer into which octets could be put took them in. -/
theorem run_put_ok (h : (b.put bytes).run fs = (.ok b', fs')) : Took bytes b fs b' fs' := by
  obtain ⟨ready, fs₁, hroom, hput⟩ := run_bind_ok h
  obtain ⟨htook, hempty⟩ := run_makeRoom_ok hroom
  apply htook.trans
  split at hput
  · next hlarge =>
    obtain ⟨_, fs₂, happend, hput⟩ := run_bind_ok hput
    cases hput
    exact ⟨rfl, bytes, Disk.run_append_ok happend, by rw [hempty hlarge, List.append_nil]; rfl⟩
  · cases hput
    exact ⟨rfl, [], Grew.refl _ _, rfl⟩

/-- The lines of records pass through a buffer whole and in order. -/
theorem run_putRecords_ok {records : List Record}
    (h : (b.putRecords records).run fs = (.ok b', fs')) :
    Took (records.flatMap lineBytes) b fs b' fs' := by
  induction records generalizing b fs with
  | nil =>
    cases h
    exact Took.refl _ _
  | cons r rest ih =>
    obtain ⟨b₁, fs₁, htext, h₁⟩ := run_bind_ok h
    obtain ⟨b₂, fs₂, hend, hrest⟩ := run_bind_ok h₁
    have hline := (run_put_ok (run_orFault_ok htext)).trans (run_put_ok (run_orFault_ok hend))
    rw [List.flatMap_cons]
    exact hline.trans (ih hrest)

end Buffer

/-- The file of a journal that was attached stands at its path, with the octets it had. -/
theorem run_attach_ok {j : Journal} (h : (attach path mode).run fs = (.ok (j, file), fs')) :
    fs'.Stands path file ∧ j = { path, writer := if mode = .append then some file else none } ∧
      fs'.faults = fs.faults ∧ fs'.bytes file = fs.bytes file := by
  obtain ⟨_, fs₁, hparents, h₁⟩ := run_bind_ok h
  obtain ⟨opened, fs₂, hopen, hattached⟩ := run_bind_ok h₁
  have hspared := Disk.spares_makeParents path fs
  rw [run_orFault_ok hparents] at hspared
  obtain ⟨hstands, hfaults, hcontent⟩ := Disk.run_openAppend_ok (run_orFault_ok hopen)
  cases hattached
  refine ⟨hstands, rfl, hfaults.trans hspared.2, ?_⟩
  rw [FileSystem.bytes, hcontent, content, hspared.1]
  rfl

/-- A journal whose file stands at its path is attached to it, if the fault plan lets it. -/
theorem run_attach_stands (h : fs.Stands path file) : (attach path mode).run fs =
    match fs.faults fs.performed .openAppend with
    | some e => (.error (pathFault "Failed to open" path e), fs.tick)
    | none =>
      (.ok ({ path, writer := if mode = .append then some file else none }, file), fs.tick) := by
  have hparents : ((Disk.makeParents path).orFault IoError.toFault).run fs = (.ok (), fs) := by
    rw [run_orFault, Disk.run_makeParents_stands h]
    rfl
  rw [attach, run_bind, hparents]
  simp only [openFile, run_bind, run_orFault, Disk.run_openAppend_stands h]
  cases fs.faults fs.performed .openAppend <;> rfl

/-- A record is added whole, or the fault plan lets it fail and nothing is added. -/
theorem run_append (j : Journal) (r : Record) (hwriter : j.writer = some file) :
    (∃ fs', (j.append r).run fs = (.ok (), fs') ∧ Grew file (lineBytes r) fs fs') ∨
      fs.faults ≠ noFaults ∧ ∃ fault, (j.append r).run fs = (.error fault, fs.tick) := by
  rw [append, hwriter]
  simp only [run_orFault]
  obtain ⟨fs', hrun, hgrew⟩ | ⟨e, hplan, hrun⟩ := Disk.run_append file (lineBytes r) fs
  · rw [hrun]
    exact Or.inl ⟨fs', rfl, hgrew⟩
  · rw [hrun]
    refine Or.inr ⟨fun hfaults => ?_, _, rfl⟩
    rw [hfaults] at hplan
    cases hplan

/-- A record that was added is at the end of the file, as a line. -/
theorem run_append_ok {j : Journal} {r : Record} (hwriter : j.writer = some file)
    (h : (j.append r).run fs = (.ok (), fs')) : Grew file (lineBytes r) fs fs' := by
  rw [append, hwriter] at h
  exact Disk.run_append_ok (run_orFault_ok h)

/-- Writing anew makes a file, lets it grow by the lines of the records and gives it the path. -/
theorem run_renew_parts {j : Journal} {records : List Record}
    (h : (j.renew records).run fs = (.ok file, fs')) : ∃ made grown,
      (Disk.create j.scratch).run fs = (.ok file, made) ∧
      Grew file (records.flatMap lineBytes) made grown ∧
      (Disk.rename j.scratch j.path).run grown = (.ok (), fs') := by
  obtain ⟨file', fs₁, hcreate, h₁⟩ := run_bind_ok h
  obtain ⟨b₁, fs₂, hput, h₂⟩ := run_bind_ok h₁
  obtain ⟨b₂, fs₃, hflush, h₃⟩ := run_bind_ok h₂
  obtain ⟨_, fs₄, hsync, h₄⟩ := run_bind_ok h₃
  obtain ⟨_, fs₅, hrename, hrenewed⟩ := run_bind_ok h₄
  cases hrenewed
  have hflushed := Buffer.run_flush_ok (run_orFault_ok hflush)
  obtain ⟨-, passed, hgrew, hpassed⟩ := (Buffer.run_putRecords_ok hput).trans hflushed.1
  rw [hflushed.2, List.append_nil, List.append_nil, List.nil_append] at hpassed
  cases Disk.run_attempt_ok (run_orFault_ok hsync)
  have hgrew' := hgrew.trans (Grew.of_tick file fs₃)
  rw [List.append_nil, ← hpassed] at hgrew'
  exact ⟨fs₁, fs₃.tick, run_orFault_ok hcreate, hgrew', run_orFault_ok hrename⟩

/-- The file that was written stands at the path and holds exactly the lines of the records. -/
theorem run_renew_ok {j : Journal} {records : List Record}
    (h : (j.renew records).run fs = (.ok file, fs')) :
    fs'.Stands j.path file ∧ fs'.bytes file = records.flatMap lineBytes ∧
      fs'.faults = fs.faults := by
  obtain ⟨made, grown, hcreate, hgrew, hrename⟩ := run_renew_parts h
  obtain ⟨hscratch, hfaults, hempty⟩ := Disk.run_create_ok hcreate
  obtain ⟨hstands, hfaults', hcontent⟩ :=
    Disk.run_rename_ok (hscratch.of_names hgrew.names) hrename
  refine ⟨hstands, ?_, (hfaults'.trans hgrew.faults).trans hfaults⟩
  rw [FileSystem.bytes, hcontent]
  exact hgrew.here.trans (by rw [hempty, List.nil_append])

/-- A journal takes up the file that stands at its path, if the fault plan lets it. -/
theorem run_takeUp {j : Journal} (h : fs.Stands j.path file) : j.takeUp.run fs =
    match j.writer with
    | none => (.ok j, fs)
    | some _ =>
      match fs.faults fs.performed .openAppend with
      | some e => (.error (pathFault "Failed to open" j.path e), fs.tick)
      | none => (.ok { j with writer := some file }, fs.tick) := by
  rw [takeUp]
  cases j.writer with
  | none => rfl
  | some old =>
    simp only [openFile, run_bind, run_orFault, Disk.run_openAppend_stands h]
    cases fs.faults fs.performed .openAppend <;> rfl

/-- A journal that is written as a whole holds exactly the lines of the records. -/
theorem run_replace_ok {j j' : Journal} {records : List Record}
    (h : (j.replace records).run fs = (.ok j', fs')) :
    ∃ file, fs'.Stands j.path file ∧ fs'.bytes file = records.flatMap lineBytes ∧
      j' = { j with writer := j.writer.map fun _ => file } ∧ fs'.faults = fs.faults := by
  obtain ⟨file, fs₁, hrenew, htakeUp⟩ := run_bind_ok h
  obtain ⟨hstands, hbytes, hfaults⟩ := run_renew_ok hrenew
  rw [run_takeUp hstands] at htakeUp
  obtain ⟨path, _ | old⟩ := j
  · cases htakeUp
    exact ⟨file, hstands, hbytes, rfl, hfaults⟩
  · simp only at htakeUp
    split at htakeUp
    · cases htakeUp
    · cases htakeUp
      exact ⟨file, hstands.of_names rfl, hbytes, rfl, hfaults⟩

/-- Every fault of the work is one of the backend. -/
def Technical {α : Type} (x : Stored α) : Prop :=
  ∀ fs fault fs', x.run fs = (.error fault, fs') → fault.kind.isBackend

/-- What is at hand reports no fault. -/
theorem technical_pure {α : Type} (a : α) : Technical (pure a) := fun _ _ _ h => nomatch h

/-- A sequence reports faults of the backend only, if its parts do. -/
theorem Technical.bind {α β : Type} {x : Stored α} {f : α → Stored β} (hx : Technical x)
    (hf : ∀ a, Technical (f a)) : Technical (x >>= f) := by
  intro fs fault fs' h
  obtain hfirst | ⟨a, fs₁, -, hsecond⟩ := run_bind_error h
  · exact hx fs fault fs' hfirst
  · exact hf a fs₁ fault fs' hsecond

/-- Work on the files reports faults of the backend only, if its errors become such faults. -/
theorem technical_orFault {α : Type} (x : Disk α) {fault : IoError → Fault}
    (h : ∀ e, (fault e).kind.isBackend) : Technical (x.orFault fault) := by
  intro fs f fs' hrun
  rw [run_orFault] at hrun
  rcases hx : x.run fs with ⟨e | a, fs₁⟩ <;> rw [hx] at hrun <;> cases hrun
  exact h e

/-- Putting records into a buffer reports faults of the backend only. -/
theorem Buffer.technical_putRecords (b : Buffer) (records : List Record) :
    Technical (b.putRecords records) := by
  induction records generalizing b with
  | nil => exact technical_pure b
  | cons r rest ih =>
    refine (technical_orFault _ fun _ => rfl).bind fun _ => ?_
    exact (technical_orFault _ fun _ => rfl).bind fun b => ih b

/-- A journal that cannot be written as a whole is a fault of the backend. -/
theorem technical_replace (j : Journal) (records : List Record) :
    Technical (j.replace records) := by
  have hrenew : Technical (j.renew records) := by
    refine (technical_orFault _ fun _ => rfl).bind fun file => ?_
    refine (Buffer.technical_putRecords _ records).bind fun buffer => ?_
    refine (technical_orFault _ fun _ => rfl).bind fun _ => ?_
    refine (technical_orFault _ fun _ => rfl).bind fun _ => ?_
    exact (technical_orFault _ fun _ => rfl).bind fun _ => technical_pure file
  refine hrenew.bind fun _ => ?_
  unfold takeUp
  cases j.writer with
  | none => exact technical_pure j
  | some _ => exact (technical_orFault _ fun _ => rfl).bind fun _ => technical_pure _

end ShortLinks.Journal
