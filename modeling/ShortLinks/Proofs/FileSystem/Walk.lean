import ShortLinks.Proofs.Run

/-!
# Walking along paths

A walk enters one directory after another, so it only asks which places are directories: where those
stay directories, the walk ends at the same place. A place that can hold a file lies in a directory
that the path without its last name finds, so opening a file that is there makes no directories.
-/

namespace ShortLinks

namespace FileSystem

variable {fs fs' : FileSystem} {p q : Place} {path name : String}

/-- Every place that is a directory in `fs` is one in `fs'`. -/
def KeepsDirectories (fs fs' : FileSystem) : Prop :=
  ∀ p, fs.node? p = some .directory → fs'.node? p = some .directory

/-- A step starts in a directory. -/
theorem node?_of_enter (h : fs.enter p name = .ok q) : fs.node? p = some .directory := by
  unfold enter at h
  split at h <;> simp_all

/-- A step to itself stays in its directory. -/
theorem enter_dot (h : fs.node? p = some .directory) : fs.enter p "." = .ok p := by
  simp [enter, h]

/-- A step to itself ends where it starts. -/
theorem eq_of_enter_dot (h : fs.enter p "." = .ok q) : q = p := by
  rw [enter_dot (node?_of_enter h)] at h
  exact (Except.ok.inj h).symm

/-- A step is possible wherever its directory still is one. -/
theorem KeepsDirectories.enter (hkeeps : KeepsDirectories fs fs') (h : fs.enter p name = .ok q) :
    fs'.enter p name = .ok q := by
  have hp := node?_of_enter h
  simpa [FileSystem.enter, hp, hkeeps p hp] using h

/-- A walk is possible wherever its directories still are directories. -/
theorem KeepsDirectories.walk (hkeeps : KeepsDirectories fs fs') {names : List String}
    (h : names.foldlM fs.enter p = .ok q) : names.foldlM fs'.enter p = .ok q := by
  induction names generalizing p with
  | nil => exact h
  | cons name names ih =>
    rw [List.foldlM_cons, except_bind_eq_ok] at h ⊢
    obtain ⟨p', hstep, hrest⟩ := h
    exact ⟨p', hkeeps.enter hstep, ih hrest⟩

/-- When a path leads to the directory of its last step. -/
theorem approach_eq_ok_iff : fs.approach path = .ok p ↔
    path ≠ "" ∧ '\x00' ∉ path.toList ∧ path.utf8ByteSize ≤ 4095 ∧
      (Path.steps path).dropLast.foldlM fs.enter (Path.start path) = .ok p ∧
      fs.node? p = some .directory := by
  unfold approach
  split
  · next hempty => exact iff_of_false nofun fun h => h.1 hempty
  split
  · next hnul => exact iff_of_false nofun fun h => h.2.1 (List.contains_iff_mem.1 hnul)
  split
  · next hsize => exact iff_of_false nofun fun h => absurd hsize (Nat.not_lt.2 h.2.2.1)
  rename_i hempty hnul hsize
  rw [except_bind_eq_ok]
  constructor
  · rintro ⟨q, hwalk, hdot⟩
    obtain rfl := eq_of_enter_dot hdot
    exact ⟨hempty, by simpa using hnul, by omega, hwalk, node?_of_enter hdot⟩
  · rintro ⟨-, -, -, hwalk, hdir⟩
    exact ⟨p, hwalk, enter_dot hdir⟩

/-- When a path can have a file. -/
theorem slot_eq_ok_iff : fs.slot path = .ok p ↔
    ∃ around name, fs.approach path = .ok around ∧ Path.nameOf? path = some name ∧
      Path.endsInSlash path = false ∧ fs.enter around name = .ok p := by
  rw [slot, except_bind_eq_ok]
  refine exists_congr fun around => ?_
  cases Path.nameOf? path <;> cases Path.endsInSlash path <;>
    simp [throw, throwThe, MonadExceptOf.throw]

/-- The directory of the last step is found wherever the directories on the way still are
directories. -/
theorem KeepsDirectories.approach (hkeeps : KeepsDirectories fs fs')
    (h : fs.approach path = .ok p) : fs'.approach path = .ok p := by
  obtain ⟨hempty, hnul, hsize, hwalk, hdir⟩ := approach_eq_ok_iff.1 h
  exact approach_eq_ok_iff.2 ⟨hempty, hnul, hsize, hkeeps.walk hwalk, hkeeps _ hdir⟩

/-- So is the place that the path names. -/
theorem KeepsDirectories.locate (hkeeps : KeepsDirectories fs fs')
    (h : fs.locate path = .ok p) : fs'.locate path = .ok p := by
  obtain ⟨around, happroach, henter⟩ := except_bind_eq_ok.1 h
  exact except_bind_eq_ok.2 ⟨around, hkeeps.approach happroach, hkeeps.enter henter⟩

/-- The place of a file is found wherever the directories on the way still are directories. -/
theorem KeepsDirectories.slot (hkeeps : KeepsDirectories fs fs') (h : fs.slot path = .ok p) :
    fs'.slot path = .ok p := by
  obtain ⟨around, name, happroach, hname, hslash, henter⟩ := slot_eq_ok_iff.1 h
  exact slot_eq_ok_iff.2
    ⟨around, name, hkeeps.approach happroach, hname, hslash, hkeeps.enter henter⟩

/-- The last step of a path that can have a file is a name. -/
theorem steps_of_nameOf? (h : Path.nameOf? path = some name) :
    (Path.steps path).getLast? = some name ∧ name ≠ "." ∧ name ≠ ".." := by
  simpa [Path.nameOf?, Option.filter_eq_some_iff] using h

/-- The place of a file is the one that its path names. -/
theorem locate_of_slot (hslot : fs.slot path = .ok p) : fs.locate path = .ok p := by
  obtain ⟨around, name, happroach, hname, -, henter⟩ := slot_eq_ok_iff.1 hslot
  rw [locate, except_bind_eq_ok]
  exact ⟨around, happroach, by rw [(steps_of_nameOf? hname).1]; exact henter⟩

/-- A path with a file in its place finds that file. -/
theorem find?_of_slot {id : FileId} (hslot : fs.slot path = .ok p)
    (hnode : fs.node? p = some (.file id)) : fs.find? path = .ok (.file id) := by
  obtain ⟨_, _, -, -, hslash, -⟩ := slot_eq_ok_iff.1 hslot
  refine except_bind_eq_ok.2 ⟨p, locate_of_slot hslot, ?_⟩
  simp [hnode, hslash, pure, Except.pure]

/-- A path whose walk ends in a directory finds that directory. -/
theorem find?_of_walk (hempty : path ≠ "") (hnul : '\x00' ∉ path.toList)
    (hsize : path.utf8ByteSize ≤ 4095)
    (hwalk : (Path.steps path).foldlM fs.enter (Path.start path) = .ok q)
    (hdir : fs.node? q = some .directory) : fs.find? path = .ok .directory := by
  have hlocate : fs.locate path = .ok q := by
    rw [locate, except_bind_eq_ok]
    rcases List.eq_nil_or_concat (Path.steps path) with hsteps | ⟨init, last, hsteps⟩
    · refine ⟨q, approach_eq_ok_iff.2 ⟨hempty, hnul, hsize, ?_, hdir⟩, ?_⟩
      · rwa [hsteps] at hwalk ⊢
      · rw [hsteps]
        exact enter_dot hdir
    · rw [hsteps, List.concat_eq_append, List.foldlM_append, except_bind_eq_ok] at hwalk
      obtain ⟨p, hinit, hlast⟩ := hwalk
      have hlast : fs.enter p last = .ok q := by simpa using hlast
      refine ⟨p, approach_eq_ok_iff.2 ⟨hempty, hnul, hsize, ?_, node?_of_enter hlast⟩, ?_⟩
      · simpa [hsteps] using hinit
      · simpa [hsteps] using hlast
  refine except_bind_eq_ok.2 ⟨q, hlocate, ?_⟩
  simp [hdir, pure, Except.pure]

end FileSystem

end ShortLinks
