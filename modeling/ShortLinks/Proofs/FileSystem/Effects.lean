import ShortLinks.Proofs.FileSystem.Around

/-!
# What operations on files change

Every operation is described by what it leaves of the names, of the fault plan and of the octets of
each file. Making directories changes no file at all. An operation that fails has at most been
counted. What grows a file by octets changes no name, so everything that is found by names is found
as before.
-/

namespace ShortLinks

namespace FileSystem

variable {fs fs' fs'' : FileSystem} {p q : Place} {path : String} {id : FileId}

/-- A content stands where it was put, and nothing else has changed. -/
theorem getD_placeContent (c : Content) (id j : FileId) (contents : List Content) :
    ((placeContent c id contents)[j]?).getD (.octets []) =
      if j = id then c else (contents[j]?).getD (.octets []) := by
  induction id, contents using placeContent.induct generalizing j with
  | case1 => cases j <;> simp [placeContent]
  | case2 => cases j <;> simp [placeContent]
  | case3 id ih =>
    cases j with
    | zero => simp [placeContent]
    | succ j => simpa [placeContent] using ih j
  | case4 id first rest ih =>
    cases j with
    | zero => simp [placeContent]
    | succ j => simpa [placeContent] using ih j

/-- Putting a content somewhere shortens no list of contents. -/
theorem length_le_placeContent (c : Content) (id : FileId) (contents : List Content) :
    contents.length ≤ (placeContent c id contents).length := by
  induction id, contents using placeContent.induct with
  | case1 => exact Nat.zero_le _
  | case2 => exact Nat.le_refl _
  | case3 => exact Nat.zero_le _
  | case4 id first rest ih => simpa [placeContent] using ih

/-- What was put into its place is there. -/
theorem lt_length_placeContent (c : Content) (id : FileId) (contents : List Content) :
    id < (placeContent c id contents).length := by
  induction id, contents using placeContent.induct with
  | case1 => exact Nat.one_pos
  | case2 => exact Nat.succ_pos _
  | case3 id ih => simpa [placeContent] using ih
  | case4 id first rest ih => simpa [placeContent] using ih

/-- The files after an operation that was no more than counted. -/
def tick (fs : FileSystem) : FileSystem := { fs with performed := fs.performed + 1 }

/-- Setting the content of a file changes that file and no other. -/
theorem content_setContent (fs : FileSystem) (id j : FileId) (c : Content) :
    (fs.setContent id c).content j = if j = id then c else fs.content j :=
  getD_placeContent c id j fs.contents

/-- A new file is empty, and it had no content before. -/
theorem content_fresh (fs : FileSystem) (j : FileId) :
    ((fs.fresh (.octets [])).2).content j = fs.content j := by
  simp only [fresh, content, List.getElem?_append, List.getElem?_singleton]
  split
  · rfl
  · next h =>
    rw [List.getElem?_eq_none (Nat.le_of_not_lt h)]
    split <;> rfl

/-- Only the names say what stands at a place. -/
theorem node?_congr (h : fs'.names = fs.names) : fs'.node? = fs.node? := by
  funext p
  rw [node?, node?, h]

/-- Where the names are the same, so are the directories. -/
theorem KeepsDirectories.of_names (h : fs'.names = fs.names) : KeepsDirectories fs fs' := by
  intro p hp
  rwa [node?_congr h]

/-- A place that is given a node has it, and no other place changes. -/
theorem node?_bind (hp : fs.node? p ≠ some .directory) (n : Node) :
    (fs.bind p n).node? q = if q = p then some n else fs.node? q := by
  by_cases hall : q.all fun c => c == ".." || c == "/"
  · have hq : fs.node? q = some .directory := by rw [node?, if_pos hall]
    have hne : q ≠ p := fun e => hp (e ▸ hq)
    rw [node?, if_pos hall, if_neg hne, hq]
  · rw [node?, if_neg hall, node?, if_neg hall, bind, Keyed.find?_insert]
    by_cases hpq : q = p
    · simp [hpq]
    · simp [hpq, Ne.symm hpq]

/-- A place that loses its name is free, and no other place changes. -/
theorem node?_unbind (hp : fs.node? p ≠ some .directory) :
    (fs.unbind p).node? q = if q = p then none else fs.node? q := by
  by_cases hall : q.all fun c => c == ".." || c == "/"
  · have hq : fs.node? q = some .directory := by rw [node?, if_pos hall]
    have hne : q ≠ p := fun e => hp (e ▸ hq)
    rw [node?, if_pos hall, if_neg hne, hq]
  · rw [node?, if_neg hall, node?, if_neg hall, unbind, Keyed.find?_erase]

/-- Giving a place that is no directory a node leaves all directories. -/
theorem KeepsDirectories.bind (hp : fs.node? p ≠ some .directory) (n : Node) :
    KeepsDirectories fs (fs.bind p n) := by
  intro q hq
  rw [node?_bind hp, if_neg, hq]
  exact fun e => hp (e ▸ hq)

/-- Taking the name of no directory away leaves all directories. -/
theorem KeepsDirectories.unbind (hp : fs.node? p ≠ some .directory) :
    KeepsDirectories fs (fs.unbind p) := by
  intro q hq
  rw [node?_unbind hp, if_neg, hq]
  exact fun e => hp (e ▸ hq)

/-- A path that finds a file leads to a place where it stands. -/
theorem locate_of_find? (h : fs.find? path = .ok (.file id)) :
    ∃ place, fs.locate path = .ok place ∧ fs.node? place = some (.file id) := by
  obtain ⟨place, hlocate, hnode⟩ := except_bind_eq_ok.1 h
  refine ⟨place, hlocate, ?_⟩
  split at hnode
  · simp at hnode
  · cases hnode
  · next id' hid =>
    split at hnode
    · simp at hnode
    · cases hnode
      exact hid

/-- A file stands in the place where a path can have one. -/
def Stands (fs : FileSystem) (path : String) (id : FileId) : Prop :=
  ∃ place, fs.slot path = .ok place ∧ fs.node? place = some (.file id)

/-- A path finds the file that stands there. -/
theorem Stands.find? (h : fs.Stands path id) : fs.find? path = .ok (.file id) := by
  obtain ⟨place, hslot, hnode⟩ := h
  exact find?_of_slot hslot hnode

/-- What stands at a path depends on the names alone. -/
theorem Stands.of_names (hnames : fs'.names = fs.names) (h : fs.Stands path id) :
    fs'.Stands path id := by
  obtain ⟨place, hslot, hnode⟩ := h
  exact ⟨place, (KeepsDirectories.of_names hnames).slot hslot, by rwa [node?_congr hnames]⟩

/-- Nothing but the count of operations and the octets of one file differs, and `added` are new at
the end of that file. No file has gone away. -/
structure Grew (file : FileId) (added : Bytes) (fs fs' : FileSystem) : Prop where
  names : fs'.names = fs.names
  faults : fs'.faults = fs.faults
  here : fs'.bytes file = fs.bytes file ++ added
  elsewhere : ∀ id, id ≠ file → fs'.content id = fs.content id
  made : fs.contents.length ≤ fs'.contents.length

namespace Grew

variable {file : FileId} {first second : Bytes}

/-- A file that nothing happens to has grown by nothing. -/
theorem refl (file : FileId) (fs : FileSystem) : Grew file [] fs fs :=
  ⟨rfl, rfl, (List.append_nil _).symm, fun _ _ => rfl, Nat.le_refl _⟩

/-- An operation that only counts lets no file grow. -/
theorem of_tick (file : FileId) (fs : FileSystem) : Grew file [] fs fs.tick :=
  ⟨rfl, rfl, (List.append_nil _).symm, fun _ _ => rfl, Nat.le_refl _⟩

/-- A file that grows twice has grown by both, in this order. -/
theorem trans (h : Grew file first fs fs') (h' : Grew file second fs' fs'') :
    Grew file (first ++ second) fs fs'' where
  names := h'.names.trans h.names
  faults := h'.faults.trans h.faults
  here := by rw [h'.here, h.here, List.append_assoc]
  elsewhere id hid := (h'.elsewhere id hid).trans (h.elsewhere id hid)
  made := Nat.le_trans h.made h'.made

end Grew

end FileSystem

namespace Disk

open FileSystem

variable {fs fs' : FileSystem} {path : String} {id : FileId} {place : Place}

/-- An operation is counted, and fails when the fault plan says so. -/
theorem run_attempt (op : Operation) (fs : FileSystem) : (attempt op).run fs =
    match fs.faults fs.performed op with
    | some e => (.error e, fs.tick)
    | none => (.ok (), fs.tick) := by
  simp only [attempt, run_bind, run_get, run_set]
  cases fs.faults fs.performed op <;> rfl

/-- An operation goes on when the fault plan lets it. -/
theorem run_attempt_ok {op : Operation} (h : (attempt op).run fs = (.ok (), fs')) :
    fs' = fs.tick := by
  rw [run_attempt] at h
  split at h <;> cases h
  rfl

/-- A question changes nothing. -/
theorem run_ask {α : Type} (question : FileSystem → Except IoError α) (fs : FileSystem) :
    (ask question).run fs = (question fs, fs) := by
  simp only [ask, run_bind, run_get]
  cases question fs <;> rfl

/-- Octets that are added are all there, or none of them is. -/
theorem run_append (file : FileId) (bytes : Bytes) (fs : FileSystem) :
    (∃ fs', (append file bytes).run fs = (.ok (), fs') ∧ Grew file bytes fs fs') ∨
      ∃ e, fs.faults fs.performed .write = some e ∧
        (append file bytes).run fs = (.error e, fs.tick) := by
  unfold append
  split
  · next h =>
    rw [List.isEmpty_iff.1 h]
    exact Or.inl ⟨fs, rfl, Grew.refl file fs⟩
  · rw [run_bind, run_attempt]
    cases hplan : fs.faults fs.performed .write with
    | some e => exact Or.inr ⟨e, rfl, rfl⟩
    | none =>
      refine Or.inl ⟨_, rfl, rfl, rfl, ?_, fun id hid => ?_, length_le_placeContent _ _ _⟩
      · rw [FileSystem.bytes, content_setContent, if_pos rfl]
        rfl
      · rw [content_setContent, if_neg hid]
        rfl

/-- Octets that were appended are at the end of their file, and nothing else is new. -/
theorem run_append_ok {file : FileId} {bytes : Bytes}
    (h : (append file bytes).run fs = (.ok (), fs')) : Grew file bytes fs fs' := by
  obtain ⟨_, hrun, hgrew⟩ | ⟨e, -, hrun⟩ := run_append file bytes fs
  · rw [h] at hrun
    cases hrun
    exact hgrew
  · rw [h] at hrun
    cases hrun

/-- The file that stands at a path is obtained as it is. -/
theorem run_obtain_stands (h : fs.Stands path id) : (obtain path).run fs = (.ok id, fs) := by
  obtain ⟨place, hslot, hnode⟩ := h
  rw [obtain, run_bind, run_ask, hslot]
  simp [run_bind, hnode]

/-- What is obtained stands at its path. No octets change. -/
theorem run_obtain_ok (h : (obtain path).run fs = (.ok id, fs')) :
    fs'.Stands path id ∧ fs'.faults = fs.faults ∧ ∀ j, fs'.content j = fs.content j := by
  rw [obtain, run_bind, run_ask] at h
  cases hslot : fs.slot path with
  | error e => simp [hslot] at h
  | ok place =>
    simp only [hslot, run_bind, run_get] at h
    split at h
    · cases h
    · next found hnode =>
      cases h
      exact ⟨⟨place, hslot, hnode⟩, rfl, fun _ => rfl⟩
    · next hnode =>
      cases h
      have hnames : (fs.fresh (.octets [])).2.names = fs.names := rfl
      have hfree : (fs.fresh (.octets [])).2.node? place ≠ some .directory := by
        rw [node?_congr hnames, hnode]
        simp
      refine ⟨⟨place, ?_, ?_⟩, rfl, content_fresh fs⟩
      · exact (KeepsDirectories.bind hfree _).slot ((KeepsDirectories.of_names hnames).slot hslot)
      · rw [node?_bind hfree, if_pos rfl]

/-- A file that is opened for appending stands at its path, with the octets it had. -/
theorem run_openAppend_ok (h : (openAppend path).run fs = (.ok id, fs')) :
    fs'.Stands path id ∧ fs'.faults = fs.faults ∧ ∀ j, fs'.content j = fs.content j := by
  obtain ⟨_, counted, hattempt, hobtain⟩ := run_bind_ok h
  cases run_attempt_ok hattempt
  have hfound := run_obtain_ok hobtain
  exact hfound

/-- The file that stands at a path is the one that is opened, if the fault plan lets it. -/
theorem run_openAppend_stands (h : fs.Stands path id) : (openAppend path).run fs =
    match fs.faults fs.performed .openAppend with
    | some e => (.error e, fs.tick)
    | none => (.ok id, fs.tick) := by
  rw [openAppend, run_bind, run_attempt]
  cases fs.faults fs.performed .openAppend with
  | some e => rfl
  | none => exact run_obtain_stands (h.of_names rfl)

/-- Around a file that stands at its path no directory is missing. -/
theorem run_makeParents_stands (h : fs.Stands path id) :
    (makeParents path).run fs = (.ok (), fs) := by
  obtain ⟨place, hslot, -⟩ := h
  have hrun : (makeParents path).run fs =
      (if !fs.holds (Path.around path) then makeDirectories (Path.around path)
        else pure ()).run fs := by
    rw [makeParents, run_bind, run_get]
  rw [hrun]
  rcases holds_around hslot with haround | hholds
  · rw [haround]
    split <;> rfl
  · rw [hholds]
    rfl

/-- The work changes no file and no fault plan. -/
def Spares {α : Type} (x : Disk α) : Prop :=
  ∀ fs, (x.run fs).2.contents = fs.contents ∧ (x.run fs).2.faults = fs.faults

/-- A sequence spares the files if its parts do. -/
theorem Spares.bind {α β : Type} {x : Disk α} {f : α → Disk β} (hx : Spares x)
    (hf : ∀ a, Spares (f a)) :
    Spares (x >>= f) := by
  intro fs
  have hfirst := hx fs
  rw [run_bind]
  rcases hrun : x.run fs with ⟨e | a, fs₁⟩
  · rw [hrun] at hfirst
    exact hfirst
  · rw [hrun] at hfirst
    have hsecond := hf a fs₁
    exact ⟨hsecond.1.trans hfirst.1, hsecond.2.trans hfirst.2⟩

/-- What is at hand spares the files. -/
theorem spares_pure {α : Type} (a : α) : Spares (pure a) := fun _ => ⟨rfl, rfl⟩

/-- Failing spares the files. -/
theorem spares_throw {α : Type} (e : IoError) : Spares (throw e : Disk α) := fun _ => ⟨rfl, rfl⟩

/-- Looking at the files spares them. -/
theorem spares_get : Spares get := fun _ => ⟨rfl, rfl⟩

/-- A question spares the files. -/
theorem spares_ask {α : Type} (question : FileSystem → Except IoError α) :
    Spares (ask question) := by
  intro fs
  rw [run_ask]
  exact ⟨rfl, rfl⟩

/-- Counting an operation spares the files. -/
theorem spares_attempt (op : Operation) : Spares (attempt op) := by
  intro fs
  rw [run_attempt]
  split <;> exact ⟨rfl, rfl⟩

/-- Looking at how work ended spares the files if the work does. -/
theorem Spares.outcome {α : Type} {x : Disk α} (h : Spares x) : Spares (outcome x) := by
  intro fs
  exact h fs

/-- Making a directory spares the files. -/
theorem spares_makeDirectory (path : String) : Spares (makeDirectory path) := by
  refine (spares_ask _).bind fun around => ?_
  split
  · exact spares_throw _
  · refine (spares_ask _).bind fun place => spares_get.bind fun fs => ?_
    split
    · exact (spares_throw _).bind fun _ => (spares_attempt _).bind fun _ _ => ⟨rfl, rfl⟩
    · exact (spares_attempt _).bind fun _ _ => ⟨rfl, rfl⟩

/-- Making a directory where none is spares the files. -/
theorem spares_ensureDirectory (path : String) : Spares (ensureDirectory path) := by
  refine (spares_makeDirectory path).outcome.bind fun result => ?_
  split
  · exact spares_pure ()
  · refine spares_get.bind fun fs => ?_
    split
    · exact spares_throw _
    · exact spares_pure ()

/-- Making directories on the way to a path spares the files. -/
theorem spares_makeDirectoriesFrom (paths : List String) : Spares (makeDirectoriesFrom paths) := by
  induction paths with
  | nil => exact spares_pure ()
  | cons path around ih =>
    refine (spares_makeDirectory path).outcome.bind fun result => ?_
    split
    · exact spares_pure ()
    · exact ih.bind fun _ => spares_ensureDirectory path
    · refine spares_get.bind fun fs => ?_
      split
      · exact spares_throw _
      · exact spares_pure ()

/-- Making the directories around a path changes no file. -/
theorem spares_makeParents (path : String) : Spares (makeParents path) := by
  refine spares_get.bind fun fs => ?_
  unfold makeDirectories
  split
  · split
    · exact spares_pure ()
    · exact spares_makeDirectoriesFrom _
  · exact spares_pure ()

/-- A file that is opened for writing stands at its path and is empty. -/
theorem run_create_ok (h : (create path).run fs = (.ok id, fs')) :
    fs'.Stands path id ∧ fs'.faults = fs.faults ∧ fs'.bytes id = [] := by
  obtain ⟨_, counted, hattempt, hcreate⟩ := run_bind_ok h
  obtain ⟨found, opened, hobtain, hempty⟩ := run_bind_ok hcreate
  cases run_attempt_ok hattempt
  obtain ⟨hstands, hfaults, -⟩ := run_obtain_ok hobtain
  cases hempty
  refine ⟨hstands.of_names rfl, hfaults, ?_⟩
  rw [FileSystem.bytes, content_setContent, if_pos rfl]
  rfl

/-- A file that is given a path gets the place of this path and loses the one it had. -/
theorem run_rename_places {source target : String} (hsource : fs.Stands source id)
    (h : (rename source target).run fs = (.ok (), fs')) :
    ∃ old new, fs.slot source = .ok old ∧ fs.node? old = some (.file id) ∧
      fs.slot target = .ok new ∧ fs.node? new ≠ some .directory ∧
      fs' = (fs.tick.unbind old).bind new (.file id) := by
  obtain ⟨_, counted, hattempt, hrename⟩ := run_bind_ok h
  cases run_attempt_ok hattempt
  obtain ⟨old, hold, hnode⟩ := hsource
  have hkeeps : KeepsDirectories fs fs.tick := .of_names rfl
  have hold' := hkeeps.slot hold
  rw [run_bind, run_ask, find?_of_slot hold' hnode] at hrename
  simp only [run_bind, run_ask, locate_of_slot hold'] at hrename
  cases hslot : fs.tick.slot target with
  | error e => simp [hslot] at hrename
  | ok new =>
    have hback : KeepsDirectories fs.tick fs := .of_names rfl
    simp only [hslot, run_get] at hrename
    split at hrename
    · cases hrename
    · next hnew =>
      cases hrename
      exact ⟨old, new, hold, hnode, hback.slot hslot, hnew, rfl⟩

/-- Giving a file another place changes what stands at both places, and all directories stay. -/
theorem keepsDirectories_rename {old new : Place} (hnode : fs.node? old = some (.file id))
    (hnew : fs.node? new ≠ some .directory) :
    KeepsDirectories fs ((fs.tick.unbind old).bind new (.file id)) ∧
    ∀ p, ((fs.tick.unbind old).bind new (.file id)).node? p =
      if p = new then some (.file id) else if p = old then none else fs.node? p := by
  have hold : fs.tick.node? old ≠ some .directory := by
    rw [show fs.tick.node? old = some (.file id) from hnode]
    simp
  have hfree : (fs.tick.unbind old).node? new ≠ some .directory := by
    rw [node?_unbind hold]
    split
    · simp
    · exact hnew
  refine ⟨fun p hp => KeepsDirectories.bind hfree _ p (KeepsDirectories.unbind hold p hp),
    fun p => ?_⟩
  rw [node?_bind hfree, node?_unbind hold]
  rfl

/-- A file that is given a path stands there, with the octets it had. -/
theorem run_rename_ok {source target : String} (hsource : fs.Stands source id)
    (h : (rename source target).run fs = (.ok (), fs')) :
    fs'.Stands target id ∧ fs'.faults = fs.faults ∧ ∀ j, fs'.content j = fs.content j := by
  obtain ⟨old, new, -, hnode, hslot, hnew, rfl⟩ := run_rename_places hsource h
  obtain ⟨hkeeps, hnodes⟩ := keepsDirectories_rename hnode hnew
  exact ⟨⟨new, hkeeps.slot hslot, by rw [hnodes, if_pos rfl]⟩, rfl, fun _ => rfl⟩

/-- Nothing stands any more at the path that the file had before. -/
theorem not_stands_rename {source target : String} (hsource : fs.Stands source id)
    (hapart : ∀ p q, fs.slot source = .ok p → fs.slot target = .ok q → p ≠ q)
    (h : (rename source target).run fs = (.ok (), fs')) (id' : FileId) :
    ¬fs'.Stands source id' := by
  obtain ⟨old, new, hold, hnode, hslot, hnew, rfl⟩ := run_rename_places hsource h
  obtain ⟨hkeeps, hnodes⟩ := keepsDirectories_rename hnode hnew
  rintro ⟨place, hplace, hstands⟩
  cases (hkeeps.slot hold).symm.trans hplace
  rw [hnodes, if_neg (hapart _ _ hold hslot), if_pos rfl] at hstands
  cases hstands

end Disk

end ShortLinks
