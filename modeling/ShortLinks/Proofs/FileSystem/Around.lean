import ShortLinks.Proofs.FileSystem.Walk

/-!
# The path around a path

Names that are joined by slashes are the steps of what they spell. The path around a path is spelled
by the names before its last one, so it takes the same walk, leaving out steps that go nowhere, and
it is not longer. Where a path has a place for a file, the path around it is found. What is added
behind such a path belongs to its last name, so the longer path has another place.
-/

namespace ShortLinks

/-- No part of a split list holds the separator. -/
theorem not_mem_of_mem_splitOn {α : Type} [BEq α] [LawfulBEq α] {sep : α} {l part : List α}
    (h : part ∈ l.splitOn sep) : sep ∉ part := by
  induction l generalizing part with
  | nil => simp_all
  | cons a l ih =>
    rw [List.splitOn_cons_eq_if_modifyHead] at h
    split at h
    · rcases List.mem_cons.1 h with rfl | h
      · simp
      · exact ih h
    · next hne =>
      cases hsplit : l.splitOn sep with
      | nil => exact absurd hsplit (List.splitOn_ne_nil sep l)
      | cons first rest =>
        rw [hsplit] at h ih
        rcases List.mem_cons.1 h with rfl | h
        · simp only [List.mem_cons, not_or]
          exact ⟨fun e => hne (by simp [e]), ih List.mem_cons_self⟩
        · exact ih (List.mem_cons_of_mem _ h)

/-- What is added behind the last separator belongs to the last part. -/
theorem splitOn_concat {α : Type} [BEq α] [LawfulBEq α] {sep : α} {t : List α} (h : sep ∉ t)
    (l : List α) : ∃ init part, l.splitOn sep = init ++ [part] ∧
      (l ++ t).splitOn sep = init ++ [part ++ t] ∧
      (part = [] → l = [] ∨ l.getLast? = some sep) := by
  induction l with
  | nil => exact ⟨[], [], List.splitOn_nil sep, List.splitOn_eq_singleton h, fun _ => .inl rfl⟩
  | cons a l ih =>
    obtain ⟨init, part, hsplit, hsplit', hlast⟩ := ih
    rw [List.cons_append, List.splitOn_cons_eq_if_modifyHead, List.splitOn_cons_eq_if_modifyHead,
      hsplit, hsplit']
    have hlast' (hpart : part = []) (hl : l ≠ []) : (a :: l).getLast? = some sep := by
      rw [List.getLast?_cons_of_ne_nil hl]
      exact (hlast hpart).resolve_left hl
    by_cases ha : a == sep
    · refine ⟨[] :: init, part, if_pos ha, if_pos ha, fun hpart => .inr ?_⟩
      by_cases hl : l = []
      · rw [hl, List.getLast?_singleton, LawfulBEq.eq_of_beq ha]
      · exact hlast' hpart hl
    · simp only [if_neg ha]
      cases init with
      | nil => exact ⟨[], a :: part, rfl, rfl, nofun⟩
      | cons first init =>
        refine ⟨(a :: first) :: init, part, rfl, rfl, fun hpart => .inr (hlast' hpart ?_)⟩
        rintro rfl
        cases init <;> cases hsplit

/-- Leaving parts out of a joined list leaves a part of it. -/
theorem intercalate_sublist {α : Type} (sep : List α) {l₁ l₂ : List (List α)}
    (h : l₁.Sublist l₂) :
    (sep.intercalate l₁).Sublist (sep.intercalate l₂) := by
  induction h with
  | slnil => exact List.Sublist.refl _
  | @cons l₁ l₂ a h ih =>
    cases l₂ with
    | nil => simp_all
    | cons b l₂ =>
      rw [List.intercalate_cons_cons]
      exact ih.trans (List.sublist_append_right _ _)
  | @cons_cons l₁ l₂ a h ih =>
    cases l₁ with
    | nil => cases l₂ <;> simp
    | cons b l₁ =>
      cases l₂ with
      | nil => simp at h
      | cons c l₂ =>
        rw [List.intercalate_cons_cons, List.intercalate_cons_cons]
        exact (List.Sublist.refl _).append ih

/-- A text that leaves characters out takes no more octets. -/
theorem utf8ByteSize_le_of_sublist {s t : String} (h : s.toList.Sublist t.toList) :
    s.utf8ByteSize ≤ t.utf8ByteSize := by
  have size_cons (c : Char) (cs : List Char) : (String.ofList (c :: cs)).utf8ByteSize =
      (String.ofList [c]).utf8ByteSize + (String.ofList cs).utf8ByteSize := by
    rw [← List.singleton_append, String.ofList_append, String.utf8ByteSize_append]
  have size_le {l₁ l₂ : List Char} (h : l₁.Sublist l₂) :
      (String.ofList l₁).utf8ByteSize ≤ (String.ofList l₂).utf8ByteSize := by
    induction h with
    | slnil => exact Nat.le_refl _
    | @cons l₁ l₂ c h ih => rw [size_cons c l₂]; omega
    | @cons_cons l₁ l₂ c h ih => rw [size_cons c l₁, size_cons c l₂]; omega
  simpa using size_le h

namespace Path

/-- A text that can be one step of a path. -/
def IsName (name : String) : Prop := name ≠ "" ∧ '/' ∉ name.toList

/-- Every step of a path is a name. -/
theorem isName_of_mem_steps {path name : String} (h : name ∈ steps path) : IsName name := by
  simp only [steps, List.mem_map, List.mem_filter] at h
  obtain ⟨cs, ⟨hpart, hne⟩, rfl⟩ := h
  refine ⟨by simpa using hne, ?_⟩
  rw [String.toList_ofList]
  exact not_mem_of_mem_splitOn hpart

/-- A path is spelled with a slash between its names, and with one in front if it begins at the
root. -/
theorem toList_ofNames (rooted : Bool) (names : List String) : (ofNames rooted names).toList =
    (if rooted then ['/'] else []) ++ ['/'].intercalate (names.map String.toList) := by
  cases rooted <;> simp [ofNames]

/-- Names joined by slashes are the steps of what they spell. -/
theorem steps_ofNames (rooted : Bool) {names : List String} (h : ∀ name ∈ names, IsName name) :
    steps (ofNames rooted names) = names := by
  have hjoined : ((['/'].intercalate (names.map String.toList)).splitOn '/').filter
      (fun part => !part.isEmpty) = names.map String.toList := by
    cases names with
    | nil => simp
    | cons name names =>
      rw [List.splitOn_intercalate '/' (by simpa using fun n hn => (h n hn).2) (by simp)]
      simpa [List.filter_eq_self] using fun n hn => (h n hn).1
  have hsplit : ((ofNames rooted names).toList.splitOn '/').filter (fun part => !part.isEmpty) =
      names.map String.toList := by
    rw [toList_ofNames]
    cases rooted
    · exact hjoined
    · simpa [List.splitOn_cons_eq_if_modifyHead] using hjoined
  rw [steps, hsplit]
  simp [Function.comp_def]

/-- What names spell is rooted when it is meant to be. -/
theorem isRooted_ofNames (rooted : Bool) {names : List String}
    (h : ∀ name ∈ names, IsName name) :
    isRooted (ofNames rooted names) = rooted := by
  rw [isRooted, toList_ofNames]
  cases rooted with
  | true => simp
  | false =>
    cases names with
    | nil => simp
    | cons name names =>
      obtain ⟨hne, hslash⟩ := h name List.mem_cons_self
      cases hname : name.toList with
      | nil => exact absurd (String.toList_eq_nil_iff.1 hname) hne
      | cons c cs =>
        have hc : c ≠ '/' := fun e => hslash (by simp [hname, e])
        cases names <;> simp [hname, List.intercalate_cons_cons, hc]

/-- Some of the steps of a path spell no more than the path. -/
theorem ofNames_sublist {path : String} {names : List String} (h : names.Sublist (steps path)) :
    (ofNames (isRooted path) names).toList.Sublist path.toList := by
  have hparts : (names.map String.toList).Sublist
      ((path.toList.splitOn '/').filter fun part => !part.isEmpty) := by
    have := h.map String.toList
    simpa [steps, Function.comp_def] using this
  rw [toList_ofNames, isRooted]
  cases hpath : path.toList with
  | nil =>
    rw [hpath] at hparts
    simp_all
  | cons c cs =>
    rw [hpath] at hparts
    by_cases hc : c = '/'
    · subst hc
      have hrest : (names.map String.toList).Sublist (cs.splitOn '/') := by
        refine hparts.trans ?_
        simp [List.splitOn_cons_eq_if_modifyHead]
      simpa using intercalate_sublist ['/'] hrest
    · have := intercalate_sublist ['/'] (hparts.trans List.filter_sublist)
      simpa [hc] using this

/-- The last name of a path grows with what is added behind the path. -/
theorem getLast?_steps_append {path : String} {name t : String}
    (hslash : endsInSlash path = false) (hname : nameOf? path = some name) (ht : '/' ∉ t.toList) :
    (steps (path ++ t)).getLast? = some (name ++ t) := by
  obtain ⟨init, part, hsplit, hsplit', hlast⟩ := splitOn_concat ht path.toList
  have hsteps : (steps path).getLast? = some name := (FileSystem.steps_of_nameOf? hname).1
  have hpart : part ≠ [] := by
    intro hpart
    obtain hempty | hend := hlast hpart
    · rw [steps, hempty] at hsteps
      simp at hsteps
    · simp [endsInSlash, hend] at hslash
  have hend (part : List Char) (h : part ≠ []) :
      (((init ++ [part]).filter fun name => !name.isEmpty).map String.ofList).getLast? =
        some (String.ofList part) := by
    rw [List.filter_append, List.filter_cons_of_pos (by simpa using h)]
    simp
  rw [steps, hsplit, hend part hpart] at hsteps
  rw [steps, String.toList_append, hsplit', hend _ (by simp [hpart]), ← Option.some.inj hsteps,
    String.ofList_append, String.ofList_toList]

end Path

namespace FileSystem

variable {fs : FileSystem} {p q : Place} {path : String}

/-- A walk may leave out the steps that go nowhere. -/
theorem walk_filter {names : List String} (h : names.foldlM fs.enter p = .ok q) :
    (names.filter (· != ".")).foldlM fs.enter p = .ok q := by
  induction names generalizing p with
  | nil => exact h
  | cons name names ih =>
    rw [List.foldlM_cons, except_bind_eq_ok] at h
    obtain ⟨p', hstep, hrest⟩ := h
    by_cases hdot : name = "."
    · subst hdot
      rw [eq_of_enter_dot hstep] at hrest
      simpa using ih hrest
    · rw [List.filter_cons_of_pos (by simpa using hdot), List.foldlM_cons, except_bind_eq_ok]
      exact ⟨p', hstep, ih hrest⟩

/-- The names before the last one take the walk of a path up to its last step. -/
theorem walk_names {name : String} (hname : Path.nameOf? path = some name)
    (hwalk : (Path.steps path).dropLast.foldlM fs.enter (Path.start path) = .ok q) :
    (Path.names path).dropLast.foldlM fs.enter (Path.start path) = .ok q := by
  obtain ⟨hlast, hdot, -⟩ := steps_of_nameOf? hname
  obtain ⟨init, hinit⟩ := List.getLast?_eq_some_iff.1 hlast
  rw [hinit, List.dropLast_concat] at hwalk
  have hkeep : [name].filter (· != ".") = [name] := by simpa using hdot
  unfold Path.names
  split
  · next rest hsteps =>
    cases init with
    | nil => simp_all
    | cons first init =>
      rw [hsteps, List.cons_append, List.cons.injEq] at hinit
      obtain ⟨rfl, rfl⟩ := hinit
      rw [List.filter_append, hkeep, ← List.append_assoc, List.dropLast_concat]
      rw [List.foldlM_cons, except_bind_eq_ok] at hwalk
      obtain ⟨p, hstep, hrest⟩ := hwalk
      have hrest := walk_filter hrest
      cases Path.isRooted path with
      | true =>
        rw [eq_of_enter_dot hstep] at hrest
        simpa using hrest
      | false =>
        simp only [List.cons_append, List.nil_append, List.foldlM_cons, except_bind_eq_ok,
          Bool.false_eq_true, if_false]
        exact ⟨p, hstep, hrest⟩
  · rw [hinit, List.filter_append, hkeep, List.dropLast_concat]
    exact walk_filter hwalk

/-- The names of a path are among its steps. -/
theorem names_sublist (path : String) : (Path.names path).Sublist (Path.steps path) := by
  unfold Path.names
  split
  · next rest hsteps =>
    rw [hsteps]
    cases Path.isRooted path with
    | true => exact List.filter_sublist.cons _
    | false => exact List.filter_sublist.cons_cons _
  · exact List.filter_sublist

/-- Where a path has a place for a file, there is something around it. -/
theorem holds_around (h : fs.slot path = .ok p) :
    Path.around path = "" ∨ fs.holds (Path.around path) := by
  obtain ⟨around, name, happroach, hname, -, -⟩ := slot_eq_ok_iff.1 h
  obtain ⟨-, hnul, hsize, hwalk, hdir⟩ := approach_eq_ok_iff.1 happroach
  by_cases hempty : Path.around path = ""
  · exact Or.inl hempty
  right
  have hsteps := (List.dropLast_sublist (Path.names path)).trans (names_sublist path)
  have hsub := Path.ofNames_sublist hsteps
  have hisName : ∀ n ∈ (Path.names path).dropLast, Path.IsName n := fun n hn =>
    Path.isName_of_mem_steps (hsteps.subset hn)
  have hfound : fs.find? (Path.around path) = .ok .directory := by
    refine find?_of_walk hempty (fun hm => hnul (hsub.subset hm))
      (Nat.le_trans (utf8ByteSize_le_of_sublist hsub) hsize) ?_ hdir
    rw [Path.around, Path.steps_ofNames _ hisName, Path.start, Path.isRooted_ofNames _ hisName]
    exact walk_names hname hwalk
  rw [holds, hfound]
  rfl

/-- The last name of a place for a file is the last step of its path. -/
theorem getLast?_of_slot (h : fs.slot path = .ok p) :
    Path.endsInSlash path = false ∧
      ∃ name, Path.nameOf? path = some name ∧ p.getLast? = some name := by
  obtain ⟨around, name, -, hname, hslash, henter⟩ := slot_eq_ok_iff.1 h
  obtain ⟨-, hdot, hdots⟩ := steps_of_nameOf? hname
  refine ⟨hslash, name, hname, ?_⟩
  simp only [enter, node?_of_enter henter, if_neg hdot, if_neg hdots] at henter
  split at henter
  · cases henter
  · cases henter
    exact List.getLast?_concat

/-- A path that goes on behind a path has another place. -/
theorem slot_append_ne {t : String} (ht : '/' ∉ t.toList) (hne : t ≠ "")
    (h : fs.slot path = .ok p) (h' : fs.slot (path ++ t) = .ok q) : q ≠ p := by
  obtain ⟨hslash, name, hname, hlast⟩ := getLast?_of_slot h
  obtain ⟨-, name', hname', hlast'⟩ := getLast?_of_slot h'
  rintro rfl
  rw [hlast, Option.some.injEq] at hlast'
  have hsteps := (steps_of_nameOf? hname').1
  rw [Path.getLast?_steps_append hslash hname ht, Option.some.injEq, ← hlast'] at hsteps
  have hsize := congrArg String.length hsteps
  rw [String.length_append] at hsize
  exact hne (String.length_eq_zero_iff.1 (by omega))

end FileSystem

end ShortLinks
