import ShortLinks.Proofs.Settings.Fields

/-!
# Layers of settings

The environment is laid over the file, one variable after the other. A variable sets the field whose
key it spells and no other one, since a word of the environment is no table; so a field is given by
its last variable or, where it has none, by the file. Where every variable spells the key of a field,
and no two the same, there is one variable at most to look for.
-/

namespace ShortLinks.Settings

variable {tree : Value} {env : Environment} {file : List (String × Value)} {k : Key}

/-! ## One variable -/

/-- Each word is read as some text. -/
theorem exists_asText_ofWord (word : String) : ∃ shown, (ofWord word).asText = .ok shown := by
  rw [ofWord]
  dsimp only
  split_ifs
  · exact ⟨_, rfl⟩
  · exact ⟨_, rfl⟩
  · split
    · exact ⟨_, rfl⟩
    · split <;> exact ⟨_, rfl⟩

/-- A word of the environment is no table: it replaces what it is laid over. -/
theorem lay_ofWord (word : String) (below : Value) : Value.lay (ofWord word) below = ofWord word := by
  obtain ⟨shown, hshown⟩ := exists_asText_ofWord word
  generalize ofWord word = value at hshown
  cases value with
  | table entries => cases hshown
  | _ => rfl

/-- A variable laid over a tree, if it is one for settings. -/
def layVariable (tree : Value) (variable' : String × String) : Value :=
  match keyOfVariable? variable'.1 with
  | none => tree
  | some key => tree.layAt key (ofWord variable'.2)

/-- What the environment gives is laid over the file variable by variable. -/
theorem merge_environment (file : List (String × Value)) (env : Environment) :
    merge [file, ofEnvironment env] = env.foldl layVariable (merge [file]) := by
  have hlay (tree : Value) : (ofEnvironment env).foldl (fun tree e => tree.layAt e.1 e.2) tree =
      env.foldl layVariable tree := by
    induction env generalizing tree with
    | nil => rfl
    | cons variable' env ih =>
      obtain ⟨name, word⟩ := variable'
      rw [ofEnvironment, List.filterMap_cons, List.foldl_cons, layVariable]
      dsimp only
      cases keyOfVariable? name with
      | none => exact ih tree
      | some key => exact ih _
  rw [merge, merge, List.flatten_cons, List.flatten_cons, List.flatten_nil, List.append_nil,
    List.foldl_append, hlay, List.flatten_cons, List.flatten_nil, List.append_nil]

/-- A variable that spells the key of a field gives it its word. -/
theorem given_layVariable_self {name : String} (h : keyOfVariable? name = some k.path)
    (word : String) : k.given (layVariable tree (name, word)) = some (ofWord word) := by
  rw [layVariable, h]
  exact Key.given_layAt_self (lay_ofWord word)

/-- A variable whose path is apart from a field leaves what is given for it. -/
theorem given_layVariable {variable' : String × String}
    (h : ∀ key ∈ keyOfVariable? variable'.1, k.Apart (Value.pathOf key)) :
    k.given (layVariable tree variable') = k.given tree := by
  rw [layVariable]
  split
  · rfl
  · next key hkey => exact Key.given_changeAt (h key hkey)

/-- Variables whose paths are apart from a field leave what is given for it. -/
theorem given_layVariables
    (h : ∀ variable' ∈ env, ∀ key ∈ keyOfVariable? variable'.1, k.Apart (Value.pathOf key)) :
    k.given (env.foldl layVariable tree) = k.given tree := by
  induction env generalizing tree with
  | nil => rfl
  | cons variable' env ih =>
    rw [List.foldl_cons, ih fun v hv => h v (List.mem_cons_of_mem _ hv),
      given_layVariable (h variable' List.mem_cons_self)]

/-- The last variable for a field gives it its word, whatever stands before. -/
theorem given_of_last {before after : Environment} {name word : String}
    (hkey : keyOfVariable? name = some k.path)
    (hafter : ∀ later ∈ after, ∀ key ∈ keyOfVariable? later.1, k.Apart (Value.pathOf key)) :
    k.given (merge [file, ofEnvironment (before ++ (name, word) :: after)]) =
      some (ofWord word) := by
  rw [merge_environment, List.foldl_append, List.foldl_cons, given_layVariables hafter,
    given_layVariable_self hkey]

/-! ## Trees -/

/-- A path begins with a name. -/
theorem pathOf_eq_entry (key : String) : ∃ name rest, Value.pathOf key = .entry name :: rest := by
  rw [Value.pathOf]
  dsimp only
  cases Value.name? key.toList with
  | none => exact ⟨key, [], rfl⟩
  | some found =>
    obtain ⟨name, rest⟩ := found
    simp only [Option.bind_eq_bind, Option.bind_some]
    cases Value.steps? rest.length rest with
    | none => exact ⟨key, [], rfl⟩
    | some steps => exact ⟨name, steps, rfl⟩

/-- Laying a value at a key makes a table. -/
theorem exists_layAt_eq (tree : Value) (key : String) (value : Value) :
    ∃ entries, tree.layAt key value = .table entries := by
  obtain ⟨name, rest, hpath⟩ := pathOf_eq_entry key
  exact ⟨_, by rw [Value.layAt, hpath, Value.changeAt, Value.setEntry]⟩

/-- What sources give together is a table. -/
theorem exists_merge_eq (sources : List (List (String × Value))) :
    ∃ entries, merge sources = .table entries := by
  rw [merge]
  generalize sources.flatten = laid
  obtain rfl | ⟨laid, entry, rfl⟩ := laid.eq_nil_or_concat
  · exact ⟨[], rfl⟩
  · rw [List.concat_eq_append, List.foldl_append]
    exact exists_layAt_eq _ entry.1 entry.2

/-- A field for which the sources give a value is read from it. -/
theorem get_of_given {s : Settings} {v : Value} {sources : List (List (String × Value))}
    (hread : read (merge sources) = .ok s) (h : k.given (merge sources) = some v) :
    k.reader v = .ok (k.get s) := by
  obtain ⟨entries, hentries⟩ := exists_merge_eq sources
  rw [hentries] at hread h
  exact Key.get_of_given hread h

/-- A settings file in the working directory. -/
def fileOf (path content : String) : FileSystem where
  names := Keyed.ofList [([path], .file 0)]
  contents := [.octets (Text.encode content)]

/-- Settings are loaded when the file gives entries and they can be read with the environment over
them. -/
theorem load_eq_ok {fs : FileSystem} {name : Option String} {s : Settings} :
    load fs env name = .ok s ↔ ∃ file, fileEntries fs name = .ok file ∧
      read (merge [file, ofEnvironment env]) = .ok s := by
  rw [load, except_bind_eq_ok]
  refine exists_congr fun file => and_congr_right fun _ => ?_
  split
  · next s' hread =>
    rw [hread, Except.ok.injEq]
    exact Except.ok.injEq s' s ▸ Iff.rfl
  · next hread =>
    rw [hread]
    exact iff_of_false (by simp) (by simp)

end ShortLinks.Settings
