import ShortLinks.Proofs.Command.Aliases
import ShortLinks.Proofs.Settings.Layers

/-!
# Which source counts

A field can be set by five sources. An option counts most, then the variable that stands in for the
option, then the variable for settings, then the file, and last there is the default. Each field is
what the highest source that says something of it would make it if nothing else were said, and what
the sources say of a field decides about no other one. Sections do not matter for this: a source that
sets one field of a section leaves the others to the sources below.

The variables for settings each name a field here, no two the same one, and the sections of the file
are tables.
-/

namespace ShortLinks.Settings

variable {tree value : Value} {env : Environment} {file : List (String × Value)} {k : Key}

/-! ## The environment over the file -/

/-- The variables for settings name fields, no two the same one. -/
structure WellNamed (env : Environment) : Prop where
  named : ∀ v ∈ env, ∀ key ∈ keyOfVariable? v.1, key ∈ Key.all.map Key.path
  distinct : (env.filterMap fun v => keyOfVariable? v.1).Nodup

/-- The word of the variable for a field. -/
def Key.word? (k : Key) (env : Environment) : Option String :=
  env.findSome? fun v => if keyOfVariable? v.1 = some k.path then some v.2 else none

/-- The word for a key is the value of a variable that sets it. -/
theorem Key.mem_of_word? {word : String} (h : k.word? env = some word) :
    ∃ name, (name, word) ∈ env ∧ keyOfVariable? name = some k.path := by
  obtain ⟨⟨name, word'⟩, hmem, hword⟩ := List.exists_of_findSome?_eq_some h
  split at hword
  · next hkey =>
    cases hword
    exact ⟨name, hmem, hkey⟩
  · cases hword

/-- There is no word for a key when no variable sets it. -/
theorem Key.word?_eq_none : k.word? env = none ↔ ∀ v ∈ env, keyOfVariable? v.1 ≠ some k.path := by
  rw [word?, List.findSome?_eq_none_iff]
  simp

/-- Variables that are not for a field, wherever they stand, leave the word for it. -/
theorem Key.word?_replace {before old new after : Environment}
    (h : ∀ v ∈ old ++ new, keyOfVariable? v.1 ≠ some k.path) :
    k.word? (before ++ new ++ after) = k.word? (before ++ old ++ after) := by
  rw [List.forall_mem_append] at h
  have hold : k.word? old = none := word?_eq_none.2 h.1
  have hnew : k.word? new = none := word?_eq_none.2 h.2
  rw [word?] at hold hnew
  rw [word?, word?, List.findSome?_append, List.findSome?_append, List.findSome?_append,
    List.findSome?_append, hold, hnew]

/-- Fewer variables are still well named. -/
theorem WellNamed.tail {variable' : String × String} (h : WellNamed (variable' :: env)) :
    WellNamed env where
  named v hv := h.named v (List.mem_cons_of_mem _ hv)
  distinct := by
    have hdistinct := h.distinct
    rw [List.filterMap_cons] at hdistinct
    split at hdistinct
    · exact hdistinct
    · exact (List.nodup_cons.1 hdistinct).2

/-- No later variable is for the same field. -/
theorem WellNamed.word?_tail {variable' : String × String} (h : WellNamed (variable' :: env))
    (hkey : keyOfVariable? variable'.1 = some k.path) : k.word? env = none := by
  have hdistinct := h.distinct
  rw [List.filterMap_cons, hkey, List.nodup_cons] at hdistinct
  rw [Key.word?_eq_none]
  exact fun v hv hv' => hdistinct.1 (List.mem_filterMap.2 ⟨v, hv, hv'⟩)

/-- The one variable for a field gives it its word. -/
theorem WellNamed.word?_of_mem {name word : String} (h : WellNamed env) (hmem : (name, word) ∈ env)
    (hkey : keyOfVariable? name = some k.path) : k.word? env = some word := by
  induction env with
  | nil => cases hmem
  | cons variable' env ih =>
    rw [Key.word?, List.findSome?_cons]
    obtain rfl | hmem := List.mem_cons.1 hmem
    · rw [if_pos hkey]
    · have hother : keyOfVariable? variable'.1 ≠ some k.path :=
        fun hsame => Key.word?_eq_none.1 (h.word?_tail hsame) _ hmem hkey
      rw [if_neg hother]
      exact ih h.tail hmem

/-- Over a tree, a field is given by its variable, and where there is none by the tree. -/
theorem given_wellNamed (h : WellNamed env) :
    k.given (env.foldl layVariable tree) = ((k.word? env).map ofWord).or (k.given tree) := by
  induction env generalizing tree with
  | nil => rfl
  | cons variable' env ih =>
    rw [List.foldl_cons, ih h.tail]
    by_cases hkey : keyOfVariable? variable'.1 = some k.path
    · rw [h.word?_tail hkey, given_layVariable_self hkey, Key.word?, List.findSome?_cons, if_pos hkey]
      rfl
    · have hapart : ∀ key ∈ keyOfVariable? variable'.1, k.Apart (Value.pathOf key) := by
        intro key hmem
        obtain ⟨k', -, rfl⟩ := List.mem_map.1 (h.named variable' List.mem_cons_self key hmem)
        exact Key.apart_path fun heq => hkey (heq ▸ hmem)
      rw [given_layVariable hapart, Key.word?, Key.word?, List.findSome?_cons, if_neg hkey]

/-- Variables that name fields leave sections tables. -/
theorem Sectioned.layVariables (hsections : Sectioned tree) (h : WellNamed env) :
    Sectioned (env.foldl layVariable tree) := by
  induction env generalizing tree with
  | nil => exact hsections
  | cons variable' env ih =>
    refine ih ?_ h.tail
    rw [layVariable]
    split
    · exact hsections
    · next key hkey =>
      obtain ⟨k', -, rfl⟩ := List.mem_map.1 (h.named variable' List.mem_cons_self key hkey)
      intro k v hv
      rw [Value.layAt, Key.pathOf_path, Value.changeAt, Option.mem_def, lookup?_setEntry] at hv
      split at hv
      · cases hv
        rfl
      · exact hsections k v hv

/-- What is known of a loaded field: it is read from the word of its variable, and where there is
none from the file, and where the file has nothing for it, it has its default. -/
theorem load_field {fs : FileSystem} {name : Option String} {s : Settings}
    (hfile : fileEntries fs name = .ok file) (hsections : Sectioned (merge [file]))
    (henv : WellNamed env) (hload : load fs env name = .ok s) (k : Key) :
    k.readValue (((k.word? env).map ofWord).or (k.given (merge [file]))) = .ok (k.get s) := by
  obtain ⟨_, hfile', hread⟩ := load_eq_ok.1 hload
  cases hfile.symm.trans hfile'
  have hlaid := hsections.layVariables henv
  rw [← given_wellNamed henv]
  rw [merge_environment] at hread
  obtain ⟨entries, hentries⟩ := exists_merge_eq [file, ofEnvironment env]
  rw [merge_environment] at hentries
  rw [hentries] at hread hlaid ⊢
  rw [← read_eq_ok_iff.1 hread k, hlaid.readFrom_eq]

/-! ## One source alone -/

/-- The entries of a source that sets one field and nothing else. -/
def Key.only (k : Key) (v : Value) : List (String × Value) := [(k.group, .table [(k.name, v)])]

/-- A tree with one value gives it to its own key and nothing to the others. -/
theorem given_only (k k' : Key) (v : Value) :
    k'.given (.table (k.only v)) = if k = k' then some v else none := by
  have hsame : k = k' ↔ k.group = k'.group ∧ k.name = k'.name := by
    refine ⟨fun h => h ▸ ⟨rfl, rfl⟩, fun ⟨hgroup, hname⟩ => Key.path_injective ?_⟩
    rw [Key.path, Key.path, hgroup, hname]
  simp only [Key.given, Key.only, Value.entry, Value.entries, lookup?]
  by_cases hgroup : k.group = k'.group
  · by_cases hname : k.name = k'.name
    · simp [hsame, hgroup, hname, lookup?]
    · simp [hsame, hgroup, hname, lookup?]
  · simp [hsame, hgroup, lookup?]

/-- Settings can have any values in their fields. -/
theorem exists_settings (values : (k : Key) → k.Holds) : ∃ s : Settings, ∀ k, k.get s = values k := by
  refine ⟨{
    storage := ⟨values .journalPath, values .journalMode⟩
    database := ⟨values .databaseUrl, values .poolSize,
      ⟨values .connectSeconds, values .operationMillis⟩⟩
    shortener := ⟨values .scheme⟩
    deletion := ⟨values .workers⟩
    logging := ⟨values .level, values .format, values .logFile, values .maxBackups,
      values .rotation⟩ }, fun k => ?_⟩
  cases k <;> rfl

/-- A source that sets one field is read if the value can be. -/
theorem read_only {x : k.Holds} {v : Value} :
    k.reader v = .ok x ↔ ∃ alone, read (.table (k.only v)) = .ok alone ∧ k.get alone = x := by
  have hgiven : k.given (.table (k.only v)) = some v := by rw [given_only, if_pos rfl]
  constructor
  · intro h
    obtain ⟨alone, halone⟩ := exists_settings fun k' => if hk : k = k' then hk ▸ x else k'.get {}
    refine ⟨alone, read_eq_ok_iff.2 fun k' => ?_, by rw [halone, dif_pos rfl]⟩
    have hsections : Sectioned (.table (k.only v)) := by
      intro k' section' hmem
      rw [Value.entries, Key.only, lookup?, Option.mem_def] at hmem
      split at hmem
      · cases hmem
        rfl
      · cases hmem
    rw [hsections.readFrom_eq, given_only, halone]
    split
    · next hk =>
      cases hk
      exact h
    · rfl
  · rintro ⟨alone, hread, rfl⟩
    exact Key.get_of_given hread hgiven

/-- Loading a variable for a field, and nothing else, is reading a source that sets the field. -/
theorem load_only {name word : String} {alone : Settings}
    (hkey : keyOfVariable? name = some k.path) :
    load {} [(name, word)] none = .ok alone ↔ read (.table (k.only (ofWord word))) = .ok alone := by
  have hfile : fileEntries {} none = .ok [] := rfl
  have hlaid : merge [[], ofEnvironment [(name, word)]] = .table (k.only (ofWord word)) := by
    rw [merge_environment, List.foldl_cons, List.foldl_nil, layVariable, hkey]
    dsimp only
    rw [Value.layAt, Key.pathOf_path, Value.changeAt, Value.changeAt, Value.changeAt, lay_ofWord]
    rfl
  rw [load_eq_ok, hfile, ← hlaid]
  constructor
  · rintro ⟨_, ⟨⟩, hread⟩
    exact hread
  · exact fun hread => ⟨[], rfl, hread⟩

/-! ## Sources -/

/-- What a field is overridden with. -/
def Key.overriding? : (k : Key) → Overrides → Option k.Holds
  | journalPath, o => o.journalPath.map some
  | databaseUrl, o => o.databaseUrl.map some
  | level, o => o.logLevel
  | _, _ => none

/-- A key has its value from the command line, if there is one. -/
theorem get_override (k : Key) (s : Settings) (o : Overrides) :
    k.get (s.override o) = (k.overriding? o).getD (k.get s) := by
  cases k with
  | journalPath =>
    change o.journalPath.or _ = _
    cases h : o.journalPath <;> simp [Key.overriding?, h, Key.get]
  | databaseUrl =>
    change o.databaseUrl.or _ = _
    cases h : o.databaseUrl <;> simp [Key.overriding?, h, Key.get]
  | _ => rfl

/-- The sources of settings, the highest first. -/
structure Sources where
  options : Overrides
  standIns : Overrides
  env : Environment
  file : List (String × Value)

namespace Sources

variable {s t : Sources}

/-- The command line says nothing of a field. -/
structure Silent (s : Sources) (k : Key) : Prop where
  options : k.overriding? s.options = none
  standIns : k.overriding? s.standIns = none

/-- The value that the highest of the sources that say something of a field gives it, read as it is
where this is all that is said. -/
inductive Says (s : Sources) (k : Key) : k.Holds → Prop
  | option {x : k.Holds} (h : k.overriding? s.options = some x) : Says s k x
  | standIn {x : k.Holds} (hoptions : k.overriding? s.options = none)
      (h : k.overriding? s.standIns = some x) : Says s k x
  | word {name word : String} {alone : Settings} (hsilent : s.Silent k) (hmem : (name, word) ∈ s.env)
      (hkey : keyOfVariable? name = some k.path) (hload : load {} [(name, word)] none = .ok alone) :
      Says s k (k.get alone)
  | file {v : Value} {alone : Settings} (hsilent : s.Silent k)
      (hword : ∀ other ∈ s.env, keyOfVariable? other.1 ≠ some k.path)
      (hgiven : k.given (merge [s.file]) = some v) (hread : read (.table (k.only v)) = .ok alone) :
      Says s k (k.get alone)
  | standard (hsilent : s.Silent k)
      (hword : ∀ other ∈ s.env, keyOfVariable? other.1 ≠ some k.path)
      (hgiven : k.given (merge [s.file]) = none) : Says s k (k.get {})

/-- Sources say the same of a field. -/
structure Agree (s t : Sources) (k : Key) : Prop where
  options : k.overriding? s.options = k.overriding? t.options
  standIns : k.overriding? s.standIns = k.overriding? t.standIns
  env : k.word? s.env = k.word? t.env
  file : k.given (merge [s.file]) = k.given (merge [t.file])

/-- Sources that are the same but for what one of them says of a field: the options, the environment
in some of its variables, or the file, which gives the field another value. -/
inductive Resets (k : Key) (s : Sources) : Sources → Prop
  | options {options : Overrides}
      (h : ∀ k' ≠ k, k'.overriding? options = k'.overriding? s.options) :
      Resets k s { s with options := options }
  | env {standIns : Overrides} (before old new after : Environment)
      (h : ∀ k' ≠ k, k'.overriding? standIns = k'.overriding? s.standIns)
      (henv : s.env = before ++ old ++ after)
      (honly : ∀ v ∈ old ++ new, ∀ key ∈ keyOfVariable? v.1, key = k.path) :
      Resets k s { s with standIns := standIns, env := before ++ new ++ after }
  | file {file : List (String × Value)} {value : Value}
      (h : merge [file] = (merge [s.file]).layAt k.path value) : Resets k s { s with file := file }

/-- Setting one field in a source leaves what the sources say of the others. -/
theorem Resets.agree {k' : Key} (h : Resets k' s t) (hne : k ≠ k') : Agree t s k := by
  cases h with
  | options h => exact ⟨h k hne, rfl, rfl, rfl⟩
  | env before old new after h henv honly =>
    have hother : ∀ v ∈ old ++ new, keyOfVariable? v.1 ≠ some k.path :=
      fun v hv hkey => hne (Key.path_injective (honly v hv _ hkey))
    exact ⟨rfl, h k hne, by rw [henv]; exact Key.word?_replace hother, rfl⟩
  | file h => exact ⟨rfl, rfl, rfl, by rw [h]; exact Key.given_changeAt (Key.apart_path hne.symm)⟩

end Sources

/-- A start of a program that finds its settings: the words are understood, with the variables that
stand in for options and, as they always are then, by themselves; the sections of the file are tables,
the variables for settings name fields, and settings are loaded from both. -/
structure Start where
  fs : FileSystem
  env : Environment
  words : List String
  call : Invocation
  alone : Invocation
  file : List (String × Value)
  loaded : Settings
  called : Arguments.read env words = .ok call
  calledAlone : Arguments.read [] words = .ok alone
  filed : fileEntries fs call.settingsFile = .ok file
  sections : Sectioned (merge [file])
  wellNamed : WellNamed env
  loads : load fs env call.settingsFile = .ok loaded

namespace Start

variable (start : Start)

/-- The settings that the program works with. -/
def settings : Settings := start.loaded.override start.call.overrides

/-- What the sources say at a start. -/
def sources : Sources where
  options := start.alone.overrides
  standIns := Arguments.standIns start.env
  env := start.env
  file := start.file

/-- A field is what an option, or else the variable that stands in for it, overrides it with; where
neither does, it is as loaded. -/
theorem get_settings (k : Key) : k.get start.settings =
    ((k.overriding? start.sources.options).or (k.overriding? start.sources.standIns)).getD
      (k.get start.loaded) := by
  obtain ⟨alone, halone, -, hjournal, hdatabase, hlevel⟩ := Arguments.read_alone start.called
  cases start.calledAlone.symm.trans halone
  have hboth : k.overriding? start.call.overrides =
      (k.overriding? start.sources.options).or (k.overriding? start.sources.standIns) := by
    cases k with
    | journalPath =>
      rw [Key.overriding?, hjournal]
      exact Option.map_or
    | databaseUrl =>
      rw [Key.overriding?, hdatabase]
      exact Option.map_or
    | level => exact hlevel
    | _ => rfl
  rw [settings, get_override, hboth]

/-- Without the command line a key has its value from the environment, the file or the defaults. -/
theorem get_loaded (k : Key) :
    k.readValue (((k.word? start.sources.env).map ofWord).or
      (k.given (merge [start.sources.file]))) = .ok (k.get start.loaded) :=
  load_field start.filed start.sections start.wellNamed start.loads k

/-- Where the command line is silent, a key has the value that was loaded. -/
theorem get_settings_of_silent {k : Key} (h : start.sources.Silent k) :
    k.get start.settings = k.get start.loaded := by
  rw [get_settings, h.options, h.standIns]
  rfl

/-- Some source says what a field is. -/
theorem says_get (k : Key) : start.sources.Says k (k.get start.settings) := by
  have hget := start.get_settings k
  have hloaded := start.get_loaded k
  cases hoptions : k.overriding? start.sources.options with
  | some x =>
    rw [hoptions] at hget
    exact hget ▸ .option hoptions
  | none =>
    cases hstandIns : k.overriding? start.sources.standIns with
    | some x =>
      rw [hoptions, hstandIns] at hget
      exact hget ▸ .standIn hoptions hstandIns
    | none =>
      have hsilent : start.sources.Silent k := ⟨hoptions, hstandIns⟩
      rw [start.get_settings_of_silent hsilent]
      cases hword : k.word? start.sources.env with
      | some word =>
        rw [hword] at hloaded
        obtain ⟨alone, hread, halone⟩ := read_only.1 hloaded
        obtain ⟨name, hmem, hkey⟩ := Key.mem_of_word? hword
        exact halone ▸ .word hsilent hmem hkey ((load_only hkey).2 hread)
      | none =>
        rw [hword] at hloaded
        cases hgiven : k.given (merge [start.sources.file]) with
        | some v =>
          rw [hgiven] at hloaded
          obtain ⟨alone, hread, halone⟩ := read_only.1 hloaded
          exact halone ▸ .file hsilent (Key.word?_eq_none.1 hword) hgiven hread
        | none =>
          rw [hgiven] at hloaded
          exact Except.ok.inj hloaded ▸ .standard hsilent (Key.word?_eq_none.1 hword) hgiven

/-- What the sources say of a field is what it is. -/
theorem eq_get_of_says {k : Key} {x : k.Holds} (h : start.sources.Says k x) :
    x = k.get start.settings := by
  have hloaded := start.get_loaded k
  cases h with
  | option h => rw [get_settings, h]; rfl
  | standIn hoptions h => rw [get_settings, hoptions, h]; rfl
  | word hsilent hmem hkey hload =>
    rw [start.get_settings_of_silent hsilent]
    have hword : k.word? start.sources.env = some _ := start.wellNamed.word?_of_mem hmem hkey
    rw [hword] at hloaded
    exact Except.ok.inj ((read_only.2 ⟨_, (load_only hkey).1 hload, rfl⟩).symm.trans hloaded)
  | file hsilent hword hgiven hread =>
    rw [start.get_settings_of_silent hsilent]
    rw [Key.word?_eq_none.2 hword, hgiven] at hloaded
    exact Except.ok.inj ((read_only.2 ⟨_, hread, rfl⟩).symm.trans hloaded)
  | standard hsilent hword hgiven =>
    rw [start.get_settings_of_silent hsilent]
    rw [Key.word?_eq_none.2 hword, hgiven] at hloaded
    exact Except.ok.inj hloaded

/-- Where sources say the same of a field, it is the same. -/
theorem get_settings_of_agree {other : Start} {k : Key} (h : other.sources.Agree start.sources k) :
    k.get other.settings = k.get start.settings := by
  have hloaded : k.get other.loaded = k.get start.loaded := by
    have hother := other.get_loaded k
    rw [h.env, h.file, start.get_loaded k] at hother
    exact (Except.ok.inj hother).symm
  rw [other.get_settings, start.get_settings, hloaded, h.options, h.standIns]

/-- Each field is what the highest source that says something of it gives it. Where sources say the
same of a field, it is the same, whatever they say of other fields; so where one source sets one
field, all the others are what they were. -/
theorem settings_said : (∀ k x, start.sources.Says k x ↔ x = k.get start.settings) ∧
    (∀ (other : Start) k, other.sources.Agree start.sources k →
      k.get other.settings = k.get start.settings) ∧
    ∀ (other : Start) k, start.sources.Resets k other.sources →
      ∀ k' ≠ k, k'.get other.settings = k'.get start.settings := by
  refine ⟨fun k x => ⟨start.eq_get_of_says, fun h => h ▸ start.says_get k⟩, ?_, ?_⟩
  · exact fun other k h => start.get_settings_of_agree h
  · exact fun other k h k' hne => start.get_settings_of_agree (h.agree hne)

/-- A file with values for three fields. -/
def layeredFile : FileSystem := fileOf "config.toml" <|
  "[storage]\nfile_storage_path = \"file.json\"\n" ++
    "[database]\npool_size = 3\nop_timeout_ms = 200\n"

/-- A start with an option, variables and a file that partly speak of the same fields. -/
def layered : Start where
  fs := layeredFile
  env := [("TL__DATABASE__OP_TIMEOUT_MS", "300"), ("tl__logging__level", "warn"),
    ("LOG_LEVEL", "debug"), ("TL__STORAGE__FILE_STORAGE_PATH", "variable.json")]
  words := ["-f", "option.json", "list"]
  call := ⟨.list, "cli", none, ⟨some "option.json", none, some "debug"⟩⟩
  alone := ⟨.list, "cli", none, ⟨some "option.json", none, none⟩⟩
  file := (fileEntries layeredFile none).toOption.getD []
  loaded := {
    storage := { journalPath := some "variable.json" }
    database := { poolSize := 3, limits := { operationMillis := 300 } }
    logging := { level := "warn" } }
  called := by decide +kernel
  calledAlone := by decide +kernel
  filed := by
    have hok : (fileEntries layeredFile none).isOk = true := by decide +kernel
    cases hentries : fileEntries layeredFile none with
    | error fault =>
      rw [hentries] at hok
      cases hok
    | ok entries => rfl
  sections k :=
    have hall : ∀ k ∈ Key.all, ∀ v ∈
        lookup? k.group (merge [(fileEntries layeredFile none).toOption.getD []]).entries,
        Value.isTable v = true := by decide +kernel
    hall k k.mem_all
  wellNamed := ⟨by decide +kernel, by decide +kernel⟩
  loads := by decide +kernel

/-- The same start without the variable for the time limit of the database. -/
def layeredLess : Start :=
  { layered with
    env := [("tl__logging__level", "warn"), ("LOG_LEVEL", "debug"),
      ("TL__STORAGE__FILE_STORAGE_PATH", "variable.json")]
    loaded := {
      storage := { journalPath := some "variable.json" }
      database := { poolSize := 3, limits := { operationMillis := 200 } }
      logging := { level := "warn" } }
    called := by decide +kernel
    wellNamed := ⟨by decide +kernel, by decide +kernel⟩
    loads := by decide +kernel }

/-- The option, a stand-in, a variable, the file and a default each decide about one field here, and
without one of the variables no other field changes. -/
theorem settings_said_layered :
    (layered.sources.Says .journalPath (some "option.json") ∧ layered.sources.Says .level "debug" ∧
      layered.sources.Says .operationMillis (300 : Nat) ∧ layered.sources.Says .poolSize (3 : Nat) ∧
        layered.sources.Says .connectSeconds (5 : Nat)) ∧
    Key.level.get layeredLess.settings = Key.level.get layered.settings ∧
    ∀ k ≠ Key.operationMillis, k.get layeredLess.settings = k.get layered.settings := by
  obtain ⟨hsaid, hagree, hresets⟩ := layered.settings_said
  have hless : layered.sources.Resets .operationMillis layeredLess.sources :=
    .env [] [("TL__DATABASE__OP_TIMEOUT_MS", "300")] [] _ (fun _ _ => rfl) rfl (by decide +kernel)
  refine ⟨⟨(hsaid .journalPath _).2 rfl, (hsaid .level _).2 rfl, (hsaid .operationMillis _).2 rfl,
    (hsaid .poolSize _).2 rfl, (hsaid .connectSeconds _).2 rfl⟩, ?_, hresets layeredLess _ hless⟩
  exact hagree layeredLess .level (hless.agree (by decide))

end Start

end ShortLinks.Settings
