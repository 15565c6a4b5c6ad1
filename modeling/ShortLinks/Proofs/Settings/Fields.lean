import Mathlib.Data.List.Nodup
import ShortLinks.Proofs.Run
import ShortLinks.Settings

/-!
# Fields of settings

Settings have thirteen fields, each under a name in one of the sections. Where the sections of a tree
are tables, reading the tree is reading the fields one by one: each is read from the value that the
tree gives for it, or has its default. A value that is laid at the key of one field is no value of
another, and neither is one whose path parts from that of the field.
-/

namespace ShortLinks.Settings

/-- A field of the settings. -/
inductive Key
  | journalPath
  | journalMode
  | databaseUrl
  | poolSize
  | connectSeconds
  | operationMillis
  | scheme
  | workers
  | level
  | format
  | logFile
  | maxBackups
  | rotation
  deriving DecidableEq, Repr

namespace Key

/-- All fields. -/
def all : List Key :=
  [journalPath, journalMode, databaseUrl, poolSize, connectSeconds, operationMillis, scheme, workers,
    level, format, logFile, maxBackups, rotation]

/-- The section of a field. -/
def group : Key → String
  | journalPath | journalMode => "storage"
  | databaseUrl | poolSize | connectSeconds | operationMillis => "database"
  | scheme => "shortener"
  | workers => "deletion"
  | level | format | logFile | maxBackups | rotation => "logging"

/-- The name of a field in its section. -/
def name : Key → String
  | journalPath => "file_storage_path"
  | journalMode => "journal_mode"
  | databaseUrl => "database_url"
  | poolSize => "pool_size"
  | connectSeconds => "connect_timeout_secs"
  | operationMillis => "op_timeout_ms"
  | scheme => "code_scheme"
  | workers => "workers"
  | level => "level"
  | format => "format"
  | logFile => "file"
  | maxBackups => "max_backups"
  | rotation => "enable_rotation"

/-- The position of a field in its section. -/
def position : Key → Nat
  | journalPath | databaseUrl | scheme | workers | level => 0
  | journalMode | poolSize | format => 1
  | connectSeconds | logFile => 2
  | operationMillis | maxBackups => 3
  | rotation => 4

/-- The key of a field in a source. -/
def path (k : Key) : String := k.group ++ "." ++ k.name

/-- What a field holds. -/
abbrev Holds : Key → Type
  | journalPath | databaseUrl | logFile => Option String
  | journalMode => JournalMode
  | poolSize | connectSeconds | operationMillis | maxBackups => Nat
  | scheme => Scheme
  | workers => Option Nat
  | level | format => String
  | rotation => Bool

/-- The value of a field. -/
def get : (k : Key) → Settings → k.Holds
  | journalPath, s => s.storage.journalPath
  | journalMode, s => s.storage.journalMode
  | databaseUrl, s => s.database.url
  | poolSize, s => s.database.poolSize
  | connectSeconds, s => s.database.limits.connectSeconds
  | operationMillis, s => s.database.limits.operationMillis
  | scheme, s => s.shortener.scheme
  | workers, s => s.deletion.workers
  | level, s => s.logging.level
  | format, s => s.logging.format
  | logFile, s => s.logging.file
  | maxBackups, s => s.logging.maxBackups
  | rotation, s => s.logging.rotation

/-- How the value of a field is read. -/
def reader : (k : Key) → Value → Except Refusal k.Holds
  | journalPath | databaseUrl | logFile => Value.asOptional Value.asText
  | journalMode => Value.asChoice JournalMode.ofName?
  | poolSize | maxBackups => Value.asCount bound32
  | connectSeconds | operationMillis => Value.asCount bound64
  | scheme => Value.asChoice Scheme.ofName?
  | workers => fun v => (v.asCount bound64).map some
  | level | format => Value.asText
  | rotation => Value.asFlag

/-- Read a field of a section. -/
def readIn (k : Key) (f : Fields) : Except Refusal k.Holds :=
  field f k.position k.name k.reader (k.get {})

/-- Read a field from the value that is given for it, or take the default where none is. -/
def readValue (k : Key) : Option Value → Except Refusal k.Holds
  | none => .ok (k.get {})
  | some v => k.reader v

/-- The value that a tree gives for a field. -/
def given (k : Key) (tree : Value) : Option Value := lookup? k.name (tree.entry k.group).entries

/-- There is no other key. -/
theorem mem_all (k : Key) : k ∈ all := by
  cases k <;> decide

/-- No two keys have one path. -/
theorem path_injective {k k' : Key} (h : k.path = k'.path) : k = k' :=
  List.inj_on_of_nodup_map (by decide : (all.map path).Nodup) k.mem_all k'.mem_all h

/-- The path of a key is its section and its name. -/
theorem pathOf_path (k : Key) : Value.pathOf k.path = [.entry k.group, .entry k.name] := by
  cases k <;> decide

end Key

/-! ## Reading -/

section Reading

variable {f : Fields} {entries : List (String × Value)}

/-- The section of the store is read when each of its keys is. -/
theorem readStorage_eq_ok {s : StorageSection} : readStorage f = .ok s ↔
    Key.journalPath.readIn f = .ok s.journalPath ∧ Key.journalMode.readIn f = .ok s.journalMode := by
  simp only [readStorage, except_bind_eq_ok]
  constructor
  · rintro ⟨_, hpath, _, hmode, ⟨⟩⟩
    exact ⟨hpath, hmode⟩
  · rintro ⟨hpath, hmode⟩
    exact ⟨_, hpath, _, hmode, rfl⟩

/-- The section of the database is read when each of its keys is. -/
theorem readDatabase_eq_ok {s : DatabaseSection} : readDatabase f = .ok s ↔
    Key.databaseUrl.readIn f = .ok s.url ∧ Key.poolSize.readIn f = .ok s.poolSize ∧
      Key.connectSeconds.readIn f = .ok s.limits.connectSeconds ∧
        Key.operationMillis.readIn f = .ok s.limits.operationMillis := by
  simp only [readDatabase, except_bind_eq_ok]
  constructor
  · rintro ⟨_, hurl, _, hpool, _, hconnect, _, hoperation, ⟨⟩⟩
    exact ⟨hurl, hpool, hconnect, hoperation⟩
  · rintro ⟨hurl, hpool, hconnect, hoperation⟩
    exact ⟨_, hurl, _, hpool, _, hconnect, _, hoperation, rfl⟩

/-- The section of the codes is read when its key is. -/
theorem readShortener_eq_ok {s : ShortenerSection} :
    readShortener f = .ok s ↔ Key.scheme.readIn f = .ok s.scheme := by
  simp only [readShortener, except_bind_eq_ok]
  constructor
  · rintro ⟨_, hscheme, ⟨⟩⟩
    exact hscheme
  · exact fun hscheme => ⟨_, hscheme, rfl⟩

/-- The section of deletions is read when its key is. -/
theorem readDeletion_eq_ok {s : DeletionSection} :
    readDeletion f = .ok s ↔ Key.workers.readIn f = .ok s.workers := by
  simp only [readDeletion, except_bind_eq_ok]
  constructor
  · rintro ⟨_, hworkers, ⟨⟩⟩
    exact hworkers
  · exact fun hworkers => ⟨_, hworkers, rfl⟩

/-- The section of the log is read when each of its keys is. -/
theorem readLogging_eq_ok {s : LoggingSection} : readLogging f = .ok s ↔
    Key.level.readIn f = .ok s.level ∧ Key.format.readIn f = .ok s.format ∧
      Key.logFile.readIn f = .ok s.file ∧ Key.maxBackups.readIn f = .ok s.maxBackups ∧
        Key.rotation.readIn f = .ok s.rotation := by
  simp only [readLogging, except_bind_eq_ok]
  constructor
  · rintro ⟨_, hlevel, _, hformat, _, hfile, _, hbackups, _, hrotation, ⟨⟩⟩
    exact ⟨hlevel, hformat, hfile, hbackups, hrotation⟩
  · rintro ⟨hlevel, hformat, hfile, hbackups, hrotation⟩
    exact ⟨_, hlevel, _, hformat, _, hfile, _, hbackups, _, hrotation, rfl⟩

/-- Read a field of a tree with the given sections. -/
def Key.readFrom (k : Key) (entries : List (String × Value)) : Except Refusal k.Holds := do
  k.readIn (← fieldsOf (lookup? k.group entries))

/-- A key is read from the fields of its section. -/
theorem Key.readFrom_eq (k : Key) (hf : fieldsOf (lookup? k.group entries) = .ok f) :
    k.readFrom entries = k.readIn f := by
  rw [readFrom, hf]
  rfl

/-- Settings are read from a tree exactly if each field is. -/
theorem read_eq_ok_iff {s : Settings} :
    read (.table entries) = .ok s ↔ ∀ k : Key, k.readFrom entries = .ok (k.get s) := by
  constructor
  · intro h
    simp only [read, except_bind_eq_ok] at h
    obtain ⟨_, ⟨⟩, f₁, hf₁, _, hstorage, f₂, hf₂, _, hdatabase, f₃, hf₃, _, hshortener, f₄, hf₄, _,
      hdeletion, f₅, hf₅, _, hlogging, ⟨⟩⟩ := h
    obtain ⟨hpath, hmode⟩ := readStorage_eq_ok.1 hstorage
    obtain ⟨hurl, hpool, hconnect, hoperation⟩ := readDatabase_eq_ok.1 hdatabase
    obtain ⟨hlevel, hformat, hfile, hbackups, hrotation⟩ := readLogging_eq_ok.1 hlogging
    intro k
    cases k with
    | journalPath => exact (Key.readFrom_eq .journalPath hf₁).trans hpath
    | journalMode => exact (Key.readFrom_eq .journalMode hf₁).trans hmode
    | databaseUrl => exact (Key.readFrom_eq .databaseUrl hf₂).trans hurl
    | poolSize => exact (Key.readFrom_eq .poolSize hf₂).trans hpool
    | connectSeconds => exact (Key.readFrom_eq .connectSeconds hf₂).trans hconnect
    | operationMillis => exact (Key.readFrom_eq .operationMillis hf₂).trans hoperation
    | scheme => exact (Key.readFrom_eq .scheme hf₃).trans (readShortener_eq_ok.1 hshortener)
    | workers => exact (Key.readFrom_eq .workers hf₄).trans (readDeletion_eq_ok.1 hdeletion)
    | level => exact (Key.readFrom_eq .level hf₅).trans hlevel
    | format => exact (Key.readFrom_eq .format hf₅).trans hformat
    | logFile => exact (Key.readFrom_eq .logFile hf₅).trans hfile
    | maxBackups => exact (Key.readFrom_eq .maxBackups hf₅).trans hbackups
    | rotation => exact (Key.readFrom_eq .rotation hf₅).trans hrotation
  · intro h
    obtain ⟨f₁, hf₁, hpath⟩ := except_bind_eq_ok.1 (h .journalPath)
    obtain ⟨f₂, hf₂, hurl⟩ := except_bind_eq_ok.1 (h .databaseUrl)
    obtain ⟨f₃, hf₃, hscheme⟩ := except_bind_eq_ok.1 (h .scheme)
    obtain ⟨f₄, hf₄, hworkers⟩ := except_bind_eq_ok.1 (h .workers)
    obtain ⟨f₅, hf₅, hlevel⟩ := except_bind_eq_ok.1 (h .level)
    have hin {f : Fields} (k : Key) (hf : fieldsOf (lookup? k.group entries) = .ok f) :
        k.readIn f = .ok (k.get s) := (k.readFrom_eq hf).symm.trans (h k)
    simp only [read, except_bind_eq_ok]
    exact ⟨_, rfl,
      f₁, hf₁, _, readStorage_eq_ok.2 ⟨hpath, hin .journalMode hf₁⟩,
      f₂, hf₂, _, readDatabase_eq_ok.2
        ⟨hurl, hin .poolSize hf₂, hin .connectSeconds hf₂, hin .operationMillis hf₂⟩,
      f₃, hf₃, _, readShortener_eq_ok.2 hscheme,
      f₄, hf₄, _, readDeletion_eq_ok.2 hworkers,
      f₅, hf₅, _, readLogging_eq_ok.2
        ⟨hlevel, hin .format hf₅, hin .logFile hf₅, hin .maxBackups hf₅, hin .rotation hf₅⟩, rfl⟩

/-- Decide whether a value is a table. -/
def Value.isTable : Value → Bool
  | table _ => true
  | _ => false

/-- Where the section of a field is a table, or is not there, the field is read from the value that
the tree gives for it, or has its default. -/
theorem Key.readFrom_eq_given {k : Key}
    (h : ∀ v ∈ lookup? k.group entries, Value.isTable v = true) :
    k.readFrom entries = k.readValue (k.given (.table entries)) := by
  rw [given, Value.entry, Value.entries, readFrom]
  cases hgroup : lookup? k.group entries with
  | none => rfl
  | some v =>
    have htable := h v hgroup
    cases v with
    | table fields => rfl
    | _ => cases htable

/-- A tree in which each section is a table, where it is there. -/
def Sectioned (tree : Value) : Prop :=
  ∀ k : Key, ∀ v ∈ lookup? k.group tree.entries, Value.isTable v = true

/-- In a tree of sections a key is read from what it is given there. -/
theorem Sectioned.readFrom_eq {k : Key} (h : Sectioned (.table entries)) :
    k.readFrom entries = k.readValue (k.given (.table entries)) :=
  Key.readFrom_eq_given (h k)

/-- Only a section that is a table gives a value for a field. -/
theorem Key.isTable_of_given {k : Key} {given : Value} (h : k.given (.table entries) = some given) :
    ∀ v ∈ lookup? k.group entries, Value.isTable v = true := by
  intro v hv
  rw [Key.given, Value.entry, Value.entries, Option.mem_def.1 hv] at h
  cases v with
  | table fields => rfl
  | _ => cases h

/-- A field for which a tree gives a value is read from it. -/
theorem Key.get_of_given {k : Key} {s : Settings} {v : Value} (hread : read (.table entries) = .ok s)
    (h : k.given (.table entries) = some v) : k.reader v = .ok (k.get s) := by
  rw [← read_eq_ok_iff.1 hread k, readFrom_eq_given (isTable_of_given h), h, readValue]

end Reading

/-! ## Laying -/

section Laying

variable {tree value : Value} {k : Key}

/-- A path that leads neither to a field, nor around it, nor into it. -/
def Key.Apart (k : Key) : List Value.Step → Prop
  | .entry group :: .entry name :: _ => group = k.group → name ≠ k.name
  | .entry group :: _ => group ≠ k.group
  | _ => False

/-- Setting an entry changes that entry and no other. -/
theorem entry_setEntry (tree value : Value) (name name' : String) :
    (tree.setEntry name value).entry name' = if name = name' then value else tree.entry name' := by
  rw [Value.setEntry, Value.entry, Value.entries, lookup?_assign]
  split <;> rfl

/-- An entry that was set is found under its name, and all else is as it was. -/
theorem lookup?_setEntry (tree value : Value) (name name' : String) :
    lookup? name' (tree.setEntry name value).entries =
      if name = name' then some value else lookup? name' tree.entries :=
  lookup?_assign name name' value tree.entries

/-- What is changed apart from a field does not change what is given for it. -/
theorem Key.given_changeAt {change : Value → Value} {path : List Value.Step} (h : k.Apart path) :
    k.given (Value.changeAt change path tree) = k.given tree := by
  unfold Apart at h
  split at h
  · next group name more =>
    rw [Value.changeAt, Value.changeAt, given, entry_setEntry]
    split
    · next hgroup => rw [lookup?_setEntry, if_neg (h hgroup), hgroup, given]
    · rfl
  · next group rest hrest =>
    rw [Value.changeAt, given, entry_setEntry, if_neg h, given]
  · exact h.elim

/-- What is laid at the key of a field is given for it. -/
theorem Key.given_layAt_self (h : ∀ below, Value.lay value below = value) :
    k.given (tree.layAt k.path value) = some value := by
  rw [Value.layAt, pathOf_path, Value.changeAt, Value.changeAt, Value.changeAt, given,
    entry_setEntry, if_pos rfl, lookup?_setEntry, if_pos rfl, h]

/-- The keys of two fields are apart. -/
theorem Key.apart_path {k' : Key} (h : k' ≠ k) : k.Apart (Value.pathOf k'.path) := by
  rw [pathOf_path]
  intro hgroup hname
  exact h (path_injective (by rw [path, path, hgroup, hname]))

end Laying

end ShortLinks.Settings
