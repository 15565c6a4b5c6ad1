import ShortLinks.Command.Arguments
import ShortLinks.Proofs.Decimal
import ShortLinks.Proofs.Settings.Layers

/-!
# Texts from the environment

A word of the environment is read as a flag, a whole number or a decimal before it is taken for a
text. A field that holds a text shows what was read: `007` becomes `7`, and `TRUE` becomes `true`.
The words that are kept as they are: the two words for a flag, a whole number of 64 bits as it is
written, a decimal in its shortest form, and whatever is neither a word for a flag nor a number. A
text in a file is kept in any case.
-/

namespace ShortLinks.Settings

variable {word : String} {i : Int} {x : Float}

/-! ## Flags -/

/-- A word that stands for no flag, in whatever case. -/
structure NoFlag (word : String) : Prop where
  true : Text.lower word ≠ "true"
  false : Text.lower word ≠ "false"

/-- A text whose lower case begins with a letter begins with it, in one of its cases. -/
theorem begins_of_lower {t : Char} {ts : List Char} (hword : (Text.lower word).toList = t :: ts)
    (ht : t ≠ 'k' ∧ t ≠ 'i') : ∃ c rest, word.toList = c :: rest ∧ c.toLower = t := by
  rw [Text.lower, String.toList_ofList] at hword
  cases hcs : word.toList with
  | nil =>
    rw [hcs] at hword
    cases hword
  | cons c rest =>
    refine ⟨c, rest, rfl, ?_⟩
    rw [hcs, List.flatMap_cons, Text.lowerChar] at hword
    split_ifs at hword
    · exact absurd (List.cons.inj hword).1.symm ht.1
    · exact absurd (List.cons.inj hword).1.symm ht.2
    · exact (List.cons.inj hword).1

/-- A number stands for no flag. -/
theorem noFlag_of_read? (h : Decimal.read? word = some x) : NoFlag word := by
  constructor
  · intro hlower
    obtain ⟨c, rest, hword, hc⟩ :=
      begins_of_lower (congrArg String.toList hlower) (by decide : 't' ≠ 'k' ∧ 't' ≠ 'i')
    cases h.symm.trans (Decimal.read?_eq_none hword (.inl hc))
  · intro hlower
    obtain ⟨c, rest, hword, hc⟩ :=
      begins_of_lower (congrArg String.toList hlower) (by decide : 'f' ≠ 'k' ∧ 'f' ≠ 'i')
    cases h.symm.trans (Decimal.read?_eq_none hword (.inr hc))

/-! ## Words -/

/-- A whole number that fits 64 bits with a sign. -/
def Fits (i : Int) : Prop := -(Decimal.twoTo 63 : Int) ≤ i ∧ i < Decimal.twoTo 63

/-- The words for flags stand for them, in any case. -/
theorem ofWord_flag {b : Bool} (h : Text.lower word = if b then "true" else "false") :
    ofWord word = .flag b := by
  rw [ofWord]
  dsimp only
  rw [h]
  cases b <;> rfl

/-- A word for a whole number that fits stands for it. -/
theorem ofWord_whole (h : NoFlag word) (hread : Decimal.readInt? word = some i) (hi : Fits i) :
    ofWord word = .whole i := by
  rw [ofWord]
  dsimp only
  rw [if_neg h.true, if_neg h.false, hread, Option.filter_some, if_pos (by simpa [Fits] using hi)]

/-- A word that stands for neither a flag nor a whole number of 64 bits is read as a decimal. -/
theorem ofWord_rest (h : NoFlag word) (hno : ∀ i, Decimal.readInt? word = some i → ¬ Fits i) :
    ofWord word = ((Decimal.read? word).map Value.float).getD (.text word) := by
  rw [ofWord]
  dsimp only
  rw [if_neg h.true, if_neg h.false]
  cases hread : Decimal.readInt? word with
  | none => cases Decimal.read? word <;> rfl
  | some i =>
    have hnone : Option.filter (fun i => decide (-(Decimal.twoTo 63 : Int) ≤ i) &&
        decide (i < Decimal.twoTo 63)) (some i) = none := by
      rw [Option.filter_some, if_neg (by simpa [Fits] using hno i hread)]
    simp only [hnone]
    cases Decimal.read? word <;> rfl

/-- The words that a field for a text shows as they are: the words for the flags, whole numbers of 64
bits and decimals as they are written, and what is neither the word for a flag nor a number. -/
inductive Kept : String → Prop
  | flag (b : Bool) : Kept (if b then "true" else "false")
  | whole {i : Int} (hi : Fits i) : Kept (toString i)
  | decimal {word : String} {x : Float} (hread : Decimal.read? word = some x)
      (hno : ∀ i, Decimal.readInt? word = some i → ¬ Fits i)
      (hsame : Decimal.positional x = word) : Kept word
  | other {word : String} (hflag : NoFlag word) (hread : Decimal.read? word = none) : Kept word

/-- A word is read as the same text exactly if it is one of those that are kept. -/
theorem asText_ofWord_iff : (ofWord word).asText = .ok word ↔ Kept word := by
  constructor
  · intro h
    by_cases hflag : NoFlag word
    · by_cases hwhole : ∃ i, Decimal.readInt? word = some i ∧ Fits i
      · obtain ⟨i, hread, hi⟩ := hwhole
        rw [ofWord_whole hflag hread hi, Value.asText, Except.ok.injEq] at h
        exact h ▸ .whole hi
      · have hno (i : Int) (hread : Decimal.readInt? word = some i) : ¬ Fits i :=
          fun hi => hwhole ⟨i, hread, hi⟩
        cases hread : Decimal.read? word with
        | some x =>
          rw [ofWord_rest hflag hno, hread] at h
          exact .decimal hread hno (Except.ok.inj h)
        | none => exact .other hflag hread
    · obtain ⟨b, hb⟩ : ∃ b : Bool, Text.lower word = if b then "true" else "false" := by
        by_contra hno
        exact hflag ⟨fun h => hno ⟨true, h⟩, fun h => hno ⟨false, h⟩⟩
      rw [ofWord_flag hb, Value.asText, Except.ok.injEq] at h
      exact h ▸ .flag b
  · intro h
    cases h with
    | flag b =>
      rw [ofWord_flag (b := b) (by cases b <;> decide)]
      rfl
    | @whole i hi =>
      have hread := Decimal.readInt?_toString i
      obtain ⟨x, hx⟩ := Option.isSome_iff_exists.1 (Decimal.isSome_read?_of_readInt? hread)
      rw [ofWord_whole (noFlag_of_read? hx) hread hi]
      rfl
    | decimal hread hno hsame =>
      rw [ofWord_rest (noFlag_of_read? hread) hno, hread]
      exact congrArg Except.ok hsame
    | other hflag hread =>
      have hno (i : Int) (hi : Decimal.readInt? word = some i) : ¬ Fits i := by
        have hsome := Decimal.isSome_read?_of_readInt? hi
        rw [hread] at hsome
        cases hsome
      rw [ofWord_rest hflag hno, hread]
      rfl

/-- A word with a character that stands in no number is kept, such as a path with a slash. -/
theorem kept_of_mem {c : Char} (hc : c ∈ word.toList) (hother : ¬ Decimal.Numeral c) : Kept word := by
  have hlower (name : String) (hname : name.toList.all Char.isAlphanum = true)
      (hk : 'k' ∉ name.toList) (hi : 'i' ∉ name.toList) : Text.lower word ≠ name := by
    rintro rfl
    have hmem : ∀ d ∈ Text.lowerChar c, d ∈ (Text.lower word).toList := by
      intro d hd
      rw [Text.lower, String.toList_ofList]
      exact List.mem_flatMap_of_mem hc hd
    rw [Text.lowerChar] at hmem
    split_ifs at hmem
    · exact hk (hmem 'k' List.mem_cons_self)
    · exact hi (hmem 'i' List.mem_cons_self)
    · exact hother (Decimal.numeral_of_toLower (.inl (List.all_eq_true.1 hname _
        (hmem _ List.mem_cons_self))))
  refine .other ⟨hlower "true" (by decide) (by decide) (by decide),
    hlower "false" (by decide) (by decide) (by decide)⟩ ?_
  cases hread : Decimal.read? word with
  | none => rfl
  | some x => exact absurd (Decimal.numeral_of_read? hread c hc) hother

/-! ## Fields -/

/-- A field that holds a text, or nothing. -/
inductive TextKey
  | journalPath
  | databaseUrl
  | level
  | format
  | logFile
  deriving DecidableEq, Repr

namespace TextKey

/-- The field. -/
def key : TextKey → Key
  | journalPath => .journalPath
  | databaseUrl => .databaseUrl
  | level => .level
  | format => .format
  | logFile => .logFile

/-- The text that a field holds. -/
def text? : TextKey → Settings → Option String
  | journalPath, s => s.storage.journalPath
  | databaseUrl, s => s.database.url
  | level, s => some s.logging.level
  | format, s => some s.logging.format
  | logFile, s => s.logging.file

variable {t : TextKey} {s : Settings} {value : Value} {shown : String}

/-- A field that is read from a value that is a text holds this text. -/
theorem text?_eq_some (hread : t.key.reader value = .ok (t.key.get s))
    (htext : value.asText = .ok shown) : t.text? s = some shown := by
  have hoptional : value.asOptional Value.asText = .ok (some shown) := by
    cases value with
    | null => cases htext
    | _ =>
      rw [Value.asOptional, htext]
      · rfl
      · exact fun h => by cases h
  cases t with
  | journalPath | databaseUrl | logFile => exact (Except.ok.inj (hoptional.symm.trans hread)).symm
  | level | format => exact congrArg some (Except.ok.inj (htext.symm.trans hread)).symm

end TextKey

/-- When a variable is the last that comes near a field for a text, the field shows what its word is
read as, and holds the word itself exactly if the word is one of those that are kept. A text that
a file gives is held in any case, where no variable comes near the field. -/
theorem variable_kept_iff {t : TextKey} {fs : FileSystem} {before after : Environment}
    {name word : String} {file : Option String} {s : Settings}
    (hkey : keyOfVariable? name = some t.key.path)
    (hafter : ∀ later ∈ after, ∀ key ∈ keyOfVariable? later.1, t.key.Apart (Value.pathOf key))
    (hload : load fs (before ++ (name, word) :: after) file = .ok s) :
    (∃ shown, (ofWord word).asText = .ok shown ∧ t.text? s = some shown) ∧
      (t.text? s = some word ↔ Kept word) ∧
      ∀ fs' env' file' entries s', fileEntries fs' file' = .ok entries →
        t.key.given (merge [entries]) = some (.text word) →
        (∀ other ∈ env', ∀ key ∈ keyOfVariable? other.1, t.key.Apart (Value.pathOf key)) →
        load fs' env' file' = .ok s' → t.text? s' = some word := by
  obtain ⟨entries, -, hread⟩ := load_eq_ok.1 hload
  have hfield := get_of_given hread (given_of_last hkey hafter)
  obtain ⟨shown, hshown⟩ := exists_asText_ofWord word
  have htext := TextKey.text?_eq_some hfield hshown
  refine ⟨⟨shown, hshown, htext⟩, ?_, ?_⟩
  · rw [htext, ← asText_ofWord_iff, hshown, Option.some.injEq, Except.ok.injEq]
  · intro fs' env' file' entries s' hentries hgiven henv hload'
    obtain ⟨_, hentries', hread'⟩ := load_eq_ok.1 hload'
    cases hentries.symm.trans hentries'
    have hstays : t.key.given (merge [entries, ofEnvironment env']) = some (.text word) := by
      rw [merge_environment, given_layVariables henv, hgiven]
    exact TextKey.text?_eq_some (get_of_given hread' hstays) rfl

/-- A path is kept. -/
theorem variable_kept_iff_path : ∃ s,
    load {} [("TL__STORAGE__FILE_STORAGE_PATH", "data/007")] none = .ok s ∧
      s.storage.journalPath = some "data/007" := by
  let s : Settings := { storage := { journalPath := some "data/007" } }
  have hload : load {} ([] ++ ("TL__STORAGE__FILE_STORAGE_PATH", "data/007") :: []) none = .ok s := by
    decide +kernel
  have hkept : Kept "data/007" :=
    kept_of_mem (c := '/') (by decide) (by rintro (h | h) <;> revert h <;> decide)
  have hiff :=
    (variable_kept_iff (t := .journalPath) (by decide) (List.forall_mem_nil _) hload).2.1
  exact ⟨s, hload, hiff.2 hkept⟩

/-- The journal is at `7` when the variable for settings says `007`, and at `007` when a file, the
option or the variable that stands in for the option says so. -/
theorem variable_not_kept :
    load {} [("TL__STORAGE__FILE_STORAGE_PATH", "007")] none =
        .ok { storage := { journalPath := some "7" } } ∧
      load (fileOf "config.toml" "[storage]\nfile_storage_path = \"007\"\n") [] none =
        .ok { storage := { journalPath := some "007" } } ∧
      (∀ call ∈ [Arguments.read [] ["-f", "007", "list"],
          Arguments.read [("FILE_STORAGE_PATH", "007")] ["list"]],
        (call.map fun c => c.overrides.journalPath) = .ok (some "007")) ∧
      ¬ ∀ (t : TextKey) fs name word file s, keyOfVariable? name = some t.key.path →
        load fs [(name, word)] file = .ok s → t.text? s = some word := by
  have hload : load {} [("TL__STORAGE__FILE_STORAGE_PATH", "007")] none =
      .ok { storage := { journalPath := some "7" } } := by decide +kernel
  refine ⟨hload, by decide +kernel, by decide +kernel, fun hall => ?_⟩
  have hkept := hall .journalPath _ _ _ _ _ (by decide) hload
  exact absurd hkept (by decide)

end ShortLinks.Settings
