import ShortLinks.Proofs.FileSystem.Around
import ShortLinks.Proofs.Journal.Unended

/-!
# What the lines of a text state

A journal is octets, and its lines are cut where octet 10 stands. When the octets are a text, these
are the lines of that text: no other character is written with octet 10, and every line is a text
again, so reading comes to the end. What is read are the records that the lines of the text state,
in their order. A line states a record when it is the JSON of one after trimming, which also takes
off the carriage return in front of the end of a line; blank lines and malformed ones state nothing,
nor does the empty end behind a last line that has ended.
-/

namespace ShortLinks

namespace Text

/-- An end of a line stands for itself. -/
theorem encode_ofList_append_newline (line rest : List Char) :
    encode (String.ofList (line ++ '\n' :: rest)) =
      encode (String.ofList line) ++ 10 :: encode (String.ofList rest) := by
  have hend : String.ofList ('\n' :: rest) = "\n" ++ String.ofList rest := by
    rw [← List.singleton_append, String.ofList_append]
  rw [String.ofList_append, hend, ← encode_append, ← encode_append]
  rfl

/-- Lines that are joined by ends of lines are cut apart again, but for an empty last one. -/
theorem splitLines_intercalate {lines : List (List Char)} (h : ∀ line ∈ lines, '\n' ∉ line) :
    ∃ whole, splitLines (encode (String.ofList (['\n'].intercalate lines))) =
        whole.map (fun line => encode (String.ofList line)) ∧
      (lines = whole ∨ lines = whole ++ [[]]) := by
  induction lines with
  | nil => exact ⟨[], rfl, .inl rfl⟩
  | cons line rest ih =>
    have hline : 10 ∉ encode (String.ofList line) :=
      newline_not_mem_encode (h line List.mem_cons_self)
    cases rest with
    | nil =>
      rw [List.intercalate_singleton]
      by_cases hempty : line = []
      · rw [hempty]
        exact ⟨[], rfl, .inr rfl⟩
      · have hne : encode (String.ofList line) ≠ encode "" := fun hsame =>
          hempty (String.ofList_inj.1 (encode_injective hsame))
        exact ⟨[line], splitLines_of_not_mem hline hne, .inl rfl⟩
    | cons next rest =>
      obtain ⟨whole, hwhole, hlines⟩ := ih fun other hmem => h other (List.mem_cons_of_mem _ hmem)
      refine ⟨line :: whole, ?_, ?_⟩
      · rw [List.intercalate_cons_cons, List.append_assoc, List.singleton_append,
          encode_ofList_append_newline, splitLines_line _ _ hline, hwhole, List.map_cons]
      · rw [List.cons_append]
        exact hlines.imp (congrArg _) (congrArg _)

end Text

namespace Journal

open Text

variable {line : List Char}

/-- The record that a line of a text states, if it is the JSON of one after trimming. -/
def stated? (line : List Char) : Option Record := (Record.readLine (trimChars line)).toOption

/-- The records that the lines of a text state, in their order. -/
def stated (text : String) : List Record := (text.toList.splitOn '\n').filterMap stated?

/-- A line states a record when its trimming is read as that record. -/
theorem stated?_eq_some_iff {r : Record} :
    stated? line = some r ↔ Record.readLine (trimChars line) = .ok r := by
  rw [stated?]
  cases Record.readLine (trimChars line) <;> simp [Except.toOption]

/-- Nothing states no record. -/
theorem stated?_nil : stated? [] = none := rfl

/-- A line that is a text is read as what it states. -/
theorem record?_ofBytes (line : List Char) :
    (Line.ofBytes (encode (String.ofList line))).record? = stated? line := by
  have htext : decode? (encode (String.ofList line)) = some (String.ofList line) := decode?_encode _
  cases hempty : (trimChars line).isEmpty with
  | true =>
    have hblank : Line.ofBytes (encode (String.ofList line)) = .blank := by
      rw [ofBytes_eq_blank_iff htext, String.toList_ofList]
      exact trimChars_eq_nil_iff.1 (List.isEmpty_iff.1 hempty)
    rw [hblank, stated?, List.isEmpty_iff.1 hempty]
    rfl
  | false =>
    rw [ofBytes_of_text htext (by rw [String.toList_ofList, hempty]), String.toList_ofList, stated?]
    cases Record.readLine (trimChars line) <;> rfl

/-- The octets of a text are read to their end, as what the lines of the text state. -/
theorem read_encode (text : String) :
    (read (encode text)).complete ∧ (read (encode text)).records = stated text := by
  have hnewline : ∀ line ∈ text.toList.splitOn '\n', '\n' ∉ line :=
    fun line hline => not_mem_of_mem_splitOn hline
  obtain ⟨whole, hsplit, hwhole⟩ := splitLines_intercalate hnewline
  rw [List.intercalate_splitOn, String.ofList_toList] at hsplit
  have hreadable : .unreadable ∉ (splitLines (encode text)).map Line.ofBytes := by
    rw [hsplit, List.map_map, List.mem_map]
    rintro ⟨line, -, hline⟩
    rw [Function.comp_apply, ofBytes_eq_unreadable_iff, decode?_encode] at hline
    cases hline
  have hstated : stated text = whole.filterMap stated? := by
    rw [stated]
    obtain hlines | hlines := hwhole
    · rw [hlines]
    · rw [hlines, List.filterMap_append, List.filterMap_cons_none stated?_nil, List.filterMap_nil,
        List.append_nil]
  refine ⟨Reading.complete_iff.2 hreadable, ?_⟩
  rw [read, Reading.records_eq hreadable, hsplit, hstated, List.filterMap_map, List.filterMap_map]
  exact List.filterMap_congr fun line _ => record?_ofBytes line

/-- Behind the end of a line a text starts over. -/
theorem stated_append {front behind : String} (h : Terminated (encode front)) :
    stated (front ++ behind) = stated front ++ stated behind := by
  have hlines (text : String) :
      stated text = ((splitLines (encode text)).map Line.ofBytes).filterMap Line.record? := by
    obtain ⟨hcomplete, hrecords⟩ := read_encode text
    rw [← hrecords, read, Reading.records_eq (Reading.complete_iff.1 hcomplete)]
  rw [hlines, hlines, hlines, ← encode_append, splitLines_append h, List.map_append,
    List.filterMap_append]

end Journal

end ShortLinks
