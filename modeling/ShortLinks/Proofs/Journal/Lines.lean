import ShortLinks.Journal
import ShortLinks.Proofs.RecordLine

/-!
# Reading what was written

A content that is empty or ends with the end of a line is read independently of what is added to it.
The line of a record is read as that record. So adding lines to a journal that is read to its end
adds their records at the end of what is read, and nothing else.
-/

namespace ShortLinks

namespace Text

/-- The content is empty or ends with the end of a line. -/
def Terminated (content : Bytes) : Prop := ∀ b ∈ content.getLast?, b = 10

/-- Nothing ends with the end of a line, as far as it goes. -/
theorem terminated_nil : Terminated [] := by simp [Terminated]

/-- Two contents that end with the end of a line do so together. -/
theorem Terminated.append {first second : Bytes} (h₁ : Terminated first) (h₂ : Terminated second) :
    Terminated (first ++ second) := by
  intro b hb
  rw [List.getLast?_append] at hb
  cases hlast : second.getLast? with
  | none => exact h₁ b (by simpa [hlast] using hb)
  | some c => exact h₂ b (by simpa [hlast] using hb)

/-- The lines of a content that is not empty. -/
theorem splitLines_ne_nil {content : Bytes} (h : content ≠ []) : splitLines content ≠ [] := by
  cases content with
  | nil => exact absurd rfl h
  | cons b content =>
    rw [splitLines, List.foldr_cons]
    split
    · exact List.cons_ne_nil _ _
    · cases List.foldr _ [] content <;> simp [consLine]

/-- The lines of a content whose last line has ended stay what they are when more is added. -/
theorem splitLines_append {first : Bytes} (h : Terminated first) (second : Bytes) :
    splitLines (first ++ second) = splitLines first ++ splitLines second := by
  induction first with
  | nil => rfl
  | cons b rest ih =>
    have hcons (content : Bytes) : splitLines (b :: content) =
        if b = 10 then [] :: splitLines content else consLine b (splitLines content) := rfl
    rw [List.cons_append, hcons, hcons]
    by_cases hempty : rest = []
    · subst hempty
      have hb : b = 10 := h b rfl
      simp [hb]
    · have hrest : Terminated rest := by
        intro c hc
        exact h c (by rwa [List.getLast?_cons_of_ne_nil hempty])
      rw [ih hrest]
      split
      · rfl
      · cases hlines : splitLines rest with
        | nil => exact absurd hlines (splitLines_ne_nil hempty)
        | cons line lines => rfl

end Text

namespace Journal

open Text

/-- What is read of lines that are read to their end does not depend on the lines behind them. -/
theorem Reading.ofLines_append {first : List Line} {number : Nat}
    (h : (Reading.ofLines number first).complete) (second : List Line) :
    Reading.ofLines number (first ++ second) =
      { records := (Reading.ofLines number first).records ++
          (Reading.ofLines (number + first.length) second).records
        skipped := (Reading.ofLines number first).skipped ++
          (Reading.ofLines (number + first.length) second).skipped
        complete := (Reading.ofLines (number + first.length) second).complete } := by
  induction first generalizing number with
  | nil => rfl
  | cons line rest ih =>
    rw [List.length_cons, show number + (rest.length + 1) = number + 1 + rest.length by omega]
    cases line with
    | blank => exact ih h
    | record r => rw [List.cons_append, Reading.ofLines, ih h]; rfl
    | malformed report => rw [List.cons_append, Reading.ofLines, ih h]; rfl
    | unreadable => cases h

/-- Lines that are all records are read as those records. -/
theorem Reading.ofLines_records (number : Nat) (records : List Record) :
    Reading.ofLines number (records.map .record) = { records } := by
  induction records generalizing number with
  | nil => rfl
  | cons r rest ih => rw [List.map_cons, Reading.ofLines, ih]

/-- The line of a record is read as that record. -/
theorem ofBytes_lineText (r : Record) : Line.ofBytes (encode r.lineText) = .record r := by
  have hline : r.lineText.toList = r.writeLine := String.toList_ofList
  have hempty : r.writeLine.isEmpty = false := rfl
  simp [Line.ofBytes, decode?_encode, hline, Record.trimChars_writeLine, hempty,
    Record.readLine_writeLine]

/-- The text of a record has no octet of a control, whatever its code, URL and owner hold. -/
theorem printable_lineText (r : Record) : ∀ b ∈ encode r.lineText, 0x20 ≤ b :=
  printable_encode r.writeLine_printable

/-- The text of a record is a single line. -/
theorem newline_not_mem_lineText (r : Record) : 10 ∉ encode r.lineText :=
  fun h => absurd (printable_lineText r 10 h) (by decide)

/-- The octets of a record end with the end of its line. -/
theorem terminated_lineBytes (r : Record) : Terminated (lineBytes r) := by
  simp [Terminated, lineBytes]

/-- The octets of records end with the end of a line. -/
theorem terminated_lines (records : List Record) : Terminated (records.flatMap lineBytes) := by
  induction records with
  | nil => exact terminated_nil
  | cons r rest ih =>
    rw [List.flatMap_cons]
    exact (terminated_lineBytes r).append ih

/-- The lines of a journal that was written as a whole are the lines of its records. -/
theorem splitLines_lines (records : List Record) :
    splitLines (records.flatMap lineBytes) = records.map fun r => encode r.lineText := by
  induction records with
  | nil => rfl
  | cons r rest ih =>
    rw [List.flatMap_cons, lineBytes, List.append_assoc, List.singleton_append,
      splitLines_line _ _ (newline_not_mem_lineText r), ih, List.map_cons]

/-- Every line that is written for records is read as its record. -/
theorem lines_of_records (records : List Record) :
    (splitLines (records.flatMap lineBytes)).map Line.ofBytes = records.map .record := by
  rw [splitLines_lines, List.map_map]
  refine List.map_congr_left fun r _ => ?_
  rw [Function.comp_apply, ofBytes_lineText]

/-- A journal to which the lines of records were added is read as before, with those records at
the end. -/
theorem read_append {content : Bytes} (hterminated : Terminated content)
    (hcomplete : (read content).complete) (records : List Record) :
    read (content ++ records.flatMap lineBytes) =
      { read content with records := (read content).records ++ records } := by
  have hread : (read content).complete = true := hcomplete
  rw [read, splitLines_append hterminated, List.map_append, Reading.ofLines_append hcomplete,
    lines_of_records, Reading.ofLines_records, List.append_nil, ← hread]
  rfl

/-- A journal that was written as a whole is read as the records it was written from. -/
theorem read_lines (records : List Record) : read (records.flatMap lineBytes) = { records } :=
  read_append terminated_nil rfl records

end Journal

end ShortLinks
