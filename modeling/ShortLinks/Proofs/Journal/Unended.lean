import Mathlib.Data.List.DropRight
import ShortLinks.Proofs.Journal.Lines
import ShortLinks.Proofs.RecordJoined

/-!
# A journal whose last line has not ended

The lines of a content that have ended are read whatever follows. A record that is written behind a
last line that has not ended makes one line with it. If there were only blanks, that line is the
record. Otherwise it is no record at all: what the unended line said is lost, and so is the record
that was written behind it. The records after that one have lines of their own.
-/

namespace ShortLinks

namespace Text

/-- The lines of a content that have ended. -/
def ended (content : Bytes) : Bytes := content.rdropWhile (· != 10)

/-- What stands in a content behind the last end of a line. -/
def unended (content : Bytes) : Bytes := content.rtakeWhile (· != 10)

/-- A content is its ended lines with the line that has not ended. -/
theorem ended_append_unended (content : Bytes) : ended content ++ unended content = content :=
  List.rdropWhile_append_rtakeWhile

/-- The ended lines end with the end of a line. -/
theorem terminated_ended (content : Bytes) : Terminated (ended content) := by
  intro b hb
  have hne : ended content ≠ [] := by
    intro hempty
    rw [hempty] at hb
    cases hb
  have hlast : ¬((ended content).getLast hne != 10) := List.rdropWhile_last_not _ content hne
  rw [List.getLast?_eq_some_getLast hne] at hb
  cases hb
  simpa using hlast

/-- The line that has not ended has no end of a line in it. -/
theorem newline_not_mem_unended (content : Bytes) : 10 ∉ unended content := by
  intro h
  have hother := List.mem_rtakeWhile_imp h
  cases hother

/-- Without the end of a line, nothing has ended. -/
theorem ended_eq_nil {content : Bytes} (h : 10 ∉ content) : ended content = [] := by
  rw [ended, List.rdropWhile_eq_nil_iff]
  intro b hb
  rw [bne_iff_ne]
  rintro rfl
  exact h hb

/-- A content without any end of a line is one line that has not ended. -/
theorem unended_eq_self {content : Bytes} (h : 10 ∉ content) : unended content = content := by
  have hwhole := ended_append_unended content
  rwa [ended_eq_nil h, List.nil_append] at hwhole

/-- What has not ended is a line when it is not empty. -/
theorem splitLines_of_not_mem {line : Bytes} (h : 10 ∉ line) (hne : line ≠ []) :
    splitLines line = [line] := by
  induction line with
  | nil => exact absurd rfl hne
  | cons b rest ih =>
    rw [List.mem_cons, not_or] at h
    have hb : b ≠ 10 := Ne.symm h.1
    cases rest with
    | nil => simp [splitLines, hb, consLine]
    | cons b' rest =>
      have hrest := ih h.2 (List.cons_ne_nil b' rest)
      rw [splitLines, List.foldr_cons, if_neg hb, ← splitLines, hrest]
      rfl

/-- Octets that spell a text are the octets of that text. -/
theorem encode_of_decode? {bytes : Bytes} {s : String} (h : decode? bytes = some s) :
    encode s = bytes := by
  rw [decode?, String.fromUTF8?] at h
  split at h
  · cases h
    simp [encode, String.fromUTF8]
  · cases h

/-- Texts are written one behind the other as they are written together. -/
theorem encode_append (s t : String) : encode s ++ encode t = encode (s ++ t) := by
  simp [encode]

/-- What comes next behind the blanks in front is not blank. -/
theorem isBlank_eq_false {cs rest : List Char} {c : Char} (h : cs.dropWhile isBlank = c :: rest) :
    isBlank c = false := by
  have hc := List.head_dropWhile_not isBlank (l := cs) (by simp [h])
  simpa only [h, List.head_cons] using hc

/-- A text has nothing left when it is trimmed exactly when it is all blanks. -/
theorem trimChars_eq_nil_iff {cs : List Char} : trimChars cs = [] ↔ cs.dropWhile isBlank = [] := by
  have hends : trimChars cs = (cs.dropWhile isBlank).rdropWhile isBlank := rfl
  rw [hends, List.rdropWhile_eq_nil_iff]
  cases hdrop : cs.dropWhile isBlank with
  | nil => simp
  | cons c rest => simp [isBlank_eq_false hdrop]

end Text

namespace Journal

open Text

/-- The record of a line, if it is one. -/
def Line.record? : Line → Option Record
  | .record r => some r
  | _ => none

/-- What is read of a line that has not ended and of records that were written behind it. -/
def Line.followedBy : Line → List Record → List Record
  | .blank, records => records
  | line, [] => line.record?.toList
  | _, _ :: later => later

/-- The records of a line that has not ended, and of records that were written behind it, that are
not read any more. -/
def Line.lost : Line → List Record → List Record
  | .blank, _ => []
  | _, [] => []
  | line, r :: _ => line.record?.toList ++ [r]

/-- What the line said and what was written behind it is lost or read again. -/
theorem Line.lost_append_followedBy (line : Line) (records : List Record) :
    line.lost records ++ line.followedBy records = line.record?.toList ++ records := by
  cases records with
  | nil => cases line <;> rfl
  | cons r later => cases line <;> simp [Line.lost, Line.followedBy, Line.record?]

/-- Nothing is lost exactly when the line was blank or nothing was written behind it. -/
theorem Line.lost_eq_nil_iff {line : Line} {records : List Record} :
    line.lost records = [] ↔ line = .blank ∨ records = [] := by
  cases records with
  | nil => cases line <;> simp [Line.lost]
  | cons r later => cases line <;> simp [Line.lost]

/-- Lines are read to their end if each of them is a text. -/
theorem Reading.complete_iff {number : Nat} {lines : List Line} :
    (Reading.ofLines number lines).complete ↔ .unreadable ∉ lines := by
  induction lines generalizing number with
  | nil => simp [Reading.ofLines]
  | cons line rest ih => cases line <;> simp [Reading.ofLines, ih]

/-- Lines that are texts are read as the records among them. -/
theorem Reading.records_eq {number : Nat} {lines : List Line} (h : .unreadable ∉ lines) :
    (Reading.ofLines number lines).records = lines.filterMap Line.record? := by
  induction lines generalizing number with
  | nil => rfl
  | cons line rest ih =>
    rw [List.mem_cons, not_or] at h
    have hrest := @ih (number + 1) h.2
    cases line with
    | blank => exact hrest
    | record r => simp [Reading.ofLines, hrest, Line.record?]
    | malformed report => exact hrest
    | unreadable => exact absurd rfl h.1

/-- A line that is no text is the end of reading. -/
theorem ofBytes_eq_unreadable_iff {line : Bytes} :
    Line.ofBytes line = .unreadable ↔ decode? line = none := by
  rw [Line.ofBytes]
  cases decode? line with
  | none => simp
  | some s =>
    dsimp only
    split
    · simp
    · split <;> simp

/-- A line is blank when its text is all blanks. -/
theorem ofBytes_eq_blank_iff {line : Bytes} {s : String} (h : decode? line = some s) :
    Line.ofBytes line = .blank ↔ s.toList.dropWhile isBlank = [] := by
  rw [← trimChars_eq_nil_iff, ← List.isEmpty_iff, Line.ofBytes, h]
  dsimp only
  split
  · next hempty => simp [hempty]
  · next hempty => split <;> simp [hempty]

/-- A line that is a text and not blank is read as a record. -/
theorem ofBytes_of_text {line : Bytes} {s : String} (h : decode? line = some s)
    (hblank : (trimChars s.toList).isEmpty = false) : Line.ofBytes line =
      match Record.readLine (trimChars s.toList) with
      | .ok r => .record r
      | .error finding => .malformed (finding.report (trimChars s.toList)) := by
  rw [Line.ofBytes, h]
  simp only [hblank]
  rfl

/-- A record that is written behind a line that has not ended makes one line with it: that of the
record if there were only blanks, and no record otherwise. -/
theorem ofBytes_joined {line : Bytes} (hread : Line.ofBytes line ≠ .unreadable) (r : Record) :
    Line.ofBytes (line ++ encode r.lineText) = .record r ∧ Line.ofBytes line = .blank ∨
      (∃ report, Line.ofBytes (line ++ encode r.lineText) = .malformed report) ∧
        Line.ofBytes line ≠ .blank := by
  cases hdecode : decode? line with
  | none => exact absurd (by rw [Line.ofBytes, hdecode]) hread
  | some s =>
    have hjoined : decode? (line ++ encode r.lineText) = some (s ++ r.lineText) := by
      rw [← encode_of_decode? hdecode, encode_append, decode?_encode]
    have hchars : (s ++ r.lineText).toList = s.toList ++ r.writeLine := by
      simp [Record.lineText]
    have htrim := Record.trimChars_joined r s.toList
    have hempty : (trimChars (s.toList ++ r.writeLine)).isEmpty = false := by
      rw [htrim]
      simp [Record.writeLine]
    have hline := ofBytes_of_text hjoined (by rw [hchars, hempty])
    rw [hchars] at hline
    have hblank := ofBytes_eq_blank_iff hdecode
    rw [hline, htrim]
    cases hfront : s.toList.dropWhile isBlank with
    | nil =>
      rw [List.nil_append, Record.readLine_writeLine]
      exact .inl ⟨rfl, hblank.2 hfront⟩
    | cons c front =>
      rw [hfront] at hblank
      refine .inr ⟨?_, fun hline => List.cons_ne_nil c front (hblank.1 hline)⟩
      cases hresult : Record.readLine (c :: front ++ r.writeLine) with
      | ok r' => exact absurd hresult (r.readLine_joined r' (isBlank_eq_false hfront) front)
      | error finding => exact ⟨_, rfl⟩

/-- Records that are written behind a line that has not ended have lines of their own, but for the
first. -/
theorem lines_behind {line : Bytes} (hnewline : 10 ∉ line) (hread : Line.ofBytes line ≠ .unreadable)
    (records : List Record) :
    let lines := (splitLines (line ++ records.flatMap lineBytes)).map Line.ofBytes
    .unreadable ∉ lines ∧
      lines.filterMap Line.record? = (Line.ofBytes line).followedBy records := by
  cases records with
  | nil =>
    rw [List.flatMap_nil, List.append_nil]
    by_cases hempty : line = []
    · subst hempty
      exact ⟨List.not_mem_nil, rfl⟩
    · rw [splitLines_of_not_mem hnewline hempty, List.map_singleton]
      refine ⟨by simpa using Ne.symm hread, ?_⟩
      cases Line.ofBytes line <;> rfl
  | cons r later =>
    have hfirst : 10 ∉ line ++ encode r.lineText := by
      rw [List.mem_append, not_or]
      exact ⟨hnewline, newline_not_mem_lineText r⟩
    have hlines : (splitLines (line ++ (r :: later).flatMap lineBytes)).map Line.ofBytes =
        Line.ofBytes (line ++ encode r.lineText) :: later.map .record := by
      rw [List.flatMap_cons, lineBytes, List.append_assoc, List.singleton_append,
        ← List.append_assoc, splitLines_line _ _ hfirst, List.map_cons, lines_of_records]
    have hlater : (later.map Line.record).filterMap Line.record? = later := by
      simp [List.filterMap_map, Function.comp_def, Line.record?]
    rw [hlines]
    obtain ⟨hjoined, hblank⟩ | ⟨⟨sentence, hjoined⟩, hblank⟩ := ofBytes_joined hread r
    · rw [hjoined, hblank]
      refine ⟨by simp, ?_⟩
      rw [List.filterMap_cons, hlater]
      rfl
    · rw [hjoined]
      refine ⟨by simp, ?_⟩
      rw [List.filterMap_cons, hlater]
      cases hline : Line.ofBytes line with
      | blank => exact absurd hline hblank
      | record r' => rfl
      | malformed report => rfl
      | unreadable => rfl

/-- A journal to which the lines of records were added is read to its end as before, and what it
says is what its ended lines say, with what is read of the line that had not ended and of the
records behind it. -/
theorem read_behind {content : Bytes} (hcomplete : (read content).complete)
    (records : List Record) :
    (read (content ++ records.flatMap lineBytes)).complete ∧
      (read (content ++ records.flatMap lineBytes)).records =
        (read (ended content)).records ++
          (Line.ofBytes (unended content)).followedBy records := by
  have hsplit (records : List Record) :
      (splitLines (content ++ records.flatMap lineBytes)).map Line.ofBytes =
        (splitLines (ended content)).map Line.ofBytes ++
          (splitLines (unended content ++ records.flatMap lineBytes)).map Line.ofBytes := by
    conv_lhs => rw [← ended_append_unended content, List.append_assoc,
      splitLines_append (terminated_ended content), List.map_append]
  have hreadable := Reading.complete_iff.1 hcomplete
  have hnothing := hsplit []
  rw [List.flatMap_nil, List.append_nil, List.append_nil] at hnothing
  rw [hnothing, List.mem_append, not_or] at hreadable
  have hlast : Line.ofBytes (unended content) ≠ .unreadable := by
    by_cases hempty : unended content = []
    · rw [hempty]
      intro hunreadable
      cases hunreadable
    · have hline := hreadable.2
      rw [splitLines_of_not_mem (newline_not_mem_unended content) hempty, List.map_singleton,
        List.mem_singleton] at hline
      exact Ne.symm hline
  obtain ⟨hbehind, hrecords⟩ := lines_behind (newline_not_mem_unended content) hlast records
  have hall : .unreadable ∉
      (splitLines (content ++ records.flatMap lineBytes)).map Line.ofBytes := by
    rw [hsplit, List.mem_append, not_or]
    exact ⟨hreadable.1, hbehind⟩
  refine ⟨Reading.complete_iff.2 hall, ?_⟩
  rw [read, Reading.records_eq hall, hsplit, List.filterMap_append, hrecords, read,
    Reading.records_eq hreadable.1]

/-- What a content says is what its ended lines say, with the record of the line that has not ended
if it is one. -/
theorem read_ended {content : Bytes} (hcomplete : (read content).complete) :
    (read content).records =
      (read (ended content)).records ++ (Line.ofBytes (unended content)).record?.toList := by
  have hnothing := (read_behind hcomplete []).2
  rw [List.flatMap_nil, List.append_nil] at hnothing
  rw [hnothing]
  cases Line.ofBytes (unended content) <;> rfl

/-- A journal can be a single record line that has not ended. -/
theorem read_lineText (r : Record) : read (encode r.lineText) = { records := [r] } := by
  have hne : encode r.lineText ≠ [] := by
    intro hempty
    have hblank : Line.ofBytes [] = .blank := rfl
    have hrecord := ofBytes_lineText r
    rw [hempty, hblank] at hrecord
    cases hrecord
  rw [read, splitLines_of_not_mem (newline_not_mem_lineText r) hne, List.map_singleton,
    ofBytes_lineText]
  rfl

end Journal

end ShortLinks
