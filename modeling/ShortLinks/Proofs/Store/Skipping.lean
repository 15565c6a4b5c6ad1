import ShortLinks.Proofs.Journal.Unended
import ShortLinks.Proofs.Store.Memory

/-!
# A line that is no record

A line is put into a journal behind a line that has ended. Reading stops at a line that is no text
and goes past every other one, so a line that is a text but no record costs nothing but its own
report: the journal is opened as it would be without that line, and the later reports count one line
more. With a line that is no text the journal is not opened at all, whatever else it says.
-/

namespace ShortLinks

namespace Journal

open Text

/-- The content of a journal between whose lines another one stands. -/
def withLine (before line after : Bytes) : Bytes := before ++ 10 :: (line ++ 10 :: after)

/-- The content of the same journal without that line. -/
def withoutLine (before after : Bytes) : Bytes := before ++ 10 :: after

/-- How many lines a content makes with the end of its last one. -/
def lineCount (before : Bytes) : Nat := (splitLines (before ++ [10])).length

/-- The same report one line further down. -/
def Skipped.below (s : Skipped) : Skipped := { s with number := s.number + 1 }

/-- The report of a line that is skipped. -/
def Line.report (number : Nat) : Line → List Skipped
  | .malformed report => [⟨number, report⟩]
  | _ => []

variable {before line after : Bytes}

/-- The lines of the journal without the line are those before it and those after it. -/
theorem splitLines_withoutLine (before after : Bytes) :
    splitLines (withoutLine before after) = splitLines (before ++ [10]) ++ splitLines after := by
  have hended : Terminated (before ++ [10]) := by simp [Terminated]
  rw [← splitLines_append hended, withoutLine, List.append_assoc, List.singleton_append]

/-- The lines of the journal with the line have it between those before it and those after it. -/
theorem splitLines_withLine (hnewline : 10 ∉ line) (before after : Bytes) :
    splitLines (withLine before line after) =
      splitLines (before ++ [10]) ++ line :: splitLines after := by
  have hlines := splitLines_withoutLine before (line ++ 10 :: after)
  rwa [splitLines_line line after hnewline] at hlines

/-- Lines further down are read as the same records, and reported further down. -/
theorem Reading.ofLines_succ (number : Nat) (lines : List Line) :
    Reading.ofLines (number + 1) lines =
      { Reading.ofLines number lines with
        skipped := (Reading.ofLines number lines).skipped.map Skipped.below } := by
  induction lines generalizing number with
  | nil => rfl
  | cons line rest ih => cases line <;> simp [Reading.ofLines, ih (number + 1), Skipped.below]

/-- A line that is a text but no record is passed over. -/
theorem Reading.ofLines_cons {line : Line} (hrecord : ∀ r, line ≠ .record r)
    (htext : line ≠ .unreadable) (number : Nat) (rest : List Line) :
    Reading.ofLines number (line :: rest) =
      { Reading.ofLines (number + 1) rest with
        skipped := line.report number ++ (Reading.ofLines (number + 1) rest).skipped } := by
  cases line with
  | blank => rfl
  | record r => exact absurd rfl (hrecord r)
  | malformed report => rfl
  | unreadable => exact absurd rfl htext

/-- With a line that is no text, a journal is not read to its end. -/
theorem not_complete_withLine (hnewline : 10 ∉ line) (htext : decode? line = none)
    (before after : Bytes) : ¬(read (withLine before line after)).complete := by
  rw [read, Reading.complete_iff, not_not, splitLines_withLine hnewline, List.map_append,
    List.map_cons, ofBytes_eq_unreadable_iff.2 htext]
  exact List.mem_append_right _ List.mem_cons_self

/-- With a line that is a text, a journal is read to its end when it is without that line. -/
theorem complete_withLine_iff (hnewline : 10 ∉ line) (htext : decode? line ≠ none)
    (before after : Bytes) :
    (read (withLine before line after)).complete ↔ (read (withoutLine before after)).complete := by
  have hline : Line.ofBytes line ≠ .unreadable := mt ofBytes_eq_unreadable_iff.1 htext
  rw [read, Reading.complete_iff, read, Reading.complete_iff, splitLines_withLine hnewline,
    splitLines_withoutLine, List.map_append, List.map_append, List.map_cons, List.mem_append,
    List.mem_append, List.mem_cons, or_iff_right (Ne.symm hline)]

/-- A line that is a text but no record leaves the records as they are. What is reported before it
stays, and what is reported behind it moves down. -/
theorem read_withLine (hnewline : 10 ∉ line) (htext : decode? line ≠ none)
    (hrecord : ∀ r, Line.ofBytes line ≠ .record r)
    (hcomplete : (read (withoutLine before after)).complete) :
    (read (withLine before line after)).records = (read (withoutLine before after)).records ∧
      ∃ early later, (read (withoutLine before after)).skipped = early ++ later ∧
        (read (withLine before line after)).skipped =
          early ++ (Line.ofBytes line).report (lineCount before + 1) ++
            later.map Skipped.below := by
  have hline : Line.ofBytes line ≠ .unreadable := mt ofBytes_eq_unreadable_iff.1 htext
  have hlines := Reading.complete_iff.1 hcomplete
  rw [splitLines_withoutLine, List.map_append, List.mem_append, not_or] at hlines
  have hbefore : (Reading.ofLines 1 ((splitLines (before ++ [10])).map Line.ofBytes)).complete :=
    Reading.complete_iff.2 hlines.1
  have hcount : 1 + ((splitLines (before ++ [10])).map Line.ofBytes).length =
      lineCount before + 1 := by rw [List.length_map, lineCount]; omega
  rw [read, read, splitLines_withLine hnewline, splitLines_withoutLine, List.map_append,
    List.map_append, List.map_cons, Reading.ofLines_append hbefore,
    Reading.ofLines_append hbefore, hcount, Reading.ofLines_cons hrecord hline,
    Reading.ofLines_succ (lineCount before + 1)]
  exact ⟨rfl, _, _, rfl, (List.append_assoc _ _ _).symm⟩

end Journal

namespace Memory

open FileSystem Journal

variable {fs : FileSystem} {path : String} {mode : JournalMode} {file : FileId}
  {before line after : Bytes}

/-- Open a journal whose file is given a content first. -/
def openWith (path : String) (mode : JournalMode) (fs : FileSystem) (file : FileId)
    (content : Bytes) : Opened :=
  ((«open» path mode).run (fs.setContent file (.octets content))).1

/-- The file that stands at a path is read, if the fault plan lets it be opened. -/
theorem openWith_eq (h : fs.Stands path file) (content : Bytes) :
    openWith path mode fs file content = match fs.faults fs.performed .openAppend with
      | some e => { result := .error (pathFault "Failed to open" path e) }
      | none => {
          result :=
            if (Journal.read content).complete then
              .ok {
                owners := Owners.replay .empty (Journal.read content).records
                journal := some { path, writer := if mode = .append then some file else none } }
            else .error (IoError.toFault .notText)
          skipped := (Journal.read content).skipped } := by
  have hstands : (fs.setContent file (.octets content)).Stands path file := h.of_names rfl
  have hbytes : (fs.setContent file (.octets content)).tick.bytes file = content := by
    have hcontent := content_setContent fs file file (.octets content)
    rw [if_pos rfl] at hcontent
    exact congrArg Content.bytes hcontent
  have hplan : (fs.setContent file (.octets content)).faults
      (fs.setContent file (.octets content)).performed .openAppend =
        fs.faults fs.performed .openAppend := rfl
  rw [openWith, run_open, run_attach_stands hstands, hplan]
  cases fs.faults fs.performed .openAppend with
  | some e => rfl
  | none =>
    dsimp only
    rw [hbytes]

/-- A line is put into a journal that is no record. When the line is a text, the journal is opened
with the same result as without the line, and the reports are the same but for the report of that
line and the numbers of later lines. When the line is no text, the journal is not opened. -/
theorem open_withLine (h : fs.Stands path file) (hnewline : 10 ∉ line)
    (hrecord : ∀ r, Line.ofBytes line ≠ .record r) (before after : Bytes) :
    let longer := openWith path mode fs file (withLine before line after)
    let shorter := openWith path mode fs file (withoutLine before after)
    (Text.decode? line ≠ none → longer.result = shorter.result ∧
      ∀ m, shorter.result = .ok m → ∃ early later, shorter.skipped = early ++ later ∧
        longer.skipped = early ++ (Line.ofBytes line).report (lineCount before + 1) ++
          later.map Skipped.below) ∧
    (Text.decode? line = none → ∃ fault, longer.result = .error fault) := by
  rw [openWith_eq h, openWith_eq h]
  cases fs.faults fs.performed .openAppend with
  | some e => exact ⟨fun _ => ⟨rfl, fun m hm => nomatch hm⟩, fun _ => ⟨_, rfl⟩⟩
  | none =>
    refine ⟨fun htext => ?_, fun htext => ?_⟩
    · by_cases hcomplete : (Journal.read (withoutLine before after)).complete
      · obtain ⟨hrecords, hskipped⟩ := read_withLine hnewline htext hrecord hcomplete
        dsimp only
        rw [if_pos ((complete_withLine_iff hnewline htext before after).2 hcomplete),
          if_pos hcomplete, hrecords]
        exact ⟨rfl, fun _ _ => hskipped⟩
      · dsimp only
        rw [if_neg (mt (complete_withLine_iff hnewline htext before after).1 hcomplete),
          if_neg hcomplete]
        exact ⟨rfl, fun m hm => nomatch hm⟩
    · exact ⟨_, if_neg (not_complete_withLine hnewline htext before after)⟩

/-- Files with a journal. -/
def journalAlone : FileSystem where
  names := Keyed.empty.insert ["links"] (.file 0)
  contents := [.octets []]

/-- The journal stands at its path. -/
theorem stands_journalAlone : journalAlone.Stands "links" 0 := ⟨["links"], by decide +kernel, rfl⟩

/-- A record of a link. -/
def keptLink : Record := ⟨"a", "http://a/", "u", false⟩

/-- The line of a link and an empty line are read as the record of that link. -/
theorem read_keptLink :
    Journal.read (withoutLine (Text.encode keptLink.lineText) []) = { records := [keptLink] } := by
  have hlines : withoutLine (Text.encode keptLink.lineText) [] =
      [keptLink].flatMap Journal.lineBytes := by
    rw [List.flatMap_singleton]
    rfl
  rw [hlines, Journal.read_lines]

/-- A store with this link alone. -/
def keptAlone : Memory where
  owners := Owners.put .empty keptLink
  journal := some ⟨"links", none⟩

/-- The journal without the line is opened as the store with the link alone. -/
theorem openWith_keptLink : openWith "links" .backup journalAlone 0
    (withoutLine (Text.encode keptLink.lineText) []) = { result := .ok keptAlone } := by
  rw [openWith_eq stands_journalAlone, read_keptLink]
  rfl

/-- Words between the line of a link and an empty line are skipped, and reported as the second
line, with the place at which they go on unlike JSON. -/
theorem open_withLine_words :
    let longer := openWith "links" .backup journalAlone 0
      (withLine (Text.encode keptLink.lineText) (Text.encode "not json") [])
    longer.result = .ok keptAlone ∧ longer.skipped = [⟨2, .malformed .noWord, 1, 2⟩] := by
  have hline : Line.ofBytes (Text.encode "not json") = .malformed ⟨.malformed .noWord, 1, 2⟩ := by
    rw [Line.ofBytes, Text.decode?_encode]
    decide +kernel
  have hrecord : ∀ r, Line.ofBytes (Text.encode "not json") ≠ .record r := by
    rw [hline]
    rintro _ ⟨⟩
  have htext : Text.decode? (Text.encode "not json") ≠ none := by
    rw [Text.decode?_encode]
    exact Option.some_ne_none _
  have hcount : lineCount (Text.encode keptLink.lineText) = 1 := by
    rw [lineCount, Text.splitLines_line _ [] (Journal.newline_not_mem_lineText keptLink)]
    rfl
  obtain ⟨hresult, hskipped⟩ := (open_withLine stands_journalAlone (by decide +kernel) hrecord
    (Text.encode keptLink.lineText) []).1 htext
  rw [openWith_keptLink] at hresult hskipped
  obtain ⟨early, later, hnone, hreports⟩ := hskipped _ rfl
  obtain ⟨rfl, rfl⟩ := List.append_eq_nil_iff.1 hnone.symm
  refine ⟨hresult, ?_⟩
  rw [hreports, hline, hcount]
  rfl

/-- An octet that is no text keeps a link from being restored. -/
theorem open_withLine_not_restored :
    (openWith "links" .backup journalAlone 0
      (withoutLine (Text.encode keptLink.lineText) [])).result = .ok keptAlone ∧
    keptAlone.owners.link? "u" "a" = some ⟨"http://a/", false⟩ ∧
    10 ∉ ([0xFF] : Bytes) ∧ (∀ r, Line.ofBytes [0xFF] ≠ .record r) ∧
    ∀ m, (openWith "links" .backup journalAlone 0
      (withLine (Text.encode keptLink.lineText) [0xFF] [])).result ≠ .ok m := by
  have htext : Text.decode? [0xFF] = none := rfl
  have hnewline : 10 ∉ ([0xFF] : Bytes) := by decide
  have hplan : journalAlone.faults journalAlone.performed .openAppend = none := rfl
  refine ⟨by rw [openWith_keptLink], rfl, hnewline, fun r => ?_, fun m => ?_⟩
  · rw [ofBytes_eq_unreadable_iff.2 htext]
    exact nofun
  · rw [openWith_eq stands_journalAlone, hplan]
    dsimp only
    rw [if_neg (not_complete_withLine hnewline htext _ _)]
    exact nofun

end Memory

end ShortLinks
