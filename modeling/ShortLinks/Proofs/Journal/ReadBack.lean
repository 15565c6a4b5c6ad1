import ShortLinks.Proofs.Journal.Writing

/-!
# Records come back as they were written

A journal is written in two ways: a record is added at its end, or the whole of it is written anew.
Either way it holds the lines of records and nothing else. No line holds a control, so it is cut off
where it ends and nowhere before, and it has no blank characters at its ends that trimming could
take. So the journal is read as its records, in their order, whichever characters they are made of
and however often a link is among them, and no line is skipped.
-/

namespace ShortLinks.Journal

open FileSystem Text

variable {path : String} {mode : JournalMode} {j j' : Journal} {fs fs' : FileSystem}
  {file : FileId} {held records : List Record}

/-- The text of a record is left alone when blank characters are taken off its ends. -/
theorem trim_lineText (r : Record) : trim r.lineText = r.lineText := by
  rw [trim, Record.lineText, String.toList_ofList, r.trimChars_writeLine]

/-- A way to write to a journal. -/
inductive Writing
  | add (r : Record)
  | anew (records : List Record)

/-- Write to a journal in one of the ways. -/
def write (j : Journal) : Writing → Stored Journal
  | .add r => do
    j.append r
    return j
  | .anew records => j.replace records

/-- The records of a journal after some writing. In the mode `backup` none is added. -/
def Writing.onto (mode : JournalMode) (held : List Record) : Writing → List Record
  | .add r => if mode = .append then held ++ [r] else held
  | .anew records => records

/-- A journal is open, and the file at its path holds the lines of records and nothing else. What is
added goes to that file. -/
structure Holds (path : String) (mode : JournalMode) (file : FileId) (records : List Record)
    (j : Journal) (fs : FileSystem) : Prop where
  journal : j = { path, writer := if mode = .append then some file else none }
  stands : fs.Stands path file
  bytes : fs.bytes file = records.flatMap lineBytes

/-- What is added to a journal stands behind what it held. -/
theorem Holds.append (h : Holds path mode file held j fs) {r : Record}
    (hrun : (j.append r).run fs = (.ok (), fs')) :
    Holds path mode file ((Writing.add r).onto mode held) j fs' := by
  obtain ⟨rfl, hstands, hbytes⟩ := h
  cases mode with
  | backup =>
    cases hrun
    exact ⟨rfl, hstands, hbytes⟩
  | append =>
    have hgrew : Grew file (lineBytes r) fs fs' := run_append_ok rfl hrun
    refine ⟨rfl, hstands.of_names hgrew.names, ?_⟩
    rw [hgrew.here, hbytes, Writing.onto, if_pos rfl, List.flatMap_append, List.flatMap_singleton]

/-- Some writing leaves a journal that holds the records it should. -/
theorem Holds.write {writing : Writing} (h : Holds path mode file held j fs)
    (hrun : (j.write writing).run fs = (.ok j', fs')) :
    ∃ file', Holds path mode file' (writing.onto mode held) j' fs' := by
  cases writing with
  | add r =>
    obtain ⟨_, fs₁, happend, hwritten⟩ := run_bind_ok hrun
    cases hwritten
    exact ⟨file, h.append happend⟩
  | anew records =>
    obtain ⟨file', hstands, hbytes, rfl, -⟩ := run_replace_ok hrun
    obtain ⟨rfl, -, -⟩ := h
    refine ⟨file', ?_, hstands, hbytes⟩
    cases mode <;> rfl

/-- Writing again and again leaves a journal that holds the records it should. -/
theorem Holds.writeAll {writings : List Writing} (h : Holds path mode file held j fs)
    (hrun : (writings.foldlM Journal.write j).run fs = (.ok j', fs')) :
    ∃ file', Holds path mode file' (writings.foldl (Writing.onto mode) held) j' fs' := by
  induction writings generalizing j fs held file with
  | nil =>
    cases hrun
    exact ⟨file, h⟩
  | cons writing rest ih =>
    rw [List.foldlM_cons] at hrun
    obtain ⟨j₁, fs₁, hfirst, hrest⟩ := run_bind_ok hrun
    obtain ⟨file₁, h₁⟩ := h.write hfirst
    exact ih h₁ hrest

/-- Records that are written one line each, in whichever of the ways, are read back as they are, in
their order, and no line is skipped. One more line adds its record and nothing else. No line holds
an end of line or a carriage return, trimming leaves every line alone, and the lines are cut apart
as they were written. -/
theorem records_read_back (records : List Record) (r : Record) :
    read (records.flatMap lineBytes) = { records, skipped := [], complete := true } ∧
    read (records.flatMap lineBytes ++ lineBytes r) =
      { records := records ++ [r], skipped := [], complete := true } ∧
    10 ∉ encode r.lineText ∧ 13 ∉ encode r.lineText ∧ trim r.lineText = r.lineText ∧
    splitLines (records.flatMap lineBytes) = (records.map fun r => encode r.lineText) ∧
    ∀ {path mode fs j file fs₁ j' fs₂} (writings : List Writing),
      (attach path mode).run fs = (.ok (j, file), fs₁) →
      fs.bytes file = records.flatMap lineBytes →
      (writings.foldlM write j).run fs₁ = (.ok j', fs₂) →
      ∃ file', fs₂.Stands path file' ∧ read (fs₂.bytes file') =
        { records := writings.foldl (Writing.onto mode) records, skipped := [],
          complete := true } := by
  refine ⟨read_lines records, ?_, newline_not_mem_lineText r, ?_, trim_lineText r,
    splitLines_lines records, ?_⟩
  · have hlines : (records ++ [r]).flatMap lineBytes =
        records.flatMap lineBytes ++ lineBytes r := by
      rw [List.flatMap_append, List.flatMap_singleton]
    rw [← hlines, read_lines]
  · intro hreturn
    exact absurd (printable_lineText r 13 hreturn) (by decide)
  · intro path mode fs j file fs₁ j' fs₂ writings hattach hcontent hwrite
    obtain ⟨hstands, hjournal, -, hkept⟩ := run_attach_ok hattach
    have hopened : Holds path mode file records j fs₁ :=
      ⟨hjournal, hstands, hkept.trans hcontent⟩
    obtain ⟨file', h⟩ := hopened.writeAll hwrite
    exact ⟨file', h.stands, by rw [h.bytes, read_lines]⟩

/-- A link that is made of characters that lines or JSON treat specially. -/
def unusualLink (deleted : Bool) : Record :=
  ⟨"a\r\n\u2028", "\"\\\x00", "\u0085\ufeff", deleted⟩

/-- The link is added twice, the journal is written anew with the link deleted, and the link is
added once more. -/
def renewing : List Writing :=
  [.add (unusualLink false), .add (unusualLink false), .anew [unusualLink true],
    .add (unusualLink false)]

/-- What stands in the journal then is the deleted link and the one that was added last. -/
theorem records_read_back_renewed : ∃ j file fs₁ j' fs₂,
    (attach "links" .append).run {} = (.ok (j, file), fs₁) ∧
    (renewing.foldlM write j).run fs₁ = (.ok j', fs₂) ∧
    ∃ file', fs₂.Stands "links" file' ∧
      read (fs₂.bytes file') = { records := [unusualLink true, unusualLink false] } := by
  let whole := attach "links" .append >>= fun opened => renewing.foldlM write opened.1
  have hok : (whole.run {}).1.isOk := by decide +kernel
  generalize hrun : whole.run {} = ended at hok
  obtain ⟨fault | j', fs₂⟩ := ended
  · cases hok
  · obtain ⟨⟨j, file⟩, fs₁, hattach, hwrite⟩ := run_bind_ok hrun
    refine ⟨j, file, fs₁, j', fs₂, hattach, hwrite, ?_⟩
    exact (records_read_back [] (unusualLink true)).2.2.2.2.2.2 renewing hattach rfl hwrite

end ShortLinks.Journal
