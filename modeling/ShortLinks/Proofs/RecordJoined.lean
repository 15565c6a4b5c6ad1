import ShortLinks.Proofs.Json.Joined
import ShortLinks.Proofs.Json.Written
import ShortLinks.Proofs.RecordLine

/-!
# A record line behind other text

A record line that stands behind other text on its line is not read. If the text in front is more
than blanks, the two make one line that is no record, whatever the text is: half a record, a whole
one, or anything else. If it is only blanks, they are trimmed away and the record is read.
-/

namespace ShortLinks.Record

open Json

/-- The line of a record is an object that is passed over, or read, as a whole. -/
theorem whole_writeLine (r : Record) : Whole r.writeLine := by
  let deleted := writeMember "is_deleted" (flagWord r.deleted) ++ ['\x7d']
  let owner := writeMember "user_id" r.owner ++ ',' :: deleted
  let url := writeMember "original_url" r.url ++ ',' :: owner
  have hline : r.writeLine = '\x7b' :: (writeMember "short_url" r.code ++ ',' :: url) := by
    simp [writeLine, url, owner, deleted]
  constructor
  · refine ⟨_, by rw [hline, writeMember_append, quote_append], ?_⟩
    intro c hc
    cases hc
    decide
  · intro fuel opened cs out hcs h
    have hvalue : Skips .value opened cs out := ⟨fuel, h⟩
    rw [hline, writeMember_append] at hcs
    have hurl := (hvalue.brace hcs).member.comma
    simp only [url, writeMember_append] at hurl
    have howner := hurl.member.comma
    simp only [owner, writeMember_append] at howner
    have hdeleted := howner.member.comma
    simp only [deleted, writeMember_append] at hdeleted
    rw [hdeleted.member.close.nothing]
    exact stuck_nil
  · intro fuel depth v cs out hcs h
    have hvalue : Reads depth .value cs out := ⟨fuel, v, h⟩
    rw [hline, writeMember_append] at hcs
    obtain ⟨inner, hcode⟩ := hvalue.brace hcs
    obtain ⟨read₁, hurl⟩ := hcode.comma
    simp only [url, writeMember_append] at hurl
    obtain ⟨read₂, howner⟩ := hurl.comma
    simp only [owner, writeMember_append] at howner
    obtain ⟨read₃, hdeleted⟩ := howner.comma
    simp only [deleted, writeMember_append] at hdeleted
    rw [hdeleted.close]
    exact stuck_nil

/-- What may stand between lexemes is blank. -/
theorem isSpace_eq_false {c : Char} (h : Text.isBlank c = false) : isSpace c = false := by
  by_contra hspace
  rw [Bool.not_eq_false] at hspace
  simp only [isSpace, Bool.or_eq_true, beq_iff_eq] at hspace
  obtain ((rfl | rfl) | rfl) | rfl := hspace <;> cases h

/-- Behind text that begins with no blank, a record line makes a line that is no record. -/
theorem readLine_joined (r r' : Record) {c : Char} (hc : Text.isBlank c = false)
    (front : List Char) : readLine (c :: front ++ r.writeLine) ≠ .ok r' := by
  intro hread
  obtain ⟨⟨cells, rest⟩, hshape, hread⟩ := except_bind_eq_ok.1 hread
  obtain ⟨cells', hend, -⟩ := except_bind_eq_ok.1 hread
  have hahead := r.whole_writeLine.read_front (isSpace_eq_false hc) hshape
  exact r.whole_writeLine.atEnd hahead hend

/-- Of text with a record line behind it, only the blanks in front are trimmed away. -/
theorem trimChars_joined (r : Record) (front : List Char) :
    Text.trimChars (front ++ r.writeLine) = front.dropWhile Text.isBlank ++ r.writeLine := by
  have hfirst : r.writeLine.dropWhile Text.isBlank = r.writeLine := by
    simp [writeLine, Text.isBlank]
  have hlast (front : List Char) :
      (front ++ r.writeLine).reverse.dropWhile Text.isBlank = (front ++ r.writeLine).reverse := by
    simp [writeLine, Text.isBlank]
  rw [Text.trimChars, Text.dropEnds, List.dropWhile_append, hfirst]
  split
  · next hblank =>
    have hlast := hlast []
    rw [List.nil_append] at hlast
    rw [hlast, List.reverse_reverse, List.isEmpty_iff.1 hblank, List.nil_append]
  · rw [hlast, List.reverse_reverse]

end ShortLinks.Record
