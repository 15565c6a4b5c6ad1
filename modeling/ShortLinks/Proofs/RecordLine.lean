import ShortLinks.Proofs.Json.Quoting
import ShortLinks.Record
import ShortLinks.Text.Blank

/-!
# Record lines are read back

The line of a record is one line of text without blank characters at its ends, and it is read as
that record, whichever characters the code, the URL and the owner are made of.
-/

namespace ShortLinks.Record

open Json

/-- The word for a flag stands for it. -/
theorem flagOfText_flagWord (b : Bool) : flagOfText (flagWord b) = .ok b := by
  have hword : Text.lowerAscii (Text.trim (flagWord b)) = flagWord b := by
    cases b <;> decide +kernel
  simp only [flagOfText, hword]
  cases b <;> rfl

/-- A member goes on with its name, a colon and its value. -/
theorem writeMember_append (name value : String) (rest : List Char) :
    writeMember name value ++ rest = quote name.toList ++ ':' :: (quote value.toList ++ rest) := by
  simp [writeMember]

/-- The four members of a line give their cells, whatever stands behind the line. -/
theorem read_writeLine (r : Record) (rest : List Char) :
    shape.read (r.writeLine ++ rest) =
      .ok ([.text r.code, .text r.url, .text r.owner, .flag r.deleted], rest) := by
  let deleted := writeMember "is_deleted" (flagWord r.deleted) ++ '\x7d' :: rest
  let owner := writeMember "user_id" r.owner ++ ',' :: deleted
  let url := writeMember "original_url" r.url ++ ',' :: owner
  let code := writeMember "short_url" r.code ++ ',' :: url
  have hline : r.writeLine ++ rest = '\x7b' :: code := by
    simp [writeLine, code, url, owner, deleted]
  have hcode : shape.readMember [none, none, none, none] "short_url"
      (':' :: (quote r.code.toList ++ ',' :: url)) =
        .ok ([some (.text r.code), none, none, none], ',' :: url) :=
    shape.readMember_field (i := 0) _ rfl rfl rfl (readCell_text _ _)
  have hurl : shape.readMember [some (.text r.code), none, none, none] "original_url"
      (':' :: (quote r.url.toList ++ ',' :: owner)) =
        .ok ([some (.text r.code), some (.text r.url), none, none], ',' :: owner) :=
    shape.readMember_field (i := 1) _ rfl rfl rfl (readCell_text _ _)
  have howner : shape.readMember [some (.text r.code), some (.text r.url), none, none] "user_id"
      (':' :: (quote r.owner.toList ++ ',' :: deleted)) =
        .ok ([some (.text r.code), some (.text r.url), some (.text r.owner), none],
          ',' :: deleted) :=
    shape.readMember_field (i := 2) _ rfl rfl rfl (readCell_text _ _)
  have hdeleted : shape.readMember
      [some (.text r.code), some (.text r.url), some (.text r.owner), none] "is_deleted"
      (':' :: (quote (flagWord r.deleted).toList ++ '\x7d' :: rest)) =
        .ok ([some (.text r.code), some (.text r.url), some (.text r.owner),
          some (.flag r.deleted)], '\x7d' :: rest) :=
    shape.readMember_field (i := 3) _ rfl rfl rfl (readCell_flag (flagOfText_flagWord _) _)
  have hfuel : ∃ n, code.length = n + 4 := by
    refine ⟨code.length - 4, ?_⟩
    have : 4 ≤ code.length := by simp [code, writeMember, quote]; omega
    omega
  obtain ⟨n, hn⟩ := hfuel
  have hobject :
      shape.readObject code = shape.readMembers (n + 4) [none, none, none, none] code := by
    rw [← hn]
    simp only [Shape.readObject, code, writeMember_append, skipSpace_quote]
    rfl
  have hmembers : shape.readMembers (n + 4) [none, none, none, none] code =
      .ok ([.text r.code, .text r.url, .text r.owner, .flag r.deleted], rest) := by
    simp only [code, writeMember_append, shape.readMembers_comma _ hcode]
    simp only [url, writeMember_append, shape.readMembers_comma _ hurl]
    simp only [owner, writeMember_append, shape.readMembers_comma _ howner]
    simp only [deleted, writeMember_append, shape.readMembers_brace _ hdeleted]
    rfl
  have hspace : skipSpace ('\x7b' :: code) = '\x7b' :: code := rfl
  rw [hline, Shape.read, hspace]
  simp only [hobject, hmembers]
  rfl

/-- The line that is written for a record is read as that record. -/
theorem readLine_writeLine (r : Record) : readLine r.writeLine = .ok r := by
  have h := read_writeLine r []
  rw [List.append_nil] at h
  rw [readLine, h]
  rfl

/-- A line holds no control, so no end of line either. -/
theorem writeLine_printable (r : Record) : ∀ d ∈ r.writeLine, 0x20 ≤ d.toNat := by
  have hmember (name value : String) : ∀ d ∈ writeMember name value, 0x20 ≤ d.toNat := by
    intro d hd
    simp only [writeMember, List.mem_append, List.mem_cons] at hd
    obtain hd | rfl | hd := hd
    · exact quote_printable _ d hd
    · decide
    · exact quote_printable _ d hd
  intro d hd
  simp only [writeLine, List.cons_append, List.append_assoc, List.mem_cons, List.mem_append,
    List.mem_nil_iff, or_false] at hd
  obtain rfl | hd | rfl | hd | rfl | hd | rfl | hd | rfl := hd
  all_goals first | exact hmember _ _ d hd | decide

/-- A line has no blank characters at its ends. -/
theorem trimChars_writeLine (r : Record) : Text.trimChars r.writeLine = r.writeLine := by
  apply Text.trimChars_eq_self
  · intro c hc
    cases hc
    rfl
  · intro c hc
    rw [writeLine, List.getLast?_append] at hc
    cases hc
    rfl

end ShortLinks.Record
