import ShortLinks.Proofs.Json.Layout
import ShortLinks.Record

/-!
# Objects that are records

A line that is a JSON object is read as a record for what it says, however it is laid out. It says
the code and the URL once each, as texts; the owner and the flag may be left out, and other members
do not matter, whatever they hold.
-/

namespace ShortLinks.Record

open Json

variable {ms : List (String × List Char)} {b b' text : List Char} {r : Record}

/-- What the members of an object say about a record. -/
structure Describes (ms : List (String × List Char)) (r : Record) : Prop where
  code : ∃ value, valuesOf "short_url" ms = [value] ∧ Holds .text value (.text r.code)
  url : ∃ value, valuesOf "original_url" ms = [value] ∧ Holds .text value (.text r.url)
  owner : valuesOf "user_id" ms = [] ∧ r.owner = "" ∨
    ∃ value, valuesOf "user_id" ms = [value] ∧ Holds .text value (.text r.owner)
  deleted : valuesOf "is_deleted" ms = [] ∧ r.deleted = false ∨
    ∃ value, valuesOf "is_deleted" ms = [value] ∧ Holds .flag value (.flag r.deleted)

/-- The cells of a line are the record that it describes. -/
theorem exists_cells_iff :
    (∃ cells, List.Forall₂ (fun field cell => Shape.Fills field none (valuesOf field.name ms) cell)
      shape.fields cells ∧ ofCells cells = .ok r) ↔ Describes ms r := by
  constructor
  · rintro ⟨cells, hfills, hcells⟩
    obtain _ | ⟨hcode, _ | ⟨hurl, _ | ⟨howner, _ | ⟨hdeleted, _ | _⟩⟩⟩⟩ := hfills
    have hcode := (Shape.fills_required_iff rfl).1 hcode
    have hurl := (Shape.fills_required_iff rfl).1 hurl
    have howner := (Shape.fills_optional_iff rfl).1 howner
    have hdeleted := (Shape.fills_optional_iff rfl).1 hdeleted
    obtain ⟨code, rfl⟩ := hcode.elim fun _ h => h.2.text_cell
    obtain ⟨url, rfl⟩ := hurl.elim fun _ h => h.2.text_cell
    obtain ⟨owner, rfl⟩ := howner.elim (fun h => ⟨"", h.2⟩) fun h => h.elim fun _ h => h.2.text_cell
    obtain ⟨deleted, rfl⟩ :=
      hdeleted.elim (fun h => ⟨false, h.2⟩) fun h => h.elim fun _ h => h.2.flag_cell
    cases hcells
    exact ⟨hcode, hurl, howner.imp_left fun h => ⟨h.1, Cell.text.inj h.2⟩,
      hdeleted.imp_left fun h => ⟨h.1, Cell.flag.inj h.2⟩⟩
  · intro h
    refine ⟨[.text r.code, .text r.url, .text r.owner, .flag r.deleted], ?_, rfl⟩
    have howner : Shape.Fills ⟨"user_id", .text, false⟩ none (valuesOf "user_id" ms)
        (.text r.owner) :=
      (Shape.fills_optional_iff rfl).2 (h.owner.imp_left fun h => ⟨h.1, congrArg Cell.text h.2⟩)
    have hdeleted : Shape.Fills ⟨"is_deleted", .flag, false⟩ none (valuesOf "is_deleted" ms)
        (.flag r.deleted) :=
      (Shape.fills_optional_iff rfl).2 (h.deleted.imp_left fun h => ⟨h.1, congrArg Cell.flag h.2⟩)
    exact .cons ((Shape.fills_required_iff rfl).2 h.code) <|
      .cons ((Shape.fills_required_iff rfl).2 h.url) (.cons howner (.cons hdeleted .nil))

/-- A line that is an object, with blanks around, is read as the records that it describes. -/
theorem readLine_eq_ok_iff (hb : Blanks b) (hb' : Blanks b') (h : ObjectText ms text) :
    readLine (b ++ (text ++ b')) = .ok r ↔ Describes ms r := by
  have hnames : (shape.fields.map Field.name).Nodup := by decide
  have hend (cells : List Cell) : atEnd (cells, b') = .ok cells := by
    have hnothing : skipSpace b' = [] := by
      rw [← List.append_nil b', skipSpace_append hb']
      rfl
    simp [atEnd, hnothing]
  rw [← exists_cells_iff]
  simp only [readLine, except_bind_eq_ok, Prod.exists, Shape.read_object_iff hnames hb h]
  constructor
  · rintro ⟨cells, _, ⟨rfl, hfills⟩, cells', hread, hcells⟩
    cases (hend _).symm.trans hread
    exact ⟨cells, hfills, hcells⟩
  · rintro ⟨cells, hfills, hcells⟩
    exact ⟨cells, _, ⟨rfl, hfills⟩, cells, hend cells, hcells⟩

/-- No name of a field is used twice by members that describe a record. -/
theorem Describes.length_valuesOf (h : Describes ms r) {name : String}
    (hname : name ∈ ["short_url", "original_url", "user_id", "is_deleted"]) :
    (valuesOf name ms).length ≤ 1 := by
  simp only [List.mem_cons, List.not_mem_nil, or_false] at hname
  obtain rfl | rfl | rfl | rfl := hname
  · obtain ⟨_, hvalue, -⟩ := h.code
    simp [hvalue]
  · obtain ⟨_, hvalue, -⟩ := h.url
    simp [hvalue]
  · obtain ⟨hnone, -⟩ | ⟨_, hvalue, -⟩ := h.owner <;> simp [*]
  · obtain ⟨hnone, -⟩ | ⟨_, hvalue, -⟩ := h.deleted <;> simp [*]

/-- Members that describe a record give its code and its URL. -/
theorem Describes.valuesOf_ne_nil (h : Describes ms r) {name : String}
    (hname : name ∈ ["short_url", "original_url"]) : valuesOf name ms ≠ [] := by
  simp only [List.mem_cons, List.not_mem_nil, or_false] at hname
  obtain rfl | rfl := hname
  · obtain ⟨_, hvalue, -⟩ := h.code
    simp [hvalue]
  · obtain ⟨_, hvalue, -⟩ := h.url
    simp [hvalue]

/-- An object is read as a record by its members, whatever its layout: as the record that they
describe, and with an error if a name of a field is used twice or the code or the URL is missing. -/
theorem readLine_object (hb : Blanks b) (hb' : Blanks b') (h : ObjectText ms text) :
    (∀ r, readLine (b ++ (text ++ b')) = .ok r ↔ Describes ms r) ∧
    ((∃ name ∈ ["short_url", "original_url", "user_id", "is_deleted"],
        2 ≤ (valuesOf name ms).length) ∨
      (∃ name ∈ ["short_url", "original_url"], valuesOf name ms = []) →
      ∃ finding, readLine (b ++ (text ++ b')) = .error finding) := by
  refine ⟨fun r => readLine_eq_ok_iff hb hb' h, fun hflaw => ?_⟩
  cases hread : readLine (b ++ (text ++ b')) with
  | error finding => exact ⟨finding, rfl⟩
  | ok r =>
    have hdescribes := (readLine_eq_ok_iff hb hb' h).1 hread
    obtain ⟨name, hname, htwice⟩ | ⟨name, hname, hnone⟩ := hflaw
    · have hlength := hdescribes.length_valuesOf hname
      omega
    · exact absurd hnone (hdescribes.valuesOf_ne_nil hname)

/-- An object with a member besides, an escape in a name, the flag as a text and no owner is read;
one that gives the code twice, spelled in two ways, is not. -/
theorem readLine_object_spelled :
    readLine ("\x7b\"is_deleted\":\" TRUE \",\"x\":[\x7b\x7d],\"\\u0073hort_url\" : \"a\"," ++
      "\"original_url\":\"b\"\x7d ").toList = .ok ⟨"a", "b", "", true⟩ ∧
    ∃ finding, readLine
      "\x7b\"short_url\":\"a\",\"\\u0073hort_url\":\"a\"\x7d".toList = .error finding := by
  have hself (s : String) (h : ∀ c ∈ s.toList, c ≠ '"' ∧ c ≠ '\\' ∧ 0x20 ≤ c.toNat) :
      Spells s.toList s.toList := spells_self h
  have hname : Spells "short_url".toList "\\u0073hort_url".toList :=
    .unit (n := 0x73) rfl rfl rfl (hself "hort_url" (by simp))
  have hcode := hself "a" (by simp)
  have hurl := hself "b" (by simp)
  have hflag := hself " TRUE " (by simp)
  have htrue : Text.lowerAscii (Text.trim " TRUE ") = "true" := by decide +kernel
  have hlist : Written .value "[\x7b\x7d]".toList :=
    .list (.item (.spaced blanks_nil (.emptyObject blanks_nil) blanks_nil))
  have hspace : Blanks [' '] := by simp [Blanks, isSpace]
  have hread : MembersText _ _ :=
    .members blanks_nil (hself "is_deleted" (by simp)) blanks_nil blanks_nil
      (.text hflag.quoted) blanks_nil <|
    .members blanks_nil (hself "x" (by simp)) blanks_nil blanks_nil hlist blanks_nil <|
    .members blanks_nil hname hspace hspace (.text hcode.quoted) blanks_nil <|
    .member blanks_nil (hself "original_url" (by simp)) blanks_nil blanks_nil
      (.text hurl.quoted) blanks_nil
  have htwice : MembersText _ _ :=
    .members blanks_nil (hself "short_url" (by simp)) blanks_nil blanks_nil
      (.text hcode.quoted) blanks_nil <|
    .member blanks_nil hname blanks_nil blanks_nil (.text hcode.quoted) blanks_nil
  constructor
  · refine ((readLine_object blanks_nil hspace (.object hread)).1 _).2 ?_
    exact ⟨⟨_, rfl, .text hcode⟩, ⟨_, rfl, .text hurl⟩, .inl ⟨rfl, rfl⟩,
      .inr ⟨_, rfl, .word hflag htrue⟩⟩
  · refine (readLine_object blanks_nil blanks_nil (.object htwice)).2 ?_
    exact .inl ⟨"short_url", by decide, by decide⟩

end ShortLinks.Record
