import ShortLinks.Proofs.Json.Accepted

/-!
# Records of texts

A record whose fields are texts, all of them required, is read from two kinds of values and from no
others: an object that gives each field once, in any order and with members besides, and a list of
as many texts as there are fields. Both are read to their end, whatever stands behind them.
-/

namespace ShortLinks.Json

variable {cs rest b body : List Char} {s : String}

/-- Texts of a list behind its first one, each behind a comma. -/
inductive MoreTexts : List String → List Char → Prop
  | none {b : List Char} (hb : Blanks b) : MoreTexts [] b
  | comma {s : String} {b c body cs : List Char} {ss : List String} (hb : Blanks b) (hc : Blanks c)
      (h : Spells s.toList body) (h' : MoreTexts ss cs) :
      MoreTexts (s :: ss) (b ++ ',' :: (c ++ (between body ++ cs)))

/-- A list of the given texts. -/
inductive ListText : List String → List Char → Prop
  | empty {b : List Char} (hb : Blanks b) : ListText [] ('[' :: (b ++ [']']))
  | list {s : String} {b body cs : List Char} {ss : List String} (hb : Blanks b)
      (h : Spells s.toList body) (h' : MoreTexts ss cs) :
      ListText (s :: ss) ('[' :: (b ++ (between body ++ (cs ++ [']']))))

/-- A text is read off the front exactly if it stands there in one of its spellings. -/
theorem readText_eq_ok : readText cs = .ok (s, rest) ↔
    ∃ b body, Blanks b ∧ Spells s.toList body ∧ cs = b ++ (between body ++ rest) := by
  constructor
  · intro h
    unfold readText at h
    split at h
    · next inside hquote =>
      obtain ⟨b, hb, rfl⟩ := exists_blanks hquote
      obtain ⟨body, hspells, rfl⟩ := readString_eq_ok.1 h
      exact ⟨b, body, hb, hspells, by rw [between_append]⟩
    · exact absurd h (refuse_ne_ok _ _ _)
  · rintro ⟨b, body, hb, hspells, rfl⟩
    exact (readText_eq_ok_iff hb (.text hspells.quoted)).2 ⟨rfl, body, rfl, hspells⟩

/-- The cell of a text is read where a text is. -/
theorem readCell_text_eq_ok {cell : Cell} : readCell .text cs = .ok (cell, rest) ↔
    ∃ s, cell = .text s ∧ readText cs = .ok (s, rest) := by
  rw [readCell, except_map_eq_ok, Prod.exists]
  constructor
  · rintro ⟨s, after, hread, hcell⟩
    cases hcell
    exact ⟨s, rfl, hread⟩
  · rintro ⟨s, rfl, hread⟩
    exact ⟨s, rest, hread, rfl⟩

namespace Shape

/-- The fields of a record are texts, and none may be left out. -/
structure Textual (shape : Shape) : Prop where
  some : shape.fields ≠ []
  names : (shape.fields.map Field.name).Nodup
  texts : ∀ field ∈ shape.fields, field.kind = .text ∧ field.required = true

variable {shape : Shape} {cells : List Cell}

/-! ## Objects -/

/-- Behind the name of a member comes a colon and a value of JSON. -/
theorem value_of_readMember {found found' : Draft} {name : String} (hshape : shape.Textual)
    (h : shape.readMember found name cs = .ok (found', rest)) :
    ∃ b c value, Blanks b ∧ Blanks c ∧ Written .value value ∧
      cs = b ++ ':' :: (c ++ (value ++ rest)) := by
  unfold readMember at h
  split at h
  · obtain ⟨after, hcolon, h⟩ := except_bind_eq_ok.1 h
    obtain ⟨after', hskip, h⟩ := except_bind_eq_ok.1 h
    cases h
    obtain ⟨b, hb, rfl⟩ := exists_blanks_of_readColon hcolon
    obtain ⟨c, value, hc, hvalue, rfl⟩ := written_of_skipValue hskip
    exact ⟨b, c, value, hb, hc, hvalue, rfl⟩
  · next i hi =>
    split at h
    · cases h
    · obtain ⟨after, hcolon, h⟩ := except_bind_eq_ok.1 h
      obtain ⟨⟨cell, after'⟩, hcell, h⟩ := except_bind_eq_ok.1 h
      cases h
      have hkind : (shape.fields[i]?.map Field.kind).getD .text = .text := by
        cases hfield : shape.fields[i]? with
        | none => rfl
        | some field => exact (hshape.texts field (List.mem_of_getElem? hfield)).1
      rw [hkind] at hcell
      obtain ⟨s, -, htext⟩ := readCell_text_eq_ok.1 hcell
      obtain ⟨b, hb, rfl⟩ := exists_blanks_of_readColon hcolon
      obtain ⟨c, body, hc, hspells, rfl⟩ := readText_eq_ok.1 htext
      exact ⟨b, c, _, hb, hc, .text hspells.quoted, rfl⟩

/-- What is read up to a closing brace is members, each with a name and a value. -/
theorem membersText_of_readMembers {fuel : Nat} {found : Draft} (hshape : shape.Textual)
    (h : shape.readMembers fuel found cs = .ok (cells, rest)) :
    ∃ ms text, MembersText ms text ∧ cs = text ++ '\x7d' :: rest := by
  induction fuel generalizing found cs with
  | zero => cases h
  | succ fuel ih =>
    unfold readMembers at h
    split at h
    · next inside hquote =>
      obtain ⟨⟨name, after⟩, hname, h⟩ := except_bind_eq_ok.1 h
      obtain ⟨⟨found', after'⟩, hmember, hread⟩ := except_bind_eq_ok.1 h
      obtain ⟨b, hb, rfl⟩ := exists_blanks hquote
      obtain ⟨body, hspells, rfl⟩ := readString_eq_ok.1 hname
      obtain ⟨b', c, value, hb', hc, hvalue, rfl⟩ := value_of_readMember hshape hmember
      dsimp only at hread
      split at hread
      · next hcomma =>
        obtain ⟨c', hc', rfl⟩ := exists_blanks hcomma
        obtain ⟨ms, text, hms, rfl⟩ := ih hread
        exact ⟨_, _, .members hb hspells hb' hc hvalue hc' hms, by simp [heading, between]⟩
      · next hend =>
        obtain ⟨c', hc', rfl⟩ := exists_blanks hend
        obtain ⟨rfl, -⟩ := conclude_eq_ok_iff.1 hread
        exact ⟨_, _, .member hb hspells hb' hc hvalue hc', by simp [heading, between]⟩
      · cases hread
    · cases h

/-- What is read behind an opening brace is an object. -/
theorem objectText_of_readObject (hshape : shape.Textual)
    (h : shape.readObject cs = .ok (cells, rest)) :
    ∃ ms text, ObjectText ms text ∧ '\x7b' :: cs = text ++ rest := by
  unfold readObject at h
  dsimp only at h
  split at h
  · next hend =>
    obtain ⟨b, hb, rfl⟩ := exists_blanks hend
    obtain ⟨rfl, -⟩ := conclude_eq_ok_iff.1 h
    exact ⟨_, _, .empty hb, by simp⟩
  · cases h
  · obtain ⟨ms, text, hms, rfl⟩ := membersText_of_readMembers hshape h
    exact ⟨ms, _, .object hms, by simp⟩

/-! ## Lists -/

/-- Where a text is read, no bracket is closed and nothing is separated. -/
theorem readText_ne_ok {c : Char} (hcs : skipSpace cs = c :: rest) (hc : c ∈ [',', ']'])
    (read : String × List Char) : readText cs ≠ .ok read := by
  simp only [List.mem_cons, List.not_mem_nil, or_false] at hc
  rw [readText, hcs]
  obtain rfl | rfl := hc <;> exact refuse_ne_ok _ _ _

/-- Where nothing stands, no text is read. -/
theorem readText_nil (hcs : skipSpace cs = []) (read : String × List Char) :
    readText cs ≠ .ok read := by
  rw [readText, hcs]
  exact refuse_ne_ok _ _ _

/-- A cell that stands behind blanks is the text there. -/
theorem readCell_skipSpace_eq_ok {cell : Cell} : readCell .text (skipSpace cs) = .ok (cell, rest) ↔
    ∃ s, cell = .text s ∧ readText cs = .ok (s, rest) := by
  rw [readCell_text_eq_ok, readText, readText, skipSpace_skipSpace]

/-- A cell behind a comma is the text there, since no text begins with a bracket. -/
theorem afterComma_readCell_eq_ok {cell : Cell} :
    afterComma (readCell .text) cs = .ok (cell, rest) ↔
      ∃ s, cell = .text s ∧ readText cs = .ok (s, rest) := by
  rw [afterComma_eq_ok, readCell_skipSpace_eq_ok, and_iff_right_iff_imp]
  rintro ⟨s, -, htext⟩ after hend
  exact readText_ne_ok hend (by decide) _ htext

/-- A cell is read where its text stands, and the others behind it. -/
theorem cellThen_eq_ok {first : Except Finding (Cell × List Char)}
    {later : List Char → Except Finding (List Cell × List Char)}
    (hfirst : ∀ {cell after}, first = .ok (cell, after) ↔
      ∃ s, cell = .text s ∧ readText cs = .ok (s, after)) :
    (do
      let (cell, after) ← first
      let (cells, rest) ← later after
      return (cell :: cells, rest)) = .ok (cells, rest) ↔
    ∃ s after cells', readText cs = .ok (s, after) ∧ later after = .ok (cells', rest) ∧
      cells = .text s :: cells' := by
  simp only [except_bind_eq_ok, Prod.exists, hfirst]
  constructor
  · rintro ⟨_, after, ⟨s, rfl, htext⟩, cells', rest', hlater, h⟩
    cases h
    exact ⟨s, after, cells', htext, hlater, rfl⟩
  · rintro ⟨s, after, cells', htext, hlater, rfl⟩
    exact ⟨_, after, ⟨s, rfl, htext⟩, cells', rest, hlater, rfl⟩

/-- The first field of an array stands behind its bracket. -/
theorem readItems_zero_eq_ok {field : Field} {fields : List Field}
    (hfield : field.kind = .text ∧ field.required = true) :
    shape.readItems 0 (field :: fields) cs = .ok (cells, rest) ↔
      ∃ s after cells', readText cs = .ok (s, after) ∧
        shape.readItems 1 fields after = .ok (cells', rest) ∧ cells = .text s :: cells' := by
  rw [readItems, hfield.1]
  split
  · next hend =>
    rw [if_pos hfield.2]
    refine iff_of_false (by simp) ?_
    rintro ⟨s, after, cells', htext, -⟩
    exact readText_ne_ok hend (by decide) _ htext
  · next hcomma =>
    rw [if_pos rfl]
    refine iff_of_false (by simp) ?_
    rintro ⟨s, after, cells', htext, -⟩
    exact readText_ne_ok hcomma (by decide) _ htext
  · next hnothing =>
    refine iff_of_false (by simp) ?_
    rintro ⟨s, after, cells', htext, -⟩
    exact readText_nil hnothing _ htext
  · rw [if_pos rfl]
    exact cellThen_eq_ok readCell_skipSpace_eq_ok

/-- A later field of an array stands behind a comma. -/
theorem readItems_succ_eq_ok {index : Nat} {field : Field} {fields : List Field}
    (hfield : field.kind = .text ∧ field.required = true) :
    shape.readItems (index + 1) (field :: fields) cs = .ok (cells, rest) ↔
      ∃ b before, Blanks b ∧ cs = b ++ ',' :: before ∧
        ∃ s after cells', readText before = .ok (s, after) ∧
          shape.readItems (index + 2) fields after = .ok (cells', rest) ∧
          cells = .text s :: cells' := by
  have hfront {b : List Char} (hb : Blanks b) (before : List Char) :
      skipSpace (b ++ ',' :: before) = ',' :: before := by
    rw [skipSpace_append hb, skipSpace_cons rfl]
  rw [readItems, hfield.1]
  split
  · next hend =>
    rw [if_pos hfield.2]
    refine iff_of_false (by simp) ?_
    rintro ⟨b, before, hb, rfl, -⟩
    cases (hfront hb before).symm.trans hend
  · next before hcomma =>
    obtain ⟨b, hb, rfl⟩ := exists_blanks hcomma
    have honly : (∃ b' before', Blanks b' ∧ b ++ ',' :: before = b' ++ ',' :: before' ∧
        ∃ s after cells', readText before' = .ok (s, after) ∧
          shape.readItems (index + 2) fields after = .ok (cells', rest) ∧
          cells = .text s :: cells') ↔
        ∃ s after cells', readText before = .ok (s, after) ∧
          shape.readItems (index + 2) fields after = .ok (cells', rest) ∧
          cells = .text s :: cells' := by
      constructor
      · rintro ⟨b', before', hb', hsame, h⟩
        have hcomma' := hfront hb' before'
        rw [← hsame, hcomma] at hcomma'
        cases hcomma'
        exact h
      · exact fun h => ⟨b, before, hb, rfl, h⟩
    rw [if_neg (Nat.succ_ne_zero index), honly]
    exact cellThen_eq_ok afterComma_readCell_eq_ok
  · next hnothing =>
    refine iff_of_false (by simp) ?_
    rintro ⟨b, before, hb, rfl, -⟩
    cases (hfront hb before).symm.trans hnothing
  · next hcomma _ =>
    rw [if_neg (Nat.succ_ne_zero index)]
    refine iff_of_false (by simp) ?_
    rintro ⟨b, before, hb, rfl, -⟩
    exact hcomma before (hfront hb before)

/-- The later fields of an array are texts behind commas. -/
theorem readItems_more {index : Nat} {fields : List Field}
    (hfields : ∀ field ∈ fields, field.kind = .text ∧ field.required = true) :
    shape.readItems (index + 1) fields cs = .ok (cells, rest) ↔
      ∃ ss text, MoreTexts ss text ∧ ss.length = fields.length ∧ cells = ss.map .text ∧
        cs = text ++ ']' :: rest := by
  induction fields generalizing index cs cells with
  | nil =>
    rw [readItems]
    constructor
    · intro h
      split at h
      · next hend =>
        cases h
        obtain ⟨b, hb, rfl⟩ := exists_blanks hend
        exact ⟨[], b, .none hb, rfl, rfl, rfl⟩
      · cases h
    · rintro ⟨ss, text, htexts, hlength, rfl, rfl⟩
      cases htexts with
      | none hb => rw [skipSpace_append hb, skipSpace_cons rfl]; rfl
      | comma => cases hlength
  | cons field fields ih =>
    obtain ⟨hfield, hfields⟩ := List.forall_mem_cons.1 hfields
    rw [readItems_succ_eq_ok hfield]
    constructor
    · rintro ⟨b, before, hb, rfl, s, after, cells', htext, hread, rfl⟩
      obtain ⟨ss, text, htexts, hlength, rfl, rfl⟩ := (ih hfields).1 hread
      obtain ⟨c, body, hc, hspells, rfl⟩ := readText_eq_ok.1 htext
      exact ⟨_, _, .comma hb hc hspells htexts, congrArg (· + 1) hlength, rfl, by simp⟩
    · rintro ⟨ss, text, htexts, hlength, rfl, rfl⟩
      cases htexts with
      | none => cases hlength
      | @comma s b c body cs ss hb hc hspells htexts =>
        refine ⟨b, c ++ (between body ++ (cs ++ ']' :: rest)), hb, by simp, s,
          cs ++ ']' :: rest, ss.map .text, readText_eq_ok.2 ⟨c, body, hc, hspells, rfl⟩, ?_, rfl⟩
        exact (ih hfields).2 ⟨ss, cs, htexts, Nat.succ.inj hlength, rfl, rfl⟩

/-- An array is read as its texts if there is one for each field. -/
theorem readItems_eq_ok (hshape : shape.Textual) :
    shape.readItems 0 shape.fields cs = .ok (cells, rest) ↔
      ∃ ss text, ListText ss text ∧ ss.length = shape.fields.length ∧ cells = ss.map .text ∧
        '[' :: cs = text ++ rest := by
  obtain ⟨field, fields, hfields⟩ := List.exists_cons_of_ne_nil hshape.some
  have htexts := hshape.texts
  rw [hfields] at htexts ⊢
  obtain ⟨hfield, htexts⟩ := List.forall_mem_cons.1 htexts
  rw [readItems_zero_eq_ok hfield]
  constructor
  · rintro ⟨s, after, cells', htext, hread, rfl⟩
    obtain ⟨ss, text, hmore, hlength, rfl, rfl⟩ := (readItems_more htexts).1 hread
    obtain ⟨b, body, hb, hspells, rfl⟩ := readText_eq_ok.1 htext
    exact ⟨_, _, .list hb hspells hmore, congrArg (· + 1) hlength, rfl, by simp⟩
  · rintro ⟨ss, text, hlist, hlength, rfl, hcs⟩
    cases hlist with
    | empty => cases hlength
    | @list s b body text ss hb hspells hmore =>
      obtain rfl : cs = b ++ (between body ++ (text ++ ']' :: rest)) := by simpa using hcs
      refine ⟨s, text ++ ']' :: rest, ss.map .text, readText_eq_ok.2 ⟨b, body, hb, hspells, rfl⟩,
        ?_, rfl⟩
      exact (readItems_more htexts).2 ⟨ss, text, hmore, Nat.succ.inj hlength, rfl, rfl⟩

/-! ## Records -/

/-- A value from which a record is read: an object whose members fill the fields, or a list with a
text for each field. -/
def RecordText (shape : Shape) (cells : List Cell) (text : List Char) : Prop :=
  (∃ ms, ObjectText ms text ∧
    List.Forall₂ (fun field cell => Fills field none (valuesOf field.name ms) cell)
      shape.fields cells) ∨
  ∃ ss, ListText ss text ∧ ss.length = shape.fields.length ∧ cells = ss.map .text

/-- A record is read off the front exactly if such a value stands there. -/
theorem read_eq_ok_iff_recordText (hshape : shape.Textual) :
    shape.read cs = .ok (cells, rest) ↔
      ∃ b text, Blanks b ∧ shape.RecordText cells text ∧ cs = b ++ (text ++ rest) := by
  constructor
  · intro h
    have hread := h
    unfold read at h
    split at h
    · next inside hobject =>
      obtain ⟨b, hb, rfl⟩ := exists_blanks hobject
      obtain ⟨ms, text, htext, hinside⟩ :=
        objectText_of_readObject hshape (except_mapError_eq_ok.1 h)
      rw [hinside] at hread ⊢
      obtain ⟨-, hfills⟩ := (read_object_iff hshape.names hb htext).1 hread
      exact ⟨b, text, hb, .inl ⟨ms, htext, hfills⟩, rfl⟩
    · next inside hlist =>
      obtain ⟨b, hb, rfl⟩ := exists_blanks hlist
      obtain ⟨ss, text, htext, hlength, rfl, hinside⟩ :=
        (readItems_eq_ok hshape).1 (except_mapError_eq_ok.1 h)
      exact ⟨b, text, hb, .inr ⟨ss, htext, hlength, rfl⟩, by rw [hinside]⟩
    · exact absurd h (refuse_ne_ok _ _ _)
  · rintro ⟨b, text, hb, ⟨ms, htext, hfills⟩ | ⟨ss, htext, hlength, rfl⟩, rfl⟩
    · exact (read_object_iff hshape.names hb htext).2 ⟨rfl, hfills⟩
    · obtain ⟨inside, hinside⟩ : ∃ inside, text ++ rest = '[' :: inside := by
        cases htext <;> exact ⟨_, rfl⟩
      rw [read, skipSpace_append hb, hinside, skipSpace_cons rfl]
      exact except_mapError_eq_ok.2 ((readItems_eq_ok hshape).2 ⟨ss, text, htext, hlength, rfl,
        hinside.symm⟩)

end Shape

end ShortLinks.Json
