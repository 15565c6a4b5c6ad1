import ShortLinks.Json.Fields
import ShortLinks.Proofs.Json.Passing
import ShortLinks.Proofs.Run

/-!
# Which values fill a field

A text field takes a quoted text that spells characters, in any spelling. A flag takes a boolean, or
a quoted text that stands for one. Every other value of JSON is refused, and a value that is taken
is read to its end.
-/

namespace ShortLinks.Json

variable {b value rest after : List Char} {s : String}

/-- A text stands for a flag: without the blanks at its ends and in lower case it is the word for
it, or nothing. -/
def StandsFor (s : String) (flag : Bool) : Prop :=
  let word := Text.lowerAscii (Text.trim s)
  if flag then word = "true" else word = "false" ∨ word = ""

/-- What a field of a kind holds when it is given a value. -/
inductive Holds : FieldKind → List Char → Cell → Prop
  | text {s : String} {body : List Char} (h : Spells s.toList body) :
      Holds .text (between body) (.text s)
  | yes : Holds .flag ['t', 'r', 'u', 'e'] (.flag true)
  | no : Holds .flag ['f', 'a', 'l', 's', 'e'] (.flag false)
  | word {s : String} {body : List Char} {flag : Bool} (h : Spells s.toList body)
      (hflag : StandsFor s flag) : Holds .flag (between body) (.flag flag)

/-- A text is read as the flag that it stands for. -/
theorem flagOfText_eq_ok_iff {flag : Bool} : flagOfText s = .ok flag ↔ StandsFor s flag := by
  unfold flagOfText StandsFor
  generalize Text.lowerAscii (Text.trim s) = word
  by_cases htrue : word = "true"
  · subst htrue
    cases flag <;> simp
  · by_cases hfalse : word = "false" ∨ word = ""
    · cases flag <;> simp [htrue, hfalse]
    · cases flag <;> simp [htrue, hfalse]

/-- What is refused is not read. -/
theorem refuse_ne_ok {α : Type} (expected : String) (cs : List Char) (a : α) :
    refuse expected cs ≠ .ok a := by
  rw [refuse]
  split <;> simp

/-- Behind blanks a value begins with its first character. -/
theorem skipSpace_value (hb : Blanks b) (h : Written .value value) (rest : List Char) :
    skipSpace (b ++ (value ++ rest)) = value ++ rest := by
  obtain ⟨c, tail, rfl, hspace, -⟩ := h.head
  rw [skipSpace_append hb, List.cons_append, skipSpace_cons hspace]

/-- Only a text begins with a quote. -/
theorem Written.text_of_quote {tail : List Char} (h : Written .value ('"' :: tail)) :
    ∃ body, Quoted body ∧ '"' :: tail = between body := by
  cases h with
  | word h => simp [words] at h
  | number h =>
    obtain ⟨c, _, hc, -, hnot⟩ := h.head
    cases hc
    exact absurd (by decide) hnot
  | @text body h => exact ⟨body, h, rfl⟩

/-- Behind its first quote a text between quotes goes on with its body. -/
theorem between_append (body rest : List Char) :
    between body ++ rest = '"' :: (body ++ '"' :: rest) := by
  simp [between]

/-- A text between quotes has one body. -/
theorem between_inj {body body' : List Char} (h : between body = between body') : body = body' := by
  simpa [between] using h

/-- A quoted text holds a flag if it spells a text that stands for it. -/
theorem Holds.flag_of_between {body : List Char} {cell : Cell}
    (h : Holds .flag (between body) cell) :
    ∃ s flag, Spells s.toList body ∧ StandsFor s flag ∧ cell = .flag flag := by
  generalize hvalue : between body = value at h
  cases h with
  | yes | no => cases hvalue
  | @word s body' flag hspells hflag =>
    cases between_inj hvalue
    exact ⟨s, flag, hspells, hflag, rfl⟩

/-- A text field holds a text. -/
theorem Holds.text_cell {cell : Cell} (h : Holds .text value cell) : ∃ s, cell = .text s := by
  cases h
  exact ⟨_, rfl⟩

/-- A flag holds a boolean. -/
theorem Holds.flag_cell {cell : Cell} (h : Holds .flag value cell) : ∃ flag, cell = .flag flag := by
  cases h <;> exact ⟨_, rfl⟩

/-- A quoted text is read where a text is wanted, and nothing else is. -/
theorem readText_eq_ok_iff (hb : Blanks b) (h : Written .value value) :
    readText (b ++ (value ++ rest)) = .ok (s, after) ↔
      after = rest ∧ ∃ body, value = between body ∧ Spells s.toList body := by
  rw [readText, skipSpace_value hb h]
  obtain ⟨c, tail, rfl, -, -⟩ := h.head
  by_cases hc : c = '"'
  · subst hc
    obtain ⟨body, hbody, hvalue⟩ := h.text_of_quote
    rw [hvalue, between_append]
    have hstring : (∃ body', between body = between body' ∧ Spells s.toList body') ↔
        Spells s.toList body := by
      constructor
      · rintro ⟨_, heq, hspells⟩
        rwa [between_inj heq]
      · exact fun hspells => ⟨body, rfl, hspells⟩
    rw [hstring]
    exact readString_eq_ok_iff hbody
  · rw [List.cons_append]
    split
    · next heq => exact absurd (List.cons.inj heq).1 hc
    · refine iff_of_false (refuse_ne_ok _ _ _) ?_
      rintro ⟨-, body, heq, -⟩
      exact hc (List.cons.inj heq).1

/-- A value that is no bracket is read as a lexeme. -/
theorem readValue_scalar {cs tail : List Char} {c : Char} (hcs : skipSpace cs = c :: tail)
    (hc : c ∉ ['[', '\x7b']) (depth : Nat) : readValue depth cs = readScalar (c :: tail) := by
  simp only [List.mem_cons, List.not_mem_nil, or_false, not_or] at hc
  rw [readValue, readPart, hcs]
  split
  · next heq => exact absurd (List.cons.inj heq).1 hc.1
  · next heq => exact absurd (List.cons.inj heq).1 hc.2
  · rfl

/-- What stands in a bracket is read as a list or an object, if it is read at all. -/
theorem flagOfValue_readPart {fuel depth : Nat} {part : Part} {cs : List Char} {v : Value}
    (hpart : (∃ read, part = .items read) ∨ ∃ read, part = .members read)
    (h : readPart fuel depth part cs = .ok (v, rest)) :
    flagOfValue v = .error .noAlternative := by
  induction fuel generalizing depth part cs v rest with
  | zero => cases h
  | succ fuel ih =>
    obtain ⟨read, rfl⟩ | ⟨read, rfl⟩ := hpart
    · rw [readPart] at h
      obtain ⟨⟨item, rest'⟩, -, h⟩ := except_bind_eq_ok.1 h
      dsimp only at h
      split at h
      · exact ih (.inl ⟨_, rfl⟩) (afterComma_eq_ok.1 h).2
      · cases h
        rfl
      · cases h
    · rw [readPart] at h
      obtain ⟨⟨name, rest'⟩, -, h⟩ := except_bind_eq_ok.1 h
      obtain ⟨⟨member, rest''⟩, -, h⟩ := except_bind_eq_ok.1 h
      dsimp only at h
      split at h
      · exact ih (.inr ⟨_, rfl⟩) h
      · cases h
        rfl
      · cases h

/-- No list and no object is a flag. -/
theorem flagOfValue_bracket {cs tail : List Char} {c : Char} {depth : Nat} {v : Value}
    (hcs : skipSpace cs = c :: tail) (hc : c ∈ ['[', '\x7b'])
    (h : readValue depth cs = .ok (v, rest)) : flagOfValue v = .error .noAlternative := by
  unfold readValue readPart at h
  split at h
  · split at h
    · cases h
    · cases h
      rfl
    · cases h
    · exact flagOfValue_readPart (.inl ⟨_, rfl⟩) h
  · split at h
    · cases h
    · cases h
      rfl
    · cases h
    · exact flagOfValue_readPart (.inr ⟨_, rfl⟩) h
  · next hlist hobject =>
    simp only [List.mem_cons, List.not_mem_nil, or_false] at hc
    obtain rfl | rfl := hc
    · exact (hlist tail hcs).elim
    · exact (hobject tail hcs).elim

/-- What begins as a number is read as a number, if it is read at all. -/
theorem readScalar_number (h : IsNumber value) (rest : List Char) :
    readScalar (value ++ rest) =
      (readNumber (value ++ rest)).map fun read => (.number read.1, read.2) := by
  obtain ⟨c, tail, rfl, -, hc⟩ := h.head
  simp only [List.mem_cons, List.not_mem_nil, or_false, not_or] at hc
  rw [List.cons_append]
  unfold readScalar
  split
  case h_5 => rfl
  all_goals simp_all

/-- A value that was read is a flag if it stands for one. -/
theorem readCell_flag_of_read {cs : List Char} {cell : Cell} {v : Value}
    (h : readValue flagDepth cs = .ok (v, rest)) : readCell .flag cs = .ok (cell, after) ↔
      after = rest ∧ ∃ flag, flagOfValue v = .ok flag ∧ cell = .flag flag := by
  rw [readCell, h]
  cases hflag : flagOfValue v with
  | error flaw => simp [hflag]
  | ok flag =>
    simp only [hflag, Except.ok.injEq, Prod.mk.injEq, exists_eq_left']
    constructor
    · rintro ⟨rfl, rfl⟩
      exact ⟨rfl, rfl⟩
    · rintro ⟨rfl, rfl⟩
      exact ⟨rfl, rfl⟩

/-- What is no flag is refused as a flag, if it can be read at all. -/
theorem readCell_flag_refused {cs : List Char} {cell : Cell}
    (h : ∀ v rest, readValue flagDepth cs = .ok (v, rest) →
      flagOfValue v = .error .noAlternative) : readCell .flag cs ≠ .ok (cell, after) := by
  rw [readCell]
  cases hread : readValue flagDepth cs with
  | error finding => simp
  | ok read =>
    obtain ⟨v, rest⟩ := read
    simp [h v rest hread]

/-- A value is read as a flag exactly if it is one, and to its end. -/
theorem readCell_flag_iff (hb : Blanks b) (h : Written .value value) (hrest : Ends rest)
    {cell : Cell} : readCell .flag (b ++ (value ++ rest)) = .ok (cell, after) ↔
      after = rest ∧ Holds .flag value cell := by
  have hspace := skipSpace_value hb h rest
  cases h with
  | word h =>
    simp only [words, List.mem_cons, List.not_mem_nil, or_false] at h
    obtain rfl | rfl | rfl := h
    · have hread : readValue flagDepth _ = .ok (.null, rest) :=
        readValue_scalar hspace (by decide) flagDepth
      refine iff_of_false (readCell_flag_refused fun v rest' hread' => ?_) ?_
      · cases hread.symm.trans hread'
        rfl
      · rintro ⟨-, ⟨⟩⟩
    · have hread : readValue flagDepth _ = .ok (.bool true, rest) :=
        readValue_scalar hspace (by decide) flagDepth
      rw [readCell_flag_of_read hread]
      refine and_congr_right fun _ => ⟨?_, ?_⟩
      · rintro ⟨_, ⟨⟩, rfl⟩
        exact .yes
      · rintro ⟨⟩
        exact ⟨true, rfl, rfl⟩
    · have hread : readValue flagDepth _ = .ok (.bool false, rest) :=
        readValue_scalar hspace (by decide) flagDepth
      rw [readCell_flag_of_read hread]
      refine and_congr_right fun _ => ⟨?_, ?_⟩
      · rintro ⟨_, ⟨⟩, rfl⟩
        exact .no
      · rintro ⟨⟩
        exact ⟨false, rfl, rfl⟩
  | number h =>
    have hscalar := readScalar_number h rest
    obtain ⟨c, tail, rfl, -, hc⟩ := h.head
    have hread : readValue flagDepth (b ++ (c :: tail ++ rest)) = readScalar (c :: tail ++ rest) :=
      readValue_scalar hspace (fun hmem => hc (by simp_all)) flagDepth
    refine iff_of_false (readCell_flag_refused fun v rest' hread' => ?_) ?_
    · rw [hread, hscalar, except_map_eq_ok] at hread'
      obtain ⟨n, -, hnumber⟩ := hread'
      cases hnumber
      rfl
    · rintro ⟨-, hholds⟩
      cases hholds <;> exact hc (by decide)
  | @text body hbody =>
    have hread : readValue flagDepth (b ++ (between body ++ rest)) =
        (readString (body ++ '"' :: rest)).map fun read => (.text read.1, read.2) :=
      readValue_scalar (hspace.trans (between_append body rest)) (by decide) flagDepth
    cases hstring : readString (body ++ '"' :: rest) with
    | error finding =>
      rw [hstring] at hread
      refine iff_of_false (readCell_flag_refused fun v rest' hread' => ?_) ?_
      · cases hread.symm.trans hread'
      · rintro ⟨-, hholds⟩
        obtain ⟨s, flag, hspells, -, -⟩ := hholds.flag_of_between
        cases hstring.symm.trans (readString_spells hspells rest)
    | ok read =>
      obtain ⟨s, rest'⟩ := read
      obtain ⟨rfl, hspells⟩ := (readString_eq_ok_iff hbody).1 hstring
      rw [hstring] at hread
      rw [readCell_flag_of_read hread]
      refine and_congr_right fun _ => ⟨?_, fun hholds => ?_⟩
      · rintro ⟨flag, hflag, rfl⟩
        exact .word hspells (flagOfText_eq_ok_iff.1 hflag)
      · obtain ⟨s', flag, hspells', hflag, rfl⟩ := hholds.flag_of_between
        cases hstring.symm.trans (readString_spells hspells' _)
        exact ⟨flag, flagOfText_eq_ok_iff.2 hflag, rfl⟩
  | emptyList | list | emptyObject | object =>
    refine iff_of_false (readCell_flag_refused fun v rest' hread => ?_) ?_
    · exact flagOfValue_bracket hspace (by decide) hread
    · rintro ⟨-, ⟨⟩⟩

/-- A value fills a field exactly if it holds a cell of the kind, and is read to its end. -/
theorem readCell_eq_ok_iff (hb : Blanks b) (h : Written .value value) (hrest : Ends rest)
    {kind : FieldKind} {cell : Cell} : readCell kind (b ++ (value ++ rest)) = .ok (cell, after) ↔
      after = rest ∧ Holds kind value cell := by
  cases kind with
  | flag => exact readCell_flag_iff hb h hrest
  | text =>
    rw [readCell, except_map_eq_ok]
    constructor
    · rintro ⟨⟨s, rest'⟩, hread, hcell⟩
      cases hcell
      obtain ⟨rfl, body, rfl, hbody⟩ := (readText_eq_ok_iff hb h).1 hread
      exact ⟨rfl, .text hbody⟩
    · rintro ⟨rfl, hholds⟩
      cases hholds with
      | @text s body hbody =>
        exact ⟨(s, after), (readText_eq_ok_iff hb h).2 ⟨rfl, body, rfl, hbody⟩, rfl⟩

end ShortLinks.Json
