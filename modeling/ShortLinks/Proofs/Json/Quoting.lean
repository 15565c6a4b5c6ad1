import ShortLinks.Json.Fields
import ShortLinks.Json.Quoted
import ShortLinks.Proofs.Json.Spelling

/-!
# Quoted texts are read back

A character inside quotes is written in one of three ways, and each of them spells that character
and nothing more. So a text between quotes is read back whole by each reader that can meet one,
whatever stands behind it, and an object goes on behind a member that was written so.
-/

namespace ShortLinks.Json

/-- The three ways in which a character is written inside quotes. -/
inductive Escaped (c : Char) : List Char → Prop
  | letter (l : Char) (hu : l ≠ 'u') (hl : escapeLetter? l = some c) : Escaped c ['\\', l]
  | control (hc : c.toNat < 0x20) :
      Escaped c ['\\', 'u', '0', '0', hexDigit (c.toNat / 16), hexDigit (c.toNat % 16)]
  | plain (hquote : c ≠ '"') (hslash : c ≠ '\\') (hc : 0x20 ≤ c.toNat) : Escaped c [c]

/-- Every character is written in one of these ways. -/
theorem escaped_escapeChar (c : Char) : Escaped c (escapeChar c) := by
  unfold escapeChar
  split
  · subst c; exact .letter _ (by decide) rfl
  rename_i hquote
  split
  · subst c; exact .letter _ (by decide) rfl
  rename_i hslash
  iterate 5 (split; · subst c; exact .letter _ (by decide) rfl)
  split
  · next hc => exact .control hc
  · next hc => exact .plain hquote hslash (Nat.le_of_not_lt hc)

/-- A hexadecimal digit is read as the number that it was written for. -/
theorem hexValue?_hexDigit : ∀ n < 16, hexValue? (hexDigit n) = some n := by decide

/-- A digit is written as itself inside quotes. -/
theorem hexDigit_plain : ∀ n < 16,
    hexDigit n ≠ '"' ∧ hexDigit n ≠ '\\' ∧ 0x20 ≤ (hexDigit n).toNat := by decide

/-- The four digits of a control are read as its number. -/
theorem hexUnit?_control {n : Nat} (h : n < 0x20) :
    hexUnit? '0' '0' (hexDigit (n / 16)) (hexDigit (n % 16)) = some n := by
  have hzero : hexValue? '0' = some 0 := by decide
  have hhigh := hexValue?_hexDigit (n / 16) (by omega)
  have hlow := hexValue?_hexDigit (n % 16) (by omega)
  simp only [hexUnit?, hzero, hhigh, hlow, Option.bind_eq_bind, Option.bind_some, Option.pure_def,
    Option.some.injEq]
  omega

/-- What is written for a character holds no control. -/
theorem Escaped.printable {c : Char} {written : List Char} (h : Escaped c written) :
    ∀ d ∈ written, 0x20 ≤ d.toNat := by
  cases h with
  | letter l hu hl =>
    have hletter : 0x20 ≤ l.toNat := by
      apply Nat.le_of_not_lt
      intro hcontrol
      have hnot (d : Char) (hd : 0x20 ≤ d.toNat) : l ≠ d := by
        rintro rfl
        omega
      simp [escapeLetter?, hnot] at hl
    simpa using hletter
  | control hc =>
    have hhigh := hexDigit_plain (c.toNat / 16) (by omega)
    have hlow := hexDigit_plain (c.toNat % 16) (by omega)
    simpa using ⟨hhigh.2.2, hlow.2.2⟩
  | plain hquote hslash hc => simpa using hc

/-- A text between quotes holds no control, whatever the text holds. -/
theorem quote_printable (cs : List Char) : ∀ d ∈ quote cs, 0x20 ≤ d.toNat := by
  intro d hd
  simp only [quote, escape, List.cons_append, List.mem_cons, List.mem_append, List.mem_flatMap,
    List.mem_nil_iff, or_false] at hd
  obtain rfl | ⟨c, -, hd⟩ | rfl := hd
  · decide
  · exact (escaped_escapeChar c).printable d hd
  · decide

/-- What is written for a character spells that character. -/
theorem Escaped.spells {c : Char} {written value body : List Char} (h : Escaped c written)
    (hbody : Spells value body) : Spells (c :: value) (written ++ body) := by
  cases h with
  | letter l hu hl => exact .letter hl hbody
  | control hc =>
    have hlow : isLowSurrogate c.toNat = false := by simp [isLowSurrogate]; omega
    have hhigh : isHighSurrogate c.toNat = false := by simp [isHighSurrogate]; omega
    have hunit := Spells.unit (hexUnit?_control hc) hhigh hlow hbody
    rwa [Char.ofNat_toNat] at hunit
  | plain hquote hslash hc => exact .plain hquote hslash hc hbody

/-- A text that was escaped spells the text. -/
theorem spells_escape (cs : List Char) : Spells cs (escape cs) := by
  induction cs with
  | nil => exact .nil
  | cons c cs ih => exact (escaped_escapeChar c).spells ih

/-- A text that was escaped is read back. -/
theorem readString_escape (s : String) (rest : List Char) :
    readString (escape s.toList ++ '"' :: rest) = .ok (s, rest) :=
  readString_spells (spells_escape s.toList) rest

/-- A text that was escaped is passed over. -/
theorem skipBody_escape (cs rest : List Char) : skipBody (escape cs ++ '"' :: rest) = .ok rest :=
  skipBody_quoted (spells_escape cs).quoted rest

/-- A text between quotes goes on with the escaped text and the closing quote. -/
theorem quote_append (cs rest : List Char) :
    quote cs ++ rest = '"' :: (escape cs ++ '"' :: rest) := by
  simp [quote]

/-- No blank stands in front of a quote. -/
@[simp] theorem skipSpace_quote (cs rest : List Char) :
    skipSpace (quote cs ++ rest) = quote cs ++ rest := by
  rw [quote_append]
  rfl

/-- A text that was written is read as a text. -/
theorem readText_quote (s : String) (rest : List Char) :
    readText (quote s.toList ++ rest) = .ok (s, rest) := by
  rw [readText, skipSpace_quote, quote_append]
  simp [readString_escape]

/-- A text that was written is read as a value. -/
theorem readPart_quote (fuel depth : Nat) (s : String) (rest : List Char) :
    readPart (fuel + 1) depth .value (quote s.toList ++ rest) = .ok (.text s, rest) := by
  rw [readPart, skipSpace_quote, quote_append]
  simp [readScalar, readString_escape, Except.map]

/-- A text that was written is read as a value, whatever may nest in it. -/
theorem readValue_quote (depth : Nat) (s : String) (rest : List Char) :
    readValue depth (quote s.toList ++ rest) = .ok (.text s, rest) :=
  readPart_quote _ depth s rest

/-- A text that was written is read as the cell of a text. -/
theorem readCell_text (s : String) (rest : List Char) :
    readCell .text (quote s.toList ++ rest) = .ok (.text s, rest) := by
  simp [readCell, readText_quote, Except.map]

/-- A text that was written is read as the flag that it stands for. -/
theorem readCell_flag {s : String} {b : Bool} (h : flagOfText s = .ok b) (rest : List Char) :
    readCell .flag (quote s.toList ++ rest) = .ok (.flag b, rest) := by
  simp [readCell, readValue_quote, flagOfValue, h]

namespace Shape

/-- A member that is known and new goes into its cell. -/
theorem readMember_field (shape : Shape) (found : Draft) {name : String} {i : Nat} {field : Field}
    {cell : Cell} {text rest : List Char}
    (hi : shape.fields.findIdx? (fun field => field.name == name) = some i)
    (hfield : shape.fields[i]? = some field) (hfree : found[i]?.join = none)
    (hcell : readCell field.kind text = .ok (cell, rest)) :
    shape.readMember found name (':' :: text) = .ok (found.set i (some cell), rest) := by
  have hcolon : readColon (':' :: text) = .ok text := rfl
  simp [readMember, hi, hfree, hfield, hcolon, hcell, bind, Except.bind, pure, Except.pure]

/-- Reading goes on behind the comma after a member. -/
theorem readMembers_comma (shape : Shape) (fuel : Nat) {found found' : Draft} {name : String}
    {text rest : List Char} (h : shape.readMember found name text = .ok (found', ',' :: rest)) :
    shape.readMembers (fuel + 1) found (quote name.toList ++ text) =
      shape.readMembers fuel found' rest := by
  rw [readMembers, skipSpace_quote, quote_append]
  simp only [readString_escape, h, bind, Except.bind]
  rfl

/-- Reading ends at the brace after a member. -/
theorem readMembers_brace (shape : Shape) (fuel : Nat) {found found' : Draft} {name : String}
    {text rest : List Char} (h : shape.readMember found name text = .ok (found', '\x7d' :: rest)) :
    shape.readMembers (fuel + 1) found (quote name.toList ++ text) =
      shape.conclude found' ('\x7d' :: rest) := by
  rw [readMembers, skipSpace_quote, quote_append]
  simp only [readString_escape, h, bind, Except.bind]
  rfl

end Shape

end ShortLinks.Json
