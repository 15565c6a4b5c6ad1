import Mathlib.Data.List.TakeWhile
import ShortLinks.Proofs.Json.Accepted

/-!
# A line behind text that goes on

A line that is one object can stand behind other text with nothing between them. A reader that
begins in the text in front takes one lexeme after another off it, and no lexeme but a quoted text
reaches across a brace. So the whole line stays ahead of the reader until one of two things happens:
a quoted text ends at the first quote of the line, or the line is taken as one value. In the first
case a letter comes next, in the second nothing does, and no reader goes on from there to the end of
a bracket that was open before. So whatever is read to its end is read out of the text in front.
-/

namespace ShortLinks.Json

/-- Nothing comes next that may stand behind a name or behind a value in a bracket. -/
def Stuck (cs : List Char) : Prop := ∀ c ∈ (skipSpace cs).head?, c ∉ [',', ':', ']', '\x7d']

/-- The whole line is ahead, or no bracket that is open can be closed any more. -/
def Caught (line cs : List Char) : Prop := line <:+ cs ∨ Stuck cs

/-- A line that is one object: a name comes behind its first quote, and when it is read as a value
nothing is left of it. -/
structure Whole (line : List Char) : Prop where
  start : ∃ rest, line = '\x7b' :: '"' :: rest ∧ Stuck rest
  skipped {fuel : Nat} {opened : List Bracket} {cs out : List Char} (hcs : skipSpace cs = line)
    (h : skipFrom fuel .value opened cs = .ok out) : Stuck out
  read {fuel depth : Nat} {v : Value} {cs out : List Char} (hcs : skipSpace cs = line)
    (h : readPart fuel depth .value cs = .ok (v, out)) : Stuck out

variable {line cs rest : List Char}

/-- A brace is no letter of an escape. -/
theorem ne_brace_of_escapeLetter? {l c : Char} (h : escapeLetter? l = some c) : l ≠ '\x7b' := by
  rintro rfl
  cases h

/-- A brace is no hexadecimal digit. -/
theorem brace_not_mem_of_hexUnit? {a b c d : Char} {n : Nat} (h : hexUnit? a b c d = some n) :
    '\x7b' ∉ [a, b, c, d] := by
  have hbrace : hexValue? '\x7b' = none := by decide
  intro hmem
  simp only [List.mem_cons, List.not_mem_nil, or_false] at hmem
  obtain rfl | rfl | rfl | rfl := hmem <;> simp [hexUnit?, hbrace] at h

/-- No number has a brace in it. -/
theorem IsNumber.brace_not_mem {text : List Char} (h : IsNumber text) : '\x7b' ∉ text := by
  have hdigits {digits : List Char} (h : Digits digits) : '\x7b' ∉ digits := fun hmem =>
    absurd (h.2 _ hmem) (by decide)
  obtain ⟨hsign, hwhole, hfraction, hexponent⟩ := h
  simp only [List.mem_append, not_or]
  refine ⟨?_, hdigits hwhole.1, ?_, ?_⟩
  · obtain rfl | rfl := hsign <;> decide
  · obtain rfl | ⟨digits, hd, rfl⟩ := hfraction
    · exact List.not_mem_nil
    · simpa using hdigits hd
  · obtain rfl | ⟨letter, hletter, sign, hsign, digits, hd, rfl⟩ := hexponent
    · exact List.not_mem_nil
    · simp only [List.mem_cons, List.not_mem_nil, or_false] at hletter hsign
      obtain rfl | rfl := hletter <;> obtain rfl | rfl | rfl := hsign <;> simpa using hdigits hd

/-- Nothing comes next at the end of a text. -/
theorem stuck_nil : Stuck [] := by simp [Stuck, skipSpace]

/-- A closing brace that ends a record is taken off, and nothing behind it. -/
theorem Shape.suffix_conclude {shape : Shape} {found : Shape.Draft} {cells : List Cell}
    (h : line <:+ cs) (hread : shape.conclude found ('\x7d' :: cs) = .ok (cells, rest)) :
    line <:+ rest := by
  unfold conclude at hread
  split at hread
  · cases hread
    exact h
  · cases hread

namespace Whole

/-! ## Lexemes -/

/-- A character that is no brace is not the first of the line. -/
theorem of_cons (hline : Whole line) {c : Char} (h : line <:+ c :: rest) (hc : c ≠ '\x7b') :
    line <:+ rest := by
  obtain ⟨tail, rfl, -⟩ := hline.start
  obtain h | h := List.suffix_cons_iff.1 h
  · cases h
    exact absurd rfl hc
  · exact h

/-- Characters that are no braces are in front of the line. -/
theorem of_append (hline : Whole line) {front : List Char} (h : line <:+ front ++ rest)
    (hfront : '\x7b' ∉ front) : line <:+ rest := by
  induction front with
  | nil => exact h
  | cons c front ih =>
    rw [List.mem_cons, not_or] at hfront
    exact ih (hline.of_cons h (Ne.symm hfront.1)) hfront.2

/-- Characters of a kind that has no brace in it are in front of the line. -/
theorem dropWhile (hline : Whole line) {p : Char → Bool} (hp : p '\x7b' = false)
    (h : line <:+ cs) : line <:+ cs.dropWhile p := by
  rw [← List.takeWhile_append_dropWhile (p := p) (l := cs)] at h
  apply hline.of_append h
  intro hmem
  rw [List.mem_takeWhile_imp hmem] at hp
  cases hp

/-- Blanks are in front of the line. -/
theorem skipSpace (hline : Whole line) (h : line <:+ cs) : line <:+ skipSpace cs :=
  hline.dropWhile rfl h

/-- What comes next is in front of the line if it is no brace. -/
theorem of_skipSpace (hline : Whole line) (h : line <:+ cs) {c : Char}
    (hnext : Json.skipSpace cs = c :: rest) (hc : c ≠ '\x7b') : line <:+ rest := by
  have hahead := hline.skipSpace h
  rw [hnext] at hahead
  exact hline.of_cons hahead hc

/-- A bracket that comes next is in front of the line if it does not begin it. -/
theorem of_bracket (hline : Whole line) (h : line <:+ cs) {c : Char}
    (hnext : Json.skipSpace cs = c :: rest) (hcs : Json.skipSpace cs ≠ line) : line <:+ rest := by
  have hahead := hline.skipSpace h
  rw [hnext] at hahead hcs
  exact (List.suffix_cons_iff.1 hahead).resolve_left (Ne.symm hcs)

/-- What comes next behind a name or a value was ahead of the line. -/
theorem next (hline : Whole line) (h : Caught line cs) {c : Char}
    (hnext : Json.skipSpace cs = c :: rest) (hc : c ∈ [',', ':', ']', '\x7d']) :
    line <:+ rest := by
  obtain h | h := h
  · apply hline.of_skipSpace h hnext
    rintro rfl
    exact absurd hc (by decide)
  · exact absurd hc (h c (by rw [hnext]; rfl))

/-- A word has no brace in it, so it was in front of the line. -/
theorem dropWord (hline : Whole line) {word : String} (hword : '\x7b' ∉ word.toList)
    (h : line <:+ cs) (hdrop : dropWord word cs = .ok rest) : line <:+ rest := by
  rw [eq_append_of_dropWord hdrop] at h
  exact hline.of_append h hword

/-- A quoted text that begins in front of the line ends there, or at the first quote of the line. -/
theorem quoted (hline : Whole line) {body : List Char} (hbody : Quoted body)
    (h : line <:+ body ++ '"' :: rest) : Caught line rest := by
  induction hbody with
  | nil => exact .inl (hline.of_cons h (by decide))
  | plain _ _ _ hbody ih =>
    obtain heq | h := List.suffix_cons_iff.1 h
    · obtain ⟨tail, hstart, hstuck⟩ := hline.start
      rw [hstart] at heq
      obtain ⟨-, htail⟩ := List.cons.inj heq
      obtain ⟨-, rfl⟩ := quoted_append_inj .nil hbody htail
      exact .inr hstuck
    · exact ih h
  | letter hl _ ih =>
    exact ih (hline.of_cons (hline.of_cons h (by decide)) (ne_brace_of_escapeLetter? hl))
  | @unit a b c d n body hn _ ih =>
    have hunit : line <:+ [a, b, c, d] ++ (body ++ '"' :: rest) :=
      hline.of_cons (hline.of_cons h (by decide)) (by decide)
    exact ih (hline.of_append hunit (brace_not_mem_of_hexUnit? hn))

/-- A quoted text that is passed over may end in the line. -/
theorem skipBody (hline : Whole line) (h : line <:+ cs) (hskip : skipBody cs = .ok rest) :
    Caught line rest := by
  obtain ⟨body, hbody, rfl⟩ := quoted_of_skipBody hskip
  exact hline.quoted hbody h

/-- A quoted text that is read may end in the line. -/
theorem readString (hline : Whole line) {s : String} (h : line <:+ cs)
    (hread : readString cs = .ok (s, rest)) : Caught line rest := by
  obtain ⟨body, hspells, rfl⟩ := readString_eq_ok.1 hread
  exact hline.quoted hspells.quoted h

/-- A number that is scanned was in front of the line. -/
theorem scanNumber (hline : Whole line) {number : NumberText} (h : line <:+ cs)
    (hscan : scanNumber cs = .ok (number, rest)) : line <:+ rest := by
  obtain ⟨text, hnumber, rfl⟩ := isNumber_of_scanNumber hscan
  exact hline.of_append h hnumber.brace_not_mem

/-- A number that is read was in front of the line. -/
theorem readNumber (hline : Whole line) {n : Numeric} (h : line <:+ cs)
    (hread : readNumber cs = .ok (n, rest)) : line <:+ rest := by
  unfold Json.readNumber at hread
  split at hread
  · cases hread
  · next hscan =>
    split at hread <;> cases hread
    exact hline.scanNumber h hscan

/-- A colon was in front of the line. -/
theorem readColon (hline : Whole line) (h : Caught line cs) (hread : readColon cs = .ok rest) :
    line <:+ rest := by
  unfold Json.readColon at hread
  split at hread
  · next hcolon =>
    cases hread
    exact hline.next h hcolon (by decide)
  · cases hread

/-! ## Values nobody asked for -/

/-- A value that is no bracket is passed over in front of the line, or up to its first quote. -/
theorem skipScalar (hline : Whole line) (h : line <:+ cs) (hskip : skipScalar cs = .ok rest) :
    Caught line rest := by
  unfold Json.skipScalar at hskip
  split at hskip
  · exact .inl (hline.dropWord (by decide) h hskip)
  · exact .inl (hline.dropWord (by decide) h hskip)
  · exact .inl (hline.dropWord (by decide) h hskip)
  · exact hline.skipBody (hline.of_cons h (by decide)) hskip
  · split at hskip
    · next hscan =>
      cases hskip
      exact .inl (hline.scanNumber h hscan)
    · cases hskip

/-- Behind a name that is passed over the line is still ahead. -/
theorem skipName (hline : Whole line) (h : line <:+ cs) (hskip : skipName cs = .ok rest) :
    line <:+ rest := by
  unfold Json.skipName at hskip
  split at hskip
  · next name hquote =>
    obtain ⟨after, hname, hcolon⟩ := except_bind_eq_ok.1 hskip
    have hcaught := hline.skipBody (hline.of_skipSpace h hquote (by decide)) hname
    exact hline.readColon hcaught hcolon
  · cases hskip

/-- What a reader that passes over a value needs of the text, by what has to come next. -/
def Fits (line cs : List Char) : Expect → Prop
  | .value | .member => line <:+ cs
  | .after => Caught line cs

/-- A value that is to be passed over is the line itself, or it begins in front of the line. -/
theorem skipFrom_value (hline : Whole line) {fuel : Nat} {opened : List Bracket}
    (h : line <:+ cs) (hskip : Json.skipFrom (fuel + 1) .value opened cs = .ok rest)
    (hlater : ∀ {expect opened cs}, Fits line cs expect →
      Json.skipFrom fuel expect opened cs = .ok rest → Caught line rest) : Caught line rest := by
  by_cases hcs : Json.skipSpace cs = line
  · exact .inr (hline.skipped hcs hskip)
  · unfold Json.skipFrom at hskip
    split at hskip
    · next list hlist =>
      have hinside := hline.of_bracket h hlist hcs
      split at hskip
      · next after hend =>
        have hafter : Fits line after .after := .inl (hline.of_skipSpace hinside hend (by decide))
        exact hlater hafter hskip
      · cases hskip
      · have hvalue : Fits line (Json.skipSpace list) .value := hline.skipSpace hinside
        exact hlater hvalue hskip
    · next object hobject =>
      have hinside := hline.of_bracket h hobject hcs
      split at hskip
      · next after hend =>
        have hafter : Fits line after .after := .inl (hline.of_skipSpace hinside hend (by decide))
        exact hlater hafter hskip
      · have hmember : Fits line (Json.skipSpace object) .member := hline.skipSpace hinside
        exact hlater hmember hskip
    · obtain ⟨after, hscalar, hskip⟩ := except_bind_eq_ok.1 hskip
      have hafter : Fits line after .after := hline.skipScalar (hline.skipSpace h) hscalar
      exact hlater hafter hskip

/-- Behind a value, all is passed over, or a bracket goes on in front of the line. -/
theorem skipFrom_after (hline : Whole line) {fuel : Nat} {opened : List Bracket}
    (h : Caught line cs) (hskip : Json.skipFrom (fuel + 1) .after opened cs = .ok rest)
    (hlater : ∀ {expect opened cs}, Fits line cs expect →
      Json.skipFrom fuel expect opened cs = .ok rest → Caught line rest) : Caught line rest := by
  match opened with
  | [] =>
    cases hskip
    exact h
  | .list :: opened =>
    unfold Json.skipFrom at hskip
    split at hskip
    · next later hcomma =>
      have hvalue : Fits line later .value := hline.next h hcomma (by decide)
      exact hlater hvalue hskip
    · next later hend =>
      have hafter : Fits line later .after := .inl (hline.next h hend (by decide))
      exact hlater hafter hskip
    · cases hskip
  | .object :: opened =>
    unfold Json.skipFrom at hskip
    split at hskip
    · next later hcomma =>
      have hmember : Fits line later .member := hline.next h hcomma (by decide)
      exact hlater hmember hskip
    · next later hend =>
      have hafter : Fits line later .after := .inl (hline.next h hend (by decide))
      exact hlater hafter hskip
    · cases hskip

/-- Whatever has to come next, passing over the rest of a value leaves the line whole or takes
it. -/
theorem skipFrom (hline : Whole line) {fuel : Nat} {expect : Expect} {opened : List Bracket}
    (h : Fits line cs expect) (hskip : skipFrom fuel expect opened cs = .ok rest) :
    Caught line rest := by
  induction fuel generalizing expect opened cs with
  | zero => cases hskip
  | succ fuel ih =>
    cases expect with
    | value => exact hline.skipFrom_value h hskip ih
    | after => exact hline.skipFrom_after h hskip ih
    | member =>
      unfold Json.skipFrom at hskip
      obtain ⟨after, hname, hskip⟩ := except_bind_eq_ok.1 hskip
      have hvalue : Fits line after .value := hline.skipName h hname
      exact ih hvalue hskip

/-- A value that is passed over begins in front of the line and may take it as a whole. -/
theorem skipValue (hline : Whole line) (h : line <:+ cs) (hskip : skipValue cs = .ok rest) :
    Caught line rest := by
  have hvalue : Fits line cs .value := h
  exact hline.skipFrom hvalue hskip

/-! ## Values -/

/-- A value that is no bracket is read in front of the line, or up to its first quote. -/
theorem readScalar (hline : Whole line) {v : Value} (h : line <:+ cs)
    (hread : readScalar cs = .ok (v, rest)) : Caught line rest := by
  have hword {word : String} {value : Value} (hword : '\x7b' ∉ word.toList)
      (hread : (Json.dropWord word cs).map (value, ·) = .ok (v, rest)) : Caught line rest := by
    obtain ⟨after, hdrop, hread⟩ := except_map_eq_ok.1 hread
    cases hread
    exact .inl (hline.dropWord hword h hdrop)
  unfold Json.readScalar at hread
  split at hread
  · exact hword (by decide) hread
  · exact hword (by decide) hread
  · exact hword (by decide) hread
  · obtain ⟨⟨s, after⟩, hbody, hread⟩ := except_map_eq_ok.1 hread
    cases hread
    exact hline.readString (hline.of_cons h (by decide)) hbody
  · obtain ⟨⟨n, after⟩, hnumber, hread⟩ := except_map_eq_ok.1 hread
    cases hread
    exact .inl (hline.readNumber h hnumber)

/-- Behind a name that is read the line is still ahead. -/
theorem readName (hline : Whole line) {name : String} (h : line <:+ cs)
    (hread : readName cs = .ok (name, rest)) : line <:+ rest := by
  unfold Json.readName at hread
  split at hread
  · next inside hquote =>
    obtain ⟨⟨s, after⟩, hbody, hread⟩ := except_bind_eq_ok.1 hread
    obtain ⟨after', hcolon, hread⟩ := except_bind_eq_ok.1 hread
    cases hread
    have hcaught := hline.readString (hline.of_skipSpace h hquote (by decide)) hbody
    exact hline.readColon hcaught hcolon
  · cases hread

/-- A value that is to be read is the line itself, or it begins in front of the line. -/
theorem readPart_value (hline : Whole line) {fuel depth : Nat} {v : Value} (h : line <:+ cs)
    (hread : Json.readPart (fuel + 1) depth .value cs = .ok (v, rest))
    (hlater : ∀ {depth part cs v}, line <:+ cs →
      Json.readPart fuel depth part cs = .ok (v, rest) → Caught line rest) :
    Caught line rest := by
  by_cases hcs : Json.skipSpace cs = line
  · exact .inr (hline.read hcs hread)
  · unfold Json.readPart at hread
    split at hread
    · next list hlist =>
      have hinside := hline.of_bracket h hlist hcs
      split at hread
      · cases hread
      · next hend =>
        cases hread
        exact .inl (hline.of_skipSpace hinside hend (by decide))
      · cases hread
      · exact hlater (hline.skipSpace hinside) hread
    · next object hobject =>
      have hinside := hline.of_bracket h hobject hcs
      split at hread
      · cases hread
      · next hend =>
        cases hread
        exact .inl (hline.of_skipSpace hinside hend (by decide))
      · cases hread
      · exact hlater (hline.skipSpace hinside) hread
    · exact hline.readScalar (hline.skipSpace h) hread

/-- A part of a value that begins in front of the line leaves the line whole, but a whole value may
have run into it. -/
theorem readPart (hline : Whole line) {fuel depth : Nat} {part : Part} {v : Value}
    (h : line <:+ cs) (hread : readPart fuel depth part cs = .ok (v, rest)) :
    Caught line rest := by
  induction fuel generalizing depth part cs v rest with
  | zero => cases hread
  | succ fuel ih =>
    cases part with
    | value => exact hline.readPart_value h hread ih
    | items read =>
      obtain ⟨⟨item, after⟩, hitem, hread⟩ := except_bind_eq_ok.1 hread
      have hcaught := ih h hitem
      dsimp only at hread
      split at hread
      · next hcomma =>
        obtain ⟨-, hread⟩ := afterComma_eq_ok.1 hread
        exact ih (hline.skipSpace (hline.next hcaught hcomma (by decide))) hread
      · next hend =>
        cases hread
        exact .inl (hline.next hcaught hend (by decide))
      · cases hread
    | members read =>
      obtain ⟨⟨name, afterName⟩, hname, hread⟩ := except_bind_eq_ok.1 hread
      obtain ⟨⟨member, after⟩, hmember, hread⟩ := except_bind_eq_ok.1 hread
      have hcaught := ih (hline.readName h hname) hmember
      dsimp only at hread
      split at hread
      · next hcomma => exact ih (hline.next hcaught hcomma (by decide)) hread
      · next hend =>
        cases hread
        exact .inl (hline.next hcaught hend (by decide))
      · cases hread

/-! ## Fields -/

/-- A text that is wanted begins in front of the line and may end at its first quote. -/
theorem readText (hline : Whole line) {s : String} (h : line <:+ cs)
    (hread : readText cs = .ok (s, rest)) : Caught line rest := by
  unfold Json.readText at hread
  split at hread
  · next inside hquote => exact hline.readString (hline.of_skipSpace h hquote (by decide)) hread
  · exact absurd hread (refuse_ne_ok _ _ _)

/-- A cell begins in front of the line, and a quoted text or the line as a whole may end it. -/
theorem readCell (hline : Whole line) {kind : FieldKind} {cell : Cell} (h : line <:+ cs)
    (hread : readCell kind cs = .ok (cell, rest)) : Caught line rest := by
  cases kind with
  | text =>
    obtain ⟨⟨s, after⟩, htext, hread⟩ := except_map_eq_ok.1 hread
    cases hread
    exact hline.readText h htext
  | flag =>
    unfold Json.readCell at hread
    dsimp only at hread
    split at hread
    · cases hread
    · next v after hvalue =>
      have hcaught := hline.readPart h hvalue
      split at hread
      · cases hread
        exact hcaught
      · cases hread

/-- Behind its name a member begins in front of the line. -/
theorem readMember (hline : Whole line) {shape : Shape} {found found' : Shape.Draft} {name : String}
    (h : Caught line cs) (hread : shape.readMember found name cs = .ok (found', rest)) :
    Caught line rest := by
  unfold Shape.readMember at hread
  split at hread
  · obtain ⟨value, hcolon, hread⟩ := except_bind_eq_ok.1 hread
    obtain ⟨after, hskip, hread⟩ := except_bind_eq_ok.1 hread
    cases hread
    exact hline.skipValue (hline.readColon h hcolon) hskip
  · split at hread
    · cases hread
    · obtain ⟨value, hcolon, hread⟩ := except_bind_eq_ok.1 hread
      obtain ⟨⟨cell, after⟩, hcell, hread⟩ := except_bind_eq_ok.1 hread
      cases hread
      exact hline.readCell (hline.readColon h hcolon) hcell

/-- Members that are read up to the closing brace stand in front of the line. -/
theorem readMembers (hline : Whole line) {shape : Shape} {fuel : Nat} {found : Shape.Draft}
    {cells : List Cell} (h : line <:+ cs)
    (hread : shape.readMembers fuel found cs = .ok (cells, rest)) : line <:+ rest := by
  induction fuel generalizing found cs with
  | zero => cases hread
  | succ fuel ih =>
    unfold Shape.readMembers at hread
    split at hread
    · next inside hquote =>
      obtain ⟨⟨name, after⟩, hname, hread⟩ := except_bind_eq_ok.1 hread
      have hcaught := hline.readString (hline.of_skipSpace h hquote (by decide)) hname
      obtain ⟨⟨found', after'⟩, hmember, hread⟩ := except_bind_eq_ok.1 hread
      have hcaught := hline.readMember hcaught hmember
      dsimp only at hread
      split at hread
      · next hcomma => exact ih (hline.next hcaught hcomma (by decide)) hread
      · next hend => exact Shape.suffix_conclude (hline.next hcaught hend (by decide)) hread
      · cases hread
    · cases hread

/-- An object that is read stands in front of the line. -/
theorem readObject (hline : Whole line) {shape : Shape} {cells : List Cell} (h : line <:+ cs)
    (hread : shape.readObject cs = .ok (cells, rest)) : line <:+ rest := by
  unfold Shape.readObject at hread
  dsimp only at hread
  split at hread
  · next hend => exact Shape.suffix_conclude (hline.next (.inl h) hend (by decide)) hread
  · cases hread
  · exact hline.readMembers h hread

/-- The fields of an array that begins in front of the line are in front of it. Only the first may
come without a comma. -/
theorem readItems (hline : Whole line) {shape : Shape} {index : Nat} {fields : List Field}
    {cells : List Cell} (h : line <:+ cs ∨ index ≠ 0 ∧ Stuck cs)
    (hread : shape.readItems index fields cs = .ok (cells, rest)) : line <:+ rest := by
  have hcaught : Caught line cs := h.imp_right And.right
  induction fields generalizing index cs cells with
  | nil =>
    unfold Shape.readItems at hread
    split at hread
    · next hend =>
      cases hread
      exact hline.next hcaught hend (by decide)
    · cases hread
  | cons field fields ih =>
    have hlater {cell : Cell} {after after' : List Char} {cells : List Cell}
        (h : line <:+ after) (hcell : Json.readCell field.kind after = .ok (cell, after'))
        (hread : shape.readItems (index + 1) fields after' = .ok (cells, rest)) :
        line <:+ rest := by
      have hcaught := hline.readCell h hcell
      exact ih (hcaught.imp_right fun h => ⟨Nat.succ_ne_zero index, h⟩) hread hcaught
    unfold Shape.readItems at hread
    split at hread
    · split at hread
      · cases hread
      · obtain ⟨⟨cells', after⟩, hread, hend⟩ := except_bind_eq_ok.1 hread
        cases hend
        exact ih (hcaught.imp_right fun h => ⟨Nat.succ_ne_zero index, h⟩) hread hcaught
    · next after hcomma =>
      have hafter := hline.skipSpace (hline.next hcaught hcomma (by decide))
      split at hread
      · cases hread
      · obtain ⟨⟨cell, after'⟩, hcell, hread⟩ := except_bind_eq_ok.1 hread
        obtain ⟨⟨cells', after''⟩, hread, hend⟩ := except_bind_eq_ok.1 hread
        cases hend
        exact hlater hafter (afterComma_eq_ok.1 hcell).2 hread
    · cases hread
    · split at hread
      · next hindex =>
        have h := hline.skipSpace (h.resolve_right fun h => h.1 hindex)
        obtain ⟨⟨cell, after'⟩, hcell, hread⟩ := except_bind_eq_ok.1 hread
        obtain ⟨⟨cells', after''⟩, hread, hend⟩ := except_bind_eq_ok.1 hread
        cases hend
        exact hlater h hcell hread
      · cases hread

/-- A record that is read from text with the line behind it is read from that text alone. -/
theorem read_front (hline : Whole line) {shape : Shape} {c : Char} {front : List Char}
    {cells : List Cell} (hc : isSpace c = false)
    (hread : shape.read (c :: front ++ line) = .ok (cells, rest)) : line <:+ rest := by
  have hspace : Json.skipSpace (c :: front ++ line) = c :: (front ++ line) := by
    rw [List.cons_append, Json.skipSpace, List.dropWhile_cons, hc]
    rfl
  have hahead : line <:+ front ++ line := List.suffix_append front line
  unfold Shape.read at hread
  rw [hspace] at hread
  split at hread
  · next object hobject =>
    cases hobject
    exact hline.readObject hahead (except_mapError_eq_ok.1 hread)
  · next list hlist =>
    cases hlist
    exact hline.readItems (.inl hahead) (except_mapError_eq_ok.1 hread)
  · exact absurd hread (refuse_ne_ok _ _ _)

/-- Behind what was read, the line is not the end of a text. -/
theorem atEnd (hline : Whole line) {α : Type} {a b : α} (h : line <:+ rest) :
    atEnd (a, rest) ≠ .ok b := by
  obtain ⟨tail, hstart, -⟩ := hline.start
  have hahead := hline.skipSpace h
  cases hspace : Json.skipSpace rest with
  | nil =>
    rw [hspace, List.suffix_nil, hstart] at hahead
    cases hahead
  | cons c later =>
    intro hend
    rw [Json.atEnd, hspace] at hend
    cases hend

end Whole

end ShortLinks.Json
