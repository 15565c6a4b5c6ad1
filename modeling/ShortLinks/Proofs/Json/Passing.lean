import ShortLinks.Json.Skip
import ShortLinks.Proofs.Json.Spelling

/-!
# Values are passed over

Every value of JSON is passed over, however deeply it is nested, and the text behind it is left. The
brackets that were open stay open, so the place in the whole is not lost. A step is taken for each
character of the value at most, which bounds the fuel that is needed.
-/

namespace ShortLinks.Json

variable {cs rest digits whole fraction exponent : List Char}

/-! ## Numbers -/

/-- No digit comes next. -/
def NoDigit (cs : List Char) : Prop := ∀ c ∈ cs.head?, c.isDigit = false

/-- Digits begin with a digit. -/
theorem Digits.head (h : Digits digits) : ∃ d tail, digits = d :: tail ∧ d.isDigit := by
  obtain ⟨d, tail, rfl⟩ := List.exists_cons_of_ne_nil h.1
  exact ⟨d, tail, rfl, h.2 d List.mem_cons_self⟩

/-- Digits are taken up to where no digit stands. -/
theorem takeWhile_digits (h : Digits digits) (hrest : NoDigit rest) :
    (digits ++ rest).takeWhile Char.isDigit = digits := by
  rw [List.takeWhile_append_of_pos h.2]
  cases rest with
  | nil => simp
  | cons c rest => simp [hrest c rfl]

/-- Behind its digits a text goes on with what is no digit. -/
theorem dropWhile_digits (h : Digits digits) (hrest : NoDigit rest) :
    (digits ++ rest).dropWhile Char.isDigit = rest := by
  rw [List.dropWhile_append_of_pos h.2]
  cases rest with
  | nil => rfl
  | cons c rest => simp [hrest c rfl]

/-- What ends a value does not go on with a number. -/
theorem Ends.head_ne (h : Ends rest) :
    ∀ c ∈ rest.head?, c.isDigit = false ∧ c ≠ '.' ∧ c ≠ 'e' ∧ c ≠ 'E' := by
  intro c hc
  have hone := h c hc
  simp only [isSpace, Bool.or_eq_true, beq_iff_eq, List.mem_cons, List.not_mem_nil, or_false] at hone
  obtain (((rfl | rfl) | rfl) | rfl) | rfl | rfl | rfl := hone <;> decide

/-- A fraction is scanned up to its end. -/
theorem scanFraction_part (h : FractionPart fraction) (hrest : NoDigit rest)
    (hpoint : '.' ∉ rest.head?) :
    ∃ digits, scanFraction (fraction ++ rest) = .ok (digits, rest) := by
  obtain rfl | ⟨digits, hdigits, rfl⟩ := h
  · refine ⟨[], ?_⟩
    rw [List.nil_append, scanFraction.eq_def]
    split
    · exact absurd rfl hpoint
    · rfl
  · refine ⟨digits, ?_⟩
    rw [List.cons_append, scanFraction, takeWhile_digits hdigits hrest,
      dropWhile_digits hdigits hrest]
    simp [hdigits.1]

/-- A sign is split off in front of digits. -/
theorem splitSign_part {sign : List Char} (hsign : sign ∈ [[], ['+'], ['-']])
    (hdigits : Digits digits) (rest : List Char) :
    ∃ negative, Decimal.splitSign (sign ++ (digits ++ rest)) = (negative, digits ++ rest) := by
  simp only [List.mem_cons, List.not_mem_nil, or_false] at hsign
  obtain rfl | rfl | rfl := hsign
  · obtain ⟨d, digits, rfl, hd⟩ := hdigits.head
    refine ⟨false, ?_⟩
    rw [List.nil_append, List.cons_append, Decimal.splitSign.eq_def]
    split
    · next h =>
      cases h
      cases hd
    · next h =>
      cases h
      cases hd
    · rfl
  · exact ⟨false, rfl⟩
  · exact ⟨true, rfl⟩

/-- An exponent is scanned up to its end. -/
theorem scanExponent_part (h : ExponentPart exponent) (hrest : Ends rest) :
    ∃ read, scanExponent (exponent ++ rest) = .ok (read, rest) := by
  obtain rfl | ⟨letter, hletter, sign, hsign, digits, hdigits, rfl⟩ := h
  · refine ⟨none, ?_⟩
    cases rest with
    | nil => rfl
    | cons c rest =>
      obtain ⟨-, -, he, hE⟩ := hrest.head_ne c rfl
      simp [scanExponent, he, hE]
  · have hnext : NoDigit rest := fun c hc => (hrest.head_ne c hc).1
    obtain ⟨negative, hsign⟩ := splitSign_part hsign hdigits rest
    refine ⟨some (negative, digits), ?_⟩
    have hletter : (letter == 'e' || letter == 'E') = true := by simpa using hletter
    rw [List.cons_append, List.append_assoc, scanExponent, hletter, if_pos rfl, hsign]
    simp only [takeWhile_digits hdigits hnext, dropWhile_digits hdigits hnext]
    simp [hdigits.1]

/-- An exponent, or the end of a number, begins neither with a digit nor with a point. -/
theorem noDigit_exponent (h : ExponentPart exponent) (hrest : Ends rest) :
    NoDigit (exponent ++ rest) ∧ '.' ∉ (exponent ++ rest).head? := by
  obtain rfl | ⟨letter, hletter, sign, -, digits, -, rfl⟩ := h
  · exact ⟨fun c hc => (hrest.head_ne c hc).1, fun hc => (hrest.head_ne '.' hc).2.1 rfl⟩
  · simp only [List.mem_cons, List.not_mem_nil, or_false] at hletter
    obtain rfl | rfl := hletter <;> simp [NoDigit]

/-- A fraction, or what comes behind it, does not begin with a digit. -/
theorem noDigit_fraction (h : FractionPart fraction) (hrest : NoDigit rest) :
    NoDigit (fraction ++ rest) := by
  obtain rfl | ⟨digits, -, rfl⟩ := h
  · exact hrest
  · simp [NoDigit]

/-- A number is scanned to its end. -/
theorem scanNumber_number (h : IsNumber cs) (hrest : Ends rest) :
    ∃ number, scanNumber (cs ++ rest) = .ok (number, rest) := by
  obtain @⟨sign, whole, fraction, exponent, hsign, hwhole, hfraction, hexponent⟩ := h
  obtain ⟨hexp, hpoint⟩ := noDigit_exponent hexponent hrest
  have hnext := noDigit_fraction hfraction hexp
  obtain ⟨fractionDigits, hscanFraction⟩ := scanFraction_part hfraction hexp hpoint
  obtain ⟨exponentRead, hscanExponent⟩ := scanExponent_part hexponent hrest
  unfold scanNumber
  split
  next negative unsigned hmatch =>
  have hunsigned : unsigned = whole ++ (fraction ++ (exponent ++ rest)) := by
    obtain rfl | rfl := hsign
    · obtain ⟨d, digits, rfl, hd⟩ := hwhole.1.head
      split at hmatch
      · next hminus =>
        cases hminus
        cases hd
      · cases hmatch
        simp
    · cases hmatch
      simp
  have hsome : ¬whole.isEmpty := by simp [hwhole.1.1]
  have hzero : ¬(whole.head? == some '0' && decide (1 < whole.length)) := by
    obtain rfl | hzero := hwhole.2
    · simp
    · have hzero : (whole.head? == some '0') = false := beq_false_of_ne hzero
      simp [hzero]
  rw [hunsigned, takeWhile_digits hwhole.1 hnext, dropWhile_digits hwhole.1 hnext]
  simp only [if_neg hsome, if_neg hzero, hscanFraction, except_ok_bind, hscanExponent]
  exact ⟨_, rfl⟩

/-! ## Values -/

/-- What a number begins with begins no other value, and is nothing that stands around values. -/
theorem IsNumber.head (h : IsNumber cs) : ∃ c tail, cs = c :: tail ∧ isSpace c = false ∧
    c ∉ [',', ':', ']', '\x7d', '[', '\x7b', '"', 'n', 't', 'f'] := by
  obtain @⟨sign, whole, fraction, exponent, hsign, hwhole, -, -⟩ := h
  obtain rfl | rfl := hsign
  · obtain ⟨d, digits, rfl, hd⟩ := hwhole.1.head
    refine ⟨d, _, rfl, Bool.eq_false_iff.2 fun hspace => ?_, fun hmem => ?_⟩
    · simp only [isSpace, Bool.or_eq_true, beq_iff_eq] at hspace
      obtain ((rfl | rfl) | rfl) | rfl := hspace <;> cases hd
    · simp only [List.mem_cons, List.not_mem_nil, or_false] at hmem
      obtain rfl | rfl | rfl | rfl | rfl | rfl | rfl | rfl | rfl | rfl := hmem <;> cases hd
  · exact ⟨'-', _, rfl, rfl, by decide⟩

/-- A value begins neither with a blank nor with anything that follows a value. -/
theorem Written.head (h : Written .value cs) :
    ∃ c tail, cs = c :: tail ∧ isSpace c = false ∧ c ∉ [',', ':', ']', '\x7d'] := by
  cases h with
  | word h =>
    simp only [words, List.mem_cons, List.not_mem_nil, or_false] at h
    obtain rfl | rfl | rfl := h <;> exact ⟨_, _, rfl, rfl, by decide⟩
  | number h =>
    obtain ⟨c, tail, rfl, hspace, hc⟩ := h.head
    exact ⟨c, tail, rfl, hspace, fun hmem => hc (List.mem_append_left _ hmem)⟩
  | text | emptyList | list | emptyObject | object => exact ⟨_, _, rfl, rfl, by decide⟩

/-- A number is passed over as a value. -/
theorem skipScalar_number (h : IsNumber cs) (hrest : Ends rest) :
    skipScalar (cs ++ rest) = .ok rest := by
  obtain ⟨number, hscan⟩ := scanNumber_number h hrest
  obtain ⟨c, tail, rfl, -, hc⟩ := h.head
  simp only [List.mem_cons, List.not_mem_nil, or_false, not_or] at hc
  rw [List.cons_append] at hscan ⊢
  unfold skipScalar
  split
  case h_5 => rw [hscan]
  all_goals simp_all

/-- Blanks in front do not matter inside a bracket, nor where a value or a name must come. -/
theorem skipFrom_skipSpace (fuel : Nat) {expect : Expect} {opened : List Bracket}
    (h : expect = .after → opened ≠ []) (cs : List Char) :
    skipFrom fuel expect opened (skipSpace cs) = skipFrom fuel expect opened cs := by
  cases fuel with
  | zero => rfl
  | succ fuel =>
    match expect, opened with
    | .value, _ => rw [skipFrom, skipFrom, skipSpace_skipSpace]
    | .member, _ => rw [skipFrom, skipFrom, skipName, skipName, skipSpace_skipSpace]
    | .after, [] => exact absurd rfl (h rfl)
    | .after, .list :: _ => rw [skipFrom, skipFrom, skipSpace_skipSpace]
    | .after, .object :: _ => rw [skipFrom, skipFrom, skipSpace_skipSpace]

/-- With some steps, no more than a bound, a text is read on to another place. -/
def Passes (bound : Nat) (expect : Expect) (opened : List Bracket) (cs : List Char)
    (expect' : Expect) (opened' : List Bracket) (cs' : List Char) : Prop :=
  ∃ steps ≤ bound, ∀ fuel,
    skipFrom (steps + fuel) expect opened cs = skipFrom fuel expect' opened' cs'

namespace Passes

variable {n n' : Nat} {expect expect' expect'' : Expect} {opened opened' opened'' : List Bracket}
  {cs cs' cs'' b rest : List Char}

/-- What one unit of fuel does is one step. -/
theorem step (h : ∀ fuel, skipFrom (fuel + 1) expect opened cs =
    skipFrom fuel expect' opened' cs') : Passes 1 expect opened cs expect' opened' cs' :=
  ⟨1, Nat.le_refl 1, fun fuel => by rw [Nat.add_comm, h]⟩

/-- No step leads nowhere. -/
theorem refl : Passes 0 expect opened cs expect opened cs := ⟨0, Nat.le_refl 0, fun _ => by simp⟩

/-- Steps follow each other. -/
theorem trans (h : Passes n expect opened cs expect' opened' cs')
    (h' : Passes n' expect' opened' cs' expect'' opened'' cs'') :
    Passes (n + n') expect opened cs expect'' opened'' cs'' := by
  obtain ⟨steps, hsteps, h⟩ := h
  obtain ⟨steps', hsteps', h'⟩ := h'
  exact ⟨steps + steps', Nat.add_le_add hsteps hsteps', fun fuel => by rw [Nat.add_assoc, h, h']⟩

/-- A bound may be larger than needed. -/
theorem mono (h : Passes n expect opened cs expect' opened' cs') (hn : n ≤ n') :
    Passes n' expect opened cs expect' opened' cs' := by
  obtain ⟨steps, hsteps, h⟩ := h
  exact ⟨steps, Nat.le_trans hsteps hn, h⟩

/-- Blanks in front are passed over without a step. -/
theorem blanks (hb : Blanks b) (h : Passes n expect opened cs expect' opened' cs')
    (hafter : expect = .after → opened ≠ []) :
    Passes n expect opened (b ++ cs) expect' opened' cs' := by
  obtain ⟨steps, hsteps, h⟩ := h
  refine ⟨steps, hsteps, fun fuel => ?_⟩
  rw [← h, ← skipFrom_skipSpace _ hafter, skipSpace_append hb, skipFrom_skipSpace _ hafter]

/-- A value that is no bracket is passed over in one step. -/
theorem scalar {c : Char} {tail : List Char} (hspace : isSpace c = false)
    (hc : c ∉ ['[', '\x7b']) (h : skipScalar (c :: tail) = .ok rest) :
    Passes 1 .value opened (c :: tail) .after opened rest := by
  simp only [List.mem_cons, List.not_mem_nil, or_false, not_or] at hc
  refine .step fun fuel => ?_
  rw [skipFrom, skipSpace_cons hspace]
  split
  · next heq => exact absurd (List.cons.inj heq).1 hc.1
  · next heq => exact absurd (List.cons.inj heq).1 hc.2
  · rw [h, except_ok_bind]

/-- An empty list is passed over in one step. -/
theorem emptyList (hb : Blanks b) :
    Passes 1 .value opened ('[' :: (b ++ ']' :: rest)) .after opened rest := by
  refine .step fun fuel => ?_
  rw [skipFrom, skipSpace_cons rfl]
  simp only [skipSpace_append hb, skipSpace_cons (c := ']') rfl]

/-- An empty object is passed over in one step. -/
theorem emptyObject (hb : Blanks b) :
    Passes 1 .value opened ('\x7b' :: (b ++ '\x7d' :: rest)) .after opened rest := by
  refine .step fun fuel => ?_
  rw [skipFrom, skipSpace_cons rfl]
  simp only [skipSpace_append hb, skipSpace_cons (c := '\x7d') rfl]

/-- The bracket of a list that is not empty leads to its first item. -/
theorem openList {c : Char} {tail : List Char} (hcs : skipSpace cs = c :: tail) (hc : c ≠ ']') :
    Passes 1 .value opened ('[' :: cs) .value (.list :: opened) cs := by
  refine .step fun fuel => ?_
  have hblanks : skipFrom fuel .value (.list :: opened) (skipSpace cs) =
      skipFrom fuel .value (.list :: opened) cs := skipFrom_skipSpace fuel (by simp) cs
  rw [skipFrom, skipSpace_cons rfl, ← hblanks]
  simp only [hcs]
  split
  · next heq => exact absurd (List.cons.inj heq).1 hc
  · next heq => cases heq
  · rfl

/-- The brace of an object that is not empty leads to its first member. -/
theorem openObject {c : Char} {tail : List Char} (hcs : skipSpace cs = c :: tail)
    (hc : c ≠ '\x7d') :
    Passes 1 .value opened ('\x7b' :: cs) .member (.object :: opened) cs := by
  refine .step fun fuel => ?_
  have hblanks : skipFrom fuel .member (.object :: opened) (skipSpace cs) =
      skipFrom fuel .member (.object :: opened) cs := skipFrom_skipSpace fuel (by simp) cs
  rw [skipFrom, skipSpace_cons rfl, ← hblanks]
  simp only [hcs]
  split
  · next heq => exact absurd (List.cons.inj heq).1 hc
  · rfl

/-- A comma in a list leads to the next item. -/
theorem comma : Passes 1 .after (.list :: opened) (',' :: cs) .value (.list :: opened) cs :=
  .step fun _ => rfl

/-- A closing bracket leads out of the list. -/
theorem closeList : Passes 1 .after (.list :: opened) (']' :: cs) .after opened cs :=
  .step fun _ => rfl

/-- A comma in an object leads to the next member. -/
theorem commaMember :
    Passes 1 .after (.object :: opened) (',' :: cs) .member (.object :: opened) cs :=
  .step fun _ => rfl

/-- A closing brace leads out of the object. -/
theorem closeObject : Passes 1 .after (.object :: opened) ('\x7d' :: cs) .after opened cs :=
  .step fun _ => rfl

/-- The name of a member is passed over with its colon. -/
theorem name {body b' : List Char} (hb : Blanks b) (hbody : Quoted body) (hb' : Blanks b') :
    Passes 1 .member opened (heading b body b' ++ cs) .value opened cs := by
  refine .step fun fuel => ?_
  have hname : skipName (heading b body b' ++ cs) = .ok cs := by
    rw [skipName, skipSpace_heading hb]
    exact except_bind_eq_ok.2 ⟨_, skipBody_quoted hbody _, readColon_blanks hb' cs⟩
  rw [skipFrom, hname, except_ok_bind]

end Passes

/-- A value with blanks around begins, behind the blanks, with nothing that follows a value. -/
theorem Written.spaced_head (h : Written .spaced cs) (rest : List Char) :
    ∃ c tail, skipSpace (cs ++ rest) = c :: tail ∧ c ∉ [',', ':', ']', '\x7d'] := by
  cases h with
  | spaced hb hvalue =>
    obtain ⟨c, tail, rfl, hspace, hc⟩ := hvalue.head
    rw [List.append_assoc, skipSpace_append hb, List.cons_append, List.cons_append,
      skipSpace_cons hspace]
    exact ⟨c, _, rfl, hc⟩

/-- The items of a list do not begin with a mark. -/
theorem Written.items_head (h : Written .items cs) (rest : List Char) :
    ∃ c tail, skipSpace (cs ++ rest) = c :: tail ∧ c ∉ [',', ':', ']', '\x7d'] := by
  cases h with
  | item h => exact h.spaced_head rest
  | items h =>
    rw [List.append_assoc]
    exact h.spaced_head _

/-- The members of an object begin with a quote. -/
theorem Written.members_head (h : Written .members cs) (rest : List Char) :
    ∃ tail, skipSpace (cs ++ rest) = '"' :: tail := by
  cases h with
  | member hb | members hb =>
    rw [List.append_assoc, skipSpace_heading hb]
    exact ⟨_, rfl⟩

/-- The name of a member takes up some of the text. -/
theorem one_le_length_heading (b body b' : List Char) : 1 ≤ (heading b body b').length := by
  simp [heading, between]
  omega

/-- A mark may follow a value. -/
theorem ends_cons {c : Char} (h : c ∈ [',', ']', '\x7d']) (cs : List Char) : Ends (c :: cs) := by
  rintro _ ⟨⟩
  exact .inr h

/-- How each kind of phrase is passed over. What stands in a bracket is passed over with the end of
the bracket. -/
def Passed (opened : List Bracket) (rest : List Char) : Phrase → List Char → Prop
  | .value, cs => Ends rest → Passes cs.length .value opened (cs ++ rest) .after opened rest
  | .spaced, cs => opened ≠ [] → Ends rest →
    Passes cs.length .value opened (cs ++ rest) .after opened rest
  | .items, cs =>
    Passes (cs.length + 1) .value (.list :: opened) (cs ++ ']' :: rest) .after opened rest
  | .members, cs =>
    Passes (cs.length + 1) .member (.object :: opened) (cs ++ '\x7d' :: rest) .after opened rest

/-- Every phrase of JSON is passed over. -/
theorem Written.passed {phrase : Phrase} (h : Written phrase cs) (opened : List Bracket)
    (rest : List Char) : Passed opened rest phrase cs := by
  induction h generalizing opened rest with
  | word h =>
    intro hrest
    simp only [words, List.mem_cons, List.not_mem_nil, or_false] at h
    obtain rfl | rfl | rfl := h <;> exact (Passes.scalar rfl (by decide) rfl).mono (by decide)
  | number h =>
    intro hrest
    have hskip := skipScalar_number h hrest
    obtain ⟨c, tail, rfl, hspace, hc⟩ := h.head
    exact (Passes.scalar hspace (by simp_all) hskip).mono (by simp)
  | @text body h =>
    intro hrest
    have hskip : skipScalar ('"' :: (body ++ '"' :: rest)) = .ok rest := skipBody_quoted h rest
    have hbetween : between body ++ rest = '"' :: (body ++ '"' :: rest) := by simp [between]
    rw [hbetween]
    exact (Passes.scalar rfl (by decide) hskip).mono (by simp [between])
  | @emptyList b hb =>
    intro hrest
    rw [List.cons_append, List.append_assoc]
    exact (Passes.emptyList hb).mono (by simp)
  | list h ih =>
    intro hrest
    rw [List.cons_append, List.append_assoc]
    obtain ⟨c, tail, hcs, hc⟩ := h.items_head (']' :: rest)
    refine ((Passes.openList hcs (by simp_all)).trans (ih opened rest)).mono ?_
    simp
    omega
  | @emptyObject b hb =>
    intro hrest
    rw [List.cons_append, List.append_assoc]
    exact (Passes.emptyObject hb).mono (by simp)
  | object h ih =>
    intro hrest
    rw [List.cons_append, List.append_assoc]
    obtain ⟨tail, hcs⟩ := h.members_head ('\x7d' :: rest)
    refine ((Passes.openObject hcs (by decide)).trans (ih opened rest)).mono ?_
    simp
    omega
  | @spaced b cs b' hb h hb' ih =>
    intro hopened hrest
    rw [List.append_assoc, List.append_assoc]
    have hvalue := ih opened (b' ++ rest) (ends_append hb' hrest)
    have htail : Passes 0 .after opened (b' ++ rest) .after opened rest :=
      Passes.refl.blanks hb' fun _ => hopened
    refine ((hvalue.blanks hb (by simp)).trans htail).mono ?_
    simp
    omega
  | item h ih =>
    have hitem := ih (.list :: opened) (']' :: rest) (by simp) (ends_cons (by decide) rest)
    exact hitem.trans .closeList
  | @items cs cs' h h' ih ih' =>
    have hitem := ih (.list :: opened) (',' :: (cs' ++ ']' :: rest)) (by simp)
      (ends_cons (by decide) _)
    rw [Passed, List.append_assoc, List.cons_append]
    refine ((hitem.trans .comma).trans (ih' opened rest)).mono ?_
    simp
    omega
  | @member b body b' cs hb hname hb' h ih =>
    have hvalue := ih (.object :: opened) ('\x7d' :: rest) (by simp)
      (ends_cons (by decide) rest)
    have hlength := one_le_length_heading b body b'
    rw [Passed, List.append_assoc]
    refine (((Passes.name hb hname hb').trans hvalue).trans .closeObject).mono ?_
    simp
    omega
  | @members b body b' cs cs' hb hname hb' h h' ih ih' =>
    have hvalue := ih (.object :: opened) (',' :: (cs' ++ '\x7d' :: rest)) (by simp)
      (ends_cons (by decide) _)
    have hlength := one_le_length_heading b body b'
    rw [Passed, List.append_assoc, List.append_assoc, List.cons_append]
    refine ((((Passes.name hb hname hb').trans hvalue).trans .commaMember).trans
      (ih' opened rest)).mono ?_
    simp
    omega

/-- A value with blanks in front is passed over, and what follows is left. -/
theorem skipValue_written {b : List Char} (hb : Blanks b) (h : Written .value cs)
    (hrest : Ends rest) : skipValue (b ++ (cs ++ rest)) = .ok rest := by
  obtain ⟨steps, hsteps, hpasses⟩ := (h.passed [] rest hrest).blanks hb (by simp)
  obtain ⟨fuel, hfuel⟩ : ∃ fuel, 2 * (b ++ (cs ++ rest)).length + 2 = steps + (fuel + 1) := by
    refine ⟨2 * (b ++ (cs ++ rest)).length + 1 - steps, ?_⟩
    simp
    omega
  rw [skipValue, hfuel, hpasses]
  rfl

end ShortLinks.Json
