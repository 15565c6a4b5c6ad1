import ShortLinks.Proofs.Json.Grammar
import ShortLinks.Proofs.Run

/-!
# Spellings are read

A quoted text ends at the first quote that stands by itself. What stands in front of that quote is
read exactly if it spells characters, and then the value is what it spells. It is passed over
exactly if it may stand between quotes at all.
-/

namespace ShortLinks.Json

variable {cs body value rest after : List Char} {a b c d : Char} {n : Nat}

/-- The letter of an escape is none that begins a number. -/
theorem ne_u_of_escapeLetter? {l : Char} (h : escapeLetter? l = some c) : l ≠ 'u' := by
  rintro rfl
  cases h

/-- A text without quotes, backslashes and controls spells itself. -/
theorem spells_self (h : ∀ c ∈ value, c ≠ '"' ∧ c ≠ '\\' ∧ 0x20 ≤ c.toNat) :
    Spells value value := by
  induction value with
  | nil => exact .nil
  | cons c value ih =>
    obtain ⟨⟨hquote, hslash, hc⟩, h⟩ := List.forall_mem_cons.1 h
    exact .plain hquote hslash hc (ih h)

/-- Whatever spells characters may stand between quotes. -/
theorem Spells.quoted (h : Spells value body) : Quoted body := by
  induction h with
  | nil => exact .nil
  | plain hquote hslash hc _ ih => exact .plain hquote hslash hc ih
  | letter hl _ ih => exact .letter hl ih
  | unit hn _ _ _ ih => exact .unit hn ih
  | pair hn hn' _ _ _ ih => exact .unit hn (.unit hn' ih)

/-- No surrogate is both halves of a pair. -/
theorem isLowSurrogate_of_isHighSurrogate (h : isHighSurrogate n) : isLowSurrogate n = false := by
  simp only [isHighSurrogate, isLowSurrogate, Bool.and_eq_true, decide_eq_true_eq,
    Bool.and_eq_false_iff, decide_eq_false_iff_not] at h ⊢
  omega

/-! ## Passing over -/

/-- What may stand between quotes is passed over with the quote behind it. -/
theorem skipBody_quoted (h : Quoted body) (rest : List Char) :
    skipBody (body ++ '"' :: rest) = .ok rest := by
  induction h with
  | nil => rfl
  | plain hquote hslash hc _ ih => simp [skipBody, hslash, Nat.not_lt.2 hc, ih]
  | letter hl _ ih => simp [skipBody, hl, ne_u_of_escapeLetter? hl, ih]
  | unit hn _ ih => simp [skipBody, hn, ih]

/-- What is passed over may stand between quotes. -/
theorem quoted_of_skipBody (h : skipBody cs = .ok rest) :
    ∃ body, Quoted body ∧ cs = body ++ '"' :: rest := by
  fun_induction skipBody cs with
  | case2 after =>
    cases h
    exact ⟨[], .nil, rfl⟩
  | case3 a b c d cs hunit ih =>
    obtain ⟨n, hn⟩ := Option.isSome_iff_exists.1 hunit
    obtain ⟨body, hbody, rfl⟩ := ih h
    exact ⟨_, .unit hn hbody, rfl⟩
  | case5 l cs _ hletter ih =>
    obtain ⟨c, hl⟩ := Option.isSome_iff_exists.1 hletter
    obtain ⟨body, hbody, rfl⟩ := ih h
    exact ⟨_, .letter hl hbody, rfl⟩
  | case9 c cs hquote _ _ hslash hcontrol ih =>
    obtain ⟨body, hbody, rfl⟩ := ih h
    exact ⟨_, .plain hquote hslash (Nat.le_of_not_lt hcontrol) hbody, rfl⟩
  | _ => cases h

/-- A quoted text ends at one place only. -/
theorem quoted_append_inj {body' : List Char} (h : Quoted body) (h' : Quoted body')
    (heq : body ++ '"' :: rest = body' ++ '"' :: after) : body = body' ∧ rest = after := by
  have hrest : rest = after := by
    have hskip := skipBody_quoted h rest
    rw [heq, skipBody_quoted h'] at hskip
    cases hskip
    rfl
  subst hrest
  exact ⟨List.append_cancel_right heq, rfl⟩

/-! ## Reading -/

/-- A character is put in front of what was read, if anything was. -/
theorem inFront_eq_ok {read : Except Finding (List Char × List Char)} :
    inFront c read = .ok (value, rest) ↔
      ∃ tail, read = .ok (tail, rest) ∧ value = c :: tail := by
  rw [inFront, except_map_eq_ok, Prod.exists]
  constructor
  · rintro ⟨tail, _, hread, h⟩
    cases h
    exact ⟨tail, hread, rfl⟩
  · rintro ⟨tail, hread, rfl⟩
    exact ⟨tail, rest, hread, rfl⟩

/-- What spells characters is read as them. -/
theorem readBody_spells (h : Spells value body) (rest : List Char) :
    readBody (body ++ '"' :: rest) = .ok (value, rest) := by
  induction h with
  | nil => rfl
  | plain hquote hslash hc _ ih =>
    simp [readBody, hslash, Nat.not_lt.2 hc, ih, inFront_eq_ok]
  | letter hl _ ih => simp [readBody, hl, ne_u_of_escapeLetter? hl, ih, inFront_eq_ok]
  | unit hn hhigh hlow _ ih => simp [readBody, hn, hhigh, hlow, ih, inFront_eq_ok]
  | pair hn hn' hhigh hlow _ ih =>
    simp [readBody, hn, hn', hhigh, hlow, isLowSurrogate_of_isHighSurrogate hhigh, ih,
      inFront_eq_ok]

/-- What is read as characters spells them. -/
theorem spells_of_readBody (h : readBody cs = .ok (value, rest)) :
    ∃ body, Spells value body ∧ cs = body ++ '"' :: rest := by
  fun_induction readBody cs generalizing value with
  | case2 after =>
    cases h
    exact ⟨[], .nil, rfl⟩
  | case6 a b c d high hhigh hsingle hfirst a' b' c' d' cs low hlow hsecond ih =>
    obtain ⟨tail, hread, rfl⟩ := inFront_eq_ok.1 h
    obtain ⟨body, hbody, rfl⟩ := ih hread
    exact ⟨_, .pair hhigh hlow hfirst hsecond hbody, rfl⟩
  | case9 a b c d cs n hn hlow hhigh ih =>
    obtain ⟨tail, hread, rfl⟩ := inFront_eq_ok.1 h
    obtain ⟨body, hbody, rfl⟩ := ih hread
    exact ⟨_, .unit hn (Bool.eq_false_iff.2 hhigh) (Bool.eq_false_iff.2 hlow) hbody, rfl⟩
  | case11 l cs _ letter hl ih =>
    obtain ⟨tail, hread, rfl⟩ := inFront_eq_ok.1 h
    obtain ⟨body, hbody, rfl⟩ := ih hread
    exact ⟨_, .letter hl hbody, rfl⟩
  | case14 c cs hquote _ _ hslash hcontrol ih =>
    obtain ⟨tail, hread, rfl⟩ := inFront_eq_ok.1 h
    obtain ⟨body, hbody, rfl⟩ := ih hread
    exact ⟨_, .plain hquote hslash (Nat.le_of_not_lt hcontrol) hbody, rfl⟩
  | _ => cases h

/-- A text is read in front of its closing quote, in any of its spellings and nothing else. -/
theorem readString_eq_ok {s : String} : readString cs = .ok (s, rest) ↔
    ∃ body, Spells s.toList body ∧ cs = body ++ '"' :: rest := by
  rw [readString, except_map_eq_ok, Prod.exists]
  constructor
  · rintro ⟨value, after, hread, h⟩
    cases h
    rw [String.toList_ofList]
    exact spells_of_readBody hread
  · rintro ⟨body, hbody, rfl⟩
    exact ⟨s.toList, rest, readBody_spells hbody rest, Prod.ext String.ofList_toList rfl⟩

/-- Every spelling of a text is read as the text. -/
theorem readString_spells {s : String} (h : Spells s.toList body) (after : List Char) :
    readString (body ++ '"' :: after) = .ok (s, after) :=
  readString_eq_ok.2 ⟨body, h, rfl⟩

/-- A quoted text is read as the text that it spells. -/
theorem readString_eq_ok_iff (hbody : Quoted body) {s : String} :
    readString (body ++ '"' :: after) = .ok (s, rest) ↔ rest = after ∧ Spells s.toList body := by
  rw [readString_eq_ok]
  constructor
  · rintro ⟨body', hspells, heq⟩
    obtain ⟨rfl, rfl⟩ := quoted_append_inj hbody hspells.quoted heq
    exact ⟨rfl, hspells⟩
  · rintro ⟨rfl, hspells⟩
    exact ⟨body, hspells, rfl⟩

end ShortLinks.Json
