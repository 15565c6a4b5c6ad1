import ShortLinks.Json.Fields
import ShortLinks.Proofs.Json.Quoting

/-!
# Written objects as values

An object whose members are quoted texts can be met where any value is wanted: passed over under a
name that nobody asked for, or read as a value of its own. Both readers go through it member by
member and come out behind its closing brace, however much fuel they have left.
-/

namespace ShortLinks.Json

variable {opened : List Bracket} {name value cs rest out : List Char}

/-- The name of a written member is passed over with its colon. -/
theorem skipName_quote (name rest : List Char) :
    skipName (quote name ++ ':' :: rest) = .ok rest := by
  rw [skipName, skipSpace_quote, quote_append]
  simp only [skipBody_escape, except_ok_bind]
  rfl

/-- A written text is passed over as a value. -/
theorem skipFrom_quote (fuel : Nat) (opened : List Bracket) (value rest : List Char) :
    skipFrom (fuel + 1) .value opened (quote value ++ rest) = skipFrom fuel .after opened rest := by
  rw [skipFrom, skipSpace_quote, quote_append]
  simp [skipScalar, skipBody_escape]

/-- The rest of a value can be passed over, with fuel enough. -/
def Skips (expect : Expect) (opened : List Bracket) (cs out : List Char) : Prop :=
  ∃ fuel, skipFrom fuel expect opened cs = .ok out

namespace Skips

/-- The opening brace of an object is passed over. -/
theorem brace (h : Skips .value opened cs out)
    (hcs : skipSpace cs = '\x7b' :: (quote name ++ rest)) :
    Skips .member (.object :: opened) (quote name ++ rest) out := by
  obtain ⟨_ | fuel, h⟩ := h
  · cases h
  · have hspace : skipSpace (quote name ++ rest) = '"' :: (escape name ++ '"' :: rest) := by
      rw [skipSpace_quote, quote_append]
    rw [skipFrom, hcs] at h
    simp only [hspace] at h
    rw [quote_append]
    exact ⟨fuel, h⟩

/-- A member is passed over. -/
theorem member (h : Skips .member opened (quote name ++ ':' :: (quote value ++ rest)) out) :
    Skips .after opened rest out := by
  obtain ⟨_ | _ | fuel, h⟩ := h
  · cases h
  · rw [skipFrom, skipName_quote] at h
    cases h
  · rw [skipFrom, skipName_quote, except_ok_bind, skipFrom_quote] at h
    exact ⟨fuel, h⟩

/-- A comma leads to the next member. -/
theorem comma (h : Skips .after (.object :: opened) (',' :: rest) out) :
    Skips .member (.object :: opened) rest out := by
  obtain ⟨_ | fuel, h⟩ := h
  · cases h
  · exact ⟨fuel, h⟩

/-- A closing brace leads out of the object. -/
theorem close (h : Skips .after (.object :: opened) ('\x7d' :: rest) out) :
    Skips .after opened rest out := by
  obtain ⟨_ | fuel, h⟩ := h
  · cases h
  · exact ⟨fuel, h⟩

/-- At the end of a text only a value outside all brackets has been passed over. -/
theorem nothing (h : Skips .after opened [] out) : out = [] := by
  obtain ⟨_ | fuel, h⟩ := h
  · cases h
  · match opened with
    | [] =>
      cases h
      rfl
    | .list :: _ => cases h
    | .object :: _ => cases h

end Skips

/-- The name of a written member is read with its colon. -/
theorem readName_quote (s : String) (rest : List Char) :
    readName (quote s.toList ++ ':' :: rest) = .ok (s, rest) := by
  rw [readName, skipSpace_quote, quote_append]
  simp only [readString_escape, except_ok_bind]
  rfl

/-- A part of a value can be read, with fuel enough. -/
def Reads (depth : Nat) (part : Part) (cs out : List Char) : Prop :=
  ∃ fuel v, readPart fuel depth part cs = .ok (v, out)

namespace Reads

variable {depth : Nat} {read : List (String × Value)}

/-- The opening brace of an object is read, and brackets may nest less deeply inside. -/
theorem brace (h : Reads depth .value cs out)
    (hcs : skipSpace cs = '\x7b' :: (quote name ++ rest)) :
    ∃ depth, Reads depth (.members []) (quote name ++ rest) out := by
  obtain ⟨_ | fuel, v, h⟩ := h
  · cases h
  · have hspace : skipSpace (quote name ++ rest) = '"' :: (escape name ++ '"' :: rest) := by
      rw [skipSpace_quote, quote_append]
    rw [readPart, hcs] at h
    simp only [hspace] at h
    cases depth with
    | zero => cases h
    | succ depth =>
      rw [quote_append]
      exact ⟨depth, fuel, v, h⟩

/-- A member with a comma behind it is read, and a further member comes next. -/
theorem comma {name value : String} (h : Reads depth (.members read)
      (quote name.toList ++ ':' :: (quote value.toList ++ ',' :: rest)) out) :
    ∃ read, Reads depth (.members read) rest out := by
  obtain ⟨_ | _ | fuel, v, h⟩ := h
  · cases h
  · rw [readPart, readName_quote] at h
    cases h
  · rw [readPart, readName_quote] at h
    simp only [except_ok_bind, readPart_quote] at h
    exact ⟨_, fuel + 1, v, h⟩

/-- Behind the last member the object ends with its brace. -/
theorem close {name value : String} (h : Reads depth (.members read)
      (quote name.toList ++ ':' :: (quote value.toList ++ '\x7d' :: rest)) out) : out = rest := by
  obtain ⟨_ | _ | fuel, v, h⟩ := h
  · cases h
  · rw [readPart, readName_quote] at h
    cases h
  · rw [readPart, readName_quote] at h
    simp only [except_ok_bind, readPart_quote] at h
    cases h
    rfl

end Reads

end ShortLinks.Json
