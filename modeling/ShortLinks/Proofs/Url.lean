import Mathlib.Data.List.Infix
import ShortLinks.Url

/-!
# What the pattern of URLs says

A URL is a text in which a pattern is found: an optional scheme, an optional `www.` and then a dot
in a run of visible characters. The pattern is searched for, so a match may begin anywhere. Here the
pattern is taken for what it says, as the texts that match it, and compared with the test that is
run: both ask for a dot between two characters that are not blank. Where an optional part matches,
what follows it is found without it, so the optional parts decide nothing.
-/

namespace ShortLinks.Url

/-- The patterns of which the pattern of URLs is made. -/
inductive Pattern
  | text (word : String)
  | visible
  | seq (first second : Pattern)
  | optional (part : Pattern)
  | repeated (part : Pattern)

namespace Pattern

/-- The texts that match a pattern from their first character to their last. -/
inductive Matches : Pattern → List Char → Prop
  | text (word : String) : Matches (.text word) word.toList
  | visible {c : Char} (h : Text.isBlank c = false) : Matches .visible [c]
  | seq {p q : Pattern} {s t : List Char} (hs : Matches p s) (ht : Matches q t) :
      Matches (.seq p q) (s ++ t)
  | absent (p : Pattern) : Matches (.optional p) []
  | present {p : Pattern} {s : List Char} (h : Matches p s) : Matches (.optional p) s
  | once {p : Pattern} {s : List Char} (h : Matches p s) : Matches (.repeated p) s
  | more {p : Pattern} {s t : List Char} (hs : Matches p s) (ht : Matches (.repeated p) t) :
      Matches (.repeated p) (s ++ t)

/-- A pattern is found in a text when some stretch of the text matches it. -/
def FoundIn (p : Pattern) (cs : List Char) : Prop := ∃ s, s <:+: cs ∧ p.Matches s

/-- The scheme of a web address. -/
def webScheme : Pattern := .seq (.text "http") (.seq (.optional (.text "s")) (.text "://"))

/-- A dot in a run of visible characters, neither the first nor the last of them. -/
def dotted : Pattern := .seq (.repeated .visible) (.seq (.text ".") (.repeated .visible))

/-- The pattern of URLs. -/
def url : Pattern :=
  .seq (.optional webScheme) (.seq (.optional (.text "www.")) dotted)

/-- How a pattern is written. -/
def written : Pattern → List Char
  | .text word => word.toList.flatMap fun c => if c = '.' then ['\\', c] else [c]
  | .visible => ['\\', 'S']
  | .seq p q => p.written ++ q.written
  | .optional (.text word) =>
    if word.length = 1 then (text word).written ++ ['?'] else '(' :: (text word).written ++ [')', '?']
  | .optional p => '(' :: p.written ++ [')', '?']
  | .repeated p => p.written ++ ['+']

example : url.written = "(https?://)?(www\\.)?\\S+\\.\\S+".toList := by decide +kernel

/-- A run of visible characters is a text with at least one character and no blank one. -/
theorem matches_run_iff {s : List Char} :
    Matches (.repeated .visible) s ↔ s ≠ [] ∧ ∀ c ∈ s, Text.isBlank c = false := by
  constructor
  · intro h
    generalize hp : Pattern.repeated .visible = p at h
    induction h with
    | once h =>
      cases hp
      cases h with
      | visible h => simpa using h
    | more hs ht _ ih =>
      cases hp
      cases hs with
      | visible h => simpa using ⟨h, (ih rfl).2⟩
    | text | visible | seq | absent | present => cases hp
  · rintro ⟨hne, h⟩
    induction s with
    | nil => exact absurd rfl hne
    | cons c s ih =>
      have hc : Matches .visible [c] := .visible (h c List.mem_cons_self)
      cases s with
      | nil => exact .once hc
      | cons d s =>
        have hrest := ih (List.cons_ne_nil d s) fun x hx => h x (List.mem_cons_of_mem c hx)
        exact .more hc hrest

/-- An optional part in front does not decide whether a pattern is found. -/
theorem foundIn_optional_seq (p q : Pattern) (cs : List Char) :
    (seq (optional p) q).FoundIn cs ↔ q.FoundIn cs := by
  constructor
  · rintro ⟨_, hin, hmatches⟩
    cases hmatches with
    | seq hs ht => exact ⟨_, (List.suffix_append _ _).isInfix.trans hin, ht⟩
  · rintro ⟨t, hin, ht⟩
    exact ⟨t, hin, .seq (.absent p) ht⟩

/-- A dot in a run is found where a dot stands between two visible characters. -/
theorem dotted_foundIn_iff (cs : List Char) :
    dotted.FoundIn cs ↔
      ∃ x y, [x, '.', y] <:+: cs ∧ Text.isBlank x = false ∧ Text.isBlank y = false := by
  constructor
  · rintro ⟨_, hin, hmatches⟩
    cases hmatches with
    | @seq _ _ run _ hrun hrest =>
      cases hrest with
      | @seq _ _ _ run' hdot hrun' =>
        cases hdot
        obtain ⟨hne, hvisible⟩ := matches_run_iff.1 hrun
        obtain ⟨hne', hvisible'⟩ := matches_run_iff.1 hrun'
        -- the last character of the run before the dot, and the first of the run behind it
        obtain ⟨front, x, rfl⟩ := List.eq_nil_or_concat run |>.resolve_left hne
        obtain ⟨y, back, rfl⟩ := List.exists_cons_of_ne_nil hne'
        refine ⟨x, y, List.IsInfix.trans ⟨front, back, ?_⟩ hin, hvisible x (by simp),
          hvisible' y List.mem_cons_self⟩
        simp
  · rintro ⟨x, y, hin, hx, hy⟩
    exact ⟨_, hin, .seq (.once (.visible hx)) (.seq (.text ".") (.once (.visible hy)))⟩

/-- What the optional parts stand in front of is what is looked for. -/
theorem url_foundIn_iff (cs : List Char) : url.FoundIn cs ↔ dotted.FoundIn cs :=
  (foundIn_optional_seq _ _ cs).trans (foundIn_optional_seq _ _ cs)

end Pattern

/-- The test that is run asks for a dot between two visible characters. -/
theorem hasInnerDot_iff (cs : List Char) :
    hasInnerDot cs = true ↔
      ∃ x y, [x, '.', y] <:+: cs ∧ Text.isBlank x = false ∧ Text.isBlank y = false := by
  induction cs with
  | nil => simp [hasInnerDot]
  | cons x rest ih =>
    unfold hasInnerDot
    simp only [Bool.or_eq_true, ih, List.infix_cons_iff, or_and_right, exists_or]
    refine or_congr_left ?_
    -- the test here looks at the next two characters alone
    split
    · simp
    · next hno =>
      refine ⟨fun h => absurd h Bool.false_ne_true, ?_⟩
      rintro ⟨_, y, ⟨back, h⟩, -⟩
      cases h
      exact (hno y back rfl).elim

/-- Whether a text is accepted is a matter of its dots; an empty text only has a message of its
own. -/
theorem validate_eq (url : String) : validate url =
    if hasInnerDot url.toList then .ok ()
    else .error ⟨.invalidUrl,
      if url = "" then "URL cannot be empty" else "'" ++ url ++ "' is not a valid URL"⟩ := by
  rw [validate]
  split
  · next h =>
    subst h
    rfl
  · rfl

/-- A URL is accepted exactly if a dot stands in it between two characters that are not blank, and
reported as an invalid URL otherwise. That is the case exactly if the pattern of URLs is found in
it, for which the parts in front of the dotted run may be left out, one or both. What is accepted
is accepted within any text. -/
theorem accepted_iff_inner_dot (u : String) :
    (validate u = .ok () ↔
      ∃ x y, [x, '.', y] <:+: u.toList ∧ Text.isBlank x = false ∧ Text.isBlank y = false) ∧
    (validate u = .ok () ∨ ∃ message, validate u = .error ⟨.invalidUrl, message⟩) ∧
    (validate u = .ok () ↔ Pattern.url.FoundIn u.toList) ∧
    (Pattern.url.FoundIn u.toList ↔ Pattern.dotted.FoundIn u.toList) ∧
    ∀ before after, validate u = .ok () → validate (before ++ u ++ after) = .ok () := by
  have haccepted (v : String) : validate v = .ok () ↔
      ∃ x y, [x, '.', y] <:+: v.toList ∧ Text.isBlank x = false ∧ Text.isBlank y = false := by
    rw [← hasInnerDot_iff, validate_eq]
    split
    · next h => simp [h]
    · next h => simp [h]
  refine ⟨haccepted u, ?_, ?_, Pattern.url_foundIn_iff _, fun before after h => ?_⟩
  · rw [validate_eq]
    split
    · exact .inl rfl
    · exact .inr ⟨_, rfl⟩
  · rw [haccepted, Pattern.url_foundIn_iff, Pattern.dotted_foundIn_iff]
  · obtain ⟨x, y, hin, hxy⟩ := (haccepted u).1 h
    refine (haccepted _).2 ⟨x, y, hin.trans ?_, hxy⟩
    rw [String.toList_append, String.toList_append]
    exact List.infix_append _ _ _

/-- A URL is accepted in the middle of a sentence, and a dot that begins it is not enough. -/
theorem accepted_iff_inner_dot_sentence :
    validate ("go to " ++ "x.." ++ " now") = .ok () ∧ validate ".com" ≠ .ok () := by
  obtain ⟨haccepted, -, -, -, hwithin⟩ := accepted_iff_inner_dot "x.."
  refine ⟨hwithin _ _ (haccepted.2 ⟨'x', '.', by simp, rfl, rfl⟩), fun h => ?_⟩
  obtain ⟨x, y, hin, -⟩ := (accepted_iff_inner_dot ".com").1.1 h
  have hno : ¬[x, '.', y] <:+: ".com".toList := by simp [List.infix_cons_iff]
  exact hno hin

end ShortLinks.Url
