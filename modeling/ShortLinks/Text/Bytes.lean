/-!
# Texts as octets

A file holds octets. This module writes a text as its UTF-8 octets, reads octets back strictly
(`decode?`) or with the replacement character for what is not UTF-8 (`decodeLossy`), and cuts a
file into lines. A line ends at octet 10, which is no part of it; what follows the last such
octet is a line only when it is not empty.
-/

namespace ShortLinks

/-- The content of a file. -/
abbrev Bytes := List UInt8

namespace Text

/-- The UTF-8 octets of a text. -/
def encode (s : String) : Bytes := s.toByteArray.data.toList

/-- The text that the octets spell, if they are UTF-8. -/
def decode? (bytes : Bytes) : Option String := String.fromUTF8? ⟨bytes.toArray⟩

/-- A text is read back from its octets. -/
theorem decode?_encode (s : String) : decode? (encode s) = some s := by
  have h : (⟨(encode s).toArray⟩ : ByteArray) = s.toByteArray := by simp [encode]
  rw [decode?, h, String.fromUTF8?, dif_pos s.isValidUTF8]
  rfl

/-- Texts with the same octets are the same. -/
theorem encode_injective {s t : String} (h : encode s = encode t) : s = t := by
  have hread := congrArg decode? h
  rwa [decode?_encode, decode?_encode, Option.some.injEq] at hread

/-- The octets of a text are those of its characters. -/
theorem mem_encode_ofList (b : UInt8) (cs : List Char) :
    b ∈ encode (String.ofList cs) ↔ ∃ c ∈ cs, b ∈ String.utf8EncodeChar c := by
  simp [encode, List.utf8Encode]

/-- An octet below 128 is written for no character but the one with its number. -/
theorem toNat_eq_of_mem_utf8EncodeChar {c : Char} {b : UInt8} (hb : b < 128)
    (h : b ∈ String.utf8EncodeChar c) : c.toNat = b.toNat := by
  have hv : c.val.toNat = c.toNat := rfl
  have hb : b.toNat < 128 := hb
  revert h
  fun_cases String.utf8EncodeChar c with
  | _ =>
    simp [← UInt8.toNat_inj]
    omega

/-- Only the end of a line is written with octet 10. -/
theorem eq_newline_of_mem_utf8EncodeChar {c : Char} (h : 10 ∈ String.utf8EncodeChar c) :
    c = '\n' :=
  Char.toNat_inj.mp (toNat_eq_of_mem_utf8EncodeChar (by decide) h)

/-- A text without controls has no octet of one. -/
theorem printable_encode {cs : List Char} (h : ∀ c ∈ cs, 0x20 ≤ c.toNat) :
    ∀ b ∈ encode (String.ofList cs), 0x20 ≤ b := by
  intro b hb
  obtain ⟨c, hc, hmem⟩ := (mem_encode_ofList b cs).1 hb
  by_cases hascii : b < 128
  · have hcontrol := h c hc
    rwa [toNat_eq_of_mem_utf8EncodeChar hascii hmem] at hcontrol
  · exact UInt8.le_trans (by decide) (UInt8.not_lt.1 hascii)

/-- A text of one line has no octet 10. -/
theorem newline_not_mem_encode {cs : List Char} (h : '\n' ∉ cs) :
    10 ∉ encode (String.ofList cs) := by
  rw [mem_encode_ofList]
  rintro ⟨c, hc, hb⟩
  exact h (eq_newline_of_mem_utf8EncodeChar hb ▸ hc)

/-- Add an octet in front of the first of some lines. -/
def consLine (b : UInt8) : List Bytes → List Bytes
  | [] => [[b]]
  | line :: rest => (b :: line) :: rest

/-- Cut a file into lines at octet 10. -/
def splitLines (bytes : Bytes) : List Bytes :=
  bytes.foldr (fun b lines => if b = 10 then [] :: lines else consLine b lines) []

/-- Nothing has no lines. -/
@[simp] theorem splitLines_nil : splitLines [] = [] := rfl

/-- A line and its end come off a file together. -/
theorem splitLines_line (line rest : Bytes) (h : 10 ∉ line) :
    splitLines (line ++ 10 :: rest) = line :: splitLines rest := by
  induction line with
  | nil => simp [splitLines]
  | cons b line ih =>
    have hb : b ≠ 10 := fun e => h (by simp [e])
    have ih := ih fun hm => h (List.mem_cons_of_mem _ hm)
    simp only [splitLines, List.cons_append, List.foldr_cons, if_neg hb] at ih ⊢
    rw [ih, consLine]

/-- Drop one carriage return at the end. -/
def dropReturn (line : List Char) : List Char :=
  if line.getLast? = some '\r' then line.dropLast else line

/-- The lines of a text. A carriage return in front of the end of a line belongs to that end. -/
def lines (s : String) : List String :=
  let parts := s.splitOn "\n"
  let ended := parts.dropLast.map fun line => String.ofList (dropReturn line.toList)
  match parts.getLast? with
  | none | some "" => ended
  | some last => ended ++ [last]

/-- How many octets continue a character that starts with `b`, and the bounds of the next one. -/
def continuation? (b : UInt8) : Option (Nat × UInt8 × UInt8) :=
  if b < 0x80 then some (0, 0x80, 0xBF)
  else if b < 0xC2 then none
  else if b < 0xE0 then some (1, 0x80, 0xBF)
  else if b = 0xE0 then some (2, 0xA0, 0xBF)
  else if b = 0xED then some (2, 0x80, 0x9F)
  else if b < 0xF0 then some (2, 0x80, 0xBF)
  else if b = 0xF0 then some (3, 0x90, 0xBF)
  else if b < 0xF4 then some (3, 0x80, 0xBF)
  else if b = 0xF4 then some (3, 0x80, 0x8F)
  else none

/-- The longest start of `bytes` that continues a character owing `owed` octets. -/
def continued : Nat → UInt8 → UInt8 → Bytes → Bytes
  | 0, _, _, _ => []
  | _, _, _, [] => []
  | owed + 1, low, high, b :: rest =>
    if low ≤ b && b ≤ high then b :: continued owed 0x80 0xBF rest else []

/-- Cut octets into pieces: whole characters, and the longest starts of characters that are broken
off, each with whether it is whole. -/
def pieces (bytes : Bytes) : List (Bytes × Bool) :=
  match bytes with
  | [] => []
  | b :: rest =>
    match continuation? b with
    | none => ([b], false) :: pieces rest
    | some (owed, low, high) =>
      let tail := continued owed low high rest
      (b :: tail, tail.length == owed) :: pieces (rest.drop tail.length)
termination_by bytes.length
decreasing_by
  · simp
  · simp only [List.length_drop, List.length_cons]; omega

/-- Read octets as text, with U+FFFD for every longest piece that is not UTF-8. -/
def decodeLossy (bytes : Bytes) : String :=
  match decode? bytes with
  | some s => s
  | none =>
    String.join ((pieces bytes).map fun (piece, whole) =>
      if whole then (decode? piece).getD "\uFFFD" else "\uFFFD")

end Text

end ShortLinks
