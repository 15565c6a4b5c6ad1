import ShortLinks.Batch
import ShortLinks.Proofs.Json.Textual

/-!
# Batch files are read completely or refused

A batch file is an array whose items say an id and a URL: an object that gives each of the two names
once, or a list of two texts. A file is read exactly if it is one and no id comes twice, and then
every item is in the map under its own id. If an id comes twice, the first item that repeats one is
named and nothing is read. Filing goes through the items with all items before in the map, under
ids that are distinct so far; that carries the induction.
-/

namespace ShortLinks.Batch

open Json

variable {items : List (String × String)} {item : String × String} {text cs rest : List Char}

/-- An item that says an id and a URL. The members of an object have texts for names, and `valuesOf`
looks for a name in all its spellings; other members may have any value. -/
inductive ItemText : String × String → List Char → Prop
  | object {id url : String} {ms : List (String × List Char)} {text idBody urlBody : List Char}
      (h : ObjectText ms text) (hid : valuesOf "correlation_id" ms = [between idBody])
      (hidBody : Spells id.toList idBody) (hurl : valuesOf "original_url" ms = [between urlBody])
      (hurlBody : Spells url.toList urlBody) : ItemText (id, url) text
  | pair {id url : String} {text : List Char} (h : ListText [id, url] text) :
      ItemText (id, url) text

/-- Items as they stand between the brackets of an array. -/
inductive ItemsText : List (String × String) → List Char → Prop
  | item {item : String × String} {b text b' : List Char} (hb : Blanks b) (h : ItemText item text)
      (hb' : Blanks b') : ItemsText [item] (b ++ (text ++ b'))
  | items {item : String × String} {items : List (String × String)} {b text b' cs : List Char}
      (hb : Blanks b) (h : ItemText item text) (hb' : Blanks b') (h' : ItemsText items cs) :
      ItemsText (item :: items) (b ++ (text ++ (b' ++ ',' :: cs)))

/-- A file that is an array of the given items, with blanks around. -/
inductive FileText : List (String × String) → List Char → Prop
  | empty {b b' b'' : List Char} (hb : Blanks b) (hb' : Blanks b') (hb'' : Blanks b'') :
      FileText [] (b ++ '[' :: (b' ++ ']' :: b''))
  | array {items : List (String × String)} {b cs b' : List Char} (hb : Blanks b)
      (h : ItemsText items cs) (hb' : Blanks b') : FileText items (b ++ '[' :: (cs ++ ']' :: b'))

/-! ## Items -/

/-- An item is two texts, both of them required. -/
theorem textual_shape : shape.Textual where
  some := by decide
  names := by decide
  texts := by decide

/-- Two cells are an item when both are texts. -/
theorem ofCells_eq_ok {cells : List Cell} :
    ofCells cells = .ok item ↔ cells = [.text item.1, .text item.2] := by
  rw [ofCells.eq_def]
  split
  · simp [Prod.ext_iff]
  · next hother =>
    refine iff_of_false (by simp) ?_
    rintro rfl
    exact hother _ _ rfl

/-- The cells of an item are its id and its URL. -/
theorem recordText_iff :
    shape.RecordText [.text item.1, .text item.2] text ↔ ItemText item text := by
  constructor
  · rintro (⟨ms, htext, hfills⟩ | ⟨ss, htext, -, hcells⟩)
    · obtain _ | ⟨hid, _ | ⟨hurl, _⟩⟩ := hfills
      obtain ⟨_, hid, ⟨hidBody⟩⟩ := (Shape.fills_required_iff rfl).1 hid
      obtain ⟨_, hurl, ⟨hurlBody⟩⟩ := (Shape.fills_required_iff rfl).1 hurl
      exact .object htext hid hidBody hurl hurlBody
    · obtain _ | ⟨id, _ | ⟨url, _ | _⟩⟩ := ss <;> cases hcells
      exact .pair htext
  · intro h
    cases h with
    | object htext hid hidBody hurl hurlBody =>
      refine .inl ⟨_, htext, .cons ?_ (.cons ?_ .nil)⟩
      · exact (Shape.fills_required_iff rfl).2 ⟨_, hid, .text hidBody⟩
      · exact (Shape.fills_required_iff rfl).2 ⟨_, hurl, .text hurlBody⟩
    | pair htext => exact .inr ⟨_, htext, rfl, rfl⟩

/-- An item is read off the front exactly if it stands there. -/
theorem readItem_eq_ok :
    (∃ cells, shape.read cs = .ok (cells, rest) ∧ ofCells cells = .ok item) ↔
      ∃ b text, Blanks b ∧ ItemText item text ∧ cs = b ++ (text ++ rest) := by
  simp only [ofCells_eq_ok, exists_eq_right, Shape.read_eq_ok_iff_recordText textual_shape,
    recordText_iff]

/-- Blanks in front of an item do not matter. -/
theorem readItems_skipSpace (fuel : Nat) (read : List (String × String)) (cs : List Char) :
    readItems fuel read (skipSpace cs) = readItems fuel read cs := by
  cases fuel with
  | zero => rfl
  | succ fuel => rw [readItems, readItems, Shape.read, Shape.read, skipSpace_skipSpace]

/-- Behind a comma comes an item, so what is read there is read as it is. -/
theorem afterComma_readItems {fuel : Nat} {read : List (String × String)} :
    afterComma (readItems fuel read) cs = .ok (items, rest) ↔
      readItems fuel read cs = .ok (items, rest) := by
  rw [afterComma_eq_ok, readItems_skipSpace, and_iff_right_iff_imp]
  intro h after hend
  cases fuel with
  | zero => cases h
  | succ fuel =>
    obtain ⟨⟨cells, later⟩, hread, -⟩ := except_bind_eq_ok.1 h
    rw [Shape.read, hend] at hread
    exact refuse_ne_ok _ _ _ hread

/-- Reading the items up to the closing bracket. -/
theorem readItems_succ_eq_ok {fuel : Nat} {read : List (String × String)} :
    readItems (fuel + 1) read cs = .ok (items, rest) ↔
      ∃ item after, (∃ b text, Blanks b ∧ ItemText item text ∧ cs = b ++ (text ++ after)) ∧
        ((∃ b, Blanks b ∧ after = b ++ ']' :: rest ∧ items = (item :: read).reverse) ∨
          ∃ b later, Blanks b ∧ after = b ++ ',' :: later ∧
            readItems fuel (item :: read) later = .ok (items, rest)) := by
  rw [readItems]
  simp only [except_bind_eq_ok, Prod.exists, ← readItem_eq_ok]
  constructor
  · rintro ⟨cells, after, hread, item, url, hcells, h⟩
    refine ⟨item, url, after, ⟨cells, hread, hcells⟩, ?_⟩
    split at h
    · next later hcomma =>
      obtain ⟨b, hb, rfl⟩ := exists_blanks hcomma
      exact .inr ⟨b, later, hb, rfl, afterComma_readItems.1 h⟩
    · next later hend =>
      obtain ⟨b, hb, rfl⟩ := exists_blanks hend
      cases h
      exact .inl ⟨b, hb, rfl, rfl⟩
    · cases h
  · rintro ⟨item, url, after, ⟨cells, hread, hcells⟩, h⟩
    refine ⟨cells, after, hread, item, url, hcells, ?_⟩
    obtain ⟨b, hb, rfl, rfl⟩ | ⟨b, later, hb, rfl, h⟩ := h
    · rw [skipSpace_append hb, skipSpace_cons rfl]
      rfl
    · rw [skipSpace_append hb, skipSpace_cons rfl]
      exact afterComma_readItems.2 h

/-- What is read up to the closing bracket is items. -/
theorem itemsText_of_readItems {fuel : Nat} {read : List (String × String)}
    (h : readItems fuel read cs = .ok (items, rest)) :
    ∃ new text, items = read.reverse ++ new ∧ ItemsText new text ∧ cs = text ++ ']' :: rest := by
  induction fuel generalizing read cs with
  | zero => cases h
  | succ fuel ih =>
    obtain ⟨item, after, ⟨b, text, hb, htext, rfl⟩, hafter⟩ := readItems_succ_eq_ok.1 h
    obtain ⟨b', hb', rfl, rfl⟩ | ⟨b', later, hb', rfl, hlater⟩ := hafter
    · exact ⟨[item], _, by simp, .item hb htext hb', by simp⟩
    · obtain ⟨new, text', rfl, hnew, rfl⟩ := ih hlater
      exact ⟨item :: new, _, by simp, .items hb htext hb' hnew, by simp⟩

/-- Items are read up to the closing bracket, with fuel for each of them. -/
theorem readItems_of_itemsText {fuel : Nat} {read : List (String × String)}
    (h : ItemsText items text) (hfuel : items.length ≤ fuel) :
    readItems fuel read (text ++ ']' :: rest) = .ok (read.reverse ++ items, rest) := by
  induction h generalizing fuel read with
  | @item item b text b' hb htext hb' =>
    obtain ⟨fuel, rfl⟩ := Nat.exists_eq_succ_of_ne_zero (Nat.ne_zero_of_lt hfuel)
    refine readItems_succ_eq_ok.2 ⟨item, b' ++ ']' :: rest, ⟨b, text, hb, htext, by simp⟩, ?_⟩
    exact .inl ⟨b', hb', rfl, by simp⟩
  | @items item items b text b' cs hb htext hb' h ih =>
    obtain ⟨fuel, rfl⟩ := Nat.exists_eq_succ_of_ne_zero (Nat.ne_zero_of_lt hfuel)
    refine readItems_succ_eq_ok.2 ⟨item, b' ++ ',' :: (cs ++ ']' :: rest),
      ⟨b, text, hb, htext, by simp⟩, .inr ⟨b', _, hb', rfl, ?_⟩⟩
    rw [ih (Nat.le_of_succ_le_succ hfuel)]
    simp

/-! ## Files -/

/-- An item begins with a bracket. -/
theorem ItemText.head (h : ItemText item text) :
    ∃ c tail, text = c :: tail ∧ isSpace c = false ∧ c ≠ ']' := by
  cases h with
  | object h => cases h <;> exact ⟨_, _, rfl, rfl, by decide⟩
  | pair h =>
    cases h
    exact ⟨_, _, rfl, rfl, by decide⟩

/-- A list of items is at least as long as there are items. -/
theorem ItemsText.length_le (h : ItemsText items text) : items.length ≤ text.length := by
  induction h with
  | item hb h hb' =>
    obtain ⟨c, tail, rfl, -, -⟩ := h.head
    simp
    omega
  | items hb h hb' h' ih =>
    simp
    omega

/-- Items begin, behind blanks, with a bracket that opens, and behind these blanks the text is as
long as there are items. -/
theorem ItemsText.front (h : ItemsText items text) (rest : List Char) :
    ∃ c tail, skipSpace (text ++ rest) = c :: tail ∧ c ≠ ']' ∧
      items.length ≤ (c :: tail).length := by
  cases h with
  | item hb h hb' =>
    obtain ⟨c, tail, rfl, hspace, hc⟩ := h.head
    rw [List.append_assoc, skipSpace_append hb, List.cons_append, List.cons_append,
      skipSpace_cons hspace]
    exact ⟨c, _, rfl, hc, by simp⟩
  | items hb h hb' h' =>
    obtain ⟨c, tail, rfl, hspace, hc⟩ := h.head
    have hlength := h'.length_le
    rw [List.append_assoc, skipSpace_append hb, List.cons_append, List.cons_append,
      skipSpace_cons hspace]
    refine ⟨c, _, rfl, hc, ?_⟩
    simp
    omega

/-- Only blanks stand at the end of a text. -/
theorem atEnd_eq_ok {α : Type} {result : α × List Char} {a : α} :
    atEnd result = .ok a ↔ a = result.1 ∧ Blanks result.2 := by
  have hblanks : skipSpace result.2 = [] ↔ Blanks result.2 := by
    rw [skipSpace, List.dropWhile_eq_nil_iff]
    rfl
  rw [atEnd, ← hblanks]
  cases hrest : skipSpace result.2 with
  | nil => simp [eq_comm]
  | cons c tail => simp

/-- The items of a file are read exactly if it is an array of them. -/
theorem items_eq_ok {content : String} {read : List (String × String)} :
    Batch.items content = .ok read ↔ FileText read content.toList := by
  rw [Batch.items]
  constructor
  · intro h
    split at h
    · next inside hopen =>
      obtain ⟨b, hb, hcontent⟩ := exists_blanks hopen
      rw [hcontent]
      split at h
      · next after hend =>
        obtain ⟨b', hb', rfl⟩ := exists_blanks hend
        obtain ⟨rfl, hb''⟩ := atEnd_eq_ok.1 h
        exact .empty hb hb' hb''
      · cases h
      · rw [readItems_skipSpace] at h
        obtain ⟨⟨_, after⟩, hread, hend⟩ := except_bind_eq_ok.1 h
        obtain ⟨new, text, rfl, hitems, rfl⟩ := itemsText_of_readItems hread
        obtain ⟨rfl, hb'⟩ := atEnd_eq_ok.1 hend
        exact .array hb hitems hb'
    · exact absurd h (refuse_ne_ok _ _ _)
  · intro h
    generalize hcontent : content.toList = cs at h
    cases h with
    | empty hb hb' hb'' =>
      rw [skipSpace_append hb, skipSpace_cons rfl]
      simp only [skipSpace_append hb', skipSpace_cons (c := ']') rfl]
      exact atEnd_eq_ok.2 ⟨rfl, hb''⟩
    | @array _ b text b' hb h hb' =>
      rw [skipSpace_append hb, skipSpace_cons rfl]
      obtain ⟨c, tail, hfront, hc, hlength⟩ := h.front (']' :: b')
      have hread : readItems (c :: tail).length [] (text ++ ']' :: b') = .ok (read, b') :=
        readItems_of_itemsText h hlength
      rw [← readItems_skipSpace, hfront] at hread
      simp only [hfront]
      split
      · next hend => exact absurd (List.cons.inj hend).1 hc
      · next hend => cases hend
      · rw [hread]
        exact atEnd_eq_ok.2 ⟨rfl, hb'⟩

/-! ## Filing -/

variable {batch m : Keyed String String} {id : String}

/-- An item with a new id goes behind the others. -/
theorem entries_insert {url : String} (h : batch.contains id = false) :
    (batch.insert id url).entries = batch.entries ++ [(id, url)] := by
  have hassign (entries : List (String × String)) (h : lookup? id entries = none) :
      assign id url entries = entries ++ [(id, url)] := by
    induction entries with
    | nil => rfl
    | cons entry entries ih =>
      rw [lookup?] at h
      split at h
      · cases h
      · next hne => rw [assign, if_neg hne, ih h, List.cons_append]
  exact hassign _ (by simpa [Keyed.contains, Keyed.find?] using h)

/-- An id is in the map when it is the id of an entry. -/
theorem contains_iff : batch.contains id = true ↔ id ∈ batch.entries.map Prod.fst := by
  have hnone := lookup?_eq_none_iff id batch.entries
  rw [Keyed.contains, Keyed.find?, Option.isSome_iff_ne_none, ne_eq, hnone, Decidable.not_not]

/-- Items are filed if all ids are distinct, and then all are in the map. -/
theorem collect_eq_ok : collect batch items = .ok m ↔
    ((batch.entries ++ items).map Prod.fst).Nodup ∧ m.entries = batch.entries ++ items := by
  induction items generalizing batch with
  | nil =>
    obtain ⟨entries, hdistinct⟩ := m
    rw [collect, List.append_nil, Except.ok.injEq]
    constructor
    · rintro rfl
      exact ⟨hdistinct, rfl⟩
    · rintro ⟨-, rfl⟩
      rfl
  | cons item items ih =>
    obtain ⟨id, url⟩ := item
    rw [collect]
    split
    · next hseen =>
      refine iff_of_false (by simp) ?_
      rintro ⟨hdistinct, -⟩
      rw [List.map_append, List.map_cons, List.nodup_append] at hdistinct
      exact hdistinct.2.2 id (contains_iff.1 hseen) id List.mem_cons_self rfl
    · next hnew =>
      rw [ih, entries_insert (Bool.eq_false_iff.2 hnew), List.append_assoc, List.singleton_append]

/-- If an id comes twice, the first item is reported whose id an earlier one has. -/
theorem collect_repeated (h : ¬ ((batch.entries ++ items).map Prod.fst).Nodup) :
    ∃ before id url after, items = before ++ (id, url) :: after ∧
      ((batch.entries ++ before).map Prod.fst).Nodup ∧
      id ∈ (batch.entries ++ before).map Prod.fst ∧
      collect batch items = .error (.repeated id) := by
  induction items generalizing batch with
  | nil => exact absurd (by simpa using batch.nodup) h
  | cons item items ih =>
    obtain ⟨id, url⟩ := item
    rw [collect]
    by_cases hseen : batch.contains id = true
    · rw [if_pos hseen]
      exact ⟨[], id, url, items, rfl, by simpa using batch.nodup,
        by simpa using contains_iff.1 hseen, rfl⟩
    · have hentries : (batch.insert id url).entries = batch.entries ++ [(id, url)] :=
        entries_insert (Bool.eq_false_iff.2 hseen)
      have hrepeated : ¬ (((batch.insert id url).entries ++ items).map Prod.fst).Nodup := by
        rw [hentries, List.append_assoc]
        exact h
      rw [if_neg hseen]
      obtain ⟨before, id', url', after, rfl, hdistinct, hid, hcollect⟩ := ih hrepeated
      rw [hentries, List.append_assoc, List.singleton_append] at hdistinct hid
      exact ⟨(id, url) :: before, id', url', after, rfl, hdistinct, hid, hcollect⟩

/-- A batch file is read exactly if it is an array of items whose ids are distinct, and then the map
holds all of them and nothing else. If an id of the array comes twice, nothing is read, and the id
is reported of the first item that repeats the id of an earlier one. -/
theorem read_completely_or_refused (content : String) :
    (∀ m : Keyed String String, read content = .ok m ↔
      ∃ items, FileText items content.toList ∧ (items.map Prod.fst).Nodup ∧ m.entries = items) ∧
    ∀ items, FileText items content.toList → ¬ (items.map Prod.fst).Nodup →
      ∃ before id url after, items = before ++ (id, url) :: after ∧
        (before.map Prod.fst).Nodup ∧ id ∈ before.map Prod.fst ∧
        read content = .error (.repeated id) ∧
        (Problem.repeated id).sentence = "Duplicate correlation_id: " ++ id := by
  constructor
  · intro m
    rw [read]
    constructor
    · intro h
      split at h
      · cases h
      · next items hitems =>
        obtain ⟨hdistinct, hentries⟩ := collect_eq_ok.1 h
        exact ⟨items, items_eq_ok.1 hitems, hdistinct, hentries⟩
    · rintro ⟨items, hfile, hdistinct, hentries⟩
      rw [items_eq_ok.2 hfile]
      exact collect_eq_ok.2 ⟨hdistinct, hentries⟩
  · intro items hfile hrepeated
    have hempty : ¬ (((Keyed.empty : Keyed String String).entries ++ items).map Prod.fst).Nodup :=
      hrepeated
    obtain ⟨before, id, url, after, hitems, hdistinct, hid, hcollect⟩ := collect_repeated hempty
    refine ⟨before, id, url, after, hitems, hdistinct, hid, ?_, rfl⟩
    rw [read, items_eq_ok.2 hfile]
    exact hcollect

/-- An object and a list are read from one file. Ids that differ in their spelling only are the
same id, and such a file is refused. -/
theorem read_completely_or_refused_spelled :
    (∃ m : Keyed String String, read
      "[\x7b\"n\":[\x7b\x7d],\"original_url\":\"u\",\"\\u0063orrelation_id\":\"a\"\x7d , [\"b\",\"v\"]]" =
        .ok m ∧ m.entries = [("a", "u"), ("b", "v")]) ∧
    read "[[\"a\",\"u\"],[\"\\u0061\",\"v\"]]" = .error (.repeated "a") := by
  have hself (s : String) (h : ∀ c ∈ s.toList, c ≠ '"' ∧ c ≠ '\\' ∧ 0x20 ≤ c.toNat) :
      Spells s.toList s.toList := spells_self h
  have hname : Spells "correlation_id".toList "\\u0063orrelation_id".toList :=
    .unit (n := 0x63) rfl rfl rfl (hself "orrelation_id" (by simp))
  have hagain : Spells "a".toList "\\u0061".toList := .unit (n := 0x61) rfl rfl rfl .nil
  have ha := hself "a" (by simp)
  have hb := hself "b" (by simp)
  have hu := hself "u" (by simp)
  have hv := hself "v" (by simp)
  have hspace : Blanks [' '] := by simp [Blanks, isSpace]
  have hmembers : MembersText _ _ :=
    .members blanks_nil (hself "n" (by simp)) blanks_nil blanks_nil
      (.list (.item (.spaced blanks_nil (.emptyObject blanks_nil) blanks_nil))) blanks_nil <|
    .members blanks_nil (hself "original_url" (by simp)) blanks_nil blanks_nil (.text hu.quoted)
      blanks_nil <|
    .member blanks_nil hname blanks_nil blanks_nil (.text ha.quoted) blanks_nil
  have hobject : ItemText ("a", "u") _ := .object (.object hmembers) rfl ha rfl hu
  have hpair {id url : String} {idBody urlBody : List Char} (hid : Spells id.toList idBody)
      (hurl : Spells url.toList urlBody) : ItemText (id, url) _ :=
    .pair (.list blanks_nil hid (.comma blanks_nil blanks_nil hurl (.none blanks_nil)))
  have hdistinct : FileText [("a", "u"), ("b", "v")] _ :=
    .array blanks_nil (.items blanks_nil hobject hspace (.item hspace (hpair hb hv) blanks_nil))
      blanks_nil
  have hrepeated : FileText [("a", "u"), ("a", "v")] _ :=
    .array blanks_nil
      (.items blanks_nil (hpair ha hu) blanks_nil (.item blanks_nil (hpair hagain hv) blanks_nil))
      blanks_nil
  constructor
  · let m : Keyed String String := ⟨[("a", "u"), ("b", "v")], by decide⟩
    exact ⟨m, ((read_completely_or_refused _).1 m).2 ⟨_, hdistinct, by decide, rfl⟩, rfl⟩
  · obtain ⟨before, id, url, after, hitems, -, hid, hread, -⟩ :=
      (read_completely_or_refused "[[\"a\",\"u\"],[\"\\u0061\",\"v\"]]").2 [("a", "u"), ("a", "v")]
        hrepeated (by decide)
    obtain _ | ⟨item, before⟩ := before
    · cases hid
    · obtain ⟨rfl, hitems⟩ := List.cons.inj hitems
      obtain _ | ⟨item, before⟩ := before
      · cases hitems
        exact hread
      · simp at hitems

end ShortLinks.Batch
