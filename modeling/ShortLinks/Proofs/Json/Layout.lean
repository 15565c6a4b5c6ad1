import Mathlib.Data.List.Forall2
import Mathlib.Data.List.Nodup
import ShortLinks.Proofs.Json.Cells

/-!
# Objects are read in any layout

What is read of an object depends on its members alone: for each field on the values that are given
under its name, and not on the order of the members, on the members under other names, on blanks or
on the way in which names and texts are spelled. An object is refused when a field is given twice,
when one that is required is not given, or when a value does not fill its field.
-/

namespace ShortLinks.Json

variable {rest after b c value : List Char} {name : String} {cells : List Cell}
  {ms : List (String × List Char)}

/-- The texts of the values that are given under a name, in order. -/
def valuesOf (name : String) (ms : List (String × List Char)) : List (List Char) :=
  (ms.filter fun m => m.1 == name).map Prod.snd

/-- The first member has its value under its own name. -/
theorem valuesOf_cons (name : String) (value : List Char) (ms : List (String × List Char))
    (other : String) : valuesOf other ((name, value) :: ms) =
      if name = other then value :: valuesOf other ms else valuesOf other ms := by
  by_cases h : name = other <;> simp [valuesOf, h]

namespace Shape

variable {shape : Shape} {found found' : Draft}

/-- What a draft becomes when a member is taken. A member under another name changes nothing, and
one that is known must be new and fill its field. -/
def Takes (shape : Shape) (found : Draft) (m : String × List Char) (found' : Draft) : Prop :=
  match shape.fields.findIdx? (fun field => field.name == m.1) with
  | none => found' = found
  | some i => found[i]?.join = none ∧ ∃ field cell, shape.fields[i]? = some field ∧
    Holds field.kind m.2 cell ∧ found' = found.set i (some cell)

/-- What a draft becomes when members are taken one after another. -/
inductive TakesAll (shape : Shape) : Draft → List (String × List Char) → Draft → Prop
  | nil (found : Draft) : TakesAll shape found [] found
  | cons {found found' found'' : Draft} {m : String × List Char} {ms : List (String × List Char)}
      (h : shape.Takes found m found') (h' : TakesAll shape found' ms found'') :
      TakesAll shape found (m :: ms) found''

/-- A member is read exactly if it is taken, and to the end of its value. -/
theorem readMember_eq_ok_iff (hb : Blanks b) (hc : Blanks c) (hvalue : Written .value value)
    (hrest : Ends rest) :
    shape.readMember found name (b ++ ':' :: (c ++ (value ++ rest))) = .ok (found', after) ↔
      after = rest ∧ shape.Takes found (name, value) found' := by
  rw [readMember, Takes]
  cases hi : shape.fields.findIdx? (fun field => field.name == name) with
  | none =>
    simp only [readColon_blanks hb, bind, Except.bind, skipValue_written hc hvalue hrest, pure,
      Except.pure, Except.ok.injEq, Prod.mk.injEq]
    exact ⟨fun h => ⟨h.2.symm, h.1.symm⟩, fun h => ⟨h.2.symm, h.1.symm⟩⟩
  | some i =>
    obtain ⟨hlt, -⟩ := List.findIdx?_eq_some_iff_getElem.1 hi
    have hfield : shape.fields[i]? = some shape.fields[i] := List.getElem?_eq_getElem hlt
    dsimp only
    by_cases hnew : found[i]?.join = none
    · rw [hnew, Option.isSome_none, if_neg Bool.false_ne_true, readColon_blanks hb, hfield]
      simp only [Option.map_some, Option.getD_some, true_and, except_bind_eq_ok, Except.ok.injEq,
        exists_eq_left', readCell_eq_ok_iff hc hvalue hrest]
      constructor
      · rintro ⟨⟨cell, rest'⟩, ⟨rfl, hholds⟩, h⟩
        cases h
        exact ⟨rfl, _, cell, rfl, hholds, rfl⟩
      · rintro ⟨rfl, _, cell, ⟨⟩, hholds, rfl⟩
        exact ⟨(cell, after), ⟨rfl, hholds⟩, rfl⟩
    · rw [if_pos (Option.isSome_iff_ne_none.2 hnew)]
      exact iff_of_false (by simp) fun h => hnew h.2.1

/-- The record of a text that has come to its closing brace. -/
theorem conclude_eq_ok_iff :
    shape.conclude found ('\x7d' :: rest) = .ok (cells, after) ↔
      after = rest ∧ finish shape.fields found = .ok cells := by
  rw [conclude]
  cases finish shape.fields found with
  | error flaw => simp
  | ok cells => simp [eq_comm, and_comm]

/-- Reading members is taking them one after another, and concluding. -/
theorem readMembers_eq_ok_iff {cs : List Char} (h : MembersText ms cs) {fuel : Nat}
    (hfuel : ms.length ≤ fuel) :
    shape.readMembers fuel found (cs ++ '\x7d' :: rest) = .ok (cells, after) ↔
      after = rest ∧ ∃ found', shape.TakesAll found ms found' ∧
        finish shape.fields found' = .ok cells := by
  induction h generalizing fuel found with
  | @member name b body b' c value c' hb hname hb' hc hvalue hc' =>
    obtain ⟨fuel, rfl⟩ := Nat.exists_eq_succ_of_ne_zero (Nat.ne_of_gt hfuel)
    have hends : Ends (c' ++ '\x7d' :: rest) := ends_append hc' (ends_cons (by decide) rest)
    rw [readMembers, List.append_assoc, skipSpace_heading hb]
    simp only [readString_spells hname, except_ok_bind]
    simp only [List.append_assoc, except_bind_eq_ok, Prod.exists,
      readMember_eq_ok_iff hb' hc hvalue hends]
    have hbrace : skipSpace (c' ++ '\x7d' :: rest) = '\x7d' :: rest := by
      rw [skipSpace_append hc', skipSpace_cons rfl]
    constructor
    · rintro ⟨next, _, ⟨rfl, htakes⟩, hconclude⟩
      rw [hbrace] at hconclude
      obtain ⟨rfl, hfinish⟩ := conclude_eq_ok_iff.1 hconclude
      exact ⟨rfl, next, .cons htakes (.nil next), hfinish⟩
    · rintro ⟨rfl, _, htakes, hfinish⟩
      cases htakes with
      | cons htakes hnil =>
        cases hnil
        refine ⟨_, _, ⟨rfl, htakes⟩, ?_⟩
        rw [hbrace]
        exact conclude_eq_ok_iff.2 ⟨rfl, hfinish⟩
  | @members name b body b' c value c' cs ms hb hname hb' hc hvalue hc' h ih =>
    obtain ⟨fuel, rfl⟩ := Nat.exists_eq_succ_of_ne_zero (Nat.ne_zero_of_lt hfuel)
    have hends : Ends (c' ++ ',' :: (cs ++ '\x7d' :: rest)) :=
      ends_append hc' (ends_cons (by decide) _)
    rw [readMembers, List.append_assoc, skipSpace_heading hb]
    simp only [readString_spells hname, except_ok_bind]
    simp only [List.append_assoc, List.cons_append, except_bind_eq_ok, Prod.exists,
      readMember_eq_ok_iff hb' hc hvalue hends]
    have hcomma : skipSpace (c' ++ ',' :: (cs ++ '\x7d' :: rest)) =
        ',' :: (cs ++ '\x7d' :: rest) := by
      rw [skipSpace_append hc', skipSpace_cons rfl]
    have hlater (next : Draft) : shape.readMembers fuel next (cs ++ '\x7d' :: rest) =
        .ok (cells, after) ↔ after = rest ∧ ∃ found', shape.TakesAll next ms found' ∧
          finish shape.fields found' = .ok cells := ih (Nat.le_of_succ_le_succ hfuel)
    constructor
    · rintro ⟨next, _, ⟨rfl, htakes⟩, hread⟩
      rw [hcomma] at hread
      obtain ⟨rfl, found', htakesAll, hfinish⟩ := (hlater next).1 hread
      exact ⟨rfl, found', .cons htakes htakesAll, hfinish⟩
    · rintro ⟨rfl, found', htakes, hfinish⟩
      cases htakes with
      | cons htakes htakesAll =>
        refine ⟨_, _, ⟨rfl, htakes⟩, ?_⟩
        rw [hcomma]
        exact (hlater _).2 ⟨rfl, found', htakesAll, hfinish⟩

/-- What is behind the opening brace is not more than the members are many. -/
theorem length_le_of_membersText {cs : List Char} (h : MembersText ms cs) :
    ms.length ≤ cs.length := by
  induction h with
  | @member name b body b' c value c' =>
    have hlength := one_le_length_heading b body b'
    simp
    omega
  | @members name b body b' c value c' cs ms _ _ _ _ _ _ _ ih =>
    have hlength := one_le_length_heading b body b'
    simp
    omega

/-- Behind blanks the members of an object begin with a quote. -/
theorem skipSpace_membersText {cs : List Char} (h : MembersText ms cs) (rest : List Char) :
    ∃ tail, skipSpace (cs ++ rest) = '"' :: tail := by
  cases h with
  | member hb | members hb =>
    rw [List.append_assoc, skipSpace_heading hb]
    exact ⟨_, rfl⟩

/-- An object is read by taking its members one after another. -/
theorem read_eq_ok_iff {text : List Char} (hb : Blanks b) (h : ObjectText ms text) :
    shape.read (b ++ (text ++ rest)) = .ok (cells, after) ↔
      after = rest ∧ ∃ found, shape.TakesAll (shape.fields.map fun _ => none) ms found ∧
        finish shape.fields found = .ok cells := by
  cases h with
  | @empty b' hb' =>
    have hbrace : skipSpace (b' ++ (['\x7d'] ++ rest)) = '\x7d' :: rest := by
      rw [skipSpace_append hb', List.singleton_append, skipSpace_cons rfl]
    rw [read, skipSpace_append hb, List.cons_append, skipSpace_cons rfl]
    simp only [except_mapError_eq_ok, readObject, List.append_assoc, hbrace, conclude_eq_ok_iff]
    refine and_congr_right fun _ => ⟨fun h => ⟨_, .nil _, h⟩, ?_⟩
    rintro ⟨_, htakes, h⟩
    cases htakes
    exact h
  | @object _ cs h =>
    obtain ⟨tail, hquote⟩ := skipSpace_membersText h ('\x7d' :: rest)
    have hlength := length_le_of_membersText h
    have hfuel : ms.length ≤ (cs ++ '\x7d' :: rest).length := by
      rw [List.length_append]
      omega
    rw [read, skipSpace_append hb, List.cons_append, skipSpace_cons rfl]
    simp only [except_mapError_eq_ok, readObject, List.append_assoc, List.singleton_append, hquote]
    exact readMembers_eq_ok_iff h hfuel

/-! ## What members give -/

/-- What a field holds, given what was found for it before and the values under its name. -/
def Fills (field : Field) : Option Cell → List (List Char) → Cell → Prop
  | some found, [], cell => cell = found
  | none, [], cell => field.required = false ∧ cell = field.kind.default
  | none, [value], cell => Holds field.kind value cell
  | _, _, _ => False

/-- The cells of a record, given a draft and the members that are still to come. -/
def Gives (shape : Shape) (found : Draft) (ms : List (String × List Char)) (cells : List Cell) :
    Prop :=
  cells.length = shape.fields.length ∧ ∀ (i : Nat) (field : Field) (cell : Cell),
    shape.fields[i]? = some field → cells[i]? = some cell →
      Fills field found[i]?.join (valuesOf field.name ms) cell

/-- The cells are filled one after another once the text has ended. -/
theorem finish_cons_eq_ok_iff {field : Field} {fields : List Field} :
    finish (field :: fields) found = .ok cells ↔
      ∃ cell cells', Fills field found[0]?.join [] cell ∧
        finish fields found.tail = .ok cells' ∧ cells = cell :: cells' := by
  have hlater (cell : Cell) :
      (do return cell :: (← finish fields found.tail) : Except Flaw (List Cell)) = .ok cells ↔
        ∃ cells', finish fields found.tail = .ok cells' ∧ cells = cell :: cells' := by
    cases finish fields found.tail <;> simp [bind, Except.bind, pure, Except.pure, eq_comm]
  rw [finish, List.head?_eq_getElem?]
  cases found[0]?.join with
  | some cell =>
    refine (hlater cell).trans ?_
    constructor
    · rintro ⟨cells', h⟩
      exact ⟨cell, cells', rfl, h⟩
    · rintro ⟨_, cells', rfl, h⟩
      exact ⟨cells', h⟩
  | none =>
    by_cases hrequired : field.required = true
    · simp only [hrequired, if_true]
      refine iff_of_false (by simp [bind, Except.bind]) ?_
      rintro ⟨_, _, hfills, -⟩
      exact absurd hfills.1 (by simp [hrequired])
    · simp only [hrequired]
      refine (hlater field.kind.default).trans ?_
      constructor
      · rintro ⟨cells', h⟩
        exact ⟨_, cells', ⟨Bool.eq_false_iff.2 hrequired, rfl⟩, h⟩
      · rintro ⟨_, cells', ⟨-, rfl⟩, h⟩
        exact ⟨cells', h⟩

/-- A draft is finished as the cells that were found and the defaults of the others. -/
theorem finish_eq_ok_iff {fields : List Field} :
    finish fields found = .ok cells ↔
      cells.length = fields.length ∧ ∀ (i : Nat) (field : Field) (cell : Cell),
        fields[i]? = some field → cells[i]? = some cell → Fills field found[i]?.join [] cell := by
  induction fields generalizing found cells with
  | nil => simp [finish, eq_comm]
  | cons field fields ih =>
    rw [finish_cons_eq_ok_iff]
    simp only [ih, List.getElem?_tail]
    constructor
    · rintro ⟨cell, cells, hcell, ⟨hlength, hcells⟩, rfl⟩
      refine ⟨congrArg (· + 1) hlength, fun i field' cell' hfield hcell' => ?_⟩
      cases i with
      | zero =>
        cases hfield
        cases hcell'
        exact hcell
      | succ i => exact hcells i field' cell' hfield hcell'
    · rintro ⟨hlength, hcells⟩
      cases cells with
      | nil => cases hlength
      | cons cell cells =>
        refine ⟨cell, cells, hcells 0 field cell rfl rfl, ⟨Nat.succ.inj hlength, ?_⟩, rfl⟩
        exact fun i field' cell' => hcells (i + 1) field' cell'

/-- The first value under a name must be new and is found from then on. -/
theorem fills_cons_iff {field : Field} {prior : Option Cell} {values : List (List Char)}
    {cell : Cell} : Fills field prior (value :: values) cell ↔
      prior = none ∧ ∃ cell', Holds field.kind value cell' ∧
        Fills field (some cell') values cell := by
  cases prior with
  | some cell' => simp [Fills]
  | none => cases values <;> simp [Fills]

/-- A field that is required is filled by exactly one value. -/
theorem fills_required_iff {field : Field} (h : field.required = true) {values : List (List Char)}
    {cell : Cell} : Fills field none values cell ↔
      ∃ value, values = [value] ∧ Holds field.kind value cell := by
  match values with
  | [] => simp [Fills, h]
  | [value] => simp [Fills]
  | _ :: _ :: _ => simp [Fills]

/-- A field that is not required is filled by its default too, if it has no value. -/
theorem fills_optional_iff {field : Field} (h : field.required = false) {values : List (List Char)}
    {cell : Cell} : Fills field none values cell ↔
      values = [] ∧ cell = field.kind.default ∨
        ∃ value, values = [value] ∧ Holds field.kind value cell := by
  match values with
  | [] => simp [Fills, h]
  | [value] => simp [Fills]
  | _ :: _ :: _ => simp [Fills]

/-- Only one field has a name. -/
theorem position_inj {i j : Nat} {field field' : Field}
    (hnames : (shape.fields.map Field.name).Nodup) (h : shape.fields[i]? = some field)
    (h' : shape.fields[j]? = some field') (hname : field.name = field'.name) : i = j := by
  have hlt : i < (shape.fields.map Field.name).length := by
    rw [List.length_map]
    exact (List.getElem?_eq_some_iff.1 h).1
  refine (List.getElem?_inj hlt hnames).1 ?_
  rw [List.getElem?_map, List.getElem?_map, h, h', Option.map_some, Option.map_some, hname]

/-- What is found for one field is found for no other. -/
theorem join_getElem?_set {i : Nat} (hi : i < found.length) (cell : Cell) (j : Nat) :
    (found.set i (some cell))[j]?.join = if j = i then some cell else found[j]?.join := by
  by_cases h : j = i
  · subst h
    simp [hi]
  · simp [h, Ne.symm h]

/-- A member under another name gives no cell. -/
theorem gives_cons_other (hother : ∀ field ∈ shape.fields, name ≠ field.name) :
    shape.Gives found ((name, value) :: ms) cells ↔ shape.Gives found ms cells := by
  refine and_congr_right fun _ => forall_congr' fun i => forall_congr' fun field =>
    forall_congr' fun cell => imp_congr_right fun hfield => ?_
  rw [valuesOf_cons, if_neg (hother field (List.mem_of_getElem? hfield))]

/-- A member under the name of a field gives its cell, if none was found before. -/
theorem gives_cons_known {i : Nat} {field : Field} (hnames : (shape.fields.map Field.name).Nodup)
    (hlength : found.length = shape.fields.length) (hfield : shape.fields[i]? = some field) :
    shape.Gives found ((field.name, value) :: ms) cells ↔ found[i]?.join = none ∧
      ∃ cell, Holds field.kind value cell ∧ shape.Gives (found.set i (some cell)) ms cells := by
  have hlt : i < shape.fields.length := (List.getElem?_eq_some_iff.1 hfield).1
  have hset := join_getElem?_set (hlength.symm ▸ hlt)
  have hother {j : Nat} {field' : Field} (h : shape.fields[j]? = some field') (hj : j ≠ i) :
      field.name ≠ field'.name := fun hname => hj (position_inj hnames hfield h hname).symm
  constructor
  · rintro ⟨hcells, hgives⟩
    obtain ⟨cell, hcell⟩ : ∃ cell, cells[i]? = some cell :=
      ⟨_, List.getElem?_eq_getElem (hcells ▸ hlt)⟩
    have hthis := hgives i field cell hfield hcell
    rw [valuesOf_cons, if_pos rfl, fills_cons_iff] at hthis
    obtain ⟨hnew, given, hholds, hfills⟩ := hthis
    refine ⟨hnew, given, hholds, hcells, fun j field' cell' hj hcell' => ?_⟩
    rw [hset]
    by_cases h : j = i
    · subst h
      cases hfield.symm.trans hj
      cases hcell.symm.trans hcell'
      rwa [if_pos rfl]
    · have hlater := hgives j field' cell' hj hcell'
      rw [valuesOf_cons, if_neg (hother hj h)] at hlater
      rwa [if_neg h]
  · rintro ⟨hnew, given, hholds, hcells, hgives⟩
    refine ⟨hcells, fun j field' cell hj hcell => ?_⟩
    have hthis := hgives j field' cell hj hcell
    rw [hset] at hthis
    by_cases h : j = i
    · subst h
      cases hfield.symm.trans hj
      rw [if_pos rfl] at hthis
      rw [valuesOf_cons, if_pos rfl, fills_cons_iff]
      exact ⟨hnew, given, hholds, hthis⟩
    · rw [if_neg h] at hthis
      rwa [valuesOf_cons, if_neg (hother hj h)]

/-- A member that is taken counts among those that give a cell. -/
theorem takes_gives_iff {m : String × List Char} (hnames : (shape.fields.map Field.name).Nodup)
    (hlength : found.length = shape.fields.length) :
    (∃ found', shape.Takes found m found' ∧ shape.Gives found' ms cells) ↔
      shape.Gives found (m :: ms) cells := by
  obtain ⟨name, value⟩ := m
  simp only [Takes]
  cases hi : shape.fields.findIdx? (fun field => field.name == name) with
  | none =>
    have hother (field : Field) (hfield : field ∈ shape.fields) : name ≠ field.name :=
      (ne_of_beq_false (List.findIdx?_eq_none_iff.1 hi field hfield)).symm
    rw [exists_eq_left, gives_cons_other hother]
  | some i =>
    obtain ⟨hlt, hname, -⟩ := List.findIdx?_eq_some_iff_getElem.1 hi
    have hfield : shape.fields[i]? = some shape.fields[i] := List.getElem?_eq_getElem hlt
    obtain rfl : shape.fields[i].name = name := by simpa using hname
    rw [gives_cons_known hnames hlength hfield]
    constructor
    · rintro ⟨_, ⟨hnew, field, cell, hfield', hholds, rfl⟩, hgives⟩
      cases hfield.symm.trans hfield'
      exact ⟨hnew, cell, hholds, hgives⟩
    · rintro ⟨hnew, cell, hholds, hgives⟩
      exact ⟨_, ⟨hnew, _, cell, hfield, hholds, rfl⟩, hgives⟩

/-- Taking a member leaves a place for each field. -/
theorem Takes.length {m : String × List Char} (h : shape.Takes found m found') :
    found'.length = found.length := by
  rw [Takes] at h
  split at h
  · rw [h]
  · obtain ⟨-, _, _, -, -, rfl⟩ := h
    exact List.length_set

/-- Members that are taken and a draft that is finished give the cells. -/
theorem takesAll_finish_iff (hnames : (shape.fields.map Field.name).Nodup)
    (hlength : found.length = shape.fields.length) :
    (∃ found', shape.TakesAll found ms found' ∧ finish shape.fields found' = .ok cells) ↔
      shape.Gives found ms cells := by
  induction ms generalizing found with
  | nil =>
    constructor
    · rintro ⟨_, htakes, hfinish⟩
      cases htakes
      exact finish_eq_ok_iff.1 hfinish
    · exact fun h => ⟨found, .nil found, finish_eq_ok_iff.2 h⟩
  | cons m ms ih =>
    rw [← takes_gives_iff hnames hlength]
    constructor
    · rintro ⟨found', htakes, hfinish⟩
      cases htakes with
      | cons h h' => exact ⟨_, h, (ih (h.length.trans hlength)).1 ⟨_, h', hfinish⟩⟩
    · rintro ⟨next, h, hgives⟩
      obtain ⟨found', h', hfinish⟩ := (ih (h.length.trans hlength)).2 hgives
      exact ⟨found', .cons h h', hfinish⟩

/-- An object is read exactly if the values under the name of each field fill it, and up to its
closing brace. -/
theorem read_object_iff (hnames : (shape.fields.map Field.name).Nodup) {text : List Char}
    (hb : Blanks b) (h : ObjectText ms text) :
    shape.read (b ++ (text ++ rest)) = .ok (cells, after) ↔ after = rest ∧
      List.Forall₂ (fun field cell => Fills field none (valuesOf field.name ms) cell)
        shape.fields cells := by
  have hnothing (i : Nat) : (shape.fields.map fun _ => (none : Option Cell))[i]?.join = none := by
    rw [List.getElem?_map]
    cases shape.fields[i]? <;> rfl
  rw [read_eq_ok_iff hb h, takesAll_finish_iff hnames (List.length_map _), Gives,
    List.forall₂_iff_get]
  simp only [hnothing]
  refine and_congr_right fun _ => and_congr eq_comm ⟨fun h i hi hi' => ?_, fun h i f c hf hc => ?_⟩
  · exact h i _ _ (List.getElem?_eq_getElem hi) (List.getElem?_eq_getElem hi')
  · obtain ⟨hi, rfl⟩ := List.getElem?_eq_some_iff.1 hf
    obtain ⟨hi', rfl⟩ := List.getElem?_eq_some_iff.1 hc
    exact h i hi hi'

end Shape

end ShortLinks.Json
