/-!
# Keyed lists

A finite map written as the list of its entries, in the order in which the keys first came. The
type keeps the keys distinct. `find?` is the view: each operation has one lemma that gives the
entries or the view after it.
-/

namespace ShortLinks

/-- The value of the first entry for `key`. -/
def lookup? {κ ν : Type} [DecidableEq κ] (key : κ) : List (κ × ν) → Option ν
  | [] => none
  | (k, v) :: rest => if k = key then some v else lookup? key rest

/-- Put `value` in the place of the first entry for `key`, or at the end. -/
def assign {κ ν : Type} [DecidableEq κ] (key : κ) (value : ν) : List (κ × ν) → List (κ × ν)
  | [] => [(key, value)]
  | (k, v) :: rest => if k = key then (key, value) :: rest else (k, v) :: assign key value rest

section Lists
variable {κ ν : Type} [DecidableEq κ]

/-- An assignment is found under its key, and changes what is found under no other. -/
theorem lookup?_assign (key k : κ) (value : ν) (entries : List (κ × ν)) :
    lookup? k (assign key value entries) = if key = k then some value else lookup? k entries := by
  induction entries with
  | nil => simp [assign, lookup?]
  | cons entry rest ih =>
    obtain ⟨k', v'⟩ := entry
    by_cases h : k' = key <;> by_cases h' : key = k <;> grind [assign, lookup?]

/-- An assignment adds its key and no other. -/
theorem mem_keys_assign (key k : κ) (value : ν) (entries : List (κ × ν)) :
    k ∈ (assign key value entries).map Prod.fst ↔ k = key ∨ k ∈ entries.map Prod.fst := by
  induction entries with
  | nil => simp [assign]
  | cons entry rest ih =>
    obtain ⟨k', v'⟩ := entry
    by_cases h : k' = key
    · simp [assign, h]
    · simp only [assign, if_neg h, List.map_cons, List.mem_cons, ih, or_left_comm]

/-- Keys that are distinct stay so when one of them, or a new one, gets a value. -/
theorem nodup_keys_assign (key : κ) (value : ν) (entries : List (κ × ν))
    (h : (entries.map Prod.fst).Nodup) : ((assign key value entries).map Prod.fst).Nodup := by
  induction entries with
  | nil => simp [assign]
  | cons entry rest ih =>
    obtain ⟨k', v'⟩ := entry
    simp only [List.map_cons, List.nodup_cons] at h
    by_cases hk : k' = key
    · subst hk; simpa [assign] using h
    · simp only [assign, if_neg hk, List.map_cons, List.nodup_cons]
      refine ⟨fun hm => ?_, ih h.2⟩
      rcases (mem_keys_assign key k' value rest).1 hm with e | hm
      · exact hk e
      · exact h.1 hm

/-- Nothing is found under exactly those keys that no entry has. -/
theorem lookup?_eq_none_iff (key : κ) (entries : List (κ × ν)) :
    lookup? key entries = none ↔ key ∉ entries.map Prod.fst := by
  induction entries with
  | nil => simp [lookup?]
  | cons entry rest ih =>
    obtain ⟨k, v⟩ := entry
    by_cases h : k = key
    · simp [lookup?, h]
    · simp [lookup?, h, ih, Ne.symm h]

/-- Where no key comes twice, the entries are what is found. -/
theorem mem_iff_lookup? {key : κ} {value : ν} {entries : List (κ × ν)}
    (h : (entries.map Prod.fst).Nodup) :
    (key, value) ∈ entries ↔ lookup? key entries = some value := by
  induction entries with
  | nil => simp [lookup?]
  | cons entry rest ih =>
    obtain ⟨k, v⟩ := entry
    rw [List.map_cons, List.nodup_cons] at h
    by_cases hk : k = key
    · subst hk
      have hrest : (k, value) ∉ rest := fun hm => h.1 (List.mem_map.2 ⟨_, hm, rfl⟩)
      simp [lookup?, hrest, eq_comm]
    · simp [lookup?, hk, Ne.symm hk, ih h.2]

/-- The first entries count before the second ones. -/
theorem lookup?_append (key : κ) (first second : List (κ × ν)) :
    lookup? key (first ++ second) = (lookup? key first).or (lookup? key second) := by
  induction first with
  | nil => rfl
  | cons entry rest ih =>
    by_cases h : entry.1 = key <;> simp [lookup?, h, ih]

/-- What is found stands in an entry. -/
theorem mem_of_lookup? {key : κ} {value : ν} {entries : List (κ × ν)}
    (h : lookup? key entries = some value) : (key, value) ∈ entries := by
  induction entries with
  | nil => cases h
  | cons entry rest ih =>
    obtain ⟨k, v⟩ := entry
    by_cases hk : k = key
    · simp only [lookup?, if_pos hk, Option.some.injEq] at h
      simp [hk, h]
    · rw [lookup?, if_neg hk] at h
      exact List.mem_cons_of_mem _ (ih h)

/-- Entries whose key passes are found, others are not. -/
theorem lookup?_filter (key : κ) (keep : κ → Bool) (entries : List (κ × ν)) :
    lookup? key (entries.filter fun e => keep e.1) =
      if keep key then lookup? key entries else none := by
  induction entries with
  | nil => simp [lookup?]
  | cons entry rest ih =>
    obtain ⟨k, v⟩ := entry
    by_cases hk : k = key <;> by_cases hkeep : keep k <;> grind [lookup?]

end Lists

/-- A finite map as the list of its entries, each key once. -/
structure Keyed (κ ν : Type) where
  entries : List (κ × ν)
  nodup : (entries.map Prod.fst).Nodup

namespace Keyed

variable {κ ν : Type} [DecidableEq κ]

/-- The map without entries. -/
def empty : Keyed κ ν := ⟨[], List.nodup_nil⟩

instance : Inhabited (Keyed κ ν) := ⟨empty⟩

/-- The value of a key. -/
def find? (m : Keyed κ ν) (key : κ) : Option ν := lookup? key m.entries

/-- Decide whether a key has a value. -/
def contains (m : Keyed κ ν) (key : κ) : Bool := (m.find? key).isSome

/-- Give a key its value. -/
def insert (m : Keyed κ ν) (key : κ) (value : ν) : Keyed κ ν :=
  ⟨assign key value m.entries, nodup_keys_assign key value m.entries m.nodup⟩

/-- Keep the entries whose key passes. -/
def filter (m : Keyed κ ν) (keep : κ → Bool) : Keyed κ ν :=
  ⟨m.entries.filter fun e => keep e.1,
    (List.Sublist.map Prod.fst List.filter_sublist).nodup m.nodup⟩

/-- Take a key out. -/
def erase (m : Keyed κ ν) (key : κ) : Keyed κ ν := m.filter fun k => k != key

/-- How many entries there are. -/
def size (m : Keyed κ ν) : Nat := m.entries.length

/-- Collect entries; of two with one key the later gives the value. -/
def ofList (entries : List (κ × ν)) : Keyed κ ν :=
  entries.foldl (fun m e => m.insert e.1 e.2) empty

/-- The entries are what is found under the keys. -/
theorem mem_entries_iff (m : Keyed κ ν) {key : κ} {value : ν} :
    (key, value) ∈ m.entries ↔ m.find? key = some value :=
  mem_iff_lookup? m.nodup

/-- Nothing is found in the empty map. -/
@[simp] theorem find?_empty (key : κ) : (empty : Keyed κ ν).find? key = none := rfl

/-- After an insertion its value is found under its key, and all else is as it was. -/
theorem find?_insert (m : Keyed κ ν) (key k : κ) (value : ν) :
    (m.insert key value).find? k = if key = k then some value else m.find? k :=
  lookup?_assign key k value m.entries

/-- Collecting keeps the last value of each key. -/
theorem find?_ofList (entries : List (κ × ν)) (key : κ) :
    (ofList entries).find? key = lookup? key entries.reverse := by
  have hfold (m : Keyed κ ν) : (entries.foldl (fun m e => m.insert e.1 e.2) m).find? key =
      (lookup? key entries.reverse).or (m.find? key) := by
    induction entries generalizing m with
    | nil => rfl
    | cons entry rest ih =>
      rw [List.foldl_cons, ih, find?_insert, List.reverse_cons, lookup?_append]
      by_cases h : entry.1 = key <;> simp [lookup?, h]
  rw [ofList, hfold, find?_empty, Option.or_none]

/-- A collected key has a value that it came with. -/
theorem mem_of_find?_ofList {entries : List (κ × ν)} {key : κ} {value : ν}
    (h : (ofList entries).find? key = some value) : (key, value) ∈ entries :=
  List.mem_reverse.1 (mem_of_lookup? (find?_ofList entries key ▸ h))

/-- Where no key comes twice, what is found is what was collected. -/
theorem find?_ofList_iff {entries : List (κ × ν)} (h : (entries.map Prod.fst).Nodup) {key : κ}
    {value : ν} : (ofList entries).find? key = some value ↔ (key, value) ∈ entries := by
  have hreverse : (entries.reverse.map Prod.fst).Nodup := by
    rw [List.map_reverse]
    exact (List.reverse_perm _).nodup_iff.2 h
  rw [find?_ofList, ← mem_iff_lookup? hreverse, List.mem_reverse]

/-- What is kept is found as before, and nothing else is. -/
theorem find?_filter (m : Keyed κ ν) (keep : κ → Bool) (k : κ) :
    (m.filter keep).find? k = if keep k then m.find? k else none :=
  lookup?_filter k keep m.entries

/-- After an erasure nothing is found under its key, and all else is as it was. -/
theorem find?_erase (m : Keyed κ ν) (key k : κ) :
    (m.erase key).find? k = if k = key then none else m.find? k := by
  rw [erase, find?_filter]
  by_cases h : k = key <;> simp [h]

/-- What was just inserted is found. -/
@[simp] theorem find?_insert_self (m : Keyed κ ν) (key : κ) (value : ν) :
    (m.insert key value).find? key = some value := by simp [find?_insert]

end Keyed

end ShortLinks
