import Mathlib.Data.List.Dedup
import ShortLinks.Proofs.Store.Owners

/-!
# One flat map of links

Links by owner can be seen as one map from owner and code to link. The map is a picture of the links
when it finds the same link everywhere. Records that are put in on both sides keep it a picture, and
everything that is asked of the links can be read off it: whether a code is taken, what a code
resolves to, the listing of an owner and the counts.
-/

namespace ShortLinks

/-- Links by owner and code. -/
abbrev Flat := Keyed (String × String) Link

namespace Flat

variable {f : Flat} {o : Owners} {owner code : String}

/-- Put a record in, over the link under its owner and code. -/
def put (f : Flat) (r : Record) : Flat := f.insert (Owners.key r) ⟨r.url, r.deleted⟩

/-- Put records in, one after another. -/
def putAll (f : Flat) (records : List Record) : Flat := records.foldl put f

/-- Count the keys, and the owners among them. -/
def stats (f : Flat) : Stats where
  links := f.size
  owners := (f.entries.map fun e => e.1.1).dedup.length

/-- The map finds the same links. -/
def Pictures (f : Flat) (o : Owners) : Prop :=
  ∀ owner code, f.find? (owner, code) = o.link? owner code

/-- The empty map shows that there are no links. -/
theorem pictures_empty : Pictures .empty .empty := fun _ _ => rfl

/-- A record is put into the map as it is among the links. -/
theorem Pictures.put (h : f.Pictures o) (r : Record) : (f.put r).Pictures (o.put r) := by
  intro owner code
  rw [Flat.put, Keyed.find?_insert, Owners.link?_put, h owner code, Owners.key]
  simp only [Prod.mk.injEq]

/-- Records are put into the map as they are among the links. -/
theorem Pictures.putAll (h : f.Pictures o) (records : List Record) :
    (f.putAll records).Pictures (o.replay records) := by
  induction records generalizing f o with
  | nil => exact h
  | cons r rest ih => exact ih (h.put r)

/-- A key is in the map when its owner has a link under its code. -/
theorem Pictures.contains (h : f.Pictures o) (owner code : String) :
    f.contains (owner, code) = (o.link? owner code).isSome := by
  rw [Keyed.contains, h owner code]

/-- The keys of the map are those of the records of the links. -/
theorem Pictures.keys_perm (h : f.Pictures o) :
    (f.entries.map Prod.fst).Perm (o.records.map Owners.key) := by
  rw [List.perm_ext_iff_of_nodup f.nodup (Owners.nodup_keys_records o)]
  rintro ⟨owner, code⟩
  rw [Owners.mem_keys_records, Option.isSome_iff_exists]
  simp only [List.mem_map, Prod.exists, exists_and_right, exists_eq_right, Keyed.mem_entries_iff,
    h owner code]

/-- The owners in the map are those who have links. -/
theorem Pictures.owners_perm (h : f.Pictures o) :
    (f.entries.map fun e => e.1.1).dedup.Perm o.holders := by
  rw [List.perm_ext_iff_of_nodup (List.nodup_dedup _) (Owners.nodup_holders o)]
  intro owner
  simp only [List.mem_dedup, List.mem_map, Prod.exists, exists_and_right, exists_eq_right,
    Keyed.mem_entries_iff, Owners.mem_holders, h owner]

/-- The map has as many links and owners. -/
theorem Pictures.stats_eq (h : f.Pictures o) : o.stats = f.stats := by
  rw [Owners.stats_eq, Flat.stats, h.owners_perm.length_eq, Keyed.size]
  have hlength := h.keys_perm.length_eq
  rw [List.length_map, List.length_map] at hlength
  rw [hlength]

end Flat

end ShortLinks
