import Mathlib.Data.List.Nodup
import ShortLinks.Store.Owners

/-!
# Links by owner and their records

The records of a map say exactly which links it has, each under one owner and code. Replaying
records that do not come twice gives their links, so a snapshot gives back the links it was taken
of. Maps are compared by their links; owners without any are left out by replaying.
-/

namespace ShortLinks.Owners

variable {o a b : Owners} {owner code : String} {r : Record} {records : List Record}

/-- Two maps have the same links. -/
def Same (a b : Owners) : Prop := ∀ owner code, a.link? owner code = b.link? owner code

/-- A map has the same links as itself. -/
theorem Same.refl (a : Owners) : Same a a := fun _ _ => rfl

/-- Every owner in the map has a link. -/
def Populated (o : Owners) : Prop :=
  ∀ owner links, o.find? owner = some links → ∃ code, (links.find? code).isSome

/-- The link that a record is about. -/
def key (r : Record) : String × String := (r.owner, r.code)

/-- The owners of a populated map are those that have links. -/
theorem Populated.contains_iff (h : o.Populated) (owner : String) :
    o.contains owner ↔ ∃ code, (o.link? owner code).isSome := by
  rw [Keyed.contains]
  cases hlinks : o.find? owner with
  | none => simp [link?, linksOf, hlinks]
  | some links => simpa [link?, linksOf, hlinks] using h owner links hlinks

/-- In the empty map no owner is without links. -/
theorem populated_empty : Populated .empty := fun _ _ h => by cases h

/-- Putting a record in gives its owner a link. -/
theorem Populated.put (h : o.Populated) (r : Record) : (o.put r).Populated := by
  intro owner links hlinks
  rw [Owners.put, Keyed.find?_insert] at hlinks
  split at hlinks
  · cases hlinks
    exact ⟨r.code, by simp⟩
  · exact h owner links hlinks

/-- Replaying records leaves no owner without links. -/
theorem Populated.replay (h : o.Populated) (records : List Record) :
    (o.replay records).Populated := by
  induction records generalizing o with
  | nil => exact h
  | cons r rest ih => exact ih (h.put r)

/-- A map has links where its records say so. -/
theorem mem_records :
    r ∈ o.records ↔ o.link? r.owner r.code = some ⟨r.url, r.deleted⟩ := by
  obtain ⟨code, url, owner, deleted⟩ := r
  constructor
  · intro h
    obtain ⟨⟨_, links⟩, hlinks, hr⟩ := List.mem_flatMap.1 h
    obtain ⟨⟨_, link⟩, hlink, hr⟩ := List.mem_map.1 hr
    cases hr
    rw [link?, linksOf, (Keyed.mem_entries_iff o).1 hlinks]
    exact (Keyed.mem_entries_iff links).1 hlink
  · intro h
    rw [link?, linksOf] at h
    cases hlinks : o.find? owner with
    | none => simp [hlinks] at h
    | some links =>
      rw [hlinks] at h
      exact List.mem_flatMap.2 ⟨(owner, links), (Keyed.mem_entries_iff o).2 hlinks,
        List.mem_map.2 ⟨(code, ⟨url, deleted⟩), (Keyed.mem_entries_iff links).2 h, rfl⟩⟩

/-- The records of a map are about the links it has. -/
theorem mem_keys_records : (owner, code) ∈ o.records.map key ↔ (o.link? owner code).isSome := by
  rw [List.mem_map, Option.isSome_iff_exists]
  constructor
  · rintro ⟨r, hr, hkey⟩
    cases hkey
    exact ⟨_, mem_records.1 hr⟩
  · rintro ⟨link, hlink⟩
    exact ⟨⟨code, link.url, owner, link.deleted⟩, mem_records.2 hlink, rfl⟩

/-- No two records of a map are about the same link. -/
theorem nodup_keys_records (o : Owners) : (o.records.map key).Nodup := by
  rw [records, List.map_flatMap, List.nodup_flatMap]
  constructor
  · rintro ⟨owner, links⟩ -
    rw [List.map_map]
    have hkeys := links.nodup
    rw [show (key ∘ fun (x : String × Link) => (⟨x.1, x.2.url, owner, x.2.deleted⟩ : Record)) =
      (fun code => (owner, code)) ∘ Prod.fst from rfl, ← List.map_map]
    exact hkeys.map fun _ _ h => (Prod.mk.inj h).2
  · have howners := o.nodup
    rw [List.Nodup, List.pairwise_map] at howners
    apply howners.imp
    rintro ⟨owner, links⟩ ⟨owner', links'⟩ hne k hk hk'
    simp only [List.mem_map] at hk hk'
    obtain ⟨r, ⟨_, -, hr⟩, rfl⟩ := hk
    obtain ⟨r', ⟨_, -, hr'⟩, hkey⟩ := hk'
    subst hr hr'
    exact hne (Prod.mk.inj hkey).1.symm

/-- Replaying records keeps a link the same in both maps. -/
theorem link?_replay_congr (h : a.link? owner code = b.link? owner code) (records : List Record) :
    (a.replay records).link? owner code = (b.replay records).link? owner code := by
  induction records generalizing a b with
  | nil => exact h
  | cons r rest ih =>
    apply ih
    rw [link?_put, link?_put, h]

/-- Replaying records keeps maps the same. -/
theorem Same.replay (h : Same a b) (records : List Record) :
    Same (a.replay records) (b.replay records) :=
  fun owner code => link?_replay_congr (h owner code) records

/-- Replaying leaves the links that no record is about. -/
theorem link?_replay_of_not_mem (h : (owner, code) ∉ records.map key) :
    (o.replay records).link? owner code = o.link? owner code := by
  induction records generalizing o with
  | nil => rfl
  | cons r rest ih =>
    rw [List.map_cons, List.mem_cons, not_or] at h
    rw [replay, List.foldl_cons, ← replay, ih h.2, link?_put, if_neg]
    rintro ⟨rfl, rfl⟩
    exact h.1 rfl

/-- Putting a record in leaves what other owners have. -/
theorem find?_put_of_ne {name : String} (h : r.owner ≠ name) (o : Owners) :
    (o.put r).find? name = o.find? name := by
  rw [put, Keyed.find?_insert, if_neg h]

/-- Replaying records of others leaves what an owner has. -/
theorem find?_replay_of_ne {name : String} (h : ∀ r ∈ records, r.owner ≠ name) (o : Owners) :
    (o.replay records).find? name = o.find? name := by
  induction records generalizing o with
  | nil => rfl
  | cons r rest ih =>
    have hrest := ih (fun r' hr' => h r' (List.mem_cons_of_mem r hr')) (o.put r)
    rw [replay, List.foldl_cons, ← replay, hrest]
    exact find?_put_of_ne (h r List.mem_cons_self) o

/-- The owners of records that are replayed are in the map, besides those that were there. -/
theorem contains_replay (o : Owners) (records : List Record) (name : String) :
    (o.replay records).contains name ↔ o.contains name ∨ ∃ r ∈ records, r.owner = name := by
  induction records generalizing o with
  | nil => simp [replay]
  | cons r rest ih =>
    have hput : (o.put r).contains name ↔ r.owner = name ∨ o.contains name := by
      rw [Keyed.contains, put, Keyed.find?_insert]
      by_cases howner : r.owner = name <;> simp [howner, Keyed.contains]
    rw [replay, List.foldl_cons, ← replay, ih, hput, List.exists_mem_cons_iff, or_assoc,
      or_left_comm]

/-- Leaving records out of a replay makes a difference only if it does at their own links. -/
theorem same_replay_without_iff {lost kept : List Record} :
    Same (o.replay kept) ((o.replay lost).replay kept) ↔ ∀ r ∈ lost,
      (o.replay kept).link? r.owner r.code =
        ((o.replay lost).replay kept).link? r.owner r.code := by
  constructor
  · intro h r _
    exact h r.owner r.code
  · intro h owner code
    by_cases hmem : (owner, code) ∈ lost.map key
    · obtain ⟨r, hr, hkey⟩ := List.mem_map.1 hmem
      cases hkey
      exact h r hr
    · exact link?_replay_congr (link?_replay_of_not_mem hmem).symm kept

/-- Replaying sets the link of a record if no other record is about it. -/
theorem link?_replay_of_mem (hkeys : (records.map key).Nodup) (h : r ∈ records) :
    (o.replay records).link? r.owner r.code = some ⟨r.url, r.deleted⟩ := by
  induction records generalizing o with
  | nil => cases h
  | cons r' rest ih =>
    rw [List.map_cons, List.nodup_cons] at hkeys
    rw [replay, List.foldl_cons, ← replay]
    rcases List.mem_cons.1 h with rfl | hrest
    · rw [link?_replay_of_not_mem hkeys.1, link?_put, if_pos ⟨rfl, rfl⟩]
    · exact ih hkeys.2 hrest

/-- Links never go away. -/
theorem isSome_link?_replay (h : (o.link? owner code).isSome) (records : List Record) :
    ((o.replay records).link? owner code).isSome := by
  induction records generalizing o with
  | nil => exact h
  | cons r rest ih =>
    apply ih
    rw [link?_put]
    split
    · rfl
    · exact h

/-- There is a link for each record that was replayed. -/
theorem isSome_link?_of_mem {r : Record} (h : r ∈ records) :
    ((o.replay records).link? r.owner r.code).isSome := by
  induction records generalizing o with
  | nil => cases h
  | cons r' rest ih =>
    cases h with
    | head =>
      have hput : ((o.put r).link? r.owner r.code).isSome := by
        rw [link?_put, if_pos ⟨rfl, rfl⟩]
        rfl
      exact isSome_link?_replay hput rest
    | tail _ hrest => exact ih hrest

/-- Replaying all the records of a map, in any order, gives back its links. -/
theorem same_replay_of_perm (h : records.Perm o.records) : Same (replay .empty records) o := by
  intro owner code
  have hkeys : (records.map key).Nodup := (h.map key).nodup_iff.2 (nodup_keys_records o)
  cases hlink : o.link? owner code with
  | some link =>
    have hmem : (⟨code, link.url, owner, link.deleted⟩ : Record) ∈ records :=
      h.mem_iff.2 (mem_records.2 hlink)
    exact link?_replay_of_mem hkeys hmem
  | none =>
    rw [link?_replay_of_not_mem]
    · rfl
    · intro hmem
      obtain ⟨r, hr, hkey⟩ := List.mem_map.1 hmem
      cases hkey
      rw [mem_records.1 (h.mem_iff.1 hr)] at hlink
      cases hlink

/-- A snapshot gives back the links it was taken of. -/
theorem same_replay_snapshot (o : Owners) : Same (replay .empty o.snapshot) o :=
  same_replay_of_perm (List.mergeSort_perm o.records precedes)

/-- The listing of an owner shows exactly the links of the owner, and there are some. -/
theorem listing_cases (o : Owners) (owner : String) :
    ((∃ links, o.listing owner = .ok links ∧
        ∀ c l, links.find? c = some l ↔ o.link? owner c = some l) ∧
      ∃ c l, o.link? owner c = some l) ∨
    o.listing owner = .error (.ownerUnknown owner) ∧ ∀ c l, o.link? owner c ≠ some l := by
  have hlisting : o.listing owner = if (o.linksOf owner).entries.isEmpty then
      .error (.ownerUnknown owner) else .ok (o.linksOf owner) := rfl
  rw [hlisting]
  split
  · next hempty =>
    refine .inr ⟨rfl, fun c l hlink => ?_⟩
    have hmem := (Keyed.mem_entries_iff _).2 hlink
    rw [List.isEmpty_iff.1 hempty] at hmem
    cases hmem
  · next hsome =>
    refine .inl ⟨⟨_, rfl, fun _ _ => Iff.rfl⟩, ?_⟩
    obtain ⟨⟨c, l⟩, hmem⟩ := List.exists_mem_of_ne_nil _ fun h => hsome (List.isEmpty_iff.2 h)
    exact ⟨c, l, (Keyed.mem_entries_iff _).1 hmem⟩

/-- Two maps have the same links of an owner. -/
def SameOf (owner : String) (a b : Owners) : Prop := ∀ code, a.link? owner code = b.link? owner code

/-- A map has the same links of an owner as itself. -/
theorem SameOf.refl (owner : String) (a : Owners) : SameOf owner a a := fun _ => rfl

/-- That maps have the same links of an owner holds in both directions. -/
theorem SameOf.symm (h : SameOf owner a b) : SameOf owner b a := fun code => (h code).symm

/-- Maps with the same links of an owner as a third have the same. -/
theorem SameOf.trans {c : Owners} (h : SameOf owner a b) (h' : SameOf owner b c) :
    SameOf owner a c := fun code => (h code).trans (h' code)

/-- The same record leaves the same links of an owner. -/
theorem SameOf.put (h : SameOf owner a b) (r : Record) : SameOf owner (a.put r) (b.put r) :=
  fun code => link?_replay_congr (h code) [r]

/-- Maps with the same links of an owner list the same links for the owner, or both list none. -/
theorem SameOf.listing (h : SameOf owner a b) :
    (∃ links links', a.listing owner = .ok links ∧ b.listing owner = .ok links' ∧
      ∀ code, links.find? code = links'.find? code) ∨
    ∃ f, a.listing owner = .error f ∧ b.listing owner = .error f := by
  obtain ⟨⟨links, hok, hlinks⟩, code, l, hlink⟩ | ⟨hnone, hempty⟩ := listing_cases a owner <;>
    obtain ⟨⟨links', hok', hlinks'⟩, code', l', hlink'⟩ | ⟨hnone', hempty'⟩ := listing_cases b owner
  · refine .inl ⟨links, links', hok, hok', fun code => Option.ext fun l => ?_⟩
    rw [hlinks, hlinks', h]
  · exact absurd (h code ▸ hlink) (hempty' code l)
  · exact absurd ((h code').trans hlink') (hempty code' l')
  · exact .inr ⟨_, hnone, hnone'⟩

/-- The links under a code are those that some owner has. -/
theorem mem_linksUnder {link : Link} :
    link ∈ o.linksUnder code ↔ ∃ owner, o.link? owner code = some link := by
  simp only [linksUnder, List.mem_filterMap, Prod.exists, Keyed.mem_entries_iff]
  constructor
  · rintro ⟨owner, links, hlinks, hlink⟩
    exact ⟨owner, by rw [link?, linksOf, hlinks]; exact hlink⟩
  · rintro ⟨owner, hlink⟩
    rw [link?, linksOf] at hlink
    cases hlinks : o.find? owner with
    | none => simp [hlinks] at hlink
    | some links =>
      rw [hlinks] at hlink
      exact ⟨owner, links, hlinks, hlink⟩

/-- A code resolves to the URL of a link that is not deleted, if any owner has one. -/
theorem resolve_cases (o : Owners) (code : String) :
    (∃ owner url, o.resolve code = .ok url ∧ o.link? owner code = some ⟨url, false⟩) ∨
    (o.resolve code = .error (.codeNotFound code) ∧ ∀ owner l, o.link? owner code ≠ some l) ∨
    o.resolve code = .error (.codeDeleted code) ∧ (∃ owner l, o.link? owner code = some l) ∧
      ∀ owner l, o.link? owner code = some l → l.deleted := by
  cases hfind : (o.linksUnder code).find? fun link => !link.deleted with
  | some link =>
    obtain ⟨owner, hlink⟩ := mem_linksUnder.1 (List.mem_of_find?_eq_some hfind)
    have hkept : link.deleted = false := by simpa using List.find?_some hfind
    exact .inl ⟨owner, link.url, by simp only [resolve, hfind], by rw [hlink, ← hkept]⟩
  | none =>
    have hresolve : o.resolve code = .error (if (o.linksUnder code).isEmpty
        then .codeNotFound code else .codeDeleted code) := by simp only [resolve, hfind]
    have hdeleted (owner : String) (l : Link) (hlink : o.link? owner code = some l) :
        l.deleted := by
      simpa using List.find?_eq_none.1 hfind l (mem_linksUnder.2 ⟨owner, hlink⟩)
    rw [hresolve]
    cases hempty : (o.linksUnder code).isEmpty with
    | true =>
      refine .inr (.inl ⟨rfl, fun owner l hlink => ?_⟩)
      have hmem := mem_linksUnder.2 ⟨owner, hlink⟩
      rw [List.isEmpty_iff.1 hempty] at hmem
      cases hmem
    | false =>
      obtain ⟨l, hmem⟩ := List.exists_mem_of_ne_nil _ (List.isEmpty_eq_false_iff.1 hempty)
      obtain ⟨owner, hlink⟩ := mem_linksUnder.1 hmem
      exact .inr (.inr ⟨rfl, ⟨owner, l, hlink⟩, hdeleted⟩)

/-- The owners who have links. -/
def holders (o : Owners) : List String :=
  (o.entries.filter fun (_, links) => !links.entries.isEmpty).map Prod.fst

/-- No owner is named twice. -/
theorem nodup_holders (o : Owners) : o.holders.Nodup :=
  (List.filter_sublist.map Prod.fst).nodup o.nodup

/-- The owners are those who have a link. -/
theorem mem_holders : owner ∈ o.holders ↔ ∃ code link, o.link? owner code = some link := by
  simp only [holders, List.mem_map, List.mem_filter, Prod.exists, Keyed.mem_entries_iff]
  constructor
  · rintro ⟨_, links, ⟨hlinks, hsome⟩, rfl⟩
    obtain ⟨⟨code, link⟩, hmem⟩ :=
      List.exists_mem_of_ne_nil links.entries fun h => by simp [h] at hsome
    refine ⟨code, link, ?_⟩
    rw [link?, linksOf, hlinks]
    exact (Keyed.mem_entries_iff links).1 hmem
  · rintro ⟨code, link, hlink⟩
    rw [link?, linksOf] at hlink
    cases hlinks : o.find? owner with
    | none => simp [hlinks] at hlink
    | some links =>
      rw [hlinks] at hlink
      have hmem : (code, link) ∈ links.entries := (Keyed.mem_entries_iff links).2 hlink
      have hsome : links.entries.isEmpty = false :=
        List.isEmpty_eq_false_iff.2 (List.ne_nil_of_mem hmem)
      exact ⟨owner, links, ⟨hlinks, by rw [hsome]; rfl⟩, rfl⟩

/-- The statistics count the records and the owners who have links. -/
theorem stats_eq (o : Owners) : o.stats = ⟨o.records.length, o.holders.length⟩ := by
  have hlinks : o.entries.foldl (fun n (_, links) => n + links.size) 0 = o.records.length := by
    rw [records, List.length_flatMap, List.sum_eq_foldl, List.foldl_map]
    simp only [List.length_map, Keyed.size]
  rw [stats, hlinks, holders, List.length_map]

end ShortLinks.Owners
