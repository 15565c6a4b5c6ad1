import ShortLinks.Proofs.Store.Memory

/-!
# Burying the links of an owner

To bury the links of an owner under some codes is to give each of them its tombstone and to leave
everything else in its place. How often a code is named and in which order does not matter, and
burying twice is burying once. A deletion that succeeds buries the link under its code, whether that
link was there, belongs to somebody else or is buried already; one that fails buries nothing.
-/

namespace ShortLinks

namespace Keyed

variable {κ ν : Type}

/-- Change the values where they stand. -/
def mapValues (m : Keyed κ ν) (f : κ → ν → ν) : Keyed κ ν where
  entries := m.entries.map fun e => (e.1, f e.1 e.2)
  nodup := by
    rw [List.map_map]
    exact m.nodup

/-- Values that change twice change as the changes do together. -/
theorem mapValues_mapValues (m : Keyed κ ν) (f g : κ → ν → ν) :
    (m.mapValues f).mapValues g = m.mapValues fun key value => g key (f key value) := by
  rw [mapValues, mk.injEq]
  exact List.map_map

variable [DecidableEq κ] {m : Keyed κ ν} {f g : κ → ν → ν}

/-- What is found is what was found, changed. -/
theorem find?_mapValues (m : Keyed κ ν) (f : κ → ν → ν) (key : κ) :
    (m.mapValues f).find? key = (m.find? key).map (f key) := by
  apply Option.ext
  intro value
  rw [← mem_entries_iff, mapValues, List.mem_map, Option.map_eq_some_iff]
  constructor
  · rintro ⟨⟨k, v⟩, hmem, heq⟩
    cases heq
    exact ⟨v, m.mem_entries_iff.1 hmem, rfl⟩
  · rintro ⟨v, hfind, rfl⟩
    exact ⟨(key, v), m.mem_entries_iff.2 hfind, rfl⟩

/-- Only what is done with the values that are there matters. -/
theorem mapValues_congr (h : ∀ key value, m.find? key = some value → f key value = g key value) :
    m.mapValues f = m.mapValues g := by
  rw [mapValues, mapValues, mk.injEq]
  apply List.map_congr_left
  intro e hmem
  rw [h e.1 e.2 (m.mem_entries_iff.1 hmem)]

/-- Where no value changes, the map is the same. -/
theorem mapValues_eq_self (h : ∀ key value, m.find? key = some value → f key value = value) :
    m.mapValues f = m := by
  rw [mapValues_congr (g := fun _ value => value) h, mapValues]
  congr 1
  exact List.map_id m.entries

/-- Where no key comes twice, giving a key that is there another value changes that value alone. -/
theorem assign_eq_map {key : κ} {entries : List (κ × ν)} (h : (entries.map Prod.fst).Nodup)
    (hkey : key ∈ entries.map Prod.fst) (value : ν) :
    assign key value entries = entries.map fun e => (e.1, if e.1 = key then value else e.2) := by
  induction entries with
  | nil => cases hkey
  | cons entry rest ih =>
    obtain ⟨k, v⟩ := entry
    rw [List.map_cons, List.nodup_cons] at h
    by_cases hk : k = key
    · have hrest : rest.map (fun e => (e.1, if e.1 = key then value else e.2)) = rest := by
        refine (List.map_congr_left fun e hmem => ?_).trans (List.map_id rest)
        have hne : e.1 ≠ key := fun heq => h.1 (List.mem_map.2 ⟨e, hmem, heq.trans hk.symm⟩)
        rw [if_neg hne]
        rfl
      rw [assign, if_pos hk, List.map_cons, hrest, if_pos hk, hk]
    · have hlater : key ∈ rest.map Prod.fst :=
        (List.mem_cons.1 hkey).resolve_left fun heq => hk heq.symm
      rw [assign, if_neg hk, List.map_cons, if_neg hk, ih h.2 hlater]

/-- A new value under a key that is there changes the value under this key. -/
theorem insert_eq_mapValues {key : κ} {value : ν} (h : m.find? key = some value) (new : ν) :
    m.insert key new = m.mapValues fun k v => if k = key then new else v := by
  rw [insert, mapValues, mk.injEq]
  exact assign_eq_map m.nodup (List.mem_map.2 ⟨_, m.mem_entries_iff.2 h, rfl⟩) new

end Keyed

namespace Owners

variable {o : Owners} {owner code : String} {codes : List String}

/-- Give the links of an owner under some codes their tombstones. -/
def bury (o : Owners) (owner : String) (codes : List String) : Owners :=
  o.mapValues fun name links =>
    if name = owner then
      links.mapValues fun code link => if code ∈ codes then { link with deleted := true } else link
    else links

/-- A link has its tombstone afterwards if it had it before or is one of those to bury. -/
theorem link?_bury (o : Owners) (owner : String) (codes : List String) (name code : String) :
    (o.bury owner codes).link? name code = (o.link? name code).map fun link =>
      { link with deleted := link.deleted || decide (name = owner ∧ code ∈ codes) } := by
  rw [link?, link?, linksOf, linksOf, bury, Keyed.find?_mapValues]
  cases o.find? name with
  | none => rfl
  | some links =>
    simp only [Option.map_some, Option.getD_some]
    by_cases hname : name = owner
    · rw [if_pos hname, Keyed.find?_mapValues]
      congr 1
      funext link
      by_cases hcode : code ∈ codes <;> simp [hname, hcode]
    · simp [hname]

/-- The same owners are in the map. -/
theorem contains_bury (o : Owners) (owner : String) (codes : List String) (name : String) :
    (o.bury owner codes).contains name = o.contains name := by
  rw [Keyed.contains, bury, Keyed.find?_mapValues, Option.isSome_map]
  rfl

/-- Codes that are buried one after another are buried together. -/
theorem bury_bury (o : Owners) (owner : String) (first second : List String) :
    (o.bury owner first).bury owner second = o.bury owner (first ++ second) := by
  rw [bury, bury, bury, Keyed.mapValues_mapValues]
  congr 1
  funext name links
  by_cases hname : name = owner
  · simp only [if_pos hname, Keyed.mapValues_mapValues, List.mem_append]
    congr 1
    funext code link
    by_cases hfirst : code ∈ first <;> by_cases hsecond : code ∈ second <;> simp [hfirst, hsecond]
  · simp only [if_neg hname]

/-- Only which codes are named matters. -/
theorem bury_congr {codes' : List String} (h : ∀ code, code ∈ codes ↔ code ∈ codes') :
    o.bury owner codes = o.bury owner codes' := by
  simp only [bury, h]

/-- Where every link to bury has its tombstone, nothing changes. -/
theorem bury_eq_self
    (h : ∀ code ∈ codes, ∀ link, o.link? owner code = some link → link.deleted) :
    o.bury owner codes = o := by
  apply Keyed.mapValues_eq_self
  intro name links hlinks
  split
  · next hname =>
    apply Keyed.mapValues_eq_self
    intro code link hlink
    split
    · next hcode =>
      have hfound : o.link? owner code = some link := by
        rw [link?, linksOf, ← hname, hlinks]
        exact hlink
      rw [← h code hcode link hfound]
    · rfl
  · rfl

/-- To put the record of a tombstone over a link is to bury the link. -/
theorem put_eq_bury {link : Link} (h : o.link? owner code = some link) :
    o.put { code, url := link.url, owner, deleted := true } = o.bury owner [code] := by
  rw [link?, linksOf] at h
  cases hlinks : o.find? owner with
  | none => simp [hlinks] at h
  | some links =>
    rw [hlinks, Option.getD_some] at h
    have hinsert : links.insert code { link with deleted := true } = links.mapValues fun c l =>
        if c ∈ [code] then { l with deleted := true } else l := by
      rw [Keyed.insert_eq_mapValues h]
      apply Keyed.mapValues_congr
      intro c l hl
      by_cases hc : c = code
      · subst hc
        cases h.symm.trans hl
        simp
      · simp [hc]
    rw [put, linksOf, hlinks, bury]
    refine (Keyed.insert_eq_mapValues hlinks _).trans (Keyed.mapValues_congr fun name l hl => ?_)
    by_cases hname : name = owner
    · subst hname
      cases hlinks.symm.trans hl
      rw [if_pos rfl, if_pos rfl]
      exact hinsert
    · rw [if_neg hname, if_neg hname]

end Owners

namespace Memory

/-- Give the links of an owner under some codes their tombstones. -/
def bury (m : Memory) (owner : String) (codes : List String) : Memory :=
  { m with owners := m.owners.bury owner codes }

/-- Nothing differs between two stores but that the links of an owner under some codes have their
tombstones in the second. -/
structure Tombstoned (owner : String) (codes : List String) (m m' : Memory) : Prop where
  journal : m'.journal = m.journal
  owners : ∀ name, m'.owners.contains name = m.owners.contains name
  links : ∀ name code link', m'.owners.link? name code = some link' ↔
    ∃ link, m.owners.link? name code = some link ∧ link'.url = link.url ∧
      (link'.deleted ↔ link.deleted ∨ name = owner ∧ code ∈ codes)

/-- Burying some codes of an owner sets tombstones on these alone. -/
theorem tombstoned_bury (m : Memory) (owner : String) (codes : List String) :
    Tombstoned owner codes m (m.bury owner codes) where
  journal := rfl
  owners := Owners.contains_bury m.owners owner codes
  links name code link' := by
    rw [bury, Owners.link?_bury, Option.map_eq_some_iff]
    obtain ⟨url', deleted'⟩ := link'
    constructor
    · rintro ⟨link, hlink, heq⟩
      cases heq
      exact ⟨link, hlink, rfl, by simp⟩
    · rintro ⟨link, hlink, hurl, hdeleted⟩
      refine ⟨link, hlink, ?_⟩
      have hdeleted' : (link.deleted || decide (name = owner ∧ code ∈ codes)) = deleted' :=
        Bool.eq_iff_iff.2 (by simpa using hdeleted.symm)
      rw [Link.mk.injEq]
      exact ⟨hurl.symm, hdeleted'⟩

/-- Codes that are buried one after another are buried together. -/
theorem bury_bury (m : Memory) (owner : String) (first second : List String) :
    (m.bury owner first).bury owner second = m.bury owner (first ++ second) := by
  rw [bury, bury, bury, Owners.bury_bury]

/-- Burying nothing changes nothing. -/
theorem bury_nil (m : Memory) (owner : String) : m.bury owner [] = m := by
  rw [bury, Owners.bury_eq_self fun _ h => absurd h List.not_mem_nil]

/-- In what order codes are buried, and how often, does not matter. -/
theorem bury_congr {m : Memory} {owner : String} {codes codes' : List String}
    (h : ∀ code, code ∈ codes ↔ code ∈ codes') : m.bury owner codes = m.bury owner codes' := by
  rw [bury, bury, Owners.bury_congr h]

/-- A deletion that succeeds buries the link under its code, and one that fails changes nothing. -/
theorem store_delete (code owner : String) (s : Setting Memory) :
    ((delete code owner).run s).2.store =
      s.store.bury owner (if ((delete code owner).run s).1.isOk then [code] else []) := by
  obtain ⟨m, fs⟩ := s
  have hburied (h : ∀ link, m.owners.link? owner code = some link → link.deleted) :
      m = m.bury owner [code] := by
    rw [bury, Owners.bury_eq_self]
    intro c hc
    rwa [List.mem_singleton.1 hc]
  rw [run_delete]
  cases hlink : m.owners.link? owner code with
  | none => exact hburied fun link h => nomatch hlink.symm.trans h
  | some link =>
    simp only
    split
    · next hdeleted =>
      refine hburied fun other h => ?_
      cases hlink.symm.trans h
      exact hdeleted
    · rcases (m.log { code, url := link.url, owner, deleted := true }).run fs with ⟨_ | _, fs'⟩
      · exact (bury_nil m owner).symm
      · simp only
        rw [Owners.put_eq_bury hlink]
        rfl

end Memory

end ShortLinks
