import ShortLinks.Proofs.Sorted
import ShortLinks.Proofs.Store.Memory

/-!
# Records that cannot be logged

A journal open for appending is asked to write each record by itself, in the order of the records,
and the fault plan decides about each write. So a fault plan is an assignment of troubles to the
records of a batch, and every assignment comes from a fault plan. A record in trouble is neither in
the journal nor among the links; the others are not touched by it. What a batch answers names every
code in trouble with its own cause, or else every code that was taken, in ascending order.
-/

namespace ShortLinks

open FileSystem

variable {fs : FileSystem} {file : FileId} {e : IoError} {journal : Journal}

namespace Disk

variable {bytes : Bytes}

/-- Octets that the fault plan does not let be written are not written. -/
theorem run_append_refused (hsome : bytes ≠ []) (h : fs.faults fs.performed .write = some e) :
    (append file bytes).run fs = (.error e, fs.tick) := by
  rw [append, if_neg fun hempty => hsome (List.isEmpty_iff.1 hempty), run_bind, run_attempt, h]

/-- Octets that it does let be written are there afterwards. -/
theorem run_append_granted (hsome : bytes ≠ []) (h : fs.faults fs.performed .write = none) :
    (append file bytes).run fs =
      (.ok (), fs.tick.setContent file (.octets (fs.tick.bytes file ++ bytes))) := by
  rw [append, if_neg fun hempty => hsome (List.isEmpty_iff.1 hempty), run_bind, run_attempt, h]
  rfl

end Disk

namespace Journal

/-- The fault of a record that could not be written. -/
def unlogged (j : Journal) (e : IoError) : Fault := pathFault "Failed to append to" j.path e

/-- What adding a record answers when the write meets a trouble, or none. -/
def told (j : Journal) : Option IoError → Except Fault Unit
  | none => .ok ()
  | some e => .error (j.unlogged e)

/-- The line of a record is not empty. -/
theorem lineBytes_ne_nil (r : Record) : lineBytes r ≠ [] := by simp [lineBytes]

/-- A record that cannot be written is reported with its cause, and nothing is written. -/
theorem run_append_refused (hwriter : journal.writer = some file) (r : Record)
    (h : fs.faults fs.performed .write = some e) :
    (journal.append r).run fs = (.error (journal.unlogged e), fs.tick) := by
  rw [append, hwriter]
  simp only [run_orFault, Disk.run_append_refused (lineBytes_ne_nil r) h]
  rfl

/-- Adding a record asks the fault plan once, and answers what it says. -/
theorem run_append_told (hwriter : journal.writer = some file) (r : Record) (fs : FileSystem) :
    ∃ fs', (journal.append r).run fs = (journal.told (fs.faults fs.performed .write), fs') ∧
      fs'.faults = fs.faults ∧ fs'.performed = fs.performed + 1 := by
  cases h : fs.faults fs.performed .write with
  | some e => exact ⟨fs.tick, run_append_refused hwriter r h, rfl, rfl⟩
  | none =>
    refine ⟨fs.tick.setContent file (.octets (fs.tick.bytes file ++ lineBytes r)), ?_, rfl, rfl⟩
    rw [append, hwriter]
    simp only [run_orFault, Disk.run_append_granted (lineBytes_ne_nil r) h]
    rfl

end Journal

namespace Memory

variable {m : Memory} {urls : Keyed String String} {code url owner : String}
  {records : List Record} {trouble : String → Option IoError}

/-- The fault plan gives the record under each code its trouble when the records are written one
after another. -/
def Assigned (fs : FileSystem) (records : List Record) (trouble : String → Option IoError) : Prop :=
  ∀ k r, records[k]? = some r → fs.faults (fs.performed + k) .write = trouble r.code

/-- Every assignment of troubles to records comes from a fault plan. -/
theorem exists_assigned (fs : FileSystem) (records : List Record)
    (trouble : String → Option IoError) :
    ∃ faults, Assigned { fs with faults } records trouble := by
  refine ⟨fun n _ => (records[n - fs.performed]?).bind fun r => trouble r.code, fun k r hr => ?_⟩
  simp only [Nat.add_sub_cancel_left, hr, Option.bind_some]

/-- Each record is answered what the fault plan says of it. -/
theorem run_logAll_assigned (hjournal : m.journal = some journal)
    (hwriter : journal.writer = some file) (h : Assigned fs records trouble) :
    ((m.logAll records).run fs).1 = records.map fun r => (r, journal.told (trouble r.code)) := by
  induction records generalizing fs with
  | nil => rfl
  | cons r rest ih =>
    obtain ⟨fs', happend, hfaults, hperformed⟩ := journal.run_append_told hwriter r fs
    have hfirst : fs.faults fs.performed .write = trouble r.code := h 0 r rfl
    have hrest : Assigned fs' rest trouble := by
      intro k r' hr'
      rw [hfaults, hperformed, Nat.add_assoc, Nat.add_comm 1 k]
      exact h (k + 1) r' hr'
    have hlog : (m.log r).run fs = (journal.told (trouble r.code), fs') := by
      rw [log, hjournal, ← hfirst]
      exact happend
    rw [run_logAll_cons rest hlog, List.map_cons, ← ih hrest]

/-- The codes in trouble, each with its cause. -/
def troubled (records : List Record) (trouble : String → Option IoError) :
    List (String × IoError) :=
  records.filterMap fun r => (trouble r.code).map fun e => (r.code, e)

/-- The failures are those that were told of the records in trouble. -/
theorem failures_told (journal : Journal) (records : List Record)
    (trouble : String → Option IoError) :
    failures (records.map fun r => (r, journal.told (trouble r.code))) =
      (troubled records trouble).map (Prod.map id journal.unlogged) := by
  rw [failures, troubled, List.filterMap_map, List.map_filterMap]
  apply List.filterMap_congr
  intro r _
  rw [Function.comp_apply]
  cases trouble r.code <;> rfl

/-- A record is written when it is in no trouble. -/
theorem mem_written_told {r : Record} :
    r ∈ written (records.map fun r => (r, journal.told (trouble r.code))) ↔
      r ∈ records ∧ trouble r.code = none := by
  rw [mem_written, List.mem_map]
  constructor
  · rintro ⟨r', hr', heq⟩
    obtain ⟨rfl, htold⟩ := Prod.mk.inj heq
    refine ⟨hr', ?_⟩
    cases htrouble : trouble r'.code with
    | none => rfl
    | some e => simp [htrouble, Journal.told] at htold
  · rintro ⟨hr, hnone⟩
    exact ⟨r, hr, by rw [hnone]; rfl⟩

/-- A code of a batch is in trouble when it was free and its record met the trouble. -/
theorem mem_troubled : (code, e) ∈ troubled (m.fresh urls owner) trouble ↔
    urls.contains code ∧ m.owners.link? owner code = none ∧ trouble code = some e := by
  simp only [troubled, List.mem_filterMap, Option.map_eq_some_iff, Prod.mk.injEq]
  constructor
  · rintro ⟨r, hr, e', htrouble, rfl, rfl⟩
    obtain ⟨-, -, hfind, hfree⟩ := mem_fresh.1 hr
    exact ⟨by rw [Keyed.contains, hfind]; rfl, hfree, htrouble⟩
  · rintro ⟨hcontains, hfree, htrouble⟩
    obtain ⟨url, hfind⟩ := Option.isSome_iff_exists.1 hcontains
    exact ⟨⟨code, url, owner, false⟩, mem_fresh.2 ⟨rfl, rfl, hfind, hfree⟩, e, htrouble, rfl, rfl⟩

/-- No code is in trouble twice. -/
theorem nodup_codes_troubled (m : Memory) (urls : Keyed String String) (owner : String)
    (trouble : String → Option IoError) :
    ((troubled (m.fresh urls owner) trouble).map Prod.fst).Nodup := by
  have hcodes : ((m.fresh urls owner).map Record.code).Nodup := by
    have hkeys := nodup_keys_fresh m urls owner
    rw [List.Nodup, List.pairwise_map] at hkeys ⊢
    refine hkeys.imp_of_mem fun hr hr' hne hsame => hne ?_
    rw [Owners.key, Owners.key, (mem_fresh.1 hr).1, (mem_fresh.1 hr').1, hsame]
  have hsome : (troubled (m.fresh urls owner) trouble).map Prod.fst =
      ((m.fresh urls owner).map Record.code).filter fun code => (trouble code).isSome := by
    rw [troubled, List.map_filterMap, List.filter_map, ← List.filterMap_eq_map,
      List.filterMap_filter]
    apply List.filterMap_congr
    intro r _
    rw [Function.comp_apply]
    cases trouble r.code <;> rfl
  rw [hsome]
  exact hcodes.filter _

/-- The links after a batch, some of whose records met a trouble. -/
theorem link?_replay_told (journal : Journal) (m : Memory) (urls : Keyed String String)
    (owner : String) (trouble : String → Option IoError) (other code : String) :
    (m.owners.replay (written ((m.fresh urls owner).map fun r =>
        (r, journal.told (trouble r.code))))).link? other code =
      if other = owner ∧ m.owners.link? owner code = none ∧ trouble code = none then
        (urls.find? code).map fun url => ⟨url, false⟩
      else m.owners.link? other code := by
  have hrecords : ((m.fresh urls owner).map fun r => (r, journal.told (trouble r.code))).map
      Prod.fst = m.fresh urls owner := by
    rw [List.map_map]
    exact List.map_id _
  rw [link?_replay_written hrecords, failures_told, List.map_map]
  by_cases hfree : other = owner ∧ m.owners.link? owner code = none
  · obtain ⟨rfl, hfree⟩ := hfree
    cases hfind : urls.find? code with
    | none => simp [hfree]
    | some url =>
      have htrouble : (code ∈ (troubled (m.fresh urls other) trouble).map Prod.fst) ↔
          trouble code ≠ none := by
        rw [List.mem_map, Option.ne_none_iff_exists']
        constructor
        · rintro ⟨⟨c, e⟩, hmem, rfl⟩
          exact ⟨e, (mem_troubled.1 hmem).2.2⟩
        · rintro ⟨e, he⟩
          refine ⟨(code, e), mem_troubled.2 ⟨?_, hfree, he⟩, rfl⟩
          rw [Keyed.contains, hfind]
          rfl
      have hcodes : Prod.fst ∘ Prod.map (id : String → String) journal.unlogged = Prod.fst := rfl
      simp only [hcodes, htrouble, not_not]
  · rw [if_neg fun h => hfree ⟨h.1, h.2.1⟩, if_neg fun h => hfree ⟨h.1, h.2.1⟩]

/-- How a batch ends whose troubles and taken codes are known: it names all of the troubles in
ascending order of their codes, or else all of the taken codes in ascending order. -/
theorem verdict_told (journal : Journal) (owner : String) {known : List String}
    {troubles : List (String × IoError)} (hknown : known.Nodup)
    (htroubles : (troubles.map Prod.fst).Nodup) :
    ∃ (failed : List (String × IoError)) (taken : List String),
      (failed.Perm troubles ∧ failed.Pairwise fun a b => a.1 < b.1) ∧
      (taken.Perm known ∧ taken.Pairwise (· < ·)) ∧
      verdict owner known (troubles.map (Prod.map id journal.unlogged)) =
        if failed ≠ [] then .error ⟨.fileOperation, toString failed.length ++
          " short code(s) for owner " ++ owner ++ " were not persisted: " ++ "; ".intercalate
            (failed.map fun (code, e) => code ++ ": " ++ (journal.unlogged e).line)⟩
        else if taken ≠ [] then .error ⟨.conflict, toString taken.length ++
          " short code(s) already exist for owner " ++ owner ++ ": " ++ ", ".intercalate taken⟩
        else .ok () := by
  have hsorted : (troubles.map (Prod.map id journal.unlogged)).mergeSort byCode =
      (troubles.mergeSort fun a b => decide (a.1 ≤ b.1)).map (Prod.map id journal.unlogged) := by
    symm
    apply List.map_mergeSort
    exact fun _ _ _ _ => rfl
  have hfailed : (troubles.mergeSort fun a b => decide (a.1 ≤ b.1)).Perm troubles :=
    List.mergeSort_perm _ _
  have htaken : known.mergeSort.Perm known := List.mergeSort_perm _ _
  refine ⟨_, _, ⟨hfailed, pairwise_lt_mergeSort Prod.fst htroubles⟩,
    ⟨htaken, pairwise_lt_mergeSort id (by rwa [List.map_id])⟩, ?_⟩
  rw [verdict, List.isEmpty_map, ← hfailed.isEmpty_eq, ← htaken.isEmpty_eq, unwritten, Memory.taken,
    hsorted, List.length_map, ← hfailed.length_eq, ← htaken.length_eq, List.map_map]
  generalize (troubles.mergeSort fun a b => decide (a.1 ≤ b.1)) = failed
  generalize known.mergeSort = taken
  rcases failed with _ | _ <;> rcases taken with _ | _ <;> rfl

/-- A batch whose records met troubles. -/
theorem run_addBatch_assigned (hjournal : m.journal = some journal)
    (hwriter : journal.writer = some file) (h : Assigned fs (m.fresh urls owner) trouble) :
    let ended := (addBatch urls owner).run ⟨m, fs⟩
    ended.1 = verdict owner (m.known urls owner)
      ((troubled (m.fresh urls owner) trouble).map (Prod.map id journal.unlogged)) ∧
    ended.2.store = { m with owners := m.owners.replay (written ((m.fresh urls owner).map fun r =>
      (r, journal.told (trouble r.code)))) } := by
  rw [run_addBatch, ← failures_told, ← run_logAll_assigned hjournal hwriter h]
  exact ⟨rfl, rfl⟩

/-- The owner of a batch is in the map if that was so before or a record met no trouble. -/
theorem contains_replay_told (journal : Journal) (m : Memory) (urls : Keyed String String)
    (owner : String) (trouble : String → Option IoError) :
    (m.owners.replay (written ((m.fresh urls owner).map fun r =>
        (r, journal.told (trouble r.code))))).contains owner ↔ m.owners.contains owner ∨ ∃ code,
      urls.contains code ∧ m.owners.link? owner code = none ∧ trouble code = none := by
  rw [Owners.contains_replay]
  apply or_congr_right
  constructor
  · rintro ⟨r, hr, -⟩
    obtain ⟨hfresh, htrouble⟩ := mem_written_told.1 hr
    obtain ⟨-, -, hfind, hfree⟩ := mem_fresh.1 hfresh
    exact ⟨r.code, by rw [Keyed.contains, hfind]; rfl, hfree, htrouble⟩
  · rintro ⟨code, hcontains, hfree, htrouble⟩
    obtain ⟨url, hfind⟩ := Option.isSome_iff_exists.1 hcontains
    exact ⟨⟨code, url, owner, false⟩,
      mem_written_told.2 ⟨mem_fresh.2 ⟨rfl, rfl, hfind, hfree⟩, htrouble⟩, rfl⟩

/-- A record that cannot be logged is reported and nothing else happens. -/
theorem run_log_refused (hjournal : m.journal = some journal)
    (hwriter : journal.writer = some file) (r : Record)
    (h : fs.faults fs.performed .write = some e) :
    (m.log r).run fs = (.error (journal.unlogged e), fs.tick) := by
  rw [log, hjournal]
  exact Journal.run_append_refused hwriter r h

/-- An addition that cannot be logged fails and leaves the store as it is. -/
theorem run_add_refused (hjournal : m.journal = some journal)
    (hwriter : journal.writer = some file) (hfree : m.owners.link? owner code = none)
    (h : fs.faults fs.performed .write = some e) :
    (add code url owner).run ⟨m, fs⟩ = (.error (journal.unlogged e), ⟨m, fs.tick⟩) := by
  rw [run_add, hfree, run_log_refused hjournal hwriter _ h]
  rfl

/-- A deletion that cannot be logged fails and leaves the store as it is. -/
theorem run_delete_refused (hjournal : m.journal = some journal)
    (hwriter : journal.writer = some file) (hlink : m.owners.link? owner code = some ⟨url, false⟩)
    (h : fs.faults fs.performed .write = some e) :
    (delete code owner).run ⟨m, fs⟩ = (.error (journal.unlogged e), ⟨m, fs.tick⟩) := by
  rw [run_delete, hlink]
  simp only [Bool.false_eq_true, if_false, run_log_refused hjournal hwriter _ h]

section Others

variable {name : String} (h : name ≠ owner) (s : Setting Memory)
include h

/-- However an addition ends, other owners have what they had. -/
theorem find?_add_of_ne (code url : String) :
    ((add code url owner).run s).2.store.owners.find? name = s.store.owners.find? name := by
  rw [run_add]
  split
  · rfl
  · rcases (s.store.log { code, url, owner }).run s.files with ⟨_ | _, fs⟩
    · rfl
    · exact Owners.find?_put_of_ne h.symm _

/-- A deletion leaves everything of other owners. -/
theorem find?_delete_of_ne (code : String) :
    ((delete code owner).run s).2.store.owners.find? name = s.store.owners.find? name := by
  rw [run_delete]
  cases s.store.owners.link? owner code with
  | none => rfl
  | some link =>
    simp only
    split
    · rfl
    · rcases (s.store.log { code, url := link.url, owner, deleted := true }).run s.files
        with ⟨_ | _, fs⟩
      · rfl
      · exact Owners.find?_put_of_ne h.symm _

/-- A batch leaves everything of other owners. -/
theorem find?_addBatch_of_ne (urls : Keyed String String) :
    ((addBatch urls owner).run s).2.store.owners.find? name = s.store.owners.find? name := by
  rw [run_addBatch]
  apply Owners.find?_replay_of_ne
  intro r hr
  have hfresh : r ∈ s.store.fresh urls owner := by
    have hmem := (written_sublist _).subset hr
    rwa [map_fst_logAll] at hmem
  rw [(mem_fresh.1 hfresh).1]
  exact h.symm

end Others

/-- Into a store whose journal is open for appending, whatever its links, the order of a batch and
the troubles that its records meet:

* every assignment of troubles to the records comes from a fault plan;
* a batch leaves the links as they were, but for an active link under each code that was free and
  met no trouble, and its owner is in the map if that was so before or there is such a code;
* it answers with a fault of the file if some record met a trouble, counting these and naming every
  code in ascending order with its own cause; else with a conflict if some code was taken, naming
  all of them in ascending order; and else it succeeds;
* an addition or a deletion whose record meets a trouble answers with this trouble, and the store
  stays as it was;
* whatever is added or deleted, and however that ends, other owners have what they had. -/
theorem each_trouble_is_reported (m : Memory) (fs : FileSystem) (urls : Keyed String String)
    (owner : String) (trouble : String → Option IoError) (hjournal : m.journal = some journal)
    (hwriter : journal.writer = some file) :
    (∃ faults, Assigned { fs with faults } (m.fresh urls owner) trouble) ∧
    (Assigned fs (m.fresh urls owner) trouble →
      let ended := (addBatch urls owner).run ⟨m, fs⟩
      (ended.2.store.journal = m.journal ∧
        (∀ other code, ended.2.store.owners.link? other code =
          if other = owner ∧ m.owners.link? owner code = none ∧ trouble code = none then
            (urls.find? code).map fun url => ⟨url, false⟩
          else m.owners.link? other code) ∧
        (ended.2.store.owners.contains owner ↔ m.owners.contains owner ∨ ∃ code,
          urls.contains code ∧ m.owners.link? owner code = none ∧ trouble code = none)) ∧
      ∃ (failed : List (String × IoError)) (taken : List String),
        ((∀ code e, (code, e) ∈ failed ↔ urls.contains code ∧ m.owners.link? owner code = none ∧
          trouble code = some e) ∧ failed.Pairwise fun a b => a.1 < b.1) ∧
        ((∀ code, code ∈ taken ↔ urls.contains code ∧ (m.owners.link? owner code).isSome) ∧
          taken.Pairwise (· < ·)) ∧
        ended.1 =
          if failed ≠ [] then .error ⟨.fileOperation, toString failed.length ++
            " short code(s) for owner " ++ owner ++ " were not persisted: " ++ "; ".intercalate
              (failed.map fun (code, e) => code ++ ": " ++ (journal.unlogged e).line)⟩
          else if taken ≠ [] then .error ⟨.conflict, toString taken.length ++
            " short code(s) already exist for owner " ++ owner ++ ": " ++ ", ".intercalate taken⟩
          else .ok ()) ∧
    (∀ e, fs.faults fs.performed .write = some e →
      (∀ code url, m.owners.link? owner code = none →
        (add code url owner).run ⟨m, fs⟩ = (.error (journal.unlogged e), ⟨m, fs.tick⟩)) ∧
      ∀ code url, m.owners.link? owner code = some ⟨url, false⟩ →
        (delete code owner).run ⟨m, fs⟩ = (.error (journal.unlogged e), ⟨m, fs.tick⟩)) ∧
    ∀ other, other ≠ owner →
      ((addBatch urls owner).run ⟨m, fs⟩).2.store.owners.find? other = m.owners.find? other ∧
      (∀ code url,
        ((add code url owner).run ⟨m, fs⟩).2.store.owners.find? other = m.owners.find? other) ∧
      ∀ code,
        ((delete code owner).run ⟨m, fs⟩).2.store.owners.find? other = m.owners.find? other := by
  refine ⟨exists_assigned fs _ trouble, fun hassigned => ?_, fun e he => ⟨?_, ?_⟩,
    fun other h => ?_⟩
  · obtain ⟨hresult, hstore⟩ := run_addBatch_assigned hjournal hwriter hassigned
    have hknown : (m.known urls owner).Nodup := (List.filter_sublist.map Prod.fst).nodup urls.nodup
    obtain ⟨failed, taken, ⟨hfailed, hascending⟩, ⟨htaken, hascending'⟩, hverdict⟩ :=
      verdict_told journal owner hknown (nodup_codes_troubled m urls owner trouble)
    simp only [hresult, hstore]
    refine ⟨⟨trivial, link?_replay_told journal m urls owner trouble,
      contains_replay_told journal m urls owner trouble⟩, failed, taken, ⟨fun code e => ?_,
      hascending⟩, ⟨fun code => ?_, hascending'⟩, hverdict⟩
    · rw [hfailed.mem_iff, mem_troubled]
    · rw [htaken.mem_iff, mem_known]
  · exact fun _ _ hfree => run_add_refused hjournal hwriter hfree he
  · exact fun _ _ hlink => run_delete_refused hjournal hwriter hlink he
  · exact ⟨find?_addBatch_of_ne h _ urls, find?_add_of_ne h _, find?_delete_of_ne h _⟩

/-- A store with one link and a journal that is open for appending. -/
def appending : Memory where
  owners := .replay .empty [⟨"a", "http://a.b", "u", false⟩]
  journal := some { path := "j", writer := some 0 }

/-- Files that take the second of three records. -/
def fitful : FileSystem where
  faults n _ := if n = 0 then some .tooLarge else if n = 2 then some .isDirectory else none

/-- A batch of four codes, of which the store knows one. -/
def fourCodes : Keyed String String :=
  .ofList [("c", "http://c.b"), ("a", "http://a.c"), ("d", "http://d.b"), ("b", "http://b.b")]

/-- Of a batch with a code that is taken, the first and the last new record meet troubles: both are
named in the order of their codes, and the record between them is kept. -/
theorem each_trouble_is_reported_fitful :
    let ended := (addBatch fourCodes "u").run ⟨appending, fitful⟩
    ended.1 = .error ⟨.fileOperation, "2 short code(s) for owner u were not persisted: " ++
      "b: File Operation Error: Failed to append to journal j: Is a directory (os error 21); " ++
      "c: File Operation Error: Failed to append to journal j: File too large (os error 27)"⟩ ∧
    ended.2.store.owners.link? "u" "d" = some ⟨"http://d.b", false⟩ ∧
    ended.2.store.owners.link? "u" "c" = none ∧
    ended.2.store.owners.link? "u" "a" = some ⟨"http://a.b", false⟩ ∧
    (delete "a" "u").run ⟨appending, fitful⟩ =
      (.error ⟨.fileOperation, "Failed to append to journal j: File too large (os error 27)"⟩,
        ⟨appending, fitful.tick⟩) := by
  let trouble (code : String) : Option IoError :=
    if code = "b" then some .isDirectory else if code = "c" then some .tooLarge else none
  obtain ⟨-, hbatch, hrefused, -⟩ :=
    each_trouble_is_reported appending fitful fourCodes "u" trouble rfl rfl
  have hassigned : Assigned fitful (appending.fresh fourCodes "u") trouble := by
    intro k r hr
    match k with
    | 0 | 1 | 2 =>
      cases hr
      rfl
    | k + 3 => cases hr
  obtain ⟨⟨-, hlinks, -⟩, failed, taken, ⟨hfailed, hascending⟩, -, hresult⟩ := hbatch hassigned
  have hnamed : failed = [("b", .isDirectory), ("c", .tooLarge)] := by
    refine eq_of_pairwise_lt hascending (by decide) fun (code, e) => ?_
    rw [hfailed]
    constructor
    · rintro ⟨-, -, htrouble⟩
      simp only [trouble] at htrouble
      split at htrouble
      · next hcode =>
        cases htrouble
        rw [hcode]
        exact List.mem_cons_self
      · split at htrouble
        · next hcode =>
          cases htrouble
          rw [hcode]
          exact List.mem_cons_of_mem _ List.mem_cons_self
        · cases htrouble
    · intro hmem
      simp only [List.mem_cons, Prod.mk.injEq, List.not_mem_nil, or_false] at hmem
      obtain ⟨rfl, rfl⟩ | ⟨rfl, rfl⟩ := hmem <;> exact ⟨rfl, rfl, rfl⟩
  rw [hnamed] at hresult
  refine ⟨hresult, ?_, ?_, ?_, ?_⟩
  · rw [hlinks]
    rfl
  · rw [hlinks]
    rfl
  · rw [hlinks]
    rfl
  · obtain ⟨-, hdelete⟩ := hrefused .tooLarge rfl
    exact hdelete "a" "http://a.b" rfl

end Memory

end ShortLinks
