import Mathlib.Data.List.Nodup
import ShortLinks.Proofs.FileSystem.Effects
import ShortLinks.Store.Relational

/-!
# Running the relational store

Each operation works on the table in the file and puts the table back. An insert is made where its
code and its URL are vacant, and is a conflict where they are not; everything else that can stop it
is no conflict and leaves the rows alone. A batch inserts the rows that are vacant when their turn
comes, or nothing.
-/

namespace ShortLinks

namespace Table

variable {rows : List Record} {owner code url : String} {row : Record}
  {entries : List (String × String)}

/-- No row has the code, and none has the URL. -/
def Vacant (rows : List Record) (code url : String) : Prop :=
  ∀ row ∈ rows, row.code ≠ code ∧ row.url ≠ url

instance : Decidable (Vacant rows code url) :=
  inferInstanceAs (Decidable (∀ row ∈ rows, row.code ≠ code ∧ row.url ≠ url))

/-- Neither a code nor a URL is taken when both are vacant. -/
theorem taken_eq_false_iff : (hasCode rows code || hasUrl rows url) = false ↔
    Vacant rows code url := by
  simp only [hasCode, hasUrl, Bool.or_eq_false_iff, List.any_eq_false, beq_iff_eq, Vacant]
  exact ⟨fun h row hrow => ⟨h.1 row hrow, h.2 row hrow⟩,
    fun h => ⟨fun row hrow => (h row hrow).1, fun row hrow => (h row hrow).2⟩⟩

/-- Insert a row whose code and URL are vacant. -/
def insertVacant (owner : String) (rows : List Record) (entry : String × String) : List Record :=
  if hasCode rows entry.1 || hasUrl rows entry.2 then rows
  else rows ++ [{ code := entry.1, url := entry.2, owner }]

/-- Insert rows one after another, as far as they are vacant. -/
def insertAll (owner : String) (rows : List Record) (entries : List (String × String)) :
    List Record :=
  entries.foldl (insertVacant owner) rows

/-- A link is inserted when it is vacant, and all rows stay. -/
theorem mem_insertVacant : row ∈ insertVacant owner rows (code, url) ↔
    row ∈ rows ∨ Vacant rows code url ∧ row = { code, url, owner } := by
  rw [insertVacant]
  cases htaken : hasCode rows code || hasUrl rows url with
  | false => simp [taken_eq_false_iff.1 htaken]
  | true =>
    have hnot : ¬Vacant rows code url := by rw [← taken_eq_false_iff, htaken]; simp
    simp [hnot]

/-- Rows without common codes or URLs do not get in each other's way. -/
theorem mem_insertAll (hcodes : (entries.map Prod.fst).Nodup)
    (hurls : (entries.map Prod.snd).Nodup) : row ∈ insertAll owner rows entries ↔
      row ∈ rows ∨ row.owner = owner ∧ row.deleted = false ∧ (row.code, row.url) ∈ entries ∧
        Vacant rows row.code row.url := by
  induction entries generalizing rows with
  | nil => simp [insertAll]
  | cons entry rest ih =>
    obtain ⟨code, url⟩ := entry
    rw [List.map_cons, List.nodup_cons] at hcodes hurls
    rw [insertAll, List.foldl_cons, ← insertAll, ih hcodes.2 hurls.2, mem_insertVacant]
    have hvacant {row : Record} (hrest : (row.code, row.url) ∈ rest) :
        Vacant (insertVacant owner rows (code, url)) row.code row.url ↔
          Vacant rows row.code row.url := by
      have hcode : code ≠ row.code := fun e =>
        hcodes.1 (List.mem_map.2 ⟨_, hrest, e.symm⟩)
      have hurl : url ≠ row.url := fun e => hurls.1 (List.mem_map.2 ⟨_, hrest, e.symm⟩)
      constructor
      · exact fun h r hr => h r (mem_insertVacant.2 (.inl hr))
      · intro h r hr
        obtain hr | ⟨-, rfl⟩ := mem_insertVacant.1 hr
        · exact h r hr
        · exact ⟨hcode, hurl⟩
    constructor
    · rintro ((hrow | ⟨hfree, rfl⟩) | ⟨howner, hdeleted, hrest, hfree⟩)
      · exact .inl hrow
      · exact .inr ⟨rfl, rfl, List.mem_cons_self, hfree⟩
      · exact .inr ⟨howner, hdeleted, List.mem_cons_of_mem _ hrest, (hvacant hrest).1 hfree⟩
    · rintro (hrow | ⟨howner, hdeleted, hentry, hfree⟩)
      · exact .inl (.inl hrow)
      · obtain hentry | hrest := List.mem_cons.1 hentry
        · cases hentry
          obtain ⟨_, _, _, _⟩ := row
          cases howner
          cases hdeleted
          exact .inl (.inr ⟨hfree, rfl⟩)
        · exact .inr ⟨howner, hdeleted, hrest, (hvacant hrest).2 hfree⟩

/-- A row that differs from the others in something keeps it distinct. -/
theorem nodup_map_concat {f : Record → String} (h : (rows.map f).Nodup)
    (hnew : ∀ other ∈ rows, f other ≠ f row) : ((rows ++ [row]).map f).Nodup := by
  rw [List.map_append, List.map_singleton]
  apply h.append (List.nodup_singleton _)
  intro _ hmem hsame
  obtain ⟨other, hother, rfl⟩ := List.mem_map.1 hmem
  exact hnew other hother (List.mem_singleton.1 hsame)

/-- A vacant row keeps the codes distinct. -/
theorem nodup_codes_concat (h : (rows.map Record.code).Nodup) (hvacant : Vacant rows code url) :
    ((rows ++ [(⟨code, url, owner, false⟩ : Record)]).map Record.code).Nodup :=
  nodup_map_concat h fun other hother => (hvacant other hother).1

/-- Codes that are distinct stay so when vacant links are inserted. -/
theorem nodup_codes_insertAll (h : (rows.map Record.code).Nodup) :
    ((insertAll owner rows entries).map Record.code).Nodup := by
  induction entries generalizing rows with
  | nil => exact h
  | cons entry rest ih =>
    apply ih
    rw [insertVacant]
    split
    · exact h
    · next hfree =>
      exact nodup_codes_concat h (taken_eq_false_iff.1 (Bool.eq_false_iff.2 hfree))

/-- A tombstone is no new row. -/
theorem map_code_bury (t : Table) (code owner : String) :
    (t.bury code owner).rows.map Record.code = t.rows.map Record.code := by
  rw [bury, List.map_map]
  apply List.map_congr_left
  intro row _
  simp only [Function.comp_apply]
  split <;> rfl

/-- The rows after a tombstone was set are the rows before it, and one may be marked. -/
theorem mem_bury {t : Table} {c u o : String} {deleted : Bool} :
    ⟨c, u, o, deleted⟩ ∈ (t.bury code owner).rows ↔ ∃ before, ⟨c, u, o, before⟩ ∈ t.rows ∧
      deleted = if o = owner ∧ c = code then true else before := by
  rw [bury, List.mem_map]
  constructor
  · rintro ⟨⟨c', u', o', before⟩, hrow, h⟩
    split at h
    · next hmarked =>
      cases h
      exact ⟨before, hrow, by rw [if_pos ⟨hmarked.2, hmarked.1⟩]⟩
    · next hother =>
      cases h
      exact ⟨deleted, hrow, by rw [if_neg fun hoc => hother ⟨hoc.2, hoc.1⟩]⟩
  · rintro ⟨before, hrow, rfl⟩
    refine ⟨_, hrow, ?_⟩
    by_cases hoc : o = owner ∧ c = code
    · rw [if_pos hoc, if_pos ⟨hoc.2, hoc.1⟩]
    · rw [if_neg hoc, if_neg fun hco => hoc ⟨hco.2, hco.1⟩]

/-- The owners are those of the rows. -/
theorem mem_owners : owner ∈ owners rows ↔ ∃ row ∈ rows, row.owner = owner := by
  rw [owners, List.mem_eraseDups, List.mem_map]

/-- What is left without duplicates has none. -/
theorem nodup_eraseDups : ∀ names : List String, names.eraseDups.Nodup
  | [] => List.nodup_nil
  | name :: rest => by
    rw [List.eraseDups_cons, List.nodup_cons]
    refine ⟨fun hmem => ?_, nodup_eraseDups _⟩
    simp [List.mem_eraseDups] at hmem
  termination_by names => names.length
  decreasing_by exact Nat.lt_succ_of_le (List.length_filter_le _ _)

/-- No owner is counted twice. -/
theorem nodup_owners (rows : List Record) : (owners rows).Nodup := nodup_eraseDups _

end Table

namespace Relational

open Table

variable {r : Relational} {t : Table} {fs : FileSystem} {owner code url : String}

/-- Nothing keeps the store from its table and nothing goes wrong on its own. -/
structure Sound (r : Relational) (t : Table) : Prop where
  patient : r.patience ≠ 0
  writable : r.readOnly = false
  faultless : r.faults = .none
  present : t.dropped = false
  unlocked : t.locked = false
  unpoisoned : t.poisoned = []

/-- The operation did not stop because something is taken. -/
def Stop.Technical (stop : Stop) : Prop :=
  ∀ operation r, (stop.answer operation r).kind ≠ .conflict

/-- Nobody waiting any more does not mean that something is taken. -/
theorem technical_abandoned : Stop.Technical .abandoned := fun _ _ => nofun

/-- A fault that is no conflict does not mean that something is taken. -/
theorem technical_fault {f : Fault} (h : f.kind ≠ .conflict) : Stop.Technical (.fault f) :=
  fun _ _ => h

/-- A statement that the engine refuses does not mean that something is taken. -/
theorem technical_refused (r : Relational) (what kind : String) (refusal : SqlRefusal) :
    (r.refused what kind refusal).Technical := by
  rw [refused]
  split
  · exact technical_abandoned
  · exact technical_fault nofun

/-- The table that was put into the file is in it. -/
theorem table_setContent (r : Relational) (fs : FileSystem) (t : Table) :
    r.table (fs.setContent r.file (.database t)) = t := by
  rw [table, FileSystem.content_setContent, if_pos rfl]

/-- An operation that has no time does nothing. Any other gives its result on the table, and the
table after it is in the file. -/
theorem run_cases {α : Type} (operation : String) (f : Relational → Table → Except Stop α × Table)
    (r : Relational) (fs : FileSystem) :
    ∃ fs',
      (r.patience = 0 ∧ r.table fs' = r.table fs ∧
        (run operation f).run ⟨r, fs⟩ = (.error (Stop.abandoned.answer operation r), ⟨r, fs'⟩)) ∨
      (r.patience ≠ 0 ∧ r.table fs' = (f r (r.table fs)).2 ∧
        (run operation f).run ⟨r, fs⟩ =
          ((f r (r.table fs)).1.mapError (Stop.answer operation r), ⟨r, fs'⟩)) := by
  use fs.setContent r.file (.database (r.timed f (r.table fs)).2)
  simp only [run, run_bind, run_get, timed]
  by_cases hpatience : r.patience = 0
  · simp only [if_pos hpatience]
    exact .inl ⟨hpatience, table_setContent r fs _, rfl⟩
  · simp only [if_neg hpatience]
    refine .inr ⟨hpatience, table_setContent r fs _, ?_⟩
    rcases f r (r.table fs) with ⟨_ | _, _⟩ <;> rfl

/-- What the engine can say to an insert. -/
theorem insert_cases (r : Relational) (t : Table) (rows : List Record) (row : Record) :
    (t.dropped = false ∧ Vacant rows row.code row.url ∧
      t.change r.readOnly (t.insert rows row) = .ok (rows ++ [row])) ∨
    (t.dropped = false ∧ ¬Vacant rows row.code row.url ∧
      t.change r.readOnly (t.insert rows row) = .error .duplicate) ∨
    ∃ refusal, refusal ≠ .duplicate ∧ ¬Sound r t ∧
      t.change r.readOnly (t.insert rows row) = .error refusal := by
  unfold change barrier?
  split
  · next refusal hbarrier =>
    refine .inr (.inr ⟨refusal, ?_, ?_, rfl⟩)
    · rintro rfl
      split at hbarrier <;> try cases hbarrier
      split at hbarrier <;> try cases hbarrier
      split at hbarrier <;> cases hbarrier
    · intro hsound
      simp [hsound.present, hsound.writable, hsound.unlocked] at hbarrier
  · next hbarrier =>
    have hpresent : t.dropped = false := by
      cases hdropped : t.dropped with
      | false => rfl
      | true => simp [hdropped] at hbarrier
    unfold Table.insert
    split
    · next hpoisoned =>
      refine .inr (.inr ⟨.poisonedRow, nofun, fun hsound => ?_, rfl⟩)
      simp [hsound.unpoisoned] at hpoisoned
    · cases htaken : hasCode rows row.code || hasUrl rows row.url with
      | false => exact .inl ⟨hpresent, taken_eq_false_iff.1 htaken, rfl⟩
      | true =>
        refine .inr (.inl ⟨hpresent, fun hvacant => ?_, rfl⟩)
        rw [taken_eq_false_iff.2 hvacant] at htaken
        cases htaken

/-- What can become of adding one link. -/
theorem insertOne_cases (r : Relational) (t : Table) (owner code url : String) :
    (t.dropped = false ∧ Vacant t.rows code url ∧ insertOne r t owner code url =
      (.ok (), { t with rows := t.rows ++ [{ code, url, owner }] })) ∨
    (t.dropped = false ∧ ¬Vacant t.rows code url ∧ insertOne r t owner code url =
      (.error (.fault ⟨.conflict, "short code " ++ code ++ " already exists"⟩), t)) ∨
    ∃ stop, stop.Technical ∧ ¬Sound r t ∧ insertOne r t owner code url = (.error stop, t) := by
  obtain ⟨hpresent, hvacant, hinsert⟩ | ⟨hpresent, htaken, hinsert⟩ |
    ⟨refusal, hrefusal, hsound, hinsert⟩ := insert_cases r t t.rows { code, url, owner }
  · exact .inl ⟨hpresent, hvacant, by rw [insertOne, hinsert]⟩
  · exact .inr (.inl ⟨hpresent, htaken, by rw [insertOne, hinsert]⟩)
  · have hstop := technical_refused r ("failed to insert short URL '" ++ code ++ "'")
      "Query" refusal
    refine .inr (.inr ⟨_, hstop, hsound, ?_⟩)
    cases refusal <;> first | exact absurd rfl hrefusal | rw [insertOne, hinsert]

/-- What can become of a step of a transaction that may fail on its own. -/
theorem reach_cases (r : Relational) (t : Table) (step : SqlStep) (what : String)
    (x : Transaction) :
    (Work.reach r.faults step what).run x = (.ok (), { x with performed := x.performed + 1 }) ∨
    ∃ stop, stop.Technical ∧ ¬Sound r t ∧ (Work.reach r.faults step what).run x =
      (.error stop, { x with performed := x.performed + 1 }) := by
  simp only [Work.reach, run_bind, run_get, run_set]
  cases hfault : r.faults x.performed step with
  | none => exact .inl rfl
  | some trouble =>
    have hsound : ¬Sound r t := fun hsound => by
      rw [hsound.faultless] at hfault
      cases hfault
    cases trouble with
    | abandoned => exact .inr ⟨_, technical_abandoned, hsound, rfl⟩
    | error text =>
      refine .inr ⟨_, ?_, hsound, rfl⟩
      exact technical_fault nofun

/-- After an insert the savepoint around it is gone, and the row is there if it was vacant; or the
batch stops, and the savepoint is there still. -/
theorem settleRow_cases (r : Relational) (t : Table) (what owner code url : String)
    {x : Transaction} {saved : List (List Record)} (hsaved : x.saved = x.rows :: saved) :
    let settle := r.settleRow what (t.change r.readOnly (t.insert x.rows { code, url, owner }))
    (∃ x', settle.run x = (.ok (), x') ∧ x'.rows = insertVacant owner x.rows (code, url) ∧
      x'.saved = saved ∧ t.dropped = false) ∨
    ∃ stop x', stop.Technical ∧ ¬Sound r t ∧ settle.run x = (.error stop, x') ∧
      x'.saved = x.saved := by
  obtain ⟨hpresent, hvacant, hinsert⟩ | ⟨hpresent, htaken, hinsert⟩ |
    ⟨refusal, hrefusal, hsound, hinsert⟩ := insert_cases r t x.rows { code, url, owner }
  · rw [hinsert]
    have hrows : insertVacant owner x.rows (code, url) = x.rows ++ [⟨code, url, owner, false⟩] := by
      rw [insertVacant, taken_eq_false_iff.2 hvacant]
      rfl
    simp only [settleRow, run_bind, run_modify]
    obtain hrelease | ⟨stop, hstop, hsound, hrelease⟩ := reach_cases r t .releaseSavepoint
      "failed to release savepoint" { x with rows := x.rows ++ [⟨code, url, owner, false⟩] }
    · simp only [hrelease]
      refine .inl ⟨_, rfl, hrows.symm, ?_, hpresent⟩
      rw [Transaction.release, hsaved]
      rfl
    · simp only [hrelease]
      exact .inr ⟨stop, _, hstop, hsound, rfl, rfl⟩
  · rw [hinsert]
    have hrows : insertVacant owner x.rows (code, url) = x.rows := by
      rw [insertVacant, if_pos]
      by_contra hfree
      exact htaken (taken_eq_false_iff.1 (by simpa using hfree))
    simp only [settleRow, run_bind, run_modify]
    obtain hrevert | ⟨stop, hstop, hsound, hrevert⟩ := reach_cases r t .revertSavepoint
      "failed to roll back savepoint" x
    · simp only [hrevert]
      refine .inl ⟨_, rfl, ?_, ?_, hpresent⟩
      · rw [Transaction.revert, hsaved, hrows]
        rfl
      · rw [Transaction.revert, hsaved]
        rfl
    · simp only [hrevert]
      exact .inr ⟨stop, _, hstop, hsound, rfl, rfl⟩
  · rw [hinsert]
    refine .inr ⟨_, x, technical_refused r what "Query" refusal, hsound, ?_, rfl⟩
    cases refusal <;> first | exact absurd rfl hrefusal | rfl

/-- A row of a batch is inserted where it is vacant, and the savepoints are as before; or the batch
stops, and what was remembered is remembered still. -/
theorem addRow_cases (r : Relational) (t : Table) (owner code url : String) (x : Transaction) :
    (∃ x', (addRow r t owner code url).run x = (.ok (), x') ∧
      x'.rows = insertVacant owner x.rows (code, url) ∧ x'.saved = x.saved ∧ t.dropped = false) ∨
    ∃ stop x', stop.Technical ∧ ¬Sound r t ∧ (addRow r t owner code url).run x = (.error stop, x') ∧
      ∃ later, x'.saved = later ++ x.saved := by
  rw [addRow, run_bind]
  obtain hopen | ⟨stop, hstop, hsound, hopen⟩ :=
    reach_cases r t .openSavepoint "failed to open savepoint" x
  · simp only [hopen, run_bind, run_modify]
    obtain hrow | ⟨stop, hstop, hsound, hrow⟩ := reach_cases r t .insertRow
      ("batch insert failed at '" ++ code ++ "'")
      (Transaction.save { x with performed := x.performed + 1 })
    · simp only [hrow, run_get]
      obtain ⟨x', hsettle, hsettled⟩ | ⟨stop, x', hstop, hsound, hsettle, hsaved⟩ :=
        settleRow_cases r t ("batch insert failed at '" ++ code ++ "'") owner code url
          (x := ⟨x.rows, x.rows :: x.saved, x.performed + 1 + 1⟩) rfl
      · exact .inl ⟨x', hsettle, hsettled⟩
      · exact .inr ⟨stop, x', hstop, hsound, hsettle, [x.rows], hsaved⟩
    · simp only [hrow]
      exact .inr ⟨stop, _, hstop, hsound, rfl, [x.rows], rfl⟩
  · rw [hopen]
    exact .inr ⟨stop, _, hstop, hsound, rfl, [], rfl⟩

/-- The rows of a batch are all inserted as far as they are vacant, or the batch stops. -/
theorem addRows_cases (r : Relational) (t : Table) (owner : String)
    (entries : List (String × String)) (x : Transaction) :
    (∃ x', (addRows r t owner entries).run x = (.ok (), x') ∧
      x'.rows = insertAll owner x.rows entries ∧ x'.saved = x.saved ∧
      (entries ≠ [] → t.dropped = false)) ∨
    ∃ stop x', stop.Technical ∧ ¬Sound r t ∧ (addRows r t owner entries).run x = (.error stop, x') ∧
      ∃ later, x'.saved = later ++ x.saved := by
  induction entries generalizing x with
  | nil => exact .inl ⟨x, rfl, rfl, rfl, fun h => absurd rfl h⟩
  | cons entry rest ih =>
    obtain ⟨code, url⟩ := entry
    rw [addRows, run_bind]
    obtain ⟨x₁, hrow, hrows, hsaved, hpresent⟩ | ⟨stop, x₁, hstop, hsound, hrow, later, hsaved⟩ :=
      addRow_cases r t owner code url x
    · rw [hrow, insertAll, List.foldl_cons, ← hrows, ← hsaved]
      obtain ⟨x', hrest, hrows', hsaved', -⟩ | hstopped := ih x₁
      · exact .inl ⟨x', hrest, hrows', hsaved', fun _ => hpresent⟩
      · exact .inr hstopped
    · rw [hrow]
      exact .inr ⟨stop, x₁, hstop, hsound, rfl, later, hsaved⟩

/-- A transaction ends with the rows inserted as far as they are vacant; or it stops, and the rows
it started with are remembered. -/
theorem batchWork_cases (r : Relational) (t : Table) (owner : String)
    (entries : List (String × String)) :
    (∃ x, (batchWork r t owner entries).run (.start t.rows) = (.ok (), x) ∧
      x.rows = insertAll owner t.rows entries ∧ (entries ≠ [] → t.dropped = false)) ∨
    ∃ stop x, stop.Technical ∧ ¬Sound r t ∧
      (batchWork r t owner entries).run (.start t.rows) = (.error stop, x) ∧
      ∃ later, x.saved = later ++ [t.rows] := by
  rw [batchWork, run_bind]
  obtain hstart | ⟨stop, hstop, hsound, hstart⟩ :=
    reach_cases r t .start "failed to begin transaction" (.start t.rows)
  · simp only [hstart, run_bind]
    obtain ⟨x, hadd, hrows, hsaved, hpresent⟩ | ⟨stop, x, hstop, hsound, hadd, hsaved⟩ :=
      addRows_cases r t owner entries ⟨t.rows, [t.rows], 1⟩
    · have hadd : (addRows r t owner entries).run
          { Transaction.start t.rows with performed := (Transaction.start t.rows).performed + 1 } =
            (.ok (), x) := hadd
      simp only [hadd]
      obtain hcommit | ⟨stop, hstop, hsound, hcommit⟩ :=
        reach_cases r t .commit "failed to commit transaction" x
      · exact .inl ⟨_, hcommit, hrows, hpresent⟩
      · exact .inr ⟨stop, _, hstop, hsound, hcommit, [], hsaved⟩
    · have hadd : (addRows r t owner entries).run
          { Transaction.start t.rows with performed := (Transaction.start t.rows).performed + 1 } =
            (.error stop, x) := hadd
      simp only [hadd]
      exact .inr ⟨stop, x, hstop, hsound, rfl, hsaved⟩
  · rw [hstart]
    exact .inr ⟨stop, _, hstop, hsound, rfl, [], rfl⟩

/-- What can become of a batch: its rows are inserted as far as they are vacant, or nothing is. -/
theorem insertBatch_cases (r : Relational) (t : Table) (owner : String)
    (entries : List (String × String)) :
    (insertBatch r t owner entries = (.ok (), { t with rows := insertAll owner t.rows entries }) ∧
      (entries ≠ [] → t.dropped = false)) ∨
    ∃ stop, stop.Technical ∧ ¬Sound r t ∧ insertBatch r t owner entries = (.error stop, t) := by
  obtain ⟨x, hwork, hrows, hpresent⟩ | ⟨stop, x, hstop, hsound, hwork, later, hsaved⟩ :=
    batchWork_cases r t owner entries
  · left
    refine ⟨?_, hpresent⟩
    rw [insertBatch, hwork]
    simp only [hrows]
  · right
    refine ⟨stop, hstop, hsound, ?_⟩
    rw [insertBatch, hwork]
    simp [Transaction.dropped, hsaved]

/-- What can become of a tombstone: it is set on the row, or nothing is done. -/
theorem buryOne_cases (r : Relational) (t : Table) (code owner : String) :
    buryOne r t code owner = (.ok (), t.bury code owner) ∨
    ∃ stop, stop.Technical ∧ ¬Sound r t ∧ buryOne r t code owner = (.error stop, t) := by
  cases hbarrier : t.barrier? r.readOnly with
  | none => exact .inl (by rw [buryOne, change, hbarrier])
  | some refusal =>
    have hsound : ¬Sound r t := fun hsound => by
      simp [barrier?, hsound.present, hsound.writable, hsound.unlocked] at hbarrier
    have hstop := technical_refused r ("failed to delete short URL '" ++ code ++ "'")
      "Execution" refusal
    exact .inr ⟨_, hstop, hsound, by rw [buryOne, change, hbarrier]⟩

/-- A question leaves the table as it is, and is answered from the rows if they can be read. -/
theorem run_query {α : Type} (operation what : String) (read : List Record → Except Fault α)
    (r : Relational) (fs : FileSystem) : ∃ result fs',
      (query operation what read).run ⟨r, fs⟩ = (result, ⟨r, fs'⟩) ∧
      r.table fs' = r.table fs ∧
      (r.patience ≠ 0 → (r.table fs).dropped = false → result = read (r.table fs).rows) := by
  obtain ⟨fs', ⟨hpatience, htable, hrun⟩ | ⟨-, htable, hrun⟩⟩ :=
    run_cases operation (fun r t => (readRows r what read t, t)) r fs
  · exact ⟨_, fs', hrun, htable, fun hpatient => absurd hpatience hpatient⟩
  · refine ⟨_, fs', hrun, htable, fun _ hpresent => ?_⟩
    rw [readRows, Table.query, hpresent]
    cases read (r.table fs).rows <;> rfl

/-- The listing of an owner shows exactly the rows of the owner, and there are some. -/
theorem listing_cases {rows : List Record} (hcodes : (rows.map Record.code).Nodup)
    (owner : String) :
    ((∃ links, listing owner rows = .ok links ∧
        ∀ c l, links.find? c = some l ↔ ⟨c, l.url, owner, l.deleted⟩ ∈ rows) ∧
      ∃ c l, (⟨c, Link.url l, owner, l.deleted⟩ : Record) ∈ rows) ∨
    listing owner rows = .error (.ownerUnknown owner) ∧
      ∀ c l, (⟨c, Link.url l, owner, l.deleted⟩ : Record) ∉ rows := by
  have hmem (row : Record) : row ∈ rows.filter (fun row => row.owner == owner) ↔
      row ∈ rows ∧ row.owner = owner := by simp
  have hlisting : listing owner rows =
      if (rows.filter fun row => row.owner == owner).isEmpty then .error (.ownerUnknown owner)
      else .ok (Keyed.ofList ((rows.filter fun row => row.owner == owner).map fun row =>
        (row.code, ⟨row.url, row.deleted⟩))) := rfl
  rw [hlisting]
  split
  · next hempty =>
    refine .inr ⟨rfl, fun c l hrow => ?_⟩
    have hrow := (hmem _).2 ⟨hrow, rfl⟩
    rw [List.isEmpty_iff.1 hempty] at hrow
    cases hrow
  · next hsome =>
    have hkeys : (((rows.filter fun row => row.owner == owner).map fun row =>
        (row.code, (⟨row.url, row.deleted⟩ : Link))).map Prod.fst).Nodup := by
      rw [List.map_map]
      exact (List.filter_sublist.map Record.code).nodup hcodes
    refine .inl ⟨⟨_, rfl, fun c l => ?_⟩, ?_⟩
    · rw [Keyed.find?_ofList_iff hkeys, List.mem_map]
      constructor
      · rintro ⟨row, hrow, h⟩
        cases h
        obtain ⟨hfound, rfl⟩ := (hmem row).1 hrow
        exact hfound
      · exact fun hrow => ⟨_, (hmem _).2 ⟨hrow, rfl⟩, rfl⟩
    · obtain ⟨row, hrow⟩ := List.exists_mem_of_ne_nil _ fun h => hsome (List.isEmpty_iff.2 h)
      obtain ⟨hfound, rfl⟩ := (hmem row).1 hrow
      exact ⟨row.code, ⟨row.url, row.deleted⟩, hfound⟩

/-- A code resolves to the URL of its row, if there is one and it is not deleted. -/
theorem resolve_cases {rows : List Record} (hcodes : (rows.map Record.code).Nodup)
    (code : String) :
    (∃ owner url, resolve code rows = .ok url ∧ ⟨code, url, owner, false⟩ ∈ rows) ∨
    (resolve code rows = .error (.codeNotFound code) ∧ ∀ row ∈ rows, row.code ≠ code) ∨
    resolve code rows = .error (.codeDeleted code) ∧ (∃ row ∈ rows, row.code = code) ∧
      ∀ row ∈ rows, row.code = code → row.deleted := by
  rw [resolve]
  cases hfind : rows.find? fun row => row.code == code with
  | none =>
    exact .inr (.inl ⟨rfl, fun row hrow => by simpa using List.find?_eq_none.1 hfind row hrow⟩)
  | some row =>
    have hrow : row ∈ rows := List.mem_of_find?_eq_some hfind
    obtain rfl : row.code = code := by simpa using List.find?_some hfind
    cases hdeleted : row.deleted with
    | true =>
      refine .inr (.inr ⟨by simp [hdeleted], ⟨row, hrow, rfl⟩, fun row' hrow' hcode => ?_⟩)
      rw [List.inj_on_of_nodup_map hcodes hrow' hrow hcode, hdeleted]
    | false =>
      refine .inl ⟨row.owner, row.url, by simp [hdeleted], ?_⟩
      rw [← hdeleted]
      exact hrow

/-- The rows of a table can be read. -/
def Readable (r : Relational) (t : Table) : Prop := r.patience ≠ 0 ∧ t.dropped = false

/-- A link is added where it is vacant, or the table stays as it is. -/
theorem add_cases (r : Relational) (fs : FileSystem) (code url owner : String) :
    ∃ result fs', (add code url owner).run ⟨r, fs⟩ = (result, ⟨r, fs'⟩) ∧
      ((result = .ok () ∧ Vacant (r.table fs).rows code url ∧ Readable r (r.table fs) ∧
        r.table fs' =
          { r.table fs with rows := (r.table fs).rows ++ [⟨code, url, owner, false⟩] }) ∨
      ∃ f, result = .error f ∧ r.table fs' = r.table fs ∧
        (f.kind = .conflict → ¬Vacant (r.table fs).rows code url ∧ Readable r (r.table fs)) ∧
        (f.kind ≠ .conflict → ¬Sound r (r.table fs))) := by
  obtain ⟨fs', ⟨hpatience, htable, hrun⟩ | ⟨hpatience, htable, hrun⟩⟩ :=
    run_cases "add" (fun r t => insertOne r t owner code url) r fs
  · exact ⟨_, fs', hrun, .inr ⟨_, rfl, htable, nofun, fun _ hsound => hsound.patient hpatience⟩⟩
  · refine ⟨_, fs', hrun, ?_⟩
    rw [htable]
    obtain ⟨hpresent, hvacant, hinsert⟩ | ⟨hpresent, htaken, hinsert⟩ |
      ⟨stop, hstop, hsound, hinsert⟩ := insertOne_cases r (r.table fs) owner code url
    · rw [hinsert]
      exact .inl ⟨rfl, hvacant, ⟨hpatience, hpresent⟩, rfl⟩
    · rw [hinsert]
      exact .inr ⟨_, rfl, rfl, fun _ => ⟨htaken, hpatience, hpresent⟩,
        fun htechnical => absurd rfl htechnical⟩
    · rw [hinsert]
      exact .inr ⟨_, rfl, rfl, fun hconflict => absurd hconflict (hstop _ _), fun _ => hsound⟩

/-- All links of a batch are added where they are vacant, or the table stays as it is. -/
theorem addBatch_cases (r : Relational) (fs : FileSystem) (urls : Keyed String String)
    (owner : String) :
    ∃ result fs', (addBatch urls owner).run ⟨r, fs⟩ = (result, ⟨r, fs'⟩) ∧
      ((result = .ok () ∧ (urls.entries ≠ [] → Readable r (r.table fs)) ∧
        r.table fs' =
          { r.table fs with rows := insertAll owner (r.table fs).rows urls.entries }) ∨
      ∃ f, result = .error f ∧ f.kind ≠ .conflict ∧ r.table fs' = r.table fs ∧
        ¬Sound r (r.table fs)) := by
  rw [addBatch]
  split
  · next hempty =>
    have hempty : urls.entries = [] := List.isEmpty_iff.1 hempty
    exact ⟨_, fs, rfl, .inl ⟨rfl, fun h => absurd hempty h, by rw [hempty]; rfl⟩⟩
  obtain ⟨fs', ⟨hpatience, htable, hrun⟩ | ⟨hpatience, htable, hrun⟩⟩ :=
    run_cases "add_batch" (fun r t => insertBatch r t owner urls.entries) r fs
  · exact ⟨_, fs', hrun, .inr ⟨_, rfl, nofun, htable, fun hsound => hsound.patient hpatience⟩⟩
  · refine ⟨_, fs', hrun, ?_⟩
    rw [htable]
    obtain ⟨hinsert, hpresent⟩ | ⟨stop, hstop, hsound, hinsert⟩ :=
      insertBatch_cases r (r.table fs) owner urls.entries
    · rw [hinsert]
      exact .inl ⟨rfl, fun hentries => ⟨hpatience, hpresent hentries⟩, rfl⟩
    · rw [hinsert]
      exact .inr ⟨_, rfl, hstop _ _, rfl, hsound⟩

/-- A tombstone is set, or the table stays as it is. -/
theorem delete_cases (r : Relational) (fs : FileSystem) (code owner : String) :
    ∃ result fs', (delete code owner).run ⟨r, fs⟩ = (result, ⟨r, fs'⟩) ∧
      ((result = .ok () ∧ r.table fs' = (r.table fs).bury code owner) ∨
      ∃ f, result = .error f ∧ r.table fs' = r.table fs ∧ ¬Sound r (r.table fs)) := by
  obtain ⟨fs', ⟨hpatience, htable, hrun⟩ | ⟨-, htable, hrun⟩⟩ :=
    run_cases "delete" (fun r t => buryOne r t code owner) r fs
  · exact ⟨_, fs', hrun, .inr ⟨_, rfl, htable, fun hsound => hsound.patient hpatience⟩⟩
  · refine ⟨_, fs', hrun, ?_⟩
    rw [htable]
    obtain hbury | ⟨stop, -, hsound, hbury⟩ := buryOne_cases r (r.table fs) code owner
    · rw [hbury]
      exact .inl ⟨rfl, rfl⟩
    · rw [hbury]
      exact .inr ⟨_, rfl, rfl, hsound⟩

end Relational

end ShortLinks
