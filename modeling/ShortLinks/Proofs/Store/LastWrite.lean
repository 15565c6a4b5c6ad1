import Mathlib.Data.List.Dedup
import ShortLinks.Proofs.Journal.Stated
import ShortLinks.Proofs.Store.Skipping

/-!
# The last record of a link

Replaying records gives each link as the last record about it has it, and counts the links and the
owners that the records are about. So a store that was opened from a text has what the last line of
the text that is about a link states. Lines that state nothing, and earlier lines about the same
link, make no difference. Nor does it matter where reading stops between two lines and goes on with
what is behind.
-/

namespace ShortLinks

namespace Owners

variable {owner code : String} {link : Link} {records : List Record}

/-- After a replay, a link is what the last record about it says. -/
theorem link?_replay_eq_some_iff :
    (replay .empty records).link? owner code = some link ↔
      ∃ before after, records = before ++ ⟨code, link.url, owner, link.deleted⟩ :: after ∧
        (owner, code) ∉ after.map key := by
  constructor
  · intro h
    induction records using List.reverseRecOn with
    | nil => cases h
    | append_singleton records r ih =>
      rw [replay_append, replay, List.foldl_cons, List.foldl_nil, link?_put] at h
      split at h
      · next hkey =>
        obtain ⟨rfl, rfl⟩ := hkey
        cases h
        exact ⟨records, [], rfl, List.not_mem_nil⟩
      · next hkey =>
        obtain ⟨before, after, hrecords, hafter⟩ := ih h
        refine ⟨before, after ++ [r], ?_, ?_⟩
        · rw [hrecords, List.append_assoc, List.cons_append]
        · rw [List.map_append, List.mem_append, not_or]
          refine ⟨hafter, fun hr => hkey ?_⟩
          cases List.mem_singleton.1 hr
          exact ⟨rfl, rfl⟩
  · rintro ⟨before, after, rfl, hafter⟩
    rw [replay_append, replay, List.foldl_cons, ← replay, link?_replay_of_not_mem hafter, link?_put,
      if_pos ⟨rfl, rfl⟩]

/-- After a replay, the links are those that a record is about. -/
theorem isSome_link?_replay_iff :
    ((replay .empty records).link? owner code).isSome ↔ (owner, code) ∈ records.map key := by
  constructor
  · intro h
    obtain ⟨link, hlink⟩ := Option.isSome_iff_exists.1 h
    obtain ⟨before, after, rfl, -⟩ := link?_replay_eq_some_iff.1 hlink
    exact List.mem_map.2 ⟨_, List.mem_append_right _ List.mem_cons_self, rfl⟩
  · intro h
    obtain ⟨r, hr, hkey⟩ := List.mem_map.1 h
    cases hkey
    exact isSome_link?_of_mem hr

/-- The statistics after a replay count the links and the owners that the records are about. -/
theorem stats_replay (records : List Record) : (replay .empty records).stats =
    ⟨(records.map key).dedup.length, (records.map Record.owner).dedup.length⟩ := by
  have hlinks : ((replay .empty records).records.map key).Perm (records.map key).dedup := by
    rw [List.perm_ext_iff_of_nodup (nodup_keys_records _) (List.nodup_dedup _)]
    rintro ⟨owner, code⟩
    rw [List.mem_dedup, mem_keys_records]
    exact isSome_link?_replay_iff
  have howners : (replay .empty records).holders.Perm (records.map Record.owner).dedup := by
    rw [List.perm_ext_iff_of_nodup (nodup_holders _) (List.nodup_dedup _)]
    intro owner
    rw [List.mem_dedup, mem_holders, List.mem_map]
    constructor
    · rintro ⟨code, link, hlink⟩
      obtain ⟨before, after, rfl, -⟩ := link?_replay_eq_some_iff.1 hlink
      exact ⟨_, List.mem_append_right _ List.mem_cons_self, rfl⟩
    · rintro ⟨r, hr, rfl⟩
      exact ⟨r.code, Option.isSome_iff_exists.1 (isSome_link?_of_mem hr)⟩
  rw [stats_eq, ← hlinks.length_eq, ← howners.length_eq, List.length_map]

end Owners

namespace Journal

/-- A record is what the last line states that is about its link. -/
def LastStated (text : String) (r : Record) : Prop :=
  ∃ before line after, text.toList.splitOn '\n' = before ++ line :: after ∧
    Record.readLine (Text.trimChars line) = .ok r ∧
    ∀ later ∈ after, ∀ r', Record.readLine (Text.trimChars later) = .ok r' →
      Owners.key r' ≠ Owners.key r

/-- The last line about a link states the last record about it. -/
theorem lastStated_iff {text : String} {r : Record} : LastStated text r ↔
    ∃ before after, stated text = before ++ r :: after ∧ Owners.key r ∉ after.map Owners.key := by
  constructor
  · rintro ⟨before, line, after, hsplit, hline, hlater⟩
    refine ⟨before.filterMap stated?, after.filterMap stated?, ?_, fun hmem => ?_⟩
    · rw [stated, hsplit, List.filterMap_append,
        List.filterMap_cons_some (stated?_eq_some_iff.2 hline)]
    · obtain ⟨r', hr', hkey⟩ := List.mem_map.1 hmem
      obtain ⟨later, hafter, hstated⟩ := List.mem_filterMap.1 hr'
      exact hlater later hafter r' (stated?_eq_some_iff.1 hstated) hkey
  · rintro ⟨before, after, hstated, hafter⟩
    obtain ⟨lines, rest, hlines, -, hrest⟩ := List.filterMap_eq_append_iff.1 hstated
    obtain ⟨blank, line, later, rfl, -, hline, rfl⟩ := List.filterMap_eq_cons_iff.1 hrest
    refine ⟨lines ++ blank, line, later, ?_, stated?_eq_some_iff.1 hline, ?_⟩
    · rw [hlines, List.append_assoc]
    · intro next hnext r' hr' hkey
      exact hafter (List.mem_map.2
        ⟨r', List.mem_filterMap.2 ⟨next, hnext, stated?_eq_some_iff.2 hr'⟩, hkey⟩)

end Journal

namespace Memory

open FileSystem Journal

variable {fs : FileSystem} {path : String} {file : FileId}

/-- A text is opened with the links that its lines state. -/
theorem openWith_encode (h : fs.Stands path file)
    (hplan : fs.faults fs.performed .openAppend = none) (mode : JournalMode) (text : String) :
    (openWith path mode fs file (Text.encode text)).result = .ok {
      owners := Owners.replay .empty (stated text)
      journal := some { path, writer := if mode = .append then some file else none } } := by
  obtain ⟨hcomplete, hrecords⟩ := read_encode text
  rw [openWith_eq h, hplan]
  dsimp only
  rw [if_pos hcomplete, hrecords]

/-- A store that is opened from a text has a link exactly when a line of the text states a record
about it, and has it as the last such line states. The statistics count the links and the owners
that the lines are about. Texts whose lines state the same records are opened with the same result,
and where a text is cut behind the end of a line, replaying what is behind onto the store that the
front opens gives the same links. -/
theorem open_last_write_wins (h : fs.Stands path file)
    (hplan : fs.faults fs.performed .openAppend = none) (mode : JournalMode) (text : String) :
    ∃ m, (openWith path mode fs file (Text.encode text)).result = .ok m ∧
      (∀ owner code, (m.owners.link? owner code).isSome ↔
        ∃ line ∈ text.toList.splitOn '\n', ∃ r,
          Record.readLine (Text.trimChars line) = .ok r ∧ r.owner = owner ∧ r.code = code) ∧
      (∀ owner code link, m.owners.link? owner code = some link ↔
        LastStated text ⟨code, link.url, owner, link.deleted⟩) ∧
      (∀ fs', (storage.stats.run ⟨m, fs'⟩).1 = .ok
        ⟨((stated text).map Owners.key).dedup.length,
          ((stated text).map Record.owner).dedup.length⟩) ∧
      (∀ other, stated other = stated text →
        (openWith path mode fs file (Text.encode other)).result = .ok m) ∧
      ∀ front behind, text = front ++ behind → Text.Terminated (Text.encode front) →
        ∃ m', (openWith path mode fs file (Text.encode front)).result = .ok m' ∧
          m.owners = m'.owners.replay (Journal.read (Text.encode behind)).records := by
  refine ⟨_, openWith_encode h hplan mode text, ?_, ?_, ?_, ?_, ?_⟩
  · intro owner code
    rw [Owners.isSome_link?_replay_iff, List.mem_map]
    constructor
    · rintro ⟨r, hr, hkey⟩
      obtain ⟨line, hline, hstated⟩ := List.mem_filterMap.1 hr
      obtain ⟨howner, hcode⟩ := Prod.mk.inj hkey
      exact ⟨line, hline, r, stated?_eq_some_iff.1 hstated, howner, hcode⟩
    · rintro ⟨line, hline, r, hstated, rfl, rfl⟩
      exact ⟨r, List.mem_filterMap.2 ⟨line, hline, stated?_eq_some_iff.2 hstated⟩, rfl⟩
  · intro owner code link
    rw [Owners.link?_replay_eq_some_iff, lastStated_iff]
    rfl
  · intro fs'
    rw [← Owners.stats_replay]
    rfl
  · intro other hsame
    rw [openWith_encode h hplan, hsame]
  · rintro front behind rfl hend
    refine ⟨_, openWith_encode h hplan mode front, ?_⟩
    rw [stated_append hend, (read_encode behind).2, Owners.replay_append]

/-- A text that states three records: one about a link, one about a link of another owner, and one
that the first link was moved and deleted. The first line ends with a carriage return, and the last
one does not end. -/
def movedLink : String :=
  String.ofList (keptLink.writeLine ++ "\r\n\nnot json\n".toList ++
    Record.writeLine ⟨"a", "http://b/", "v", false⟩ ++ "\n  ".toList ++
    Record.writeLine ⟨"a", "http://c/", "u", true⟩)

/-- What the lines state of a link that moves on and is deleted. -/
theorem stated_movedLink : stated movedLink =
    [keptLink, ⟨"a", "http://b/", "v", false⟩, ⟨"a", "http://c/", "u", true⟩] := by
  rw [stated, movedLink, String.toList_ofList]
  decide +kernel

/-- A link that was moved and deleted is restored so, and an empty line and words are left out. -/
theorem open_last_write_wins_moved :
    ∃ m, (openWith "links" .backup journalAlone 0 (Text.encode movedLink)).result = .ok m ∧
      m.owners.link? "u" "a" = some ⟨"http://c/", true⟩ ∧
      m.owners.link? "v" "a" = some ⟨"http://b/", false⟩ ∧
      m.owners.link? "v" "b" = none ∧
      (storage.stats.run ⟨m, journalAlone⟩).1 = .ok ⟨2, 2⟩ := by
  obtain ⟨m, hopen, hsome, hlink, hstats, -, -⟩ :=
    open_last_write_wins stands_journalAlone rfl .backup movedLink
  refine ⟨m, hopen, ?_, ?_, ?_, ?_⟩
  · exact (hlink "u" "a" _).2 (lastStated_iff.2
      ⟨[keptLink, _], [], stated_movedLink, List.not_mem_nil⟩)
  · exact (hlink "v" "a" _).2
      (lastStated_iff.2 ⟨[keptLink], [_], stated_movedLink, by decide⟩)
  · rw [← Option.not_isSome_iff_eq_none, hsome]
    rintro ⟨line, hline, r, hr, -, hcode⟩
    have hmem : r ∈ stated movedLink :=
      List.mem_filterMap.2 ⟨line, hline, stated?_eq_some_iff.2 hr⟩
    have hcodes : ∀ r ∈ stated movedLink, r.code ≠ "b" := by
      rw [stated_movedLink]
      decide
    exact hcodes r hmem hcode
  · rw [hstats, stated_movedLink]
    rfl

end Memory

end ShortLinks
