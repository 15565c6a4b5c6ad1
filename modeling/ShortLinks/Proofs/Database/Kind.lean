import ShortLinks.Proofs.Run
import ShortLinks.Startup

/-!
# The kind of database behind a scheme

A URL with the scheme of database files means a file, whatever stands behind the scheme. A URL with
the scheme of a server means a server of that kind only where it does not end like the name of a
database file. Then nothing is made on this machine, the store is what that server offers, and a
program that goes on without it says what was wrong with the server. A URL that does end so is taken
for the path of a file as it stands, scheme and all, just as if the scheme of files stood in front
of it.
-/

namespace ShortLinks.Database

/-- The schemes of servers, each with the kind of database that it names. -/
def serverSchemes : List (String × Backend) :=
  [("mysql://", .mysql), ("mariadb://", .mysql), ("postgres://", .postgres),
    ("postgresql://", .postgres)]

/-- A text ends like the name of a database file. -/
def endsLikeFile (s : String) : Bool := s.endsWith ".db" || s.endsWith ".sqlite"

variable {scheme : String} {backend : Backend}

/-! ## Schemes and endings -/

/-- A text ends with another when its characters do. -/
theorem endsWith_iff {ending s : String} : s.endsWith ending ↔ ending.toList <:+ s.toList := by
  rw [String.endsWith_eq_endsWith_toSlice, String.Slice.endsWith_string_iff, String.copy_toSlice]

/-- An ending does not reach into what stands in front if that ends with a character it has not. -/
theorem suffix_append_iff {ending front s : List Char} {c : Char} (hlast : c ∈ front.getLast?)
    (hc : c ∉ ending) : ending <:+ front ++ s ↔ ending <:+ s := by
  refine ⟨fun h => ?_, fun h => h.trans (List.suffix_append front s)⟩
  obtain hs | ⟨inside, rfl⟩ := List.suffix_or_suffix_of_suffix h (List.suffix_append front s)
  · exact hs
  · obtain ⟨outside, hfront⟩ := h
    rw [← List.append_assoc, List.append_cancel_right_eq] at hfront
    subst hfront
    cases hinside : inside.getLast? with
    | none =>
      rw [List.getLast?_eq_none_iff.1 hinside]
      exact List.suffix_rfl
    | some d =>
      rw [List.getLast?_append, hinside] at hlast
      cases hlast
      exact absurd (List.mem_append_left s (List.mem_of_getLast? hinside)) hc

/-- The scheme of a server ends with a slash, which is in no ending of a file name. -/
theorem endsLikeFile_append (h : (scheme, backend) ∈ serverSchemes) (s : String) :
    endsLikeFile (scheme ++ s) = endsLikeFile s := by
  have hslash : ∀ x ∈ serverSchemes, '/' ∈ x.1.toList.getLast? := by decide
  have hending {ending : String} (hnot : '/' ∉ ending.toList) :
      (scheme ++ s).endsWith ending = s.endsWith ending := by
    rw [Bool.eq_iff_iff, endsWith_iff, endsWith_iff, String.toList_append,
      suffix_append_iff (hslash _ h) hnot]
  rw [endsLikeFile, endsLikeFile, hending (by decide), hending (by decide)]

/-- Behind the scheme of a server only an ending makes a URL mean a file. -/
theorem meansFile_append (h : (scheme, backend) ∈ serverSchemes) (s : String) :
    Backend.meansFile (scheme ++ s) = endsLikeFile s := by
  have hprefix : ∀ x ∈ serverSchemes, ¬"sqlite://".toList <+: x.1.toList ++ s.toList := by
    simp [serverSchemes]
  have hfile : (scheme ++ s).startsWith "sqlite://" = false := by
    rw [Bool.eq_false_iff, Ne, String.startsWith_string_iff, String.toList_append]
    exact hprefix _ h
  have hcolon : ∀ x ∈ serverSchemes, x.1.toList ++ s.toList ≠ ":memory:".toList := by
    simp [serverSchemes]
  have hmemory : scheme ++ s ≠ ":memory:" := by
    rw [Ne, ← String.toList_inj, String.toList_append]
    exact hcolon _ h
  rw [Backend.meansFile, hfile, beq_false_of_ne hmemory, Bool.false_or, Bool.or_false]
  exact endsLikeFile_append h s

/-- The scheme of files means a file. -/
theorem infer_file (s : String) : Backend.infer ("sqlite://" ++ s) = .ok .sqlite := by
  have hstart : ("sqlite://" ++ s).startsWith "sqlite://" = true := by
    rw [String.startsWith_string_iff, String.toList_append]
    exact List.prefix_append _ _
  rw [Backend.infer, Backend.meansFile, hstart]
  rfl

/-- The kind of database behind the scheme of a server. -/
theorem infer_append (h : (scheme, backend) ∈ serverSchemes) (s : String) :
    Backend.infer (scheme ++ s) = .ok (if endsLikeFile s then .sqlite else backend) := by
  rw [Backend.infer, meansFile_append h]
  split
  · rfl
  · have hbegins (front word : String) :
        (front ++ s).startsWith word = true ↔ word.toList <+: front.toList ++ s.toList := by
      rw [String.startsWith_string_iff, String.toList_append]
    simp only [serverSchemes, List.mem_cons, Prod.mk.injEq, List.not_mem_nil, or_false] at h
    obtain ⟨rfl, rfl⟩ | ⟨rfl, rfl⟩ | ⟨rfl, rfl⟩ | ⟨rfl, rfl⟩ := h <;>
      simp [Bool.or_eq_true, hbegins]

/-! ## Addresses of files -/

/-- A word is dropped from the front once more. -/
theorem dropAll_append {word : List Char} (hword : word ≠ []) (cs : List Char) :
    FileAddress.dropAll word (word ++ cs) = FileAddress.dropAll word cs := by
  rw [FileAddress.dropAll, if_neg, List.drop_left]
  simp [hword]

/-- Where a word does not stand at the front, nothing is dropped. -/
theorem dropAll_eq_self {word cs : List Char} (h : ¬word <+: cs) :
    FileAddress.dropAll word cs = cs := by
  rw [FileAddress.dropAll, if_pos]
  simp [h]

/-- The scheme of a server in front of a path is a part of the path, with the scheme of files in
front of it or without. -/
theorem read_append (h : (scheme, backend) ∈ serverSchemes) (s : String) :
    FileAddress.read ("sqlite://" ++ (scheme ++ s)) = FileAddress.read (scheme ++ s) := by
  have hsplit : "sqlite://".toList = "sqlite:".toList ++ "//".toList := rfl
  have hfile : ∀ x ∈ serverSchemes, ¬"sqlite:".toList <+: x.1.toList ++ s.toList := by
    simp [serverSchemes]
  have hslashes : ¬"sqlite:".toList <+: "//".toList ++ (scheme.toList ++ s.toList) := by simp
  have hdrop : FileAddress.dropAll "//".toList
        (FileAddress.dropAll "sqlite:".toList ("sqlite://" ++ (scheme ++ s)).toList) =
      FileAddress.dropAll "//".toList
        (FileAddress.dropAll "sqlite:".toList (scheme ++ s).toList) := by
    simp only [String.toList_append, hsplit, List.append_assoc]
    rw [dropAll_append (by simp), dropAll_eq_self hslashes, dropAll_append (by simp),
      dropAll_eq_self (hfile _ h)]
  rw [FileAddress.read, FileAddress.read]
  simp only [hdrop]

/-! ## Connecting and starting -/

/-- A server is there if it answers in time. -/
theorem pinged_eq_ok_iff {limits : Limits} {echo : Echo} :
    pinged backend limits echo = .ok () ↔ limits.operationMillis ≠ 0 ∧ echo = .answer := by
  by_cases hlimit : limits.operationMillis = 0
  · simp [pinged, hlimit]
  · cases echo <;> simp [pinged, hlimit]

/-- A server is used exactly if it is ready and answers, and there is time for that. Then its kind
is the one that was meant. -/
theorem contacted_eq_ok_iff {limits : Limits} {contact : Contact} {r : Relational} :
    contacted backend limits contact = .ok r ↔
      limits.connectSeconds ≠ 0 ∧ limits.operationMillis ≠ 0 ∧
        ∃ store, contact = .ready store .answer ∧
          r = { store with
            patience := limits.operationMillis, engine := { store.engine with backend } } := by
  by_cases hlimit : limits.connectSeconds = 0
  · cases contact <;> simp [contacted, hlimit, except_throw]
  · cases contact with
    | ready store echo =>
      simp only [contacted, if_neg hlimit, except_bind_eq_ok]
      constructor
      · rintro ⟨⟨⟩, hpinged, hstore⟩
        obtain ⟨hoperation, rfl⟩ := pinged_eq_ok_iff.1 hpinged
        exact ⟨hlimit, hoperation, store, rfl, (Except.ok.inj hstore).symm⟩
      · rintro ⟨-, hoperation, store, hready, rfl⟩
        cases hready
        exact ⟨(), pinged_eq_ok_iff.2 ⟨hoperation, rfl⟩, rfl⟩
    | unreached why delay => simp [contacted, except_throw]
    | turnedAway text => simp [contacted, hlimit, except_throw]
    | noTable text => simp [contacted, hlimit, except_throw]
    | unending => simp [contacted, except_throw]

/-- What is used of a server is a database of its kind. -/
theorem backend_of_serverStore {network : Network} {url : String} {limits : Limits}
    {fs : FileSystem} {r : Relational}
    (h : serverStore network backend url limits fs = .ok r) : r.engine.backend = backend := by
  obtain ⟨server, -, hcontacted⟩ := except_bind_eq_ok.1 h
  obtain ⟨-, -, store, -, rfl⟩ := contacted_eq_ok_iff.1 hcontacted
  rfl

/-- Without a network no server is used. -/
theorem serverStore_none (backend : Backend) (url : String) (limits : Limits) (fs : FileSystem) :
    serverStore .none backend url limits fs = .error (serverFault backend url limits fs) := by
  rw [serverStore, serverFault]
  cases serverAt backend url <;> rfl

/-- Behind the scheme of a server, connecting changes nothing here and gives what the server
offers. -/
theorem run_connect_append (h : (scheme, backend) ∈ serverSchemes) {s : String}
    (hs : endsLikeFile s = false) (limits : Limits) (network : Network) (fs : FileSystem) :
    (connect (scheme ++ s) limits network).run fs =
      (serverStore network backend (scheme ++ s) limits fs, fs) := by
  have hserver : ∀ x ∈ serverSchemes, x.2 ≠ .sqlite := by decide
  rw [connect, infer_append h, hs]
  cases backend with
  | sqlite => exact absurd rfl (hserver _ h)
  | mysql => rfl
  | postgres => rfl

/-- With the ending of a file, connecting is the same as with the scheme of files in front. -/
theorem connect_append (h : (scheme, backend) ∈ serverSchemes) {s : String}
    (hs : endsLikeFile s = true) (limits : Limits) (network : Network) :
    connect (scheme ++ s) limits network =
      connect ("sqlite://" ++ (scheme ++ s)) limits network := by
  rw [connect, connect, infer_append h, hs, if_pos rfl, infer_file]
  simp only [fileAddress, read_append h]

section Starting

open Startup

variable {settings : Settings} {network : Network} {url : String} {fs fs' : FileSystem}

/-- A program whose database cannot be used goes on with the memory store and says why. -/
theorem run_createStore_passedOver {fault : Fault}
    (hurl : nonblank settings.database.url = some url)
    (hconnect : (connect url settings.database.limits network).run fs = (.error fault, fs')) :
    (createStore settings network).run fs =
      let (made, after) := (createMemory settings.storage).run fs'
      ((made.1.map .memory, warnings url ++ passedOver fault :: made.2), after) := by
  have hconnect : StateT.run (connect url settings.database.limits network).run fs = _ := hconnect
  simp only [createStore, hurl, runState_bind, hconnect, runState_pure, List.append_assoc]
  rfl

/-- A program whose database can be used says no more than what is told about the URL. -/
theorem run_createStore_used {r : Relational} (hurl : nonblank settings.database.url = some url)
    (hconnect : (connect url settings.database.limits network).run fs = (.ok r, fs')) :
    (createStore settings network).run fs = ((.ok (.relational r), warnings url), fs') := by
  have hconnect : StateT.run (connect url settings.database.limits network).run fs = _ := hconnect
  simp only [createStore, hurl, runState_bind, hconnect]
  rfl

end Starting

/-- Files are meant by their scheme, whatever follows. Behind the scheme of a server, the kind of
the server is meant if what follows does not end like the name of a file. Then connecting changes
nothing here and gives a database of that kind, as the server offers it, or fails for a reason of
that server, as it does without a network. A program uses what the server offers, and one that falls
back to memory says why. If what follows does end so, the URL is used as if the scheme of files
stood in front, whatever the network is. -/
theorem scheme_decides_without_ending (s : String) :
    Backend.infer ("sqlite://" ++ s) = .ok .sqlite ∧
    ∀ scheme backend, (scheme, backend) ∈ serverSchemes →
      (endsLikeFile s = false →
        Backend.infer (scheme ++ s) = .ok backend ∧
        (∀ limits network fs, (connect (scheme ++ s) limits network).run fs =
            (serverStore network backend (scheme ++ s) limits fs, fs) ∧
          ∀ r, serverStore network backend (scheme ++ s) limits fs = .ok r →
            r.engine.backend = backend) ∧
        (∀ limits fs, (connect (scheme ++ s) limits).run fs =
          (.error (serverFault backend (scheme ++ s) limits fs), fs)) ∧
        ∀ (settings : Settings) network fs,
          Startup.nonblank settings.database.url = some (scheme ++ s) →
          (Startup.createStore settings network).run fs =
            match serverStore network backend (scheme ++ s) settings.database.limits fs with
            | .ok r => ((.ok (.relational r), warnings (scheme ++ s)), fs)
            | .error fault =>
              let (made, fs') := (Startup.createMemory settings.storage).run fs
              ((made.1.map .memory, warnings (scheme ++ s) ++ Startup.passedOver fault :: made.2),
                fs')) ∧
      (endsLikeFile s = true →
        Backend.infer (scheme ++ s) = .ok .sqlite ∧
        ∀ limits network, connect (scheme ++ s) limits network =
          connect ("sqlite://" ++ (scheme ++ s)) limits network) := by
  refine ⟨infer_file s, fun scheme backend h => ?_⟩
  refine ⟨fun hs => ⟨by rw [infer_append h, hs]; rfl, fun limits network fs => ?_,
    fun limits fs => ?_, fun settings network fs hurl => ?_⟩,
    fun hs => ⟨by rw [infer_append h, hs]; rfl, fun limits network => ?_⟩⟩
  · exact ⟨run_connect_append h hs limits network fs, fun _ => backend_of_serverStore⟩
  · rw [run_connect_append h hs limits .none fs, serverStore_none]
  · have hconnect := run_connect_append h hs settings.database.limits network fs
    cases hstore : serverStore network backend (scheme ++ s) settings.database.limits fs with
    | ok r => exact run_createStore_used hurl (hstore ▸ hconnect)
    | error fault => exact run_createStore_passedOver hurl (hstore ▸ hconnect)
  · exact connect_append h hs limits network

/-- Directories that are named like the beginning of a URL. -/
def lookalike : FileSystem :=
  (({} : FileSystem).bind ["mysql:"] .directory).bind ["mysql:", "h"] .directory

/-- The settings of a program with a database on a server, and no journal. -/
def onServer (url : String) : Settings where
  database := { url := some url }
  storage := { journalPath := none }

/-- A network in which every server is ready. -/
def allReady : Network := fun _ _ _ => .ready { file := 0 } .answer

/-- Both cases occur behind the scheme of a server, and a server that is ready is used. -/
theorem scheme_decides_without_ending_shop :
    Backend.infer ("postgres://" ++ "h/shop") = .ok .postgres ∧
    (∃ r, (Startup.createStore (onServer ("postgres://" ++ "h/shop")) allReady).run {} =
      ((.ok (.relational r), []), {}) ∧ r.engine.backend = .postgres) ∧
    Backend.infer ("postgres://" ++ "h/shop.db") = .ok .sqlite := by
  have hserver : ("postgres://", .postgres) ∈ serverSchemes := by simp [serverSchemes]
  have hnot : endsLikeFile "h/shop" = false := by decide +kernel
  have hending : endsLikeFile "h/shop.db" = true := by decide +kernel
  obtain ⟨hinfer, hconnect, -, hstart⟩ := ((scheme_decides_without_ending _).2 _ _ hserver).1 hnot
  obtain ⟨r, hready⟩ : ∃ r, serverStore allReady .postgres ("postgres://" ++ "h/shop") {} {} =
      .ok r := by
    have hmeant : (serverAt .postgres ("postgres://" ++ "h/shop")).isOk := by decide +kernel
    cases hserver : serverAt .postgres ("postgres://" ++ "h/shop") with
    | error fault =>
      rw [hserver] at hmeant
      cases hmeant
    | ok server => exact ⟨_, by rw [serverStore, hserver]; rfl⟩
  refine ⟨hinfer, ⟨r, ?_, (hconnect _ _ _).2 r hready⟩,
    (((scheme_decides_without_ending _).2 _ _ hserver).2 hending).1⟩
  have hlimits : (onServer ("postgres://" ++ "h/shop")).database.limits = {} := rfl
  have hquiet : warnings ("postgres://" ++ "h/shop") = [] := by decide +kernel
  rw [hstart (onServer _) allReady {} (by decide +kernel), hlimits, hready, hquiet]

open Startup in
/-- The URL of a server whose database is called `shop.db` is taken for the path of a file. The
program falls back to memory because there is no such file; and where directories are named like the
URL, a database is made in them. -/
theorem server_url_taken_for_file :
    Backend.infer "mysql://h/shop.db" = .ok .sqlite ∧
    ((createStore (onServer "mysql://h/shop.db")).run {}).1 =
      (.ok (.memory {}), [passedOver (fileRefused cannotOpen.report)]) ∧
    ∃ r fs', (connect "mysql://h/shop.db" {}).run lookalike = (.ok r, fs') ∧
      lookalike.isFile "mysql:/h/shop.db" = false ∧ fs'.isFile "mysql:/h/shop.db" = true := by
  have hinfer : Backend.infer "mysql://h/shop.db" = .ok .sqlite := by
    have hserver : ("mysql://", .mysql) ∈ serverSchemes := by simp [serverSchemes]
    have hending : endsLikeFile "h/shop.db" = true := by decide +kernel
    have hurl : "mysql://h/shop.db" = "mysql://" ++ "h/shop.db" := rfl
    rw [hurl, infer_append hserver, hending]
    rfl
  have haddress : fileAddress "mysql://h/shop.db" = .ok { path := "mysql://h/shop.db" } := by
    have hfile : ¬"sqlite:".toList <+: "mysql://h/shop.db".toList := by simp
    have hslashes : ¬"//".toList <+: "mysql://h/shop.db".toList := by simp
    have hread : FileAddress.read "mysql://h/shop.db" = .ok { path := "mysql://h/shop.db" } := by
      rw [FileAddress.read, dropAll_eq_self hfile, dropAll_eq_self hslashes]
      with_unfolding_all rfl
    have hname : FileAddress.fileName { path := "mysql://h/shop.db" } = "mysql://h/shop.db" := by
      decide +kernel
    simp [fileAddress, hread, hname]
  have hurl : nonblank (onServer "mysql://h/shop.db").database.url = some "mysql://h/shop.db" := by
    decide +kernel
  obtain ⟨fs, hrefused⟩ : ∃ fs, (connect "mysql://h/shop.db" {}).run {} =
      (.error (fileRefused cannotOpen.report), fs) := by
    simp only [connect, hinfer, haddress]
    exact ⟨_, by with_unfolding_all rfl⟩
  obtain ⟨r, fs', hmade⟩ : ∃ r fs', (connect "mysql://h/shop.db" {}).run lookalike =
      (.ok r, fs') := by
    simp only [connect, hinfer, haddress]
    exact ⟨_, _, by with_unfolding_all rfl⟩
  have hfile : ((connect "mysql://h/shop.db" {}).run lookalike).2.isFile "mysql:/h/shop.db" =
      true := by
    simp only [connect, hinfer, haddress]
    decide +kernel
  refine ⟨hinfer, ?_, r, fs', hmade, by decide +kernel, by rwa [hmade] at hfile⟩
  have hquiet : warnings "mysql://h/shop.db" = [] := by decide +kernel
  rw [run_createStore_passedOver hurl hrefused, hquiet]
  rfl

end ShortLinks.Database
