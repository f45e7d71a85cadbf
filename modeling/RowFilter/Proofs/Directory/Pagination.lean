import RowFilter.Directory.Rehearsal
import RowFilter.Proofs.Directory.Denotation
import RowFilter.Proofs.Directory.StreamReading
import RowFilter.Proofs.Outcome

/-! # Pages of a search

A page is the rows between a start and a count of what a server selects, as far as the size limits
of the server and of the configuration let it through. That the stream was cut shows only if the
page was not full before.
-/

namespace RowFilter.Directory

/-- A number that does not go beyond a limit, if there is one. -/
def atMost : Option Nat → Nat → Nat
  | some limit, n => min n limit
  | none, n => n

/-- The first of some items, as many as a limit lets through. -/
def upTo {α : Type} : Option Nat → List α → List α
  | some limit, items => items.take limit
  | none, items => items

theorem length_upTo {α : Type} (limit : Option Nat) (items : List α) :
    (upTo limit items).length = atMost limit items.length := by
  cases limit with
  | none => rfl
  | some n => rw [upTo, atMost, List.length_take, Nat.min_comm]

theorem smallerLimit_some (limit : Option Nat) (n : Nat) :
    smallerLimit limit (some n) = some (atMost limit n) := by
  cases limit with
  | none => rfl
  | some m => rw [smallerLimit, atMost, Nat.min_comm]

/-- What two limits let through is what the second lets through of what the first does. -/
theorem take_atMost {α : Type} (limit : Option Nat) (n : Nat) (items : List α) :
    items.take (atMost limit n) = (upTo limit items).take n := by
  cases limit with
  | none => rfl
  | some m => rw [atMost, upTo, List.take_take]

theorem smallerLimit_assoc (a b c : Option Nat) :
    smallerLimit a (smallerLimit b c) = smallerLimit (smallerLimit a b) c := by
  cases a <;> cases b <;> cases c <;> simp [smallerLimit, Nat.min_assoc]

/-! ## Streams -/

/-- What follows the entries of a stream: an error if it was cut. -/
def ending (isCut : Bool) : EntryStream :=
  if isCut then [.error .sizeLimitExceeded] else []

theorem streamOf_eq (limit : Option Nat) (entries : List Entry) :
    Server.streamOf limit entries = (upTo limit entries).map Except.ok ++
      ending (limit.any fun limit => limit < entries.length) := by
  cases limit with
  | none => simp [Server.streamOf, upTo, ending]
  | some limit =>
      rw [Server.streamOf]
      by_cases h : limit < entries.length
      · simp [upTo, ending, h]
      · simp [upTo, ending, h, List.take_of_length_le (Nat.le_of_not_lt h)]

/-- How reading ends where only an error may follow. -/
def endingOf (isCut : Bool) : Ending :=
  if isCut then .sizeLimit else .ended

theorem ends_ending {limit : Option Nat} {count : Nat} (hroom : ∀ most ∈ limit, count < most)
    (isCut : Bool) : Ends limit count (ending isCut) (endingOf isCut) := by
  cases isCut with
  | false => exact .ended hroom
  | true => exact .sizeLimit hroom []

theorem page_endingOf (isCut : Bool) (skip : Nat) (read : List Entry) :
    (endingOf isCut).page skip read = .ok ⟨read.drop skip, read.length, isCut⟩ := by
  cases isCut <;> rfl

/-- An unbounded page takes all entries after those to skip. -/
theorem readPage_unbounded (skip : Nat) (entries : List Entry) (isCut : Bool) :
    readPage skip none (entries.map Except.ok ++ ending isCut) =
      .ok ⟨entries.drop skip, entries.length, isCut⟩ := by
  have hnone : (none : Option Nat) ≠ some 0 := nofun
  have hstops : StopsAt ((none : Option Nat).map (skip + ·)) (entries.map Except.ok ++ ending isCut)
      entries (endingOf isCut) := ⟨_, rfl, ends_ending (by simp) isCut⟩
  rw [hstops.readPage_eq hnone, page_endingOf]

/-- A bounded page takes the entries after those to skip until it is full. It does not see where
the stream was cut once it is. -/
theorem readPage_bounded {room : Nat} (hroom : 0 < room) (skip : Nat) (entries : List Entry)
    (isCut : Bool) :
    readPage skip (some room) (entries.map Except.ok ++ ending isCut) =
      .ok ⟨(entries.drop skip).take room, min entries.length (skip + room),
        isCut && decide (entries.length < skip + room)⟩ := by
  have hsome : some room ≠ some 0 := fun h => Nat.ne_of_gt hroom (Option.some.inj h)
  by_cases hshort : entries.length < skip + room
  · have hstops : StopsAt ((some room).map (skip + ·)) (entries.map Except.ok ++ ending isCut)
        entries (endingOf isCut) := ⟨_, rfl, ends_ending (by simpa using hshort) isCut⟩
    have hrest : (entries.drop skip).length ≤ room := by
      rw [List.length_drop]
      omega
    rw [hstops.readPage_eq hsome, page_endingOf, List.take_of_length_le hrest,
      Nat.min_eq_left (Nat.le_of_lt hshort), decide_eq_true hshort, Bool.and_true]
  · have hlength : (entries.take (skip + room)).length = skip + room := by
      rw [List.length_take]
      omega
    have hstops : StopsAt ((some room).map (skip + ·)) (entries.map Except.ok ++ ending isCut)
        (entries.take (skip + room)) .full := by
      refine ⟨(entries.drop (skip + room)).map Except.ok ++ ending isCut, ?_,
        .full _ (by rw [hlength]; rfl)⟩
      rw [← List.append_assoc, ← List.map_append, List.take_append_drop]
    rw [hstops.readPage_eq hsome, Ending.page, hlength, List.drop_take, Nat.add_sub_cancel_left,
      Nat.min_eq_right (Nat.le_of_not_lt hshort), decide_eq_false hshort, Bool.and_false]

/-! ## Searches -/

theorem length_select_le (server : Server) (filter : SearchFilter) (request : SearchRequest) :
    (server.select filter request).length ≤ server.entries.length := by
  have hsorted : ∀ entries : List Entry, (if request.sort.isEmpty then entries
      else Sorting.sort (compareEntries request.sort) entries).length = entries.length := by
    intro entries
    split
    next => rfl
    next => exact (Sorting.perm_sort _ _).length_eq
  have hprojected : ∀ entries : List Entry, (if request.attributes.isEmpty then entries
      else entries.map (Entry.project request.attributes)).length = entries.length := by
    intro entries
    split
    next => rfl
    next => exact List.length_map _
  rw [Server.select, hprojected, hsorted]
  exact List.length_filter_le _ _

theorem search_eq (server : Server) {request : SearchRequest} {filter : SearchFilter}
    (hparse : SearchFilter.parse request.filter = .ok filter) :
    (Faults.endpoint {} server).search request = .ok (Server.streamOf
      (smallerLimit server.sizeLimit request.sizeLimit) (server.select filter request)) := by
  have hsearch : server.search request = .ok (Server.streamOf
      (smallerLimit server.sizeLimit request.sizeLimit) (server.select filter request)) := by
    rw [Server.search, hparse]
    rfl
  simp only [Faults.endpoint, Faults.search, hsearch]
  rfl

/-- A pool with an idle connection, or with room for another, hands one out. -/
theorem checkout_eq_ok {config : PoolConfig} {pool : Pool}
    (h : pool.idle ≠ [] ∨ pool.openCount < config.maxConnections) :
    ∃ connection rest, pool.checkout config (.ok ()) = (.ok connection, rest) := by
  rw [Pool.checkout, Pool.takeIdle?]
  cases hidle : pool.idle with
  | cons connection rest => exact ⟨_, _, rfl⟩
  | nil =>
      have hroom : pool.openCount < config.maxConnections := h.resolve_left fun h => h hidle
      rw [Pool.reserve?, if_pos hroom]
      exact ⟨_, _, rfl⟩

/-- The page of what a search selects between a start and a count, with the limit that is sent for
it taken together with the other limits. -/
theorem readPage_streamOf {matched : List Entry} (hlength : matched.length ≤ greatestLimit)
    (limit : Option Nat) {request : Request} (hcount : request.count ≠ some 0) :
    ∃ page, readPage request.start request.count
        (Server.streamOf (smallerLimit limit (pageLimit request)) matched) = .ok page ∧
      page.entries = upTo request.count ((upTo limit matched).drop request.start) ∧
      page.consumed =
        atMost (request.count.map (request.start + ·)) (atMost limit matched.length) ∧
      (page.truncated = true ↔ ∃ n, limit = some n ∧ n < matched.length ∧
        ∀ count, request.count = some count → n < request.start + count) := by
  rw [streamOf_eq]
  cases hcountEq : request.count with
  | none =>
      have hlimit : smallerLimit limit (pageLimit request) = limit := by
        rw [pageLimit, hcountEq]
        cases limit <;> rfl
      rw [hlimit, readPage_unbounded, length_upTo]
      refine ⟨_, rfl, rfl, rfl, ?_⟩
      simp [Option.any_eq_true]
  | some count =>
      have hpositive : 0 < count := Nat.pos_of_ne_zero fun h => hcount (by rw [hcountEq, h])
      obtain ⟨more, rfl⟩ := Nat.exists_eq_succ_of_ne_zero (Nat.ne_of_gt hpositive)
      have hpage : pageLimit request = some (min (request.start + (more + 1)) greatestLimit) := by
        rw [pageLimit, hcountEq]
      -- Only that nothing is longer matters of the greatest limit.
      generalize greatestLimit = greatest at hlength hpage
      have hselected : (upTo limit matched).length ≤ greatest := by
        rw [length_upTo]
        cases limit <;> simp only [atMost] <;> omega
      rw [hpage, smallerLimit_some, upTo, readPage_bounded hpositive]
      refine ⟨_, rfl, ?_, ?_, ?_⟩
      · have htake : (upTo limit matched).take (min (request.start + (more + 1)) greatest) =
            (upTo limit matched).take (request.start + (more + 1)) := by
          rw [List.take_eq_take_iff]
          omega
        rw [take_atMost, htake, List.drop_take, Nat.add_sub_cancel_left, List.take_take,
          Nat.min_self]
        rfl
      · simp only [List.length_take, Option.map_some]
        cases limit <;> simp only [atMost] <;> omega
      · simp only [List.length_take, Option.any_some, Bool.and_eq_true, decide_eq_true_eq,
          Option.some.injEq, forall_eq']
        cases limit with
        | none =>
            simp only [atMost, reduceCtorEq, false_and, exists_false, iff_false]
            omega
        | some n =>
            simp only [atMost, Option.some.injEq, exists_eq_left']
            omega

/-- Running a statement over a server gives the page of what the server selects, cut at the smaller
of the limits of server and configuration. It is truncated if this limit cut it before it was full.
An empty page needs no connection. The limits are numbers of a machine, and so is the number of
entries. -/
theorem execute_page (executor : Executor) (server : Server)
    (hlength : server.entries.length ≤ greatestLimit) (request : Request) (statement : Statement)
    {text : String} (hbind : bind statement.text statement.parameters = .ok text)
    {filter : SearchFilter} (hparse : SearchFilter.parse text = .ok filter) {pool : Pool}
    (hpool : pool.idle ≠ [] ∨ pool.openCount < executor.poolConfig.maxConnections) :
    ∃ search, searchRequest executor.config executor.schema request statement = .ok search ∧
      search.filter = text ∧
      let run := executor.execute (Faults.endpoint {} server) request statement pool
      let matched := server.select filter search
      let limit := smallerLimit server.sizeLimit executor.config.sizeLimit
      (request.count = some 0 → run = ⟨.ok ⟨[], false, 0⟩, pool, none⟩) ∧
      (request.count ≠ some 0 → run.sent = some search ∧ ∃ result, run.outcome = .ok result ∧
        result.rows = (upTo request.count ((upTo limit matched).drop request.start)).map
          (toRow executor.config executor.schema) ∧
        result.consumed =
          atMost (request.count.map (request.start + ·)) (atMost limit matched.length) ∧
        (result.truncated = true ↔ ∃ n, limit = some n ∧ n < matched.length ∧
          ∀ count, request.count = some count → n < request.start + count)) := by
  have hsearch : ∃ search, searchRequest executor.config executor.schema request statement =
      .ok search ∧ search.filter = text ∧
      search.sizeLimit = smallerLimit executor.config.sizeLimit (pageLimit request) := by
    rw [searchRequest, hbind]
    exact ⟨_, rfl, rfl, rfl⟩
  obtain ⟨search, hsearch, rfl, hlimit⟩ := hsearch
  refine ⟨search, hsearch, rfl, ?_, ?_⟩
  · intro hcount
    rw [Executor.execute, hsearch]
    simp only [if_pos hcount]
  · intro hcount
    obtain ⟨connection, rest, hcheckout⟩ := checkout_eq_ok hpool
    obtain ⟨page, hpage, hentries, hconsumed, htruncated⟩ := readPage_streamOf
      (Nat.le_trans (length_select_le server filter search) hlength)
      (smallerLimit server.sizeLimit executor.config.sizeLimit) hcount
    -- Three limits meet: that of the server, the configured one and that of the page.
    rw [← smallerLimit_assoc, ← hlimit] at hpage
    have hcollect : ((Faults.endpoint {} server).search search >>=
        collect executor.config executor.schema request) = .ok ⟨page.entries.map
          (toRow executor.config executor.schema), page.truncated, page.consumed⟩ := by
      rw [search_eq server hparse]
      simp only [Bind.bind, Except.bind, collect, hpage]
      rfl
    have houtcome : (executor.execute (Faults.endpoint {} server) request statement pool) =
        ⟨.ok ⟨page.entries.map (toRow executor.config executor.schema), page.truncated,
          page.consumed⟩, rest.release connection true, some search⟩ := by
      have hconnect : (Faults.endpoint {} server).connect = .ok () := rfl
      rw [Executor.execute, hsearch]
      simp only [if_neg hcount, hconnect, hcheckout, hcollect]
      rfl
    rw [houtcome]
    exact ⟨rfl, _, rfl, by rw [hentries], hconsumed, htruncated⟩

/-- Three entries behind a server that shows two of them. -/
def cappedServer : Server where
  entries := [⟨"cn=a", []⟩, ⟨"cn=b", []⟩, ⟨"cn=c", []⟩]
  sizeLimit := some 2

/-- The page of two entries after the first one holds one, since the server stops there. -/
theorem execute_capped_page :
    ∃ result, ((⟨{}, [], {}⟩ : Executor).execute (Faults.endpoint {} cappedServer)
        { start := 1, count := some 2 } ⟨"(objectClass=*)", []⟩ Pool.empty).outcome = .ok result ∧
      result.rows = [[("dn", .string "cn=b")]] ∧ result.consumed = 2 ∧
      result.truncated = true := by
  have hlength : cappedServer.entries.length ≤ greatestLimit := by decide
  have hbind : bind "(objectClass=*)" [] = .ok "(objectClass=*)" := by rfl
  have hformed : (SearchFilter.present "objectClass").WellFormed := isPlainName_objectClass.isName
  have hspell : String.ofList (SearchFilter.present "objectClass").spell = "(objectClass=*)" := by
    decide
  have hparse := SearchFilter.parse_spell hformed
  rw [hspell] at hparse
  have hpool : Pool.empty.idle ≠ [] ∨ Pool.empty.openCount < 4 := .inr (by decide)
  obtain ⟨search, hsearch, -, -, hpage⟩ := execute_page ⟨{}, [], {}⟩ cappedServer hlength
    { start := 1, count := some 2 } ⟨"(objectClass=*)", []⟩ hbind hparse hpool
  obtain ⟨-, result, houtcome, hrows, hconsumed, htruncated⟩ := hpage (by decide)
  have hselect : cappedServer.select (.present "objectClass") search = cappedServer.entries := by
    rw [searchRequest, hbind] at hsearch
    obtain rfl := Except.ok.inj hsearch
    rfl
  rw [hselect] at hrows hconsumed htruncated
  refine ⟨result, houtcome, hrows, hconsumed, htruncated.mpr ⟨2, rfl, by decide, ?_⟩⟩
  intro count hcount
  obtain rfl := Option.some.inj hcount
  decide

end RowFilter.Directory
