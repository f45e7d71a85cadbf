import RowFilter.Proofs.Directory.PoolAccounting

/-! # Reading result streams

The entries that are read of a stream are those before the first event that ends reading, and that
event says what comes of the page. The connection is given back after every one of them.
-/

namespace RowFilter.Directory

/-- What ends the reading of a stream. -/
inductive Ending where
  | full
  | ended
  | sizeLimit
  | failed (error : DirectoryError)

/-- Reading ends before the rest of a stream when a number of entries has been read: the page is
full at the limit, and short of it anything but an entry ends reading. -/
inductive Ends (limit : Option Nat) (count : Nat) : EntryStream → Ending → Prop
  | full (rest : EntryStream) (hlimit : limit = some count) : Ends limit count rest .full
  | ended (hroom : ∀ most ∈ limit, count < most) : Ends limit count [] .ended
  | sizeLimit (hroom : ∀ most ∈ limit, count < most) (rest : EntryStream) :
      Ends limit count (.error .sizeLimitExceeded :: rest) .sizeLimit
  | failed (hroom : ∀ most ∈ limit, count < most) {error : DirectoryError}
      (hother : error ≠ .sizeLimitExceeded) (rest : EntryStream) :
      Ends limit count (.error error :: rest) (.failed error)

/-- The entries that are read come first in the stream, and reading ends after them. -/
def StopsAt (limit : Option Nat) (stream : EntryStream) (read : List Entry) (ending : Ending) :
    Prop :=
  ∃ rest, stream = read.map .ok ++ rest ∧ Ends limit read.length rest ending

section

variable {limit : Option Nat} {count : Nat} {stream : EntryStream} {entry : Entry}
  {read : List Entry} {error : DirectoryError} {ending : Ending}

theorem ends_succ_iff (hroom : limit ≠ some 0) :
    Ends limit (count + 1) stream ending ↔ Ends (limit.map (· - 1)) count stream ending := by
  have hfull : limit = some (count + 1) ↔ limit.map (· - 1) = some count := by
    cases limit with
    | none => simp
    | some most =>
      have hpos : most ≠ 0 := fun h => hroom (congrArg some h)
      simp only [Option.map_some, Option.some.injEq]
      omega
  have hless : (∀ most ∈ limit, count + 1 < most) ↔ ∀ most ∈ limit.map (· - 1), count < most := by
    cases limit <;> simp [Nat.lt_sub_iff_add_lt]
  constructor
  · intro h
    cases h with
    | full _ hlimit => exact .full _ (hfull.mp hlimit)
    | ended h => exact .ended (hless.mp h)
    | sizeLimit h => exact .sizeLimit (hless.mp h) _
    | failed h hother => exact .failed (hless.mp h) hother _
  · intro h
    cases h with
    | full _ hlimit => exact .full _ (hfull.mpr hlimit)
    | ended h => exact .ended (hless.mpr h)
    | sizeLimit h => exact .sizeLimit (hless.mpr h) _
    | failed h hother => exact .failed (hless.mpr h) hother _

/-- An entry is read as long as there is room for one. -/
theorem stopsAt_cons_iff (hroom : limit ≠ some 0) :
    StopsAt limit (.ok entry :: stream) read ending ↔
      ∃ more, read = entry :: more ∧ StopsAt (limit.map (· - 1)) stream more ending := by
  constructor
  · rintro ⟨rest, hstream, hends⟩
    cases read with
    | nil =>
      obtain rfl : rest = .ok entry :: stream := hstream.symm
      cases hends with
      | full _ hlimit => exact absurd hlimit hroom
    | cons first more =>
      obtain ⟨hfirst, hmore⟩ := List.cons_eq_cons.mp hstream
      obtain rfl := Except.ok.inj hfirst
      exact ⟨more, rfl, rest, hmore, (ends_succ_iff hroom).mp hends⟩
  · rintro ⟨more, rfl, rest, rfl, hends⟩
    exact ⟨rest, rfl, (ends_succ_iff hroom).mpr hends⟩

/-- Nothing is read when there is no room or no entry comes first. -/
theorem StopsAt.eq_nil_and_ends (h : StopsAt limit stream read ending)
    (hnone : limit = some 0 ∨ ∀ entry, stream.head? ≠ some (.ok entry)) :
    read = [] ∧ Ends limit 0 stream ending := by
  obtain ⟨rest, rfl, hends⟩ := h
  cases read with
  | nil => exact ⟨rfl, hends⟩
  | cons first more =>
    rcases hnone with rfl | hnone
    · cases hends with
      | full _ hlimit => cases hlimit
      | ended hroom => exact absurd (hroom 0 rfl) (Nat.not_lt_zero _)
      | sizeLimit hroom => exact absurd (hroom 0 rfl) (Nat.not_lt_zero _)
      | failed hroom => exact absurd (hroom 0 rfl) (Nat.not_lt_zero _)
    · exact absurd rfl (hnone first)

/-- Reading ends in one way only. -/
theorem Ends.unique {other : Ending} (h : Ends limit count stream ending)
    (hother : Ends limit count stream other) : ending = other := by
  have hfull : limit = some count → ¬∀ most ∈ limit, count < most := by
    rintro rfl hroom
    exact Nat.lt_irrefl count (hroom count rfl)
  cases h with
  | full _ hlimit =>
    cases hother with
    | full => rfl
    | ended hroom => exact absurd hroom (hfull hlimit)
    | sizeLimit hroom => exact absurd hroom (hfull hlimit)
    | failed hroom => exact absurd hroom (hfull hlimit)
  | ended hroom =>
    cases hother with
    | full _ hlimit => exact absurd hroom (hfull hlimit)
    | ended => rfl
  | sizeLimit hroom =>
    cases hother with
    | full _ hlimit => exact absurd hroom (hfull hlimit)
    | sizeLimit => rfl
    | failed _ hother => exact absurd rfl hother
  | failed hroom hfailed =>
    cases hother with
    | full _ hlimit => exact absurd hroom (hfull hlimit)
    | sizeLimit => exact absurd rfl hfailed
    | failed => rfl

theorem StopsAt.unique_of_nothing {others : List Entry} {other : Ending}
    (h : StopsAt limit stream read ending) (hother : StopsAt limit stream others other)
    (hnone : limit = some 0 ∨ ∀ entry, stream.head? ≠ some (.ok entry)) :
    read = others ∧ ending = other := by
  obtain ⟨rfl, hends⟩ := h.eq_nil_and_ends hnone
  obtain ⟨rfl, hends'⟩ := hother.eq_nil_and_ends hnone
  exact ⟨rfl, hends.unique hends'⟩

/-- What is read of a stream and what ends reading are determined. -/
theorem StopsAt.unique {others : List Entry} {other : Ending} (h : StopsAt limit stream read ending)
    (hother : StopsAt limit stream others other) : read = others ∧ ending = other := by
  induction stream generalizing limit read others with
  | nil => exact h.unique_of_nothing hother (.inr nofun)
  | cons first stream ih =>
    by_cases hroom : limit = some 0
    · exact h.unique_of_nothing hother (.inl hroom)
    · cases first with
      | error error => exact h.unique_of_nothing hother (.inr nofun)
      | ok entry =>
        obtain ⟨more, rfl, hmore⟩ := (stopsAt_cons_iff hroom).mp h
        obtain ⟨more', rfl, hmore'⟩ := (stopsAt_cons_iff hroom).mp hother
        obtain ⟨rfl, rfl⟩ := ih hmore hmore'
        exact ⟨rfl, rfl⟩

end

/-! ## Pages -/

/-- The page of the entries that were read, of which the first `skip` come before it. -/
def Ending.page (skip : Nat) (read : List Entry) : Ending → Except DirectoryError Page
  | .failed error => .error error
  | .sizeLimit => .ok ⟨read.drop skip, read.length, true⟩
  | .full | .ended => .ok ⟨read.drop skip, read.length, false⟩

theorem Ending.page_succ (skip : Nat) (entry : Entry) (read : List Entry) (ending : Ending) :
    ending.page (skip + 1) (entry :: read) = do
      let page ← ending.page skip read
      return { page with consumed := page.consumed + 1 } := by
  cases ending <;> rfl

theorem Ending.page_zero (entry : Entry) (read : List Entry) (ending : Ending) :
    ending.page 0 (entry :: read) = do
      let page ← ending.page 0 read
      return { page with entries := entry :: page.entries, consumed := page.consumed + 1 } := by
  cases ending <;> rfl

/-- Reading stops where it is to stop. -/
theorem readPage_stopsAt (skip : Nat) {room : Option Nat} (hroom : room ≠ some 0)
    (stream : EntryStream) : ∃ read ending,
      StopsAt (room.map (skip + ·)) stream read ending ∧
        readPage skip room stream = ending.page skip read := by
  have hless {skip : Nat} {room : Option Nat} (hroom : room ≠ some 0) :
      ∀ most ∈ room.map (skip + ·), 0 < most := by
    intro most hmost
    obtain ⟨room, rfl, rfl⟩ := Option.map_eq_some_iff.mp hmost
    have hpos : room ≠ 0 := fun hzero => hroom (congrArg some hzero)
    omega
  have hentry {skip : Nat} {room : Option Nat} (hroom : room ≠ some 0) :
      room.map (skip + ·) ≠ some 0 := fun hzero =>
    Nat.lt_irrefl 0 (hless hroom 0 (Option.mem_def.mpr hzero))
  fun_induction readPage skip room stream with
  | case1 => exact ⟨[], .ended, ⟨[], rfl, .ended (hless hroom)⟩, by simp [Ending.page]⟩
  | case2 =>
    exact ⟨[], .sizeLimit, ⟨_, rfl, .sizeLimit (hless hroom) _⟩, by simp [Ending.page]⟩
  | case3 skip room error rest hother =>
    exact ⟨[], .failed error, ⟨_, rfl, .failed (hless hroom) hother _⟩, rfl⟩
  | case4 skip room entry rest ih =>
    obtain ⟨read, ending, hstops, hpage⟩ := ih hroom
    have hlimit : (room.map (skip + 1 + ·)).map (· - 1) = room.map (skip + ·) := by
      cases room <;> simp
    refine ⟨entry :: read, ending, (stopsAt_cons_iff (hentry hroom)).mpr ⟨read, rfl, ?_⟩, ?_⟩
    · rwa [hlimit]
    · rw [hpage, Ending.page_succ]
  | case5 room entry rest hfull =>
    have hone : room = 1 := by
      have := hless hroom (0 + room) rfl
      omega
    exact ⟨[entry], .full, ⟨rest, rfl, .full _ (by simp [hone])⟩, rfl⟩
  | case6 room entry rest hmore ih =>
    obtain ⟨read, ending, hstops, hpage⟩ := ih (by simp; omega)
    refine ⟨entry :: read, ending, (stopsAt_cons_iff (hentry hroom)).mpr ⟨read, rfl, ?_⟩, ?_⟩
    · simpa using hstops
    · rw [hpage, Ending.page_zero]
  | case7 entry rest ih =>
    obtain ⟨read, ending, hstops, hpage⟩ := ih hroom
    refine ⟨entry :: read, ending, (stopsAt_cons_iff (hentry hroom)).mpr ⟨read, rfl, ?_⟩, ?_⟩
    · exact hstops
    · rw [hpage, Ending.page_zero]

variable {config : DirectoryConfig} {schema : Schema} {request : Request} {stream : EntryStream}
  {read : List Entry} {ending : Ending}

/-- The page that is read is the one that the stopping point determines. -/
theorem StopsAt.readPage_eq {skip : Nat} {room : Option Nat} (hroom : room ≠ some 0)
    (h : StopsAt (room.map (skip + ·)) stream read ending) :
    readPage skip room stream = ending.page skip read := by
  obtain ⟨others, other, hstops, hpage⟩ := readPage_stopsAt skip hroom stream
  obtain ⟨rfl, rfl⟩ := h.unique hstops
  exact hpage

/-- The rows are those of the entries that were read, and only a failure leaves none. -/
theorem StopsAt.collect_eq (hcount : request.count ≠ some 0)
    (h : StopsAt (request.count.map (request.start + ·)) stream read ending) :
    collect config schema request stream = do
      let page ← ending.page request.start read
      return ⟨page.entries.map (toRow config schema), page.truncated, page.consumed⟩ := by
  rw [collect, h.readPage_eq hcount]

theorem StopsAt.collect_ok (hcount : request.count ≠ some 0)
    (h : StopsAt (request.count.map (request.start + ·)) stream read ending)
    (hok : ∀ error, ending ≠ .failed error) :
    ∃ truncated, (truncated = true ↔ ending = .sizeLimit) ∧ collect config schema request stream =
      .ok ⟨(read.drop request.start).map (toRow config schema), truncated, read.length⟩ := by
  rw [h.collect_eq hcount]
  cases ending with
  | full => exact ⟨false, by simp, rfl⟩
  | ended => exact ⟨false, by simp, rfl⟩
  | sizeLimit => exact ⟨true, by simp, rfl⟩
  | failed error => exact absurd rfl (hok error)

/-- Every stream has one place where reading stops. -/
theorem existsUnique_stopsAt (hcount : request.count ≠ some 0) (stream : EntryStream) :
    ∃! reading : List Entry × Ending,
      StopsAt (request.count.map (request.start + ·)) stream reading.1 reading.2 := by
  obtain ⟨read, ending, hstops, -⟩ := readPage_stopsAt request.start hcount stream
  refine ⟨(read, ending), hstops, fun other hother => ?_⟩
  obtain ⟨hread, hending⟩ := hother.unique hstops
  exact Prod.ext hread hending

/-- Collecting fails with exactly the error that reading stops at. -/
theorem collect_error_iff (hcount : request.count ≠ some 0) {error : DirectoryError} :
    collect config schema request stream = .error error ↔
      ∃ read, StopsAt (request.count.map (request.start + ·)) stream read (.failed error) := by
  constructor
  · intro h
    obtain ⟨⟨read, ending⟩, hstops, -⟩ := existsUnique_stopsAt hcount stream
    rw [hstops.collect_eq hcount] at h
    cases ending with
    | failed other =>
      cases h
      exact ⟨read, hstops⟩
    | full => cases h
    | ended => cases h
    | sizeLimit => cases h
  · rintro ⟨read, hstops⟩
    rw [hstops.collect_eq hcount]
    rfl

/-- An error of the search is the outcome, and so is one in its stream that ends reading. -/
theorem search_collect_error_iff (hcount : request.count ≠ some 0)
    (answer : Except DirectoryError EntryStream) {error : DirectoryError} :
    answer >>= collect config schema request = .error error ↔
      answer = .error error ∨ ∃ stream read, answer = .ok stream ∧
        StopsAt (request.count.map (request.start + ·)) stream read (.failed error) := by
  cases answer with
  | error other =>
    have hbind : Except.error other >>= collect config schema request = .error other := rfl
    rw [hbind]
    simp
  | ok stream =>
    have hbind : Except.ok stream >>= collect config schema request =
      collect config schema request stream := rfl
    rw [hbind, collect_error_iff hcount]
    simp

/-! ## Running a statement -/

theorem execute_of_checkout {executor : Executor} {endpoint : Endpoint} {statement : Statement}
    {before : Pool} {search : SearchRequest}
    (hsearch : searchRequest executor.config executor.schema request statement = .ok search)
    (hcount : request.count ≠ some 0) {connection : Connection} {pool : Pool}
    (hcheckout : before.checkout executor.poolConfig endpoint.connect = (.ok connection, pool)) :
    executor.execute endpoint request statement before =
      ⟨endpoint.search search >>= collect executor.config executor.schema request,
        pool.release connection endpoint.isValid, some search⟩ := by
  rw [Executor.execute, hsearch]
  simp only [hcount, if_false, hcheckout]

/-- A connection that is checked out is not idle, and its place counts. -/
theorem Usage.Accounted.held {poolConfig : PoolConfig} {events : List PoolEvent} {usage : Usage}
    (h : Usage.Accounted poolConfig events usage) {connection : Connection}
    (hheld : connection ∈ usage.held) :
    connection ∉ usage.pool.idle ∧ 0 < usage.pool.openCount := by
  have hlength := List.length_pos_of_mem hheld
  have hcounted := h.counted
  refine ⟨fun hidle => ?_, by omega⟩
  exact (List.nodup_append.mp h.nodup).2.2 connection hidle connection hheld rfl

/-- Whatever a connection gives, the outcome is that of the entries read up to the first event that
ends reading, and the connection is given back. -/
theorem execute_reads_and_releases (executor : Executor) {events : List PoolEvent} {usage : Usage}
    (hrun : Usage.Run executor.poolConfig events usage) (endpoint : Endpoint)
    {statement : Statement} {search : SearchRequest}
    (hsearch : searchRequest executor.config executor.schema request statement = .ok search)
    (hcount : request.count ≠ some 0) {connection : Connection} {pool : Pool}
    (hcheckout :
      usage.pool.checkout executor.poolConfig endpoint.connect = (.ok connection, pool)) :
    let run := executor.execute endpoint request statement usage.pool
    let limit := request.count.map (request.start + ·)
    (∀ stream, ∃! reading : List Entry × Ending, StopsAt limit stream reading.1 reading.2) ∧
    (∀ error, run.outcome = .error error ↔
      endpoint.search search = .error error ∨ ∃ stream read,
        endpoint.search search = .ok stream ∧ StopsAt limit stream read (.failed error)) ∧
    (∀ stream read ending, endpoint.search search = .ok stream →
      StopsAt limit stream read ending → (∀ error, ending ≠ .failed error) →
        ∃ truncated, (truncated = true ↔ ending = .sizeLimit) ∧ run.outcome = .ok
          ⟨(read.drop request.start).map (toRow executor.config executor.schema), truncated,
            read.length⟩) ∧
    (∃ more, Usage.Run executor.poolConfig (more ++ events) { usage with pool := run.pool }) ∧
    run.pool.openCount + usage.pool.idle.length = usage.pool.openCount + run.pool.idle.length ∧
    (endpoint.isValid = true →
      run.pool.idle = connection :: pool.idle ∧ run.pool.openCount = pool.openCount) ∧
    (endpoint.isValid = false → run.pool.idle = pool.idle ∧ connection ∉ run.pool.idle ∧
      run.pool.openCount + 1 = pool.openCount) := by
  intro run limit
  have hexecute : run = _ := execute_of_checkout hsearch hcount hcheckout
  obtain ⟨more, hafter⟩ := hrun.execute endpoint request statement
  -- Taking the connection is part of a run as well, so its accounts hold in between.
  obtain ⟨others, hchecked⟩ := hrun.checkout endpoint.connect
  rw [hcheckout] at hchecked
  refine ⟨existsUnique_stopsAt hcount, fun error => ?_,
    fun stream read ending hstream hstops hok => ?_, ⟨more, hafter⟩, ?_, fun hvalid => ?_,
    fun hbroken => ?_⟩
  · simp only [hexecute]
    exact search_collect_error_iff hcount _
  · simp only [hexecute, hstream]
    exact hstops.collect_ok hcount hok
  · have hbefore : usage.pool.openCount = _ := hrun.accounted.counted
    have hcounted : run.pool.openCount = _ := hafter.accounted.counted
    rw [hbefore, hcounted]
    ac_rfl
  · simp only [hexecute, hvalid]
    exact ⟨rfl, rfl⟩
  · obtain ⟨hidle, hplace⟩ := hchecked.accounted.held List.mem_cons_self
    simp only [hexecute, hbroken]
    exact ⟨rfl, hidle, Nat.sub_add_cancel hplace⟩

/-- Connections that stay valid or not, and give an error after two of three entries. -/
def interruptedEndpoint (error : DirectoryError) (isValid : Bool) : Endpoint where
  connect := .ok ()
  search _ := .ok [.ok ⟨"cn=a", []⟩, .ok ⟨"cn=b", []⟩, .error error, .ok ⟨"cn=c", []⟩]
  isValid := isValid

/-- The page of two entries after the first one is cut at the size limit, and is lost with any other
error. -/
theorem execute_interrupted :
    let run (endpoint : Endpoint) := (⟨{}, [], {}⟩ : Executor).execute endpoint
      { start := 1, count := some 2 } ⟨"(objectClass=*)", []⟩ Pool.empty
    (run (interruptedEndpoint .sizeLimitExceeded true)).outcome =
      .ok ⟨[[("dn", .string "cn=b")]], true, 2⟩ ∧
    (run (interruptedEndpoint .sizeLimitExceeded true)).pool.idle = [0] ∧
    (run (interruptedEndpoint (.connection "lost") false)).outcome =
      .error (.connection "lost") ∧
    (run (interruptedEndpoint (.connection "lost") false)).pool.openCount = 0 := by
  intro run
  obtain ⟨search, hsearch⟩ : ∃ search, searchRequest {} []
      { start := 1, count := some 2 } ⟨"(objectClass=*)", []⟩ = .ok search := ⟨_, rfl⟩
  have hreads (error : DirectoryError) (isValid : Bool) :=
    execute_reads_and_releases ⟨{}, [], {}⟩ .fresh (interruptedEndpoint error isValid) hsearch
      (by decide) rfl
  have hroom : ∀ most ∈ some (1 + 2), 2 < most := by simp
  have hother : DirectoryError.connection "lost" ≠ .sizeLimitExceeded := nofun
  refine ⟨?_, ?_, ?_, ?_⟩
  · obtain ⟨-, -, houtcome, -⟩ := hreads .sizeLimitExceeded true
    obtain ⟨truncated, htruncated, hresult⟩ := houtcome _ [⟨"cn=a", []⟩, ⟨"cn=b", []⟩] .sizeLimit
      rfl ⟨_, rfl, .sizeLimit hroom _⟩ nofun
    obtain rfl := htruncated.mpr rfl
    exact hresult
  · obtain ⟨-, -, -, -, -, hvalid, -⟩ := hreads .sizeLimitExceeded true
    exact (hvalid rfl).1
  · obtain ⟨-, houtcome, -⟩ := hreads (.connection "lost") false
    exact (houtcome _).mpr (.inr ⟨_, [⟨"cn=a", []⟩, ⟨"cn=b", []⟩], rfl, _, rfl,
      .failed hroom hother _⟩)
  · obtain ⟨-, -, -, -, -, -, hbroken⟩ := hreads (.connection "lost") false
    exact Nat.succ.inj (hbroken rfl).2.2

end RowFilter.Directory
