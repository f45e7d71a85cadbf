import Mathlib.Data.List.Nodup
import RowFilter.Directory.Executor

/-! # Accounting of connection pools

Users of a pool come between one another, since a connection is opened after its place has been
reserved and before it is there. In every order of their steps the pool counts each connection once
and never more of them than it may have, and the idle connections are in the order in which they
were given back.
-/

namespace RowFilter.Directory

namespace Pool

/-- What a pool offers to a checkout that looks at it. -/
inductive Offer where
  | connection (connection : Connection)
  /-- A place in which a connection may be opened. -/
  | place
  | nothing
deriving DecidableEq

/-- A look at the pool takes an idle connection, else reserves a place if there is room. A checkout
that is offered nothing waits and looks again, or gives up. -/
def look (config : PoolConfig) (pool : Pool) : Offer × Pool :=
  match pool.takeIdle? with
  | some (connection, rest) => (.connection connection, rest)
  | none =>
    match pool.reserve? config with
    | some reserved => (.place, reserved)
    | none => (.nothing, pool)

/-- When nobody else uses the pool, a checkout is a look and what comes of it. -/
theorem checkout_eq_look (config : PoolConfig) (connect : Except DirectoryError Unit)
    (pool : Pool) : pool.checkout config connect =
      match pool.look config, connect with
      | (.connection connection, rest), _ => (.ok connection, rest)
      | (.place, reserved), .ok _ => (.ok reserved.connected.1, reserved.connected.2)
      | (.place, reserved), .error error => (.error error, reserved.giveUp)
      | (.nothing, rest), _ => (.error (.poolExhausted config.timeout), rest) := by
  unfold checkout look
  cases pool.takeIdle? with
  | some taken => rfl
  | none =>
      cases pool.reserve? config with
      | some reserved => cases connect <;> rfl
      | none => rfl

theorem look_of_idle {config : PoolConfig} {pool : Pool} {connection : Connection}
    {rest : List Connection} (h : pool.idle = connection :: rest) :
    pool.look config = (.connection connection, { pool with idle := rest }) := by
  rw [look, takeIdle?, h]

theorem look_of_room {config : PoolConfig} {pool : Pool} (hidle : pool.idle = [])
    (hroom : pool.openCount < config.maxConnections) :
    pool.look config = (.place, { pool with openCount := pool.openCount + 1 }) := by
  simp only [look, takeIdle?, hidle, reserve?, if_pos hroom]

theorem look_of_full {config : PoolConfig} {pool : Pool} (hidle : pool.idle = [])
    (hfull : ¬pool.openCount < config.maxConnections) :
    pool.look config = (.nothing, pool) := by
  simp only [look, takeIdle?, hidle, reserve?, if_neg hfull]

/-- What is offered depends on whether a connection is idle, and then on whether there is room. -/
theorem offered_iff (config : PoolConfig) (pool : Pool) :
    (∀ connection, (pool.look config).1 = .connection connection ↔
      pool.idle.head? = some connection) ∧
    ((pool.look config).1 = .place ↔ pool.idle = [] ∧ pool.openCount < config.maxConnections) ∧
    ((pool.look config).1 = .nothing ↔
      pool.idle = [] ∧ ¬pool.openCount < config.maxConnections) := by
  cases hidle : pool.idle with
  | cons connection rest => simp [look_of_idle hidle]
  | nil =>
      by_cases hroom : pool.openCount < config.maxConnections
      · simp [look_of_room hidle hroom, hroom]
      · simp [look_of_full hidle hroom, hroom]

/-- An attempt to open a connection that fails leaves no trace. -/
theorem checkout_error {config : PoolConfig} {pool : Pool} (h : (pool.look config).1 = .place)
    (error : DirectoryError) : pool.checkout config (.error error) = (.error error, pool) := by
  obtain ⟨hidle, hroom⟩ := (offered_iff config pool).2.1.mp h
  rw [checkout_eq_look, look_of_room hidle hroom]
  rfl

end Pool

/-- A pool with the connections that are checked out and the number of places in which one is being
opened. -/
structure Usage where
  pool : Pool
  held : List Connection
  connecting : Nat
deriving DecidableEq

/-- What happens to a pool, at one moment each. -/
inductive PoolEvent where
  /-- A checkout looks at the pool. -/
  | look
  /-- A connection that was being opened is there, or could not be opened. -/
  | opened (result : Except DirectoryError Unit)
  /-- A connection that is checked out is given back. -/
  | dropped (connection : Connection) (isValid : Bool)

namespace Usage

def fresh : Usage := ⟨.empty, [], 0⟩

/-- The usage after an event. Only who has reserved a place opens a connection, and only a
connection that is checked out is given back. -/
def step? (config : PoolConfig) (usage : Usage) : PoolEvent → Option Usage
  | .look =>
    match usage.pool.look config with
    | (.connection connection, pool) =>
      some ⟨pool, connection :: usage.held, usage.connecting⟩
    | (.place, pool) => some ⟨pool, usage.held, usage.connecting + 1⟩
    | (.nothing, pool) => some ⟨pool, usage.held, usage.connecting⟩
  | .opened result =>
    match usage.connecting, result with
    | 0, _ => none
    | others + 1, .ok _ =>
      some ⟨usage.pool.connected.2, usage.pool.connected.1 :: usage.held, others⟩
    | others + 1, .error _ => some ⟨usage.pool.giveUp, usage.held, others⟩
  | .dropped connection isValid =>
    if connection ∈ usage.held then
      some ⟨usage.pool.release connection isValid, usage.held.erase connection, usage.connecting⟩
    else none

/-- The events, the last one first, lead from a fresh pool to the usage. -/
inductive Run (config : PoolConfig) : List PoolEvent → Usage → Prop
  | fresh : Run config [] fresh
  | step {events : List PoolEvent} {usage after : Usage} {event : PoolEvent}
      (hrun : Run config events usage) (hstep : usage.step? config event = some after) :
      Run config (event :: events) after

variable {config : PoolConfig} {usage after : Usage} {event : PoolEvent}

/-- All that a step can do. -/
inductive Change (config : PoolConfig) (usage : Usage) : PoolEvent → Usage → Prop
  | take {connection : Connection} {rest : List Connection}
      (hidle : usage.pool.idle = connection :: rest) :
      Change config usage .look
        ⟨{ usage.pool with idle := rest }, connection :: usage.held, usage.connecting⟩
  | reserve (hidle : usage.pool.idle = []) (hroom : usage.pool.openCount < config.maxConnections) :
      Change config usage .look
        ⟨{ usage.pool with openCount := usage.pool.openCount + 1 }, usage.held,
          usage.connecting + 1⟩
  | wait (hidle : usage.pool.idle = []) (hfull : ¬usage.pool.openCount < config.maxConnections) :
      Change config usage .look usage
  | connect {others : Nat} (hconnecting : usage.connecting = others + 1) (done : Unit) :
      Change config usage (.opened (.ok done))
        ⟨{ usage.pool with opened := usage.pool.opened + 1 }, usage.pool.opened :: usage.held,
          others⟩
  | fail {others : Nat} (hconnecting : usage.connecting = others + 1) (error : DirectoryError) :
      Change config usage (.opened (.error error)) ⟨usage.pool.giveUp, usage.held, others⟩
  | giveBack {connection : Connection} (hheld : connection ∈ usage.held) :
      Change config usage (.dropped connection true)
        ⟨{ usage.pool with idle := connection :: usage.pool.idle }, usage.held.erase connection,
          usage.connecting⟩
  | discard {connection : Connection} (hheld : connection ∈ usage.held) :
      Change config usage (.dropped connection false)
        ⟨usage.pool.giveUp, usage.held.erase connection, usage.connecting⟩

theorem change_of_step? (h : usage.step? config event = some after) :
    Change config usage event after := by
  cases event with
  | look =>
      rw [step?] at h
      cases hidle : usage.pool.idle with
      | cons connection rest =>
          rw [Pool.look_of_idle hidle] at h
          cases h
          exact .take hidle
      | nil =>
          by_cases hroom : usage.pool.openCount < config.maxConnections
          · rw [Pool.look_of_room hidle hroom] at h
            cases h
            exact .reserve hidle hroom
          · rw [Pool.look_of_full hidle hroom] at h
            cases h
            exact .wait hidle hroom
  | opened result =>
      cases hconnecting : usage.connecting with
      | zero =>
          simp only [step?, hconnecting] at h
          cases h
      | succ others =>
          simp only [step?, hconnecting] at h
          cases result with
          | ok done =>
              cases h
              exact .connect hconnecting done
          | error error =>
              cases h
              exact .fail hconnecting error
  | dropped connection isValid =>
      rw [step?] at h
      split at h
      next hheld =>
        cases h
        cases isValid with
        | true => exact .giveBack hheld
        | false => exact .discard hheld
      next => cases h

end Usage

/-- The event gives up a place: that of a connection that could not be opened, or of one that is no
longer valid. -/
def PoolEvent.GivesUp : PoolEvent → Prop
  | .opened (.error _) | .dropped _ false => True
  | _ => False

/-- The connections given back in the events for further use, the last one first. -/
def givenBack (events : List PoolEvent) : List Connection :=
  events.filterMap fun
    | .dropped connection true => some connection
    | _ => none

/-- The number of connections that were given back and were no longer valid. -/
def discarded (events : List PoolEvent) : Nat :=
  events.countP fun
    | .dropped _ false => true
    | _ => false

namespace Usage

/-- What holds of a pool after some events. -/
structure Accounted (config : PoolConfig) (events : List PoolEvent) (usage : Usage) : Prop where
  /-- Each connection counts, and so does each place in which one is being opened. -/
  counted : usage.pool.openCount =
    usage.pool.idle.length + usage.held.length + usage.connecting
  bounded : usage.pool.openCount ≤ config.maxConnections
  /-- Attempts that failed leave nothing behind. -/
  opened : usage.pool.openCount + discarded events = usage.pool.opened + usage.connecting
  nodup : (usage.pool.idle ++ usage.held).Nodup
  /-- The number of the next connection is new. -/
  numbered : ∀ connection ∈ usage.pool.idle ++ usage.held, connection < usage.pool.opened
  /-- From any idle connection on, it is the one that was given back last. -/
  recent : ∀ rest, rest <:+ usage.pool.idle →
    (givenBack events).find? (fun connection => connection ∈ rest) = rest.head?

variable {config : PoolConfig} {events : List PoolEvent} {usage after : Usage} {event : PoolEvent}

theorem accounted_fresh (config : PoolConfig) : Accounted config [] fresh where
  counted := rfl
  bounded := Nat.zero_le _
  opened := rfl
  nodup := List.nodup_nil
  numbered := by simp [fresh, Pool.empty]
  recent rest h := by
    rw [List.eq_nil_of_suffix_nil h]
    rfl

/-- The connections after a step that hands one out or takes one back are those before it. -/
theorem perm_erase (idle : List Connection) {held : List Connection} {connection : Connection}
    (h : connection ∈ held) : (connection :: idle ++ held.erase connection).Perm (idle ++ held) :=
  List.perm_middle.symm.trans ((List.perm_cons_erase h).symm.append_left idle)

theorem Accounted.step (h : Accounted config events usage)
    (hstep : usage.step? config event = some after) : Accounted config (event :: events) after := by
  obtain ⟨hcount, hbounded, hopened, hnodup, hnumbered, hrecent⟩ := h
  cases change_of_step? hstep with
  | @take connection rest hidle =>
      rw [hidle] at hcount hnodup hnumbered hrecent
      -- The connection changes sides, so together the two lists hold what they held.
      have hperm : (rest ++ connection :: usage.held).Perm (connection :: rest ++ usage.held) :=
        List.perm_middle
      refine ⟨?_, hbounded, hopened, hperm.nodup_iff.mpr hnodup,
        fun other hother => hnumbered other (hperm.mem_iff.mp hother),
        fun others hothers => hrecent others (hothers.trans (List.suffix_cons _ _))⟩
      simp only [List.length_cons] at hcount ⊢
      omega
  | reserve hidle hroom =>
      refine ⟨?_, hroom, ?_, hnodup, hnumbered, hrecent⟩
      · simp only
        omega
      · have hdiscarded : discarded (.look :: events) = discarded events := rfl
        simp only [hdiscarded]
        omega
  | wait hidle hfull => exact ⟨hcount, hbounded, hopened, hnodup, hnumbered, hrecent⟩
  | @connect others hconnecting done =>
      -- Connections are numbered as they are opened, so a new one has a number that none has.
      have hnew : usage.pool.opened ∉ usage.pool.idle ++ usage.held := fun hmem =>
        Nat.lt_irrefl _ (hnumbered _ hmem)
      refine ⟨?_, hbounded, ?_, List.nodup_middle.mpr (List.nodup_cons.mpr ⟨hnew, hnodup⟩), ?_,
        hrecent⟩
      · simp only [List.length_cons]
        omega
      · have hdiscarded : discarded (.opened (.ok done) :: events) = discarded events := rfl
        simp only [hdiscarded]
        omega
      · intro connection hmem
        rcases List.mem_cons.mp (List.perm_middle.mem_iff.mp hmem) with rfl | hmem
        · exact Nat.lt_succ_self _
        · exact Nat.lt_succ_of_lt (hnumbered connection hmem)
  | @fail others hconnecting error =>
      refine ⟨?_, ?_, ?_, hnodup, hnumbered, hrecent⟩
      · simp only [Pool.giveUp]
        omega
      · simp only [Pool.giveUp]
        omega
      · have hdiscarded : discarded (.opened (.error error) :: events) = discarded events := rfl
        simp only [Pool.giveUp, hdiscarded]
        omega
  | @giveBack connection hheld =>
      have hlength := List.length_erase_add_one hheld
      have hperm := perm_erase usage.pool.idle hheld
      refine ⟨?_, hbounded, hopened, hperm.nodup_iff.mpr hnodup,
        fun other hother => hnumbered other (hperm.mem_iff.mp hother), ?_⟩
      · simp only [List.length_cons]
        omega
      · -- Only the whole list contains the connection, which was not idle before.
        intro rest hrest
        have hnew : connection ∉ usage.pool.idle := fun hmem =>
          (List.nodup_append.mp hnodup).2.2 _ hmem _ hheld rfl
        have hback : givenBack (.dropped connection true :: events) =
            connection :: givenBack events := rfl
        rw [hback]
        rcases List.suffix_cons_iff.mp hrest with rfl | hrest
        · simp
        · rw [List.find?_cons_of_neg, hrecent rest hrest]
          simpa using fun hmem => hnew (hrest.subset hmem)
  | @discard connection hheld =>
      have hlength := List.length_erase_add_one hheld
      -- What is discarded leaves both lists, and its place is free again.
      have hsub : (usage.pool.idle ++ usage.held.erase connection).Sublist
          (usage.pool.idle ++ usage.held) :=
        List.Sublist.append_left List.erase_sublist _
      refine ⟨?_, ?_, ?_, hsub.nodup hnodup,
        fun other hother => hnumbered other (hsub.subset hother), hrecent⟩
      · simp only [Pool.giveUp]
        omega
      · simp only [Pool.giveUp]
        omega
      · have hdiscarded :
            discarded (.dropped connection false :: events) = discarded events + 1 := by
          simp [discarded]
        simp only [Pool.giveUp, hdiscarded]
        omega

theorem Run.accounted (h : Run config events usage) : Accounted config events usage := by
  induction h with
  | fresh => exact accounted_fresh config
  | step _ hstep ih => exact ih.step hstep

/-! ## Checkouts -/

/-- A checkout without others in between is a run. Unless it fails, one more connection is checked
out afterwards. -/
theorem Run.checkout (h : Run config events usage) (connect : Except DirectoryError Unit) :
    ∃ more, Run config (more ++ events) (match usage.pool.checkout config connect with
      | (.ok connection, pool) => ⟨pool, connection :: usage.held, usage.connecting⟩
      | (.error _, pool) => ⟨pool, usage.held, usage.connecting⟩) := by
  have hlooked : ∀ {offer pool}, usage.pool.look config = (offer, pool) →
      usage.step? config .look = match offer with
        | .connection connection => some ⟨pool, connection :: usage.held, usage.connecting⟩
        | .place => some ⟨pool, usage.held, usage.connecting + 1⟩
        | .nothing => some ⟨pool, usage.held, usage.connecting⟩ := by
    intro offer pool hlook
    rw [step?, hlook]
    cases offer <;> rfl
  rw [Pool.checkout_eq_look]
  cases hlook : usage.pool.look config with
  | mk offer pool =>
      cases offer with
      | connection connection => exact ⟨[.look], .step h (hlooked hlook)⟩
      | place =>
          cases connect with
          | ok done => exact ⟨[.opened (.ok done), .look], .step (.step h (hlooked hlook)) rfl⟩
          | error error =>
              exact ⟨[.opened (.error error), .look], .step (.step h (hlooked hlook)) rfl⟩
      | nothing => exact ⟨[.look], .step h (hlooked hlook)⟩

/-- Running a statement is a run that gives back what it checks out. -/
theorem Run.execute {executor : Executor} (h : Run executor.poolConfig events usage)
    (endpoint : Endpoint) (request : Request) (statement : Statement) :
    ∃ more, Run executor.poolConfig (more ++ events)
      { usage with pool := (executor.execute endpoint request statement usage.pool).pool } := by
  unfold Executor.execute
  split
  next => exact ⟨[], h⟩
  next search _ =>
    split
    next => exact ⟨[], h⟩
    next =>
      obtain ⟨more, hcheckout⟩ := h.checkout endpoint.connect
      split
      next error rest hresult =>
        rw [hresult] at hcheckout
        exact ⟨more, hcheckout⟩
      next connection rest hresult =>
        rw [hresult] at hcheckout
        refine ⟨.dropped connection endpoint.isValid :: more, .step hcheckout ?_⟩
        rw [step?, if_pos List.mem_cons_self, List.erase_cons_head]

/-- A place is only given up by who has one. -/
theorem Accounted.giveUp (h : Accounted config events usage)
    (hstep : usage.step? config event = some after) (hgives : event.GivesUp) :
    after.pool.idle = usage.pool.idle ∧ after.pool.openCount + 1 = usage.pool.openCount := by
  have hcount := h.counted
  cases change_of_step? hstep with
  | fail hconnecting error =>
      refine ⟨rfl, ?_⟩
      simp only [Pool.giveUp]
      omega
  | discard hheld =>
      refine ⟨rfl, ?_⟩
      have hlength := List.length_pos_of_mem hheld
      simp only [Pool.giveUp]
      omega
  | take | reserve | wait | connect | giveBack => exact hgives.elim

/-- Whatever happens to a fresh pool in whatever order, its count is that of the connections that
are idle or checked out and of the places in which one is being opened, and stays within the bound.
No connection is in two hands. A checkout is offered the idle connection that was given back last,
a place only if none is idle and there is room, and nothing only if none is idle and there is no
room. A place is given up by those who have one, and an attempt that fails leaves the pool as it
was. -/
theorem run_accounts (h : Run config events usage) :
    usage.pool.openCount = usage.pool.idle.length + usage.held.length + usage.connecting ∧
    usage.pool.openCount ≤ config.maxConnections ∧
    usage.pool.openCount + discarded events = usage.pool.opened + usage.connecting ∧
    (usage.pool.idle ++ usage.held).Nodup ∧
    (∀ connection, (usage.pool.look config).1 = .connection connection ↔
      (givenBack events).find? (fun other => other ∈ usage.pool.idle) = some connection) ∧
    ((usage.pool.look config).1 = .place ↔
      usage.pool.idle = [] ∧ usage.pool.openCount < config.maxConnections) ∧
    ((usage.pool.look config).1 = .nothing ↔
      usage.pool.idle = [] ∧ usage.pool.openCount = config.maxConnections) ∧
    (∀ event after, usage.step? config event = some after → event.GivesUp →
      after.pool.idle = usage.pool.idle ∧ after.pool.openCount + 1 = usage.pool.openCount) ∧
    ((usage.pool.look config).1 = .place → ∀ after, usage.step? config .look = some after →
      after.pool.idle = usage.pool.idle ∧ after.pool.openCount = usage.pool.openCount + 1 ∧
      ∀ error, usage.pool.checkout config (.error error) = (.error error, usage.pool)) := by
  have haccounted := h.accounted
  have hlast := haccounted.recent _ (List.suffix_refl _)
  obtain ⟨hconnection, hplace, hnothing⟩ := usage.pool.offered_iff config
  refine ⟨haccounted.counted, haccounted.bounded, haccounted.opened, haccounted.nodup, ?_, hplace,
    ?_, fun event after => haccounted.giveUp, ?_⟩
  · intro connection
    rw [hlast, hconnection]
  · have hbounded := haccounted.bounded
    rw [hnothing]
    exact and_congr_right fun _ => by omega
  · intro hlook after hstep
    obtain ⟨hidle, hroom⟩ := hplace.mp hlook
    rw [step?, Pool.look_of_room hidle hroom] at hstep
    cases hstep
    exact ⟨rfl, rfl, Pool.checkout_error hlook⟩

/-- Two connections are opened and given back. The one given back last is offered first, and
another checkout may open none. -/
theorem run_accounts_two_returned :
    let config : PoolConfig := { maxConnections := 2 }
    let pool : Pool := ⟨[1, 0], 2, 2⟩
    Run config [.dropped 1 true, .dropped 0 true, .opened (.ok ()), .look, .opened (.ok ()), .look]
      ⟨pool, [], 0⟩ ∧
    (pool.look config).1 = .connection 1 ∧ (pool.look config).1 ≠ .place := by
  intro config pool
  have hrun : Run config
      [.dropped 1 true, .dropped 0 true, .opened (.ok ()), .look, .opened (.ok ()), .look]
      ⟨pool, [], 0⟩ :=
    .step (.step (.step (.step (.step (.step .fresh rfl) rfl) rfl) rfl) rfl) rfl
  have haccounts := run_accounts hrun
  refine ⟨hrun, (haccounts.2.2.2.2.1 1).mpr rfl, ?_⟩
  rw [Ne, haccounts.2.2.2.2.2.1]
  exact fun h => List.cons_ne_nil _ _ h.1

end Usage

end RowFilter.Directory
