import RowFilter.Directory.Error

/-!
# Connection pools

A pool keeps a bounded number of connections open. A connection that is given back is handed out
again first; one that is no longer valid is closed, which makes room for another.
-/

namespace RowFilter.Directory

structure PoolConfig where
  maxConnections : Nat := 4
  /-- How many milliseconds a checkout waits for a connection. -/
  timeout : Nat := 5000
deriving Repr

/-- A connection, by its number in the order of opening. -/
abbrev Connection := Nat

structure Pool where
  /-- The connections that nobody uses, the one given back last first. -/
  idle : List Connection
  /-- The number of connections that are idle, checked out or being opened. -/
  openCount : Nat
  /-- The number of connections ever opened. -/
  opened : Nat
deriving DecidableEq, Repr

namespace Pool

def empty : Pool := ⟨[], 0, 0⟩

/-- Takes the connection that was given back last. -/
def takeIdle? (pool : Pool) : Option (Connection × Pool) :=
  match pool.idle with
  | [] => none
  | connection :: rest => some (connection, { pool with idle := rest })

/-- Reserves a place for a connection that is to be opened. -/
def reserve? (config : PoolConfig) (pool : Pool) : Option Pool :=
  if pool.openCount < config.maxConnections then
    some { pool with openCount := pool.openCount + 1 }
  else none

/-- Numbers a connection that was opened in a reserved place. -/
def connected (pool : Pool) : Connection × Pool :=
  (pool.opened, { pool with opened := pool.opened + 1 })

/-- Gives a place up: a connection could not be opened, or is no longer valid. -/
def giveUp (pool : Pool) : Pool :=
  { pool with openCount := pool.openCount - 1 }

/-- Takes a connection back. -/
def release (connection : Connection) (isValid : Bool) (pool : Pool) : Pool :=
  if isValid then { pool with idle := connection :: pool.idle } else pool.giveUp

/-- Checks a connection out when nobody else uses the pool: an idle one if there is one, else one
that is opened if there is room. Waiting is in vain. -/
def checkout (config : PoolConfig) (connect : Except DirectoryError Unit) (pool : Pool) :
    Except DirectoryError Connection × Pool :=
  match pool.takeIdle? with
  | some (connection, rest) => (.ok connection, rest)
  | none =>
    match pool.reserve? config with
    | none => (.error (.poolExhausted config.timeout), pool)
    | some reserved =>
      match connect with
      | .ok _ => (.ok reserved.connected.1, reserved.connected.2)
      | .error error => (.error error, reserved.giveUp)

end Pool

end RowFilter.Directory
