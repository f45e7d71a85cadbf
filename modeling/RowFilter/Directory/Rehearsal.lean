import RowFilter.Directory.Executor

/-!
# Rehearsing failures

A server whose faults can be switched on, a pool of connections to it, and the connections that
are held by name.
-/

namespace RowFilter.Directory

/-- What goes wrong with a server. -/
structure Faults where
  /-- Connections cannot be opened. -/
  refuse : Bool := false
  /-- Connections are not valid. -/
  invalid : Bool := false
  /-- Searches fail at once. -/
  failSearch : Bool := false
  /-- Searches fail after a number of items. -/
  failAfter : Option Nat := none

def Faults.search (faults : Faults) (server : Server) (request : SearchRequest) :
    Except DirectoryError EntryStream := do
  if faults.failSearch then throw (.connection "lost")
  let stream ← server.search request
  match faults.failAfter with
  | none => return stream
  | some count => return stream.take count ++ [.error (.search "server went away")]

def Faults.endpoint (faults : Faults) (server : Server) : Endpoint :=
  { connect := if faults.refuse then .error (.connection "refused") else .ok ()
    search := faults.search server
    isValid := !faults.invalid }

structure Rehearsal where
  server : Server
  faults : Faults := {}
  pool : Pool := .empty
  held : Named Connection := []

namespace Rehearsal

def endpoint (rehearsal : Rehearsal) : Endpoint :=
  rehearsal.faults.endpoint rehearsal.server

/-- Gives the connection back that is held under a name, and tells whether there was one. -/
def release (name : String) (rehearsal : Rehearsal) : Bool × Rehearsal :=
  match Named.get? name rehearsal.held with
  | none => (false, rehearsal)
  | some connection =>
    (true, { rehearsal with
      pool := rehearsal.pool.release connection (!rehearsal.faults.invalid)
      held := rehearsal.held.filter fun (other, _) => other != name })

/-- Checks a connection out under a name. One that was held under it is given back afterwards. -/
def checkout (config : PoolConfig) (name : String) (rehearsal : Rehearsal) :
    Except DirectoryError Unit × Rehearsal :=
  match rehearsal.pool.checkout config rehearsal.endpoint.connect with
  | (.error error, pool) => (.error error, { rehearsal with pool })
  | (.ok connection, pool) =>
    let (_, freed) := release name { rehearsal with pool }
    (.ok (), { freed with held := Named.insert name connection freed.held })

/-- Whether the connection that is held under a name is valid. -/
def isValid? (name : String) (rehearsal : Rehearsal) : Option Bool :=
  (Named.get? name rehearsal.held).map fun _ => !rehearsal.faults.invalid

end Rehearsal

end RowFilter.Directory
