import RowFilter.CommandLine.Run
import Std.Time.DateTime.Timestamp

/-!
# The program
-/

/-- Prints what the command line asks for. -/
def main (arguments : List String) : IO UInt32 := do
  let now ← Std.Time.Timestamp.now
  let output := RowFilter.CommandLine.run arguments (Int64.ofInt now.toSecondsSinceUnixEpoch.val)
  IO.print output.stdout
  IO.eprint output.stderr
  return UInt32.ofNat output.exitCode
