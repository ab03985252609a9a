import FeatureLattice.CommandLine.Run
import Std.Time

/-!
# The program

Reads the command line, and prints what the run leaves.
-/
open FeatureLattice

/-- Two digits of a part of a time. -/
def twoDigits (n : Nat) : String := if n < 10 then "0" ++ toString n else toString n

def main (args : List String) : IO UInt32 := do
  let now ← Std.Time.PlainTime.now
  let stamp := ":".intercalate
    [twoDigits now.hour.val.toNat, twoDigits now.minute.val.toNat, twoDigits now.second.val.toNat]
  let r := CommandLine.run Context.lattice stamp {} args
  (← IO.getStdout).putStr r.output
  (← IO.getStderr).putStr r.errors
  return r.exitCode.toUInt32
