import Itemwise.Bench.Command

/-!
# The benchmark program

Runs the benchmarks on the real clock, under the capabilities that the environment names.
-/

/-- The time in seconds. -/
def seconds : IO Float := do return (← IO.monoNanosNow).toFloat / 1000000000

/-- Runs the benchmark command. -/
def main (arguments : List String) : IO UInt32 := do
  match Itemwise.Config.ofSetting (← IO.getEnv Itemwise.Config.variableName) with
  | .error fault =>
    IO.eprintln ((fault.message?).getD "")
    return 1
  | .ok config =>
    let ending ← Itemwise.Bench.command seconds config arguments
    IO.eprint ending.errors
    ending.output.forM fun line => IO.println line
    return ending.code.toUInt32
