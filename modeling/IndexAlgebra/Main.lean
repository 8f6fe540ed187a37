import IndexAlgebra.Report
/-!
# The command line

Writes the report on a tiled loop. The options are `--extent`, `--tile` and `--limit`, each with a
number after a blank or an equals sign, and `--json`.
-/

namespace IndexAlgebra.Main

/-- The integer of 64 bits that a text writes. -/
def word? (s : String) : Option Int64 :=
  match s.toInt? with
  | some n => if -0x8000000000000000 ≤ n ∧ n < 0x8000000000000000 then some (.ofInt n) else none
  | none => none

/-- Options with one of them set. -/
def setOption? (o : Report.Options) (name value : String) : Option Report.Options :=
  match name with
  | "--extent" => (word? value).map fun n => { o with extent := n }
  | "--tile" => (word? value).map fun n => { o with tile := n }
  | "--limit" => (word? value).map fun n => { o with limit := some n }
  | _ => none

/-- The options that arguments set. -/
def options? (o : Report.Options) : List String → Option Report.Options
  | [] => some o
  | "--json" :: args => options? { o with json := true } args
  | arg :: args =>
    match arg.splitOn "=" with
    | [name, value] => do options? (← setOption? o name value) args
    | _ =>
      match args with
      | value :: args => do options? (← setOption? o arg value) args
      | [] => none

end IndexAlgebra.Main

/-- Writes the report that the arguments ask for. -/
def main (args : List String) : IO UInt32 := do
  match IndexAlgebra.Main.options? {} args with
  | none =>
    IO.eprintln "error: unexpected argument"
    return 2
  | some o =>
    let outcome := IndexAlgebra.Report.run o
    IO.print outcome.output
    IO.eprint outcome.errors
    return outcome.exitCode
