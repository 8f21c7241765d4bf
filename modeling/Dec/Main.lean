import Dec.SelfCheck

def main (args : List String) : IO UInt32 := do
  let check := Dec.SelfCheck.run (Dec.Program.usualLimit .making) Dec.Node.usualBudget
  if args.contains "-v" || args.contains "--verbose" then
    for line in Dec.LogEntry.lines Dec.Node.usualBudget check.log do
      IO.eprintln line
  IO.print check.report
  return if check.passed then 0 else 1
