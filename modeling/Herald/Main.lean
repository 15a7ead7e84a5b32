import Herald.Cli.Exchange

namespace Herald.Main

def settings : List String :=
  ["SUBLINE_VERBOSE", "SUBLINE_PEDANTIC", "SUBLINE_RECONNECT", "SUBLINE_MAX_RECONNECT_ATTEMPTS",
    "SUBLINE_RECONNECT_WAIT_MS", "SUBLINE_SERVER", "CLICOLOR_FORCE", "NO_COLOR"]

def environment : IO (String → Option String) := do
  let values ← settings.mapM fun name ↦ do return (name, ← IO.getEnv name)
  return fun name ↦ (values.lookup name).bind id

def deliver (o : Cli.Outcome) : IO UInt32 := do
  IO.print o.printed
  if let some reason := o.reason then IO.eprintln ("Error: " ++ reason)
  if o.exit = 2 then IO.eprint Cli.usageText
  return o.exit.toUInt32

/-- Carries out a command line. The program has no sockets to connect with, so that it stands in a
network without a route: every command that gets as far as to connect fails there. -/
def run (args : List String) : IO UInt32 := do
  match Cli.execute (← environment) { routed := false } {} args with
  | some o => deliver o
  | none => return 1

end Herald.Main

def main (args : List String) : IO UInt32 := Herald.Main.run args
