import ScriptGate.Text.Basic

/-!
# How the command is used

## Main definitions

* `Command.program`: the name of the command.
* `Command.usage`: its arguments in short.
* `Command.help`: its arguments with an explanation for each.
-/

namespace ScriptGate.Command

/-- The name of the command. -/
def program : String := "exprguard-check"

/-- The arguments in short. -/
def usage : String :=
  "usage: exprguard-check [-h] [--input INPUT | --script SCRIPT] [--allow EXPR]\n" ++
  "                       [--output OUTPUT] [--policy POLICY] [--workers WORKERS]\n" ++
  "                       [--audit-log AUDIT_LOG]\n"

/-- The arguments with an explanation for each. -/
def help : String :=
  usage ++
  "\n" ++
  "Check expression scripts against the allow-list policy\n" ++
  "\n" ++
  "options:\n" ++
  "  -h, --help            show this help message and exit\n" ++
  "  --input INPUT         Path to a JSON batch file, or - for stdin (default: -)\n" ++
  "  --script SCRIPT       Check a single script given on the command line\n" ++
  "  --allow EXPR          Allowed variable expression for --script (repeatable)\n" ++
  "  --output OUTPUT       Write the JSON response here (default: stdout)\n" ++
  "  --policy POLICY       Path to a JSON policy file overriding the default\n" ++
  "                        allow-lists\n" ++
  "  --workers WORKERS     Number of worker threads for batch validation\n" ++
  "                        (default: 1)\n" ++
  "  --audit-log AUDIT_LOG\n" ++
  "                        Append one audit line per script to this file\n"

end ScriptGate.Command
