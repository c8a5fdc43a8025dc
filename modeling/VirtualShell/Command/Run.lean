import VirtualShell.Command.Counting
import VirtualShell.Command.Directories
import VirtualShell.Command.Echo
import VirtualShell.Command.Files
import VirtualShell.Command.Grep
import VirtualShell.Command.Machine
import VirtualShell.Command.Manual
import VirtualShell.Command.Settings

/-!
# Running commands

Every command of the table with its action.
-/

namespace VirtualShell.Command

/-- Runs a command on its arguments. -/
def run (c : Command) (s : Surroundings) (args : List String) (w : World) : Reply × World :=
  match c with
  | pwd => (runPwd w, w)
  | cd => runCd args w
  | ls => (runLs s.supply.clock args w, w)
  | cat => (runCat args w, w)
  | touch => runTouch s.supply args w
  | mkdir => runMkdir s.supply args w
  | rm => runRm args w
  | mv => runMv s.supply args w
  | echo => runEcho s.supply args w
  | whoami => (runWhoami s.options, w)
  | hostname => (runHostname s.options, w)
  | uname => (runUname s.options args, w)
  | date => (runDate s.supply.now args, w)
  | uptime => (runUptime s.supply.now w, w)
  | history => runHistory args w
  | man => (runMan args, w)
  | help => (runHelp args, w)
  | head => (runHead args w, w)
  | tail => (runTail args w, w)
  | wc => (runWc args w, w)
  | grep => (runGrep args w, w)
  | clear => (⟨.clearScreen, 0, []⟩, w)
  | exit => (⟨.requestExit, 0, []⟩, w)
  | aliases => runAlias args w
  | unalias => runUnalias args w
  | exports => runExport args w
  | env => (runEnv args w, w)

end VirtualShell.Command
