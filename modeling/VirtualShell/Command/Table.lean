import VirtualShell.Text.Lowercase

/-!
# The table of commands

The commands of the shell with their names, summaries and usage texts. A name is looked up without
regard to case.
-/

namespace VirtualShell

/-- A command of the shell. -/
inductive Command where
  | pwd | cd | ls
  | cat | touch | mkdir | rm | mv | echo
  | whoami | hostname | uname | date | uptime | history | man | help
  | head | tail | wc | grep
  | clear | exit | aliases | unalias | exports | env
  deriving DecidableEq, Repr

namespace Command

/-- All commands. -/
def all : List Command :=
  [.pwd, .cd, .ls, .cat, .touch, .mkdir, .rm, .mv, .echo, .whoami, .hostname, .uname, .date,
    .uptime, .history, .man, .help, .head, .tail, .wc, .grep, .clear, .exit, .aliases, .unalias,
    .exports, .env]

/-- The name by which a command is called. -/
def name : Command → String
  | pwd => "pwd"
  | cd => "cd"
  | ls => "ls"
  | cat => "cat"
  | touch => "touch"
  | mkdir => "mkdir"
  | rm => "rm"
  | mv => "mv"
  | echo => "echo"
  | whoami => "whoami"
  | hostname => "hostname"
  | uname => "uname"
  | date => "date"
  | uptime => "uptime"
  | history => "history"
  | man => "man"
  | help => "help"
  | head => "head"
  | tail => "tail"
  | wc => "wc"
  | grep => "grep"
  | clear => "clear"
  | exit => "exit"
  | aliases => "alias"
  | unalias => "unalias"
  | exports => "export"
  | env => "env"

/-- One line on what a command does. -/
def summary : Command → String
  | pwd => "print name of current directory"
  | cd => "change the working directory"
  | ls => "list directory contents"
  | cat => "concatenate files and print them"
  | touch => "create empty files or update timestamps"
  | mkdir => "make directories"
  | rm => "remove files or directories"
  | mv => "move or rename files"
  | echo => "display a line of text"
  | whoami => "print the current user name"
  | hostname => "show the system's host name"
  | uname => "print system information"
  | date => "print the system date and time"
  | uptime => "tell how long the session has been running"
  | history => "display or clear the command history"
  | man => "show the manual page of a command"
  | help => "display available commands"
  | head => "output the first part of files"
  | tail => "output the last part of files"
  | wc => "print line, word, and character counts"
  | grep => "print lines matching a pattern"
  | clear => "clear the terminal screen"
  | exit => "end the terminal session"
  | aliases => "define or display aliases"
  | unalias => "remove aliases"
  | exports => "set environment variables"
  | env => "print the environment"

/-- How a command is used. -/
def usage : Command → String
  | pwd => "pwd"
  | cd =>
    "cd [DIR]\n    With no DIR, change to the home directory. " ++
      "`cd -` returns to the previous directory."
  | ls =>
    "ls [-a] [-l] [PATH]...\n    -a  include entries starting with .\n" ++
      "    -l  use a long listing format"
  | cat => "cat [-n] FILE...\n    -n  number all output lines"
  | touch =>
    "touch FILE...\n    Create each FILE that does not exist; " ++
      "otherwise update its modification time."
  | mkdir =>
    "mkdir [-p] DIRECTORY...\n    -p  no error if existing, make parent directories as needed"
  | rm =>
    "rm [-r] [-f] FILE...\n    -r  remove directories and their contents recursively\n" ++
      "    -f  ignore nonexistent files"
  | mv =>
    "mv SOURCE DEST\nmv SOURCE... DIRECTORY\n" ++
      "    Rename SOURCE to DEST, or move SOURCE(s) into DIRECTORY."
  | echo =>
    "echo [-n] [TEXT]... [> FILE | >> FILE]\n    -n  do not output the trailing newline\n" ++
      "    $NAME expands to the value of an environment variable."
  | whoami => "whoami"
  | hostname => "hostname"
  | uname =>
    "uname [-a] [-s] [-n] [-r] [-m]\n    -a  print all information\n    -s  kernel name\n" ++
      "    -n  network node host name\n    -r  kernel release\n    -m  machine hardware name"
  | date =>
    "date [-I] [-R] [+FORMAT]\n    -I  output in ISO 8601 format\n" ++
      "    -R  output in RFC 5322 format\n" ++
      "    +FORMAT  strftime sequences such as %Y %m %d %H %M %S"
  | uptime => "uptime"
  | history =>
    "history [N]\nhistory -c\n    N   show only the last N entries\n" ++
      "    -c  clear the history list"
  | man => "man COMMAND"
  | help => "help [COMMAND]"
  | head => "head [-N | -n N] FILE...\n    Print the first N lines (default 10) of each FILE."
  | tail => "tail [-N | -n N] FILE...\n    Print the last N lines (default 10) of each FILE."
  | wc =>
    "wc [-l] [-w] [-c] FILE...\n    -l  print the line counts\n    -w  print the word counts\n" ++
      "    -c  print the character counts"
  | grep =>
    "grep [-n] [-v] [-c] [-F] PATTERN FILE...\n" ++
      "    PATTERN is a case-insensitive regular expression.\n" ++
      "    -n  prefix each line with its line number\n    -v  select non-matching lines\n" ++
      "    -c  print only a count of selected lines\n    -F  treat PATTERN as a fixed string"
  | clear => "clear"
  | exit => "exit"
  | aliases => "alias [NAME[=VALUE] ...]\n    Without arguments, print all aliases."
  | unalias => "unalias [-a] NAME...\n    -a  remove all aliases"
  | exports => "export [NAME[=VALUE] ...]\n    Without arguments, print all variables."
  | env => "env\n    Print every environment variable as NAME=VALUE."

/-- The command of a given name. -/
def ofName? (name : String) : Option Command :=
  let name := Text.lowercase name
  all.find? fun c => c.name = name

/-- The groups in which the commands are presented. -/
def categories : List (String × List Command) :=
  [("Navigation", [.pwd, .cd, .ls]),
    ("File operations", [.cat, .touch, .mkdir, .rm, .mv, .echo]),
    ("Text processing", [.head, .tail, .wc, .grep]),
    ("System", [.whoami, .hostname, .uname, .date, .uptime]),
    ("Environment & shell",
      [.history, .aliases, .unalias, .exports, .env, .clear, .exit, .man, .help])]

end Command

end VirtualShell
