namespace HeapAudit.CommandLine

/-- What help is about. -/
inductive Topic where
  | program
  | analyze
  deriving DecidableEq, Repr

namespace Topic

def lines (ls : List String) : String := String.join (ls.map (· ++ "\n"))

def programHelp : String :=
  lines
    ["usage: leaklens [-h] \x7banalyze\x7d ...",
      "",
      "LeakLens - heuristic static memory leak analyzer",
      "",
      "positional arguments:",
      "  \x7banalyze\x7d   Commands",
      "    analyze   Analyze files for memory leaks",
      "",
      "options:",
      "  -h, --help  show this help message and exit"]

def analyzeHelp : String :=
  lines
    ["usage: leaklens analyze [-h] [-l LANGUAGE] [-p PATTERN]",
      "                        [-f \x7btext,json,sarif,share,export\x7d] [-o OUTPUT]",
      "                        [--sort \x7bline,size,variable\x7d] [--max-chars MAX_CHARS]",
      "                        [--fail-on \x7bleak,warning,any,none\x7d] [-v]",
      "                        target",
      "",
      "positional arguments:",
      "  target                File or directory to analyze",
      "",
      "options:",
      "  -h, --help            show this help message and exit",
      "  -l LANGUAGE, --language LANGUAGE",
      "                        Source language: c, cpp, javascript, python, java,",
      "                        rust, go (default: detected from the file extension,",
      "                        else c)",
      "  -p PATTERN, --pattern PATTERN",
      "                        Glob pattern for directory analysis (default: all",
      "                        recognized source files)",
      "  -f \x7btext,json,sarif,share,export\x7d, --format \x7btext,json,sarif,share,export\x7d",
      "                        Output format (default: text)",
      "  -o OUTPUT, --output OUTPUT",
      "                        Output file (default: stdout)",
      "  --sort \x7bline,size,variable\x7d",
      "                        Re-order reported leaks (default: order found)",
      "  --max-chars MAX_CHARS",
      "                        Report files longer than this many characters as input",
      "                        errors (default: 100000)",
      "  --fail-on \x7bleak,warning,any,none\x7d",
      "                        Exit with error if findings of this kind are reported",
      "                        (default: leak)",
      "  -v, --verbose         Verbose output on stderr"]

def help : Topic → String
  | program => programHelp
  | analyze => analyzeHelp

end Topic

end HeapAudit.CommandLine
