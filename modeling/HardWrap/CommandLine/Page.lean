/-!
What the program says about itself: how it is used, shown with usage errors, and its help.
-/

namespace HardWrap.CommandLine

inductive Page where
  | program
  | wrap
  | config
  deriving DecidableEq, Repr

def Page.command : Page → String
  | program => "texreflow"
  | wrap => "texreflow wrap"
  | config => "texreflow config"

def Page.arguments : Page → String
  | program => "[OPTIONS] COMMAND [ARGS]..."
  | wrap => "[OPTIONS] INPUT_PATH"
  | config => "[OPTIONS]"

def Page.usage (page : Page) : String :=
  s!"Usage: {page.command} {page.arguments}\nTry '{page.command} --help' for help.\n\n"

def Page.body : Page → List String
  | program => [
    "  texreflow -- hard line wrap and paragraph reflow for LaTeX sources.",
    "",
    "Options:",
    "  --version      Show the version and exit.",
    "  --config PATH  Path to user config TOML file.",
    "  -v, --verbose  Verbose output.",
    "  -q, --quiet    Suppress all output.",
    "  --help         Show this message and exit.",
    "",
    "Commands:",
    "  config  View the effective texreflow configuration.",
    "  wrap    Hard-wrap the paragraphs of a LaTeX file or directory."]
  | wrap => [
    "  Hard-wrap the paragraphs of a LaTeX file or directory.",
    "",
    "Options:",
    "  -w, --width INTEGER RANGE    Maximum width.  [x>=1]",
    "  --tab-width INTEGER RANGE    Spaces per tab.  [x>=0]",
    "  -e, --env TEXT               Additional environment whose contents are",
    "                               reflowed (repeatable).",
    "  --line INTEGER RANGE         Reflow only the paragraph around this 1-based",
    "                               line.  [x>=1]",
    "  -o, --output PATH",
    "  --in-place                   Rewrite files in place.",
    "  --check                      Report files that would change and exit 1 if any",
    "                               would.",
    "  --report PATH                Write report file.",
    "  --output-format [json|text]  Report format.",
    "  --verify                     Run post-reflow checks.",
    "  --help                       Show this message and exit."]
  | config => [
    "  View the effective texreflow configuration.",
    "",
    "Options:",
    "  --set TEXT...  Set KEY VALUE.",
    "  --help         Show this message and exit."]

def Page.help (page : Page) : String :=
  "\n".intercalate (s!"Usage: {page.command} {page.arguments}" :: "" :: page.body) ++ "\n"

end HardWrap.CommandLine
