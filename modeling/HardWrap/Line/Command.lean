import HardWrap.Text.Blank
import HardWrap.Text.Letter

/-!
Lines made of commands only: one or more commands, each a backslash, a name, bracketed options and
braced arguments, with blanks after each part. A name is a run of word characters or a single other
character. The inside of a group is any run of characters without LF, brackets and further commands
included, so one line can be cut into commands in many ways. The recogniser follows all of them at
once: it keeps the set of places where a reader of the line may be.
-/

namespace HardWrap

namespace Command

/-- What a reader of a command line may be in the middle of. -/
inductive Place where
  /-- A command has to start here. -/
  | opening
  /-- Right after the backslash. -/
  | name
  /-- Inside a name of word characters. -/
  | word
  /-- After the name, where options, arguments or the next command may follow. -/
  | options
  /-- Inside a bracketed option. -/
  | bracket
  /-- After an argument, where arguments or the next command may follow. -/
  | arguments
  /-- Inside a braced argument. -/
  | brace
  deriving DecidableEq, Repr

namespace Place

def all : List Place :=
  [opening, name, word, options, bracket, arguments, brace]

def afterArgument (c : Char) : List Place :=
  if isBlank c then [arguments]
  else if c = '{' then [brace]
  else if c = '\\' then [name]
  else []

def afterOption (c : Char) : List Place :=
  if isBlank c then [options]
  else if c = '[' then [bracket]
  else afterArgument c

def next : Place → Char → List Place
  | opening, c => if c = '\\' then [name] else []
  | name, c =>
    if isWordChar c then [word]
    else if isBlank c || c = '%' then []
    else [options]
  | word, c => if isWordChar c then [word] else afterOption c
  | options, c => afterOption c
  | bracket, c => if c = '\n' then [] else if c = ']' then [bracket, options] else [bracket]
  | arguments, c => afterArgument c
  | brace, c => if c = '\n' then [] else if c = '}' then [brace, arguments] else [brace]

def final : Place → Bool
  | word | options | arguments => true
  | opening | name | bracket | brace => false

def advance (places : List Place) (c : Char) : List Place :=
  all.filter fun q => places.any fun p => (p.next c).contains q

end Place

def accepts (t : Text) : Bool :=
  (t.foldl Place.advance [.opening]).any Place.final

end Command

/-- A line of commands and nothing else. An escaped percent sign does not open one. -/
def isCommandLine (line : Text) : Bool :=
  let stripped := Text.strip line
  !stripped.isEmpty && !Text.startsWith "\\%" stripped && Command.accepts stripped

end HardWrap
