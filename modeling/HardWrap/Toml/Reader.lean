import HardWrap.Text.Quoted

/-!
Reading TOML: the causes for which a document is refused, and the readers of blanks and comments. A
reader takes a text and gives back what it read and the text after it. A fault remembers how much
text was left, which tells its place in the document.
-/

namespace HardWrap.Toml

abbrev Key := List Text

def Key.shown (key : Key) : Text :=
  let parts := [',', ' '].intercalate (key.map Text.quoted)
  '(' :: parts ++ (if key.length = 1 then [','] else []) ++ [')']

inductive Cause where
  | statement
  | statementEnd
  | expected (mark : Text)
  | invalidChar (c : Char)
  | illegalChar (c : Char)
  | declaredTwice (key : Key)
  | overwritten
  | tableEnd
  | arrayEnd
  | immutable (key : Key)
  | redefined (key : Key)
  | equalsSign
  | keyStart
  | openArray
  | openTable
  | duplicate (name : Text)
  | escape
  | hex
  | notScalar
  | openText
  | value
  | noSuchDate
  | tooManyDigits (count : Nat)
  | tooDeep
  deriving DecidableEq, Repr

def Cause.message : Cause → String
  | statement => "Invalid statement"
  | statementEnd => "Expected newline or end of document after a statement"
  | expected mark => s!"Expected {String.ofList mark.quoted}"
  | invalidChar c => s!"Found invalid character {String.ofList (Text.quoted [c])}"
  | illegalChar c => s!"Illegal character {String.ofList (Text.quoted [c])}"
  | declaredTwice key => s!"Cannot declare {String.ofList key.shown} twice"
  | overwritten => "Cannot overwrite a value"
  | tableEnd => "Expected ']' at the end of a table declaration"
  | arrayEnd => "Expected ']]' at the end of an array declaration"
  | immutable key => s!"Cannot mutate immutable namespace {String.ofList key.shown}"
  | redefined key => s!"Cannot redefine namespace {String.ofList key.shown}"
  | equalsSign => "Expected '=' after a key in a key/value pair"
  | keyStart => "Invalid initial character for a key part"
  | openArray => "Unclosed array"
  | openTable => "Unclosed inline table"
  | duplicate name => s!"Duplicate inline table key {String.ofList name.quoted}"
  | escape => "Unescaped '\\' in a string"
  | hex => "Invalid hex value"
  | notScalar => "Escaped character is not a Unicode scalar value"
  | openText => "Unterminated string"
  | value => "Invalid value"
  | noSuchDate => "Invalid date or datetime"
  | tooManyDigits count =>
    s!"Exceeds the limit (4300 digits) for integer string conversion: value has {count} digits; " ++
      "use sys.set_int_max_str_digits() to increase the limit"
  | tooDeep => "Nested too deep"

def Cause.isPlaced : Cause → Bool
  | tooManyDigits _ | tooDeep => false
  | _ => true

structure Fault where
  cause : Cause
  /-- How many characters were left to read. -/
  remaining : Nat
  deriving DecidableEq, Repr

def place (source : Text) (remaining : Nat) : String :=
  if remaining = 0 then "end of document"
  else
    let before := source.take (source.length - remaining)
    let line := before.count '\n' + 1
    let column := (before.reverse.takeWhile (· != '\n')).length + 1
    s!"line {line}, column {column}"

def Fault.message (source : Text) (fault : Fault) : String :=
  if fault.cause.isPlaced then s!"{fault.cause.message} (at {place source fault.remaining})"
  else fault.cause.message

abbrev Reader (α : Type) := Text → Except Fault (α × Text)

def fail {α : Type} (cause : Cause) (rest : Text) : Except Fault α :=
  .error ⟨cause, rest.length⟩

def isSpace (c : Char) : Bool :=
  c == ' ' || c == '\t'

def isSpaceOrNewline (c : Char) : Bool :=
  isSpace c || c == '\n'

def isControl (c : Char) : Bool :=
  (c.toNat < 0x20 || c.toNat == 0x7f) && c != '\t'

def skipSpace (rest : Text) : Text :=
  rest.dropWhile isSpace

/-- Refuses the first illegal character of a text that `after` follows. -/
def refuse (isIllegal : Char → Bool) (body after : Text) : Except Fault Unit :=
  match body.dropWhile fun c => !isIllegal c with
  | [] => .ok ()
  | c :: more => .error ⟨.invalidChar c, more.length + 1 + after.length⟩

def skipComment (rest : Text) : Except Fault Text :=
  match rest with
  | '#' :: body => do
    let after := body.dropWhile (· != '\n')
    refuse isControl (body.takeWhile (· != '\n')) after
    return after
  | _ => .ok rest

/-- Skips blanks, line ends and comments. The text may start within a comment. -/
def skipLines : (inComment : Bool) → Text → Except Fault Text
  | _, [] => .ok []
  | false, c :: rest =>
    if isSpaceOrNewline c then skipLines false rest
    else if c = '#' then skipLines true rest
    else .ok (c :: rest)
  | true, c :: rest =>
    if c = '\n' then skipLines false rest
    else if isControl c then fail (.invalidChar c) (c :: rest)
    else skipLines true rest

def skipBetween (rest : Text) : Except Fault Text :=
  skipLines false rest

end HardWrap.Toml
