import HardWrap.Text.Blank

/-!
Environment tokens: `\begin` or `\end`, blanks, and a name in braces. The name is anything without
braces and counts with its surrounding blanks removed. A line is scanned from left to right, and the
scan goes on after each token.
-/

namespace HardWrap

inductive Border where
  | opening
  | closing
  deriving DecidableEq, Repr

def Border.keyword : Border → String
  | .opening => "begin"
  | .closing => "end"

structure EnvironmentToken where
  border : Border
  name : Text
  deriving DecidableEq, Repr

namespace EnvironmentToken

/-- Reads the blanks, the braced name and nothing more. Gives the name and the number of
characters read. -/
def readName? (t : Text) : Option (Text × Nat) :=
  let blanks := t.takeWhile isBlank
  match t.drop blanks.length with
  | '{' :: inside =>
    let name := inside.takeWhile fun c => c != '{' && c != '}'
    match inside.drop name.length with
    | '}' :: _ => some (name, blanks.length + name.length + 2)
    | _ => none
  | _ => none

def readBorder? (border : Border) (t : Text) : Option (EnvironmentToken × Nat) :=
  let command := '\\' :: border.keyword.toList
  if command.isPrefixOf t then
    (readName? (t.drop command.length)).map fun (name, size) =>
      (⟨border, Text.strip name⟩, command.length + size)
  else none

def read? (t : Text) : Option (EnvironmentToken × Nat) :=
  (readBorder? .opening t).or (readBorder? .closing t)

/-- The tokens of a text whose first `skip` characters belong to a token already read. -/
def scan : (skip : Nat) → Text → List EnvironmentToken
  | _, [] => []
  | skip + 1, _ :: rest => scan skip rest
  | 0, c :: rest =>
    match read? (c :: rest) with
    | some (token, size) => token :: scan (size - 1) rest
    | none => scan 0 rest

end EnvironmentToken

def environmentTokens (line : Text) : List EnvironmentToken :=
  EnvironmentToken.scan 0 line

def firstToken? (line : Text) : Option EnvironmentToken :=
  (environmentTokens (Text.strip line)).head?

/-- The keyword and the name of the first token of a line, both empty if there is none. -/
def environmentCommand (line : Text) : String × Text :=
  match firstToken? line with
  | some token => (token.border.keyword, token.name)
  | none => ("", [])

def closesEnvironment (line name : Text) : Bool :=
  (environmentTokens line).contains ⟨.closing, name⟩

end HardWrap
