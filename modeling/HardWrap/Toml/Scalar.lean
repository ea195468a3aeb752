import HardWrap.Decimal.Numeral
import HardWrap.Settings.Value
import HardWrap.Toml.Moment

/-!
Texts, numbers, truth values and moments of TOML documents.
-/

namespace HardWrap.Toml

def breakAt (mark : Text) : Text → Option (Text × Text)
  | [] => none
  | c :: rest =>
    if mark.isPrefixOf (c :: rest) then some ([], (c :: rest).drop mark.length)
    else (breakAt mark rest).map fun (body, after) => (c :: body, after)

def readUntil (mark : Text) (isIllegal : Char → Bool) : Reader Text := fun rest =>
  match breakAt mark rest with
  | none => fail (.expected mark) []
  | some (body, after) => do
    refuse isIllegal body (mark ++ after)
    return (body, after)

/-! ### Texts -/

def hexValue? (c : Char) : Option Nat :=
  if '0' ≤ c ∧ c ≤ '9' then some (c.toNat - 48)
  else if 'a' ≤ c ∧ c ≤ 'f' then some (c.toNat - 87)
  else if 'A' ≤ c ∧ c ≤ 'F' then some (c.toNat - 55)
  else none

def isHexDigit (c : Char) : Bool :=
  (hexValue? c).isSome

def radixValue (base : Nat) (digits : Text) : Nat :=
  digits.foldl (fun n c => base * n + (hexValue? c).getD 0) 0

def readCodePoint (size : Nat) : Reader Text := fun rest =>
  let digits := rest.take size
  if digits.length ≠ size || !digits.all isHexDigit then fail .hex rest
  else
    let n := radixValue 16 digits
    if n.isValidChar then .ok ([Char.ofNat n], rest.drop size) else fail .notScalar (rest.drop size)

def simpleEscape? : Char → Option Char
  | 'b' => some '\x08'
  | 't' => some '\t'
  | 'n' => some '\n'
  | 'f' => some '\x0c'
  | 'r' => some '\r'
  | '"' => some '"'
  | '\\' => some '\\'
  | _ => none

def readContinuation (first : Char) : Reader Text := fun rest =>
  if first = '\n' then .ok ([], rest.dropWhile isSpaceOrNewline)
  else
    match skipSpace rest with
    | [] => .ok ([], [])
    | '\n' :: after => .ok ([], after.dropWhile isSpaceOrNewline)
    | after => fail .escape after

def readEscape (multiline : Bool) : Reader Text := fun rest =>
  match rest with
  | [] => fail .escape []
  | c :: after =>
    if multiline && isSpaceOrNewline c then readContinuation c after
    else if c = 'u' then readCodePoint 4 after
    else if c = 'U' then readCodePoint 8 after
    else match simpleEscape? c with
      | some d => .ok ([d], after)
      | none => fail .escape after

def readQuoted (multiline : Bool) : (fuel : Nat) → Reader Text
  | 0, rest => fail .openText rest
  | fuel + 1, rest =>
    let keep := fun (piece after : Text) => do
      let (body, last) ← readQuoted multiline fuel after
      return (piece ++ body, last)
    match rest with
    | [] => fail .openText []
    | '"' :: '"' :: '"' :: after =>
      if multiline then .ok ([], after) else .ok ([], '"' :: '"' :: after)
    | '"' :: after => if multiline then keep ['"'] after else .ok ([], after)
    | '\\' :: after => do
      let (piece, last) ← readEscape multiline after
      keep piece last
    | c :: after =>
      if isControl c && !(multiline && c == '\n') then fail (.illegalChar c) rest
      else keep [c] after

def readBasic : Reader Text := fun rest =>
  readQuoted false (rest.length + 1) rest

def readLiteral : Reader Text :=
  readUntil ['\x27'] isControl

def dropNewline : Text → Text
  | '\n' :: rest => rest
  | rest => rest

/-- The text over several lines may end with one or two quotes of its own. -/
def readExtraQuotes (quote : Char) (body : Text) : Reader Text := fun rest =>
  let extra := (rest.take 2).takeWhile (· == quote)
  .ok (body ++ extra, rest.drop extra.length)

def readLongBasic : Reader Text := fun rest => do
  let start := dropNewline rest
  let (body, after) ← readQuoted true (start.length + 1) start
  readExtraQuotes '"' body after

def readLongLiteral : Reader Text := fun rest => do
  let (body, after) ← readUntil ['\x27', '\x27', '\x27']
    (fun c => isControl c && c != '\n') (dropNewline rest)
  readExtraQuotes '\x27' body after

/-! ### Numbers -/

/-- More digits of a run, each after at most one underscore, and what follows them. -/
def digitTail (isDigit : Char → Bool) : Text → Text × Text
  | '_' :: d :: rest =>
    if isDigit d then
      let (more, after) := digitTail isDigit rest
      (d :: more, after)
    else ([], '_' :: d :: rest)
  | c :: rest =>
    if isDigit c then
      let (more, after) := digitTail isDigit rest
      (c :: more, after)
    else ([], c :: rest)
  | [] => ([], [])

def digitRun (isDigit : Char → Bool) : Text → Text × Text
  | [] => ([], [])
  | c :: rest =>
    if isDigit c then
      let (more, after) := digitTail isDigit rest
      (c :: more, after)
    else ([], c :: rest)

abbrev Found := Except Cause Value × Text

def radixInteger? : Text → Option Found
  | mark :: rest =>
    let (base, isDigit) :=
      if mark = 'x' then (16, isHexDigit)
      else if mark = 'o' then (8, fun c => '0' ≤ c && c ≤ '7')
      else (2, fun c => c == '0' || c == '1')
    let (digits, after) := digitRun isDigit rest
    if digits.isEmpty || !(['x', 'o', 'b'].contains mark) then none
    else some (.ok (.int (radixValue base digits)), after)
  | [] => none

/-- The digits before the point: a single zero, or digits that do not begin with one. -/
def wholeDigits : Text → Text × Text
  | '0' :: rest => (['0'], rest)
  | rest => digitRun isDecimalDigit rest

def fractionDigits : Text → Text × Text
  | '.' :: rest =>
    let (digits, after) := digitRun isDecimalDigit rest
    if digits.isEmpty then ([], '.' :: rest) else (digits, after)
  | rest => ([], rest)

def exponentPart (rest : Text) : Option Int × Text :=
  match rest with
  | mark :: tail =>
    let (negative, unsigned) := Numeral.sign tail
    let (digits, after) := digitRun isDecimalDigit unsigned
    if mark.toLower = 'e' && !digits.isEmpty then
      (some (Numeral.signed negative (Numeral.valueOf digits)), after)
    else (none, rest)
  | [] => (none, [])

def decimalInteger (negative : Bool) (digits : Text) : Except Cause Value :=
  if Numeral.maxDigits < digits.length then .error (.tooManyDigits digits.length)
  else .ok (.int (Numeral.signed negative (Numeral.valueOf digits)))

def decimalNumber? (t : Text) : Option Found :=
  let (negative, unsigned) := Numeral.sign t
  let (whole, rest) := wholeDigits unsigned
  let (fraction, rest) := fractionDigits rest
  let (exponent, rest) := exponentPart rest
  if whole.isEmpty then none
  else if fraction.isEmpty && exponent.isNone then
    some (decimalInteger negative whole, rest)
  else
    some (.ok (.real (.ofDecimal negative (Numeral.valueOf (whole ++ fraction))
      (exponent.getD 0 - fraction.length))), rest)

def number? (t : Text) : Option Found :=
  match t with
  | '0' :: rest => (radixInteger? rest).or (decimalNumber? t)
  | _ => decimalNumber? t

def specialNumber? (t : Text) : Option Found :=
  let (negative, unsigned) := Numeral.sign t
  if Text.startsWith "inf" unsigned then some (.ok (.real (.infinite negative)), unsigned.drop 3)
  else if Text.startsWith "nan" unsigned then some (.ok (.real .nan), unsigned.drop 3)
  else none

def momentValue? (t : Text) : Option Found :=
  (moment? t).map fun (moment, rest) =>
    (if hasMoment moment then .ok (.moment moment) else .error .noSuchDate, rest)

def readScalar : Reader Value := fun rest =>
  let named := fun (r : Except Fault (Text × Text)) => do
    let (t, after) ← r
    return (Value.text t, after)
  match rest with
  | '"' :: '"' :: '"' :: after => named (readLongBasic after)
  | '"' :: after => named (readBasic after)
  | '\x27' :: '\x27' :: '\x27' :: after => named (readLongLiteral after)
  | '\x27' :: after => named (readLiteral after)
  | _ =>
    if Text.startsWith "true" rest then .ok (.bool true, rest.drop 4)
    else if Text.startsWith "false" rest then .ok (.bool false, rest.drop 5)
    else match (momentValue? rest).or ((number? rest).or (specialNumber? rest)) with
      | some (.ok value, after) => .ok (value, after)
      | some (.error cause, _) => fail cause rest
      | none => fail .value rest

end HardWrap.Toml
