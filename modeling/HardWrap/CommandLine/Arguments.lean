import HardWrap.Text.Resemblance

/-!
Arguments of a command: options with their values, and the rest. A long option may carry its value
after an equals sign; short options may be joined, and the last of them may carry its value. Two
dashes end the options. For a long option that does not exist the ones that it resembles are named.
-/

namespace HardWrap.CommandLine

structure OptionSpec (ι : Type) where
  id : ι
  /-- All spellings, dashes included. -/
  names : List Text
  /-- How many values the option takes. -/
  arity : Nat := 0

inductive ArgumentFault where
  /-- There is no such option. `near` are the options that its name resembles. -/
  | unknown (name : Text) (near : List Text)
  | missingValues (name : Text) (arity : Nat)
  | unwantedValue (name : Text)
  deriving DecidableEq, Repr

structure Arguments (ι : Type) where
  given : List (ι × List Text)
  rest : List Text

variable {ι : Type}

def takeValues (spec : OptionSpec ι) (name : Text) (pool : List Text) :
    Except ArgumentFault ((ι × List Text) × List Text) :=
  if pool.length < spec.arity then .error (.missingValues name spec.arity)
  else .ok ((spec.id, pool.take spec.arity), pool.drop spec.arity)

def readShort (specs : List (OptionSpec ι)) (rest : List Text) :
    Text → Except ArgumentFault (List (ι × List Text) × List Text)
  | [] => .ok ([], rest)
  | c :: more =>
    match specs.find? fun spec => spec.names.contains ['-', c] with
    | none => .error (.unknown ['-', c] [])
    | some spec =>
      if spec.arity = 0 then do
        let (found, last) ← readShort specs rest more
        return ((spec.id, []) :: found, last)
      else do
        let (found, last) ← takeValues spec ['-', c] (if more.isEmpty then rest else more :: rest)
        return ([found], last)

def splitLong (arg : Text) : Text × Option Text :=
  let name := arg.takeWhile (· != '=')
  (name, if name.length < arg.length then some (arg.drop (name.length + 1)) else none)

def isLongName (name : Text) : Bool :=
  Text.startsWith "--" name

def longNames (specs : List (OptionSpec ι)) : List Text :=
  (specs.flatMap OptionSpec.names).filter isLongName

def readOption (specs : List (OptionSpec ι)) (arg : Text) (rest : List Text) :
    Except ArgumentFault (List (ι × List Text) × List Text) :=
  let (name, value) := splitLong arg
  match specs.find? fun spec => isLongName name && spec.names.contains name with
  | some spec =>
    if spec.arity = 0 then
      if value.isSome then .error (.unwantedValue name) else .ok ([(spec.id, [])], rest)
    else do
      let (found, last) ← takeValues spec name (value.toList ++ rest)
      return ([found], last)
  | none =>
    if isLongName arg then .error (.unknown name (nearNames (longNames specs) name))
    else readShort specs rest (arg.drop 1)

def readArguments (specs : List (OptionSpec ι)) (interspersed : Bool) :
    (fuel : Nat) → List Text → Except ArgumentFault (Arguments ι)
  | 0, args => .ok ⟨[], args⟩
  | _, [] => .ok ⟨[], []⟩
  | fuel + 1, arg :: rest =>
    if arg = ['-', '-'] then .ok ⟨[], rest⟩
    else if arg.head? = some '-' && 1 < arg.length then do
      let (found, last) ← readOption specs arg rest
      let more ← readArguments specs interspersed fuel last
      return ⟨found ++ more.given, more.rest⟩
    else if interspersed then do
      let more ← readArguments specs interspersed fuel rest
      return ⟨more.given, arg :: more.rest⟩
    else .ok ⟨[], arg :: rest⟩

namespace Arguments

/-- Reads arguments. Unless options may stand between other arguments, the first of these ends
the options. -/
def parse (specs : List (OptionSpec ι)) (interspersed : Bool) (args : List Text) :
    Except ArgumentFault (Arguments ι) :=
  readArguments specs interspersed (args.length + 1) args

variable [DecidableEq ι]

def has (args : Arguments ι) (id : ι) : Bool :=
  args.given.any fun g => g.1 = id

def all (args : Arguments ι) (id : ι) : List (List Text) :=
  (args.given.filter fun g => g.1 = id).map Prod.snd

/-- The value of an option that takes one. The last one counts. -/
def value? (args : Arguments ι) (id : ι) : Option Text :=
  (args.all id).getLast?.bind List.head?

def order (args : Arguments ι) : List ι :=
  (args.given.map Prod.fst).eraseDups

end Arguments

end HardWrap.CommandLine
