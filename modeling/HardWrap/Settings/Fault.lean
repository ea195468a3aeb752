import HardWrap.Text.Quoted

/-!
What can be wrong with settings.
-/

namespace HardWrap

inductive Part where
  | general
  | wrap
  deriving DecidableEq, Repr

def Part.key : Part → Text
  | general => "general".toList
  | wrap => "wrap".toList

def Part.record : Part → String
  | general => "GeneralConfig"
  | wrap => "WrapConfig"

inductive SettingsFault where
  /-- An override leads on through a value that holds nothing. -/
  | notSearchable (type : String)
  /-- An override assigns below a value that is not a table. -/
  | notAssignable (type : String)
  /-- An override leads on through a text that holds the key as a part. -/
  | textIndexed
  | listIndexed
  | notTable (part : Part) (type : String)
  | unknownField (part : Part) (key : Text)
  /-- A key names the record itself, which no setting can replace. -/
  | selfField (part : Part)
  /-- A width is not a number. -/
  | notComparable (type : String)
  | narrow (maxWidth : String)
  | negativeTab (tabWidth : String)
  /-- Tables are nested too deep. -/
  | tooDeep
  deriving DecidableEq, Repr

namespace SettingsFault

def message : SettingsFault → String
  | notSearchable type => s!"argument of type '{type}' is not iterable"
  | notAssignable type => s!"'{type}' object does not support item assignment"
  | textIndexed => "string indices must be integers, not 'str'"
  | listIndexed => "list indices must be integers or slices, not str"
  | notTable part type =>
    s!"texreflow.config.{part.record}() argument after ** must be a mapping, not {type}"
  | unknownField part key =>
    s!"{part.record}.__init__() got an unexpected keyword argument '{String.ofList key}'"
  | selfField part => s!"{part.record}.__init__() got multiple values for argument 'self'"
  | notComparable type => s!"'<' not supported between instances of '{type}' and 'int'"
  | narrow width => s!"max_width must be >= 1, got {width}"
  | negativeTab width => s!"tab_width must be >= 0, got {width}"
  | tooDeep => "Nested too deep"

def isOutOfRange : SettingsFault → Bool
  | narrow _ | negativeTab _ => true
  | _ => false

end SettingsFault

end HardWrap
