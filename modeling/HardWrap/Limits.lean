/-!
What the machine that a run takes place on has room for. These bounds differ from machine to
machine, so nothing here says how large they are.
-/

namespace HardWrap

structure Limits where
  /-- How many characters a text can have. -/
  longest : Int
  /-- How many characters of a text there is memory for. -/
  memory : Int
  /-- How deep tables may be nested within the tables that settings are read from. -/
  depth : Nat
  /-- How deep the values of a settings file may be nested. -/
  nesting : Nat
  deriving DecidableEq, Repr

end HardWrap
