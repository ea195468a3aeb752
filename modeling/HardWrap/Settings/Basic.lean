import HardWrap.Limits
import HardWrap.Settings.Layer
import HardWrap.Settings.Override

/-!
The settings in force. They come from four layers, each laid over the ones before it: built-in
values, the bundled file, the user's file, and overrides. Beyond the lower bounds of the two widths
nothing is said about the type of a setting.
-/

namespace HardWrap

structure Settings where
  logLevel : Value := .text "warning".toList
  maxWidth : Value := .int 80
  tabWidth : Value := .int 4
  tracked : Value := .tuple [.text "document".toList]
  incremental : Value := .bool true
  extensions : Value := .tuple [.text ".tex".toList, .text ".ltx".toList, .text ".latex".toList]
  deriving Repr

namespace Settings

def fieldsOf : Part → List Text
  | .general => ["log_level".toList]
  | .wrap => ["max_width".toList, "tab_width".toList, "tracked_environments".toList,
      "incremental".toList, "file_extensions".toList]

def selfKey : Text := "self".toList

/-- The table of a part. It may be missing; its keys have to be known. -/
def part (table : Table) (p : Part) : Except SettingsFault Table :=
  match table.get? p.key with
  | none => .ok []
  | some (.table fields) =>
    match fields.find? fun field => !(fieldsOf p).contains field.1 with
    | some (key, _) => .error (if key = selfKey then .selfField p else .unknownField p key)
    | none => .ok fields
  | some other => .error (.notTable p other.typeName)

def atLeast (bound : Int) (value : Value) (fault : String → SettingsFault) :
    Except SettingsFault Unit :=
  match value.isLess? bound with
  | none => .error (.notComparable value.typeName)
  | some true => .error (fault value.numberText)
  | some false => .ok ()

def ofTable (limits : Limits) (table : Table) : Except SettingsFault Settings := do
  if limits.depth + 1 < Table.depth table then throw .tooDeep
  let settled := Table.settle table
  let general ← part settled .general
  let wrap ← part settled .wrap
  let base : Settings := {}
  let settings : Settings := {
    logLevel := (general.get? "log_level".toList).getD base.logLevel
    maxWidth := (wrap.get? "max_width".toList).getD base.maxWidth
    tabWidth := (wrap.get? "tab_width".toList).getD base.tabWidth
    tracked := (wrap.get? "tracked_environments".toList).getD base.tracked
    incremental := (wrap.get? "incremental".toList).getD base.incremental
    extensions := (wrap.get? "file_extensions".toList).getD base.extensions }
  atLeast 1 settings.maxWidth .narrow
  atLeast 0 settings.tabWidth .negativeTab
  return settings

def bundled : Table := [
  ("general".toList, .table [("log_level".toList, .text "warning".toList)]),
  ("wrap".toList, .table [
    ("max_width".toList, .int 80),
    ("tab_width".toList, .int 4),
    ("tracked_environments".toList, .list [.text "document".toList]),
    ("incremental".toList, .bool true),
    ("file_extensions".toList,
      .list [.text ".tex".toList, .text ".ltx".toList, .text ".latex".toList])])]

def layered (user : Table) (overrides : List Override) : Except SettingsFault Table :=
  (Table.over bundled user).overrideAll overrides

def load (limits : Limits) (user : Table) (overrides : List Override) :
    Except SettingsFault Settings := do
  ofTable limits (← layered user overrides)

end Settings

end HardWrap
