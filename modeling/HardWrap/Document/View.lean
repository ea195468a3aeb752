import HardWrap.Line.Basic
import HardWrap.Line.Kind
import HardWrap.Style

/-!
Documents as an editor shows them. A text with n line endings has n + 1 rows: the last row has no
ending and may be empty. Rows and offsets are looked up here; an index or offset outside the
document is a fault.
-/

namespace HardWrap

structure Row where
  text : Text
  offset : Nat
  ending : Text
  deriving DecidableEq, Repr

def Row.textEnd (row : Row) : Nat :=
  row.offset + row.text.length

def Row.stop (row : Row) : Nat :=
  row.offset + row.text.length + row.ending.length

namespace Text

/-- The last row has no ending, so a final line ending opens one more, empty row. -/
def closeRows : List (Text × Text) → List (Text × Text)
  | [] => [([], [])]
  | (t, e) :: more => if e.isEmpty then [(t, e)] else (t, e) :: closeRows more

def placeRows (offset : Nat) : List (Text × Text) → List Row
  | [] => []
  | (t, e) :: more => ⟨t, offset, e⟩ :: placeRows (offset + t.length + e.length) more

def rows (t : Text) : List Row :=
  placeRows 0 (closeRows (cut t))

end Text

inductive RangeFault where
  | line (index : Int) (count : Nat)
  | offset (o : Int) (length : Nat)
  | span (start stop : Int)
  | reversed (first last : Int)
  deriving DecidableEq, Repr

def RangeFault.message : RangeFault → String
  | line i count => s!"line {i} outside document of {count} lines"
  | offset o length => s!"offset {o} outside document of length {length}"
  | span start stop => s!"range [{start}, {stop}) outside document"
  | reversed first last => s!"first line {first} is after last line {last}"

/-- The number of starts that are at most an offset, by halving. Those before `low` are known to be
at most the offset, and those from `high` on to be beyond it. -/
def bisect (starts : List Nat) (offset : Int) (low high : Nat) : Nat :=
  if low < high then
    if offset < starts.getD ((low + high) / 2) 0 then bisect starts offset low ((low + high) / 2)
    else bisect starts offset ((low + high) / 2 + 1) high
  else low
termination_by high - low

structure View where
  content : Text
  rows : List Row
  deriving DecidableEq, Repr

namespace View

def ofText (t : Text) : View :=
  ⟨t, t.rows⟩

def empty : View :=
  ⟨[], []⟩

def count (view : View) : Nat :=
  view.rows.length

def row? (view : View) (index : Int) : Option Row :=
  if index < 0 then none else view.rows[index.toNat]?

def row (view : View) (index : Int) : Except RangeFault Row :=
  match view.row? index with
  | some r => .ok r
  | none => .error (.line index view.count)

def length (view : View) : Nat :=
  (view.rows.getLast?.map Row.stop).getD 0

def between (view : View) (start stop : Nat) : Text :=
  (view.content.drop start).take (stop - start)

def slice (view : View) (offset length : Int) : Except RangeFault Text :=
  if offset < 0 || length < 0 || offset + length > view.content.length then
    .error (.span offset (offset + length))
  else .ok (view.between offset.toNat (offset + length).toNat)

/-- The row that holds an offset: the last one that starts at it or before it. The end of the
document belongs to the last row. -/
def rowAt (view : View) (offset : Int) : Except RangeFault Nat :=
  if offset < 0 || offset > view.length || view.rows.isEmpty then
    .error (.offset offset view.length)
  else .ok (bisect (view.rows.map Row.offset) offset 0 view.count - 1)

def endingOf? (view : View) (index : Int) : Option Text :=
  ((view.row? index).map Row.ending).filter fun e => !e.isEmpty

/-- The ending for lines that are filled at a row: the row's own, or that of the row before it, or
the first of the document, or LF. -/
def endingAt (view : View) (index : Int) : Text :=
  ((view.endingOf? index).or (view.endingOf? (index - 1))).getD view.content.newEnding

end View

def nextOpen (style : Style) (isOpen : Option Text) (line : Text) : Option Text :=
  match isOpen with
  | some name => if closesEnvironment line name then none else some name
  | none =>
    match kindOf line with
    | .begins name => if style.tracked.contains name then none else some name
    | _ => none

namespace View

def openBefore (view : View) (style : Style) (index : Nat) : Option Text :=
  ((view.rows.take index).map Row.text).foldl (nextOpen style) none

/-- Whether an index lies inside a copied environment. All rows before it have to exist. -/
def isInside (view : View) (style : Style) (index : Int) : Except RangeFault Bool :=
  if index > view.count then .error (.line view.count view.count)
  else .ok (view.openBefore style index.toNat).isSome

def isBoundary (r : Row) : Bool :=
  match kindOf r.text with
  | .blank | .begins _ | .ends _ => true
  | _ => false

def around (view : View) (index : Nat) : Nat × Nat :=
  let above := (view.rows.take index).reverse.takeWhile fun r => !isBoundary r
  let below := (view.rows.drop (index + 1)).takeWhile fun r => !isBoundary r
  (index - above.length, index + below.length)

/-- The first and last row of the paragraph around a row. A boundary has none, and neither has a
row inside a copied environment. -/
def paragraphAt (view : View) (style : Style) (index : Int) :
    Except RangeFault (Option (Nat × Nat)) := do
  let r ← view.row index
  if isBoundary r || (view.openBefore style index.toNat).isSome then return none
  else return some (view.around index.toNat)

end View

end HardWrap
