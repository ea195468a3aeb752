import HardWrap.Document.Edit
import HardWrap.Document.View

/-!
Buffers: texts under edit. A buffer keeps a table of its lines, which is made anew with every new
content. A replacement that fails leaves the buffer as it was.
-/

namespace HardWrap

inductive Access where
  | writable
  | readOnly
  /-- No document is attached: there are no rows, and nothing can be replaced. -/
  | detached
  deriving DecidableEq, Repr

structure Buffer where
  content : Text
  access : Access
  /-- The table of lines: their texts, their endings and where they start. -/
  texts : List Text
  endings : List Text
  offsets : List Nat
  deriving DecidableEq, Repr

inductive ReplaceFault where
  | readOnly
  | outside (fault : RangeFault)
  deriving DecidableEq, Repr

def ReplaceFault.message : ReplaceFault → String
  | readOnly => "document is read-only"
  | outside fault => fault.message

structure ApplyFault where
  offset : Nat
  cause : ReplaceFault
  deriving DecidableEq, Repr

def ApplyFault.message (fault : ApplyFault) : String :=
  s!"Replace at offset {fault.offset} failed: {fault.cause.message}"

def startsFrom (offset : Nat) : List (Text × Text) → List Nat
  | [] => []
  | (t, e) :: more => offset :: startsFrom (offset + t.length + e.length) more

def tableRows : (texts : List Text) → (offsets : List Nat) → (endings : List Text) → List Row
  | t :: texts, o :: offsets, e :: endings => ⟨t, o, e⟩ :: tableRows texts offsets endings
  | _, _, _ => []

namespace Buffer

/-- A buffer with the table of its content. No other function makes a table. -/
def ofText (content : Text) (access : Access) : Buffer :=
  let lines := Text.closeRows (Text.cut content)
  { content := content
    access := access
    texts := lines.map Prod.fst
    endings := lines.map Prod.snd
    offsets := startsFrom 0 lines }

def detached : Buffer :=
  .ofText [] .detached

def view (buffer : Buffer) : View :=
  match buffer.access with
  | .detached => .empty
  | .writable | .readOnly =>
    ⟨buffer.content, tableRows buffer.texts buffer.offsets buffer.endings⟩

def replace (buffer : Buffer) (offset length : Int) (text : Text) : Except ReplaceFault Buffer :=
  if buffer.access ≠ .writable then .error .readOnly
  else if offset < 0 || length < 0 || offset + length > buffer.content.length then
    .error (.outside (.span offset (offset + length)))
  else
    .ok (.ofText (buffer.content.take offset.toNat ++ text ++
      buffer.content.drop (offset + length).toNat) buffer.access)

def apply (buffer : Buffer) (edit : Edit) : Except ApplyFault Buffer :=
  (buffer.replace edit.offset edit.length edit.text).mapError fun cause => ⟨edit.offset, cause⟩

end Buffer

/-! ### Changes of a buffer -/

inductive Change where
  | replace (offset length : Int) (text : Text)
  | apply (edit : Edit)
  deriving DecidableEq, Repr

inductive ChangeFault where
  | replace (fault : ReplaceFault)
  | apply (fault : ApplyFault)
  deriving DecidableEq, Repr

namespace Buffer

def change (buffer : Buffer) : Change → Except ChangeFault Buffer
  | .replace offset length text => (buffer.replace offset length text).mapError .replace
  | .apply edit => (buffer.apply edit).mapError .apply

/-- The buffer after a change, which stays as it is if the change fails. -/
def next (buffer : Buffer) (c : Change) : Buffer :=
  match buffer.change c with
  | .ok changed => changed
  | .error _ => buffer

def run (buffer : Buffer) (changes : List Change) : Buffer :=
  changes.foldl next buffer

end Buffer

end HardWrap
