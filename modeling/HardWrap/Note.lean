/-!
Notes on what a run did, for whoever watches it.
-/

namespace HardWrap

inductive Level where
  | debug
  | info
  | warning
  deriving DecidableEq, Repr

def Level.label : Level → String
  | debug => "DEBUG"
  | info => "INFO"
  | warning => "WARNING"

structure Note where
  level : Level
  /-- The part of the program that speaks. -/
  source : String
  message : String
  deriving DecidableEq, Repr

structure Noted (ε α : Type) where
  notes : List Note
  result : Except ε α

namespace Noted

variable {ε δ α β : Type}

def ofExcept (x : Except ε α) : Noted ε α :=
  ⟨[], x⟩

def note (n : Note) : Noted ε Unit :=
  ⟨[n], .ok ()⟩

def fail (fault : ε) : Noted ε α :=
  ⟨[], .error fault⟩

def mapError (f : ε → δ) (x : Noted ε α) : Noted δ α :=
  ⟨x.notes, x.result.mapError f⟩

/-- Goes on with a result. Notes that were made before a fault stay. -/
def andThen (x : Noted ε α) (f : α → Noted ε β) : Noted ε β :=
  match x.result with
  | .ok a => ⟨x.notes ++ (f a).notes, (f a).result⟩
  | .error fault => ⟨x.notes, .error fault⟩

instance : Monad (Noted ε) where
  pure a := ⟨[], .ok a⟩
  bind := andThen

instance : MonadLift (Except ε) (Noted ε) where
  monadLift := ofExcept

end Noted

end HardWrap
