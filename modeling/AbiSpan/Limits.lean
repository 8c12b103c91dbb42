import AbiSpan.Bytes

/-!
How far reading may go.

A crafted buffer can make a reader visit the same bytes many times. The guard stops it once it
has read more than a multiple of the buffer's length; the multiple `0` turns the guard off.
-/

namespace AbiSpan

structure Limits where
  /-- How many times its own length a buffer may be read; zero for any number. -/
  maxInflation : Nat := 1024
  /-- A last payload may lack its padding. -/
  allowLoose : Bool := false
deriving DecidableEq, Repr

namespace Limits

/-- The same limits, with the padding of a last payload not needed. -/
def loose (l : Limits) : Limits := { l with allowLoose := true }

/-- So many bytes read are too many for a buffer of this size. -/
def Exceeded (l : Limits) (bufferSize bytesRead : Nat) : Prop :=
  0 < l.maxInflation ∧ mulCapped l.maxInflation bufferSize < bytesRead

instance (l : Limits) (bufferSize bytesRead : Nat) : Decidable (l.Exceeded bufferSize bytesRead) :=
  inferInstanceAs (Decidable (_ ∧ _))

@[simp] theorem loose_loose (l : Limits) : l.loose.loose = l.loose := rfl

end Limits

/-- How a session reads its record. -/
structure Settings where
  limits : Limits := {}
  /-- Data of logs may lack its last padding even where the record may not. -/
  looseLogData : Bool := true
deriving DecidableEq, Repr

/-- The limits for the data of a log. -/
def Settings.logDataLimits (s : Settings) : Limits :=
  if s.looseLogData then s.limits.loose else s.limits

end AbiSpan
