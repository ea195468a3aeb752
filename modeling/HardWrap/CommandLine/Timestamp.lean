import HardWrap.Calendar
import HardWrap.Text.Blank

/-!
Moments in the form in which reports carry them: date, time of day to the microsecond, and the
offset of universal time.
-/

namespace HardWrap

def zeroPadded (width n : Nat) : Text :=
  let digits := Nat.toDigits 10 n
  List.replicate (width - digits.length) '0' ++ digits

def CivilDate.shown (date : CivilDate) : Text :=
  zeroPadded 4 date.year ++ '-' :: zeroPadded 2 date.month ++ '-' :: zeroPadded 2 date.day

/-- A time of day. Whole seconds have no fraction. -/
def ClockTime.shown (time : ClockTime) : Text :=
  zeroPadded 2 time.hour ++ ':' :: zeroPadded 2 time.minute ++ ':' :: zeroPadded 2 time.second ++
    (if time.micros = 0 then [] else '.' :: zeroPadded 6 time.micros)

def timestampText (micros : Nat) : Text :=
  (CivilDate.ofDays (micros / 86400000000)).shown ++
    'T' :: (ClockTime.ofMicros micros).shown ++ "+00:00".toList

end HardWrap
