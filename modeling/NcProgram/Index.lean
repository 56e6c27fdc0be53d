import NcProgram.Fault

namespace NcProgram

def minIndex : Int :=
  -0x8000000000000000

/-- The place that an index means in a sequence of the given size. A place before the first one is
the given fault. -/
def placeOfIndex (size : Nat) (tooSmall : Fault) (index : Int) : Except Fault Nat :=
  let place := if index < 0 then index + size else index
  if index < minIndex then .error .indexOutOfRange
  else if place < 0 then .error tooSmall
  else .ok place.toNat

end NcProgram
