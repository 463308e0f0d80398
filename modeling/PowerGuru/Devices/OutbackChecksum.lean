import PowerGuru.Common
import PowerGuru.Lib.Strtol

/-!
# `outback::calcChecksum`

The function takes a bare `const char *` and indexes up to 47 whatever the length of
the string, so it is a function of memory, not of the string alone.
-/
namespace PowerGuru.Devices.OutbackChecksum

open Lib.Bytes Lib.Strtol Common

/-- The storage of a string: its bytes, the NUL, then whatever follows in memory. -/
def stored (s : List Byte) (beyond : Nat → Byte) (i : Nat) : Byte :=
  if i < s.length then s.getD i NUL else if i = s.length then NUL else beyond i

/-- Separators and `*` are skipped, every other byte counts its distance from '0'. -/
def weight (b : Byte) : Int := if b = comma ∨ b = 42 then 0 else schar b - 48

/-- The checksum field with every '0' dropped. -/
def chkField (packet : Nat → Byte) : List Byte :=
  [packet 45, packet 46, packet 47].filter (· != 48)

/-- The do-while loop: `ptr - packet` runs from 0 to 44. -/
def checksumOf (packet : Nat → Byte) : Int := ((List.range 45).map fun i => weight (packet i)).sum

def calcChecksum (packet : Nat → Byte) : Retcode :=
  if checksumOf packet ≠ toInt (strtol (cstr (chkField packet)) 0) then .error else .success

end PowerGuru.Devices.OutbackChecksum
