import PowerGuru.Lib.Bytes

/-!
# `MenuItem`

The overloads of `SetItem` end in two: one takes all six arguments, the other five, and
that one does not hand on the item index.
-/
namespace PowerGuru.Devices.Menu

open Lib.Bytes

inductive Datatype where
  | none
  | info
  | menuhead
  | menuitem
  | time
  | date
  | float
  | int
  | eol
  | bool
  | clock
  | enum
  deriving DecidableEq, Repr

/-- `union mval` and which member was written. -/
inductive Mval where
  | float (x : Rat)
  | int (x : Int)
  | bool (x : Bool)
  | time (x : Int)
  deriving DecidableEq, Repr

structure MenuItem where
  label : List Byte
  headidx : Int
  itemidx : Int
  value : Mval
  type : Datatype
  cmdname : List Byte
  deriving DecidableEq, Repr

section
variable (label : List Byte) (x y : Int) (cmdname : List Byte)

/-- `SetItem(string, int, int, union mval, enum datatype, string)`. -/
def setItem6 (z : Mval) (dtype : Datatype) : MenuItem := ⟨label, x, y, z, dtype, cmdname⟩

/-- `SetItem(string, int, int, union mval, enum datatype)`: the item index becomes 0. -/
def setItem5 (_y : Int) (z : Mval) (dtype : Datatype) : MenuItem := setItem6 label x 0 [] z dtype

def setHeading : MenuItem := setItem5 label x 0 (.int 0) .menuhead
def setInfo : MenuItem := setItem5 label x y (.int 0) .info
def setMenuitem : MenuItem := setItem6 label x y cmdname (.int 0) .menuitem
def setBool (z : Bool) : MenuItem := setItem6 label x y cmdname (.bool z) .bool
def setInt (z : Int) : MenuItem := setItem6 label x y cmdname (.int z) .int
def setFloat (z : Rat) : MenuItem := setItem6 label x y cmdname (.float z) .float
def setTime (z : Int) : MenuItem := setItem6 label x y cmdname (.time z) .time

end

end PowerGuru.Devices.Menu
