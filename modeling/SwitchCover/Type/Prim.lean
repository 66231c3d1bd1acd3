namespace SwitchCover

inductive IntKind where
  | int | int8 | int16 | int32 | int64
deriving DecidableEq

inductive UintKind where
  | uint | uint8 | uint16 | uint32 | uint64 | uintptr
deriving DecidableEq

inductive FloatKind where
  | float32 | float64
deriving DecidableEq

inductive UntypedKind where
  | bool | int | float | string | nil
deriving DecidableEq

inductive PrimType where
  | bool
  | int (kind : IntKind)
  | uint (kind : UintKind)
  | float (kind : FloatKind)
  | string
  | untyped (kind : UntypedKind)
deriving DecidableEq

namespace IntKind

def name : IntKind → String
  | int => "int"
  | int8 => "int8"
  | int16 => "int16"
  | int32 => "int32"
  | int64 => "int64"

end IntKind

namespace UintKind

def name : UintKind → String
  | uint => "uint"
  | uint8 => "uint8"
  | uint16 => "uint16"
  | uint32 => "uint32"
  | uint64 => "uint64"
  | uintptr => "uintptr"

end UintKind

namespace FloatKind

def name : FloatKind → String
  | float32 => "float32"
  | float64 => "float64"

end FloatKind

namespace UntypedKind

def name : UntypedKind → String
  | bool => "untyped bool"
  | int => "untyped int"
  | float => "untyped float"
  | string => "untyped string"
  | nil => "untyped nil"

def ofName? : String → Option UntypedKind
  | "untyped bool" => some .bool
  | "untyped int" => some .int
  | "untyped float" => some .float
  | "untyped string" => some .string
  | "untyped nil" => some .nil
  | _ => none

end UntypedKind

namespace PrimType

def name : PrimType → String
  | bool => "bool"
  | int kind => kind.name
  | uint kind => kind.name
  | float kind => kind.name
  | string => "string"
  | untyped kind => kind.name

/-- The type a predeclared name denotes. `rune` and `byte` are second names. -/
def ofName? : String → Option PrimType
  | "bool" => some .bool
  | "int" => some (.int .int)
  | "int8" => some (.int .int8)
  | "int16" => some (.int .int16)
  | "int32" => some (.int .int32)
  | "rune" => some (.int .int32)
  | "int64" => some (.int .int64)
  | "uint" => some (.uint .uint)
  | "uint8" => some (.uint .uint8)
  | "byte" => some (.uint .uint8)
  | "uint16" => some (.uint .uint16)
  | "uint32" => some (.uint .uint32)
  | "uint64" => some (.uint .uint64)
  | "uintptr" => some (.uint .uintptr)
  | "float32" => some (.float .float32)
  | "float64" => some (.float .float64)
  | "string" => some .string
  | _ => none

def isInteger : PrimType → Bool
  | int _ => true
  | uint _ => true
  | untyped .int => true
  | _ => false

/-- Signed integers; the type of untyped constants is not one of them. -/
def isSigned : PrimType → Bool
  | int _ => true
  | _ => false

def isUntyped : PrimType → Bool
  | untyped _ => true
  | _ => false

end PrimType

end SwitchCover
