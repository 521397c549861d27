import Singletons.Failure

/-
Instances shared between the registry and its callers. An instance has an identity of its own, so
that two instances with equal contents stay apart, and contents of one of a few types. A producer is
an instance whose purpose is to yield further objects; what it does is a callback, and the registry
knows callbacks by number only.
-/

namespace Singletons

/-- A callback of a caller: production, early reference, hook or disposal. -/
abbrev Callback := Nat

/-- The types of contents that an instance may be asked for. -/
inductive TypeTag where
  | u8 | u16 | u32 | u64 | i32 | i64 | bool | text | unit | producer
deriving DecidableEq

/-- All types. -/
def TypeTag.all : List TypeTag := [u8, u16, u32, u64, i32, i64, bool, text, unit, producer]

/-- The full name of a type. -/
def TypeTag.fullName : TypeTag → String
  | u8 => "u8"
  | u16 => "u16"
  | u32 => "u32"
  | u64 => "u64"
  | i32 => "i32"
  | i64 => "i64"
  | bool => "bool"
  | text => "alloc::string::String"
  | unit => "()"
  | producer => "ioc_domain::value_objects::instance::ProducerInstance"

/-- A producer: the callback that yields an object, whether one object is meant to be shared, and
the type of the objects if it is known beforehand. -/
structure Producer where
  callback : Callback
  isShared : Bool := true
  objectType : Option TypeTag := none
deriving DecidableEq

/-- What an instance holds. -/
inductive Contents where
  | u8 (v : UInt8)
  | u16 (v : UInt16)
  | u32 (v : UInt32)
  | u64 (v : UInt64)
  | i32 (v : Int32)
  | i64 (v : Int64)
  | bool (v : Bool)
  | text (v : String)
  | unit
  | producer (p : Producer)
deriving DecidableEq

def Contents.type : Contents → TypeTag
  | u8 _ => .u8
  | u16 _ => .u16
  | u32 _ => .u32
  | u64 _ => .u64
  | i32 _ => .i32
  | i64 _ => .i64
  | bool _ => .bool
  | text _ => .text
  | unit => .unit
  | producer _ => .producer

/-- A shared instance: its identity and its contents. -/
structure Instance where
  id : Nat
  contents : Contents
deriving DecidableEq

namespace Instance

/-- Whether an instance is of a type. -/
def isOf (i : Instance) (t : TypeTag) : Bool := i.contents.type == t

/-- The instance as a producer. -/
def producer? (i : Instance) : Option Producer :=
  match i.contents with
  | .producer p => some p
  | _ => none

/-- The producer that the instance under `n` is, or the failure that it is none. -/
def asProducer (i : Instance) (n : Name) : Except Failure Producer :=
  match i.producer? with
  | some p => .ok p
  | none => .error (.creationFailed n .notAProducer none [])

end Instance

/-- The short description of a producer held as an instance. -/
def Producer.summary (p : Producer) : String := s!"ProducerInstance \x7b singleton: {p.isShared} \x7d"

end Singletons
