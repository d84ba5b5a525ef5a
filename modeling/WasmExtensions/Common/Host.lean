import WasmExtensions.Common.Bytes

/-!
# The host interface

What all extensions share about the proxy that hosts them: the result codes of host calls, what a
header callback returns, and the response that an extension sends itself.
-/

namespace WasmExtensions

/-- Result codes of host calls. -/
inductive WasmResult where
  | Ok
  | NotFound
  | BadArgument
  | SerializationFailure
  | ParseFailure
  | BadExpression
  | InvalidMemoryAccess
  | Empty
  | CasMismatch
  | ResultMismatch
  | InternalFailure
  | BrokenConnection
  | Unimplemented
  deriving DecidableEq, Repr

/-- What a header callback returns. -/
inductive FilterHeadersStatus where
  | Continue
  | StopIteration
  deriving DecidableEq, Repr

/-- A response that is sent by the extension. -/
structure LocalResponse where
  responseCode : ℕ
  responseCodeDetails : Bytes
  body : Bytes
  additionalResponseHeaders : List (Bytes × Bytes)
  deriving DecidableEq, Repr

/-- What the host answers to `getValue` and `getProperty`, by the path of the property.  A value
that is missing or of another type leaves the variable as it was. -/
structure Properties where
  string : List Bytes → Option Bytes
  int64 : List Bytes → Option Int64
  uint64 : List Bytes → Option UInt64
  bool : List Bytes → Option Bool
  /-- The pairs of a property that is a map. -/
  pairs : List Bytes → Option (List (Bytes × Bytes))

/-- No property has a value. -/
def Properties.none : Properties where
  string _ := Option.none
  int64 _ := Option.none
  uint64 _ := Option.none
  bool _ := Option.none
  pairs _ := Option.none

end WasmExtensions
