import WasmExtensions.Common.Bytes
import WasmExtensions.LittleEndian.Basic

/-!
# The header maps of the Zig demo

The host delivers a header map by allocating a buffer in the module (`malloc`) and writing the
serialised pairs there (`serialize`); `parsePairs` reads them back and puts them into a hash map.
The numbers are those of a 32-bit target.  Zig checks indices and additions; a failed check is a
`Fault`, which ends the module.

The hash map is a parameter (`PairMap`), and so is what the uninitialised arrays of `parsePairs`
hold.
-/

namespace WasmExtensions

namespace ZigDemo

/-- What a check finds. -/
inductive Fault where
  | panic
  | outOfBounds
  | integerOverflow
  deriving DecidableEq, Repr

inductive Result where
  | ok
  | notFound
  | badArgument
  | serializationFailure
  | parseFailure
  | badExpression
  | invalidMemoryAccess
  | empty
  | casMismatch
  | resultMismatch
  | internalFailure
  | brokenConnection
  | unimplemented
  deriving DecidableEq, Repr

/-! ### Checked operations -/

/-- `a + b` of type `usize`. -/
def add (a b : ℕ) : Except Fault ℕ :=
  if a + b < 2 ^ 32 then .ok (a + b) else .error .integerOverflow

/-- `bytes[low .. high]`. -/
def slice (bytes : Bytes) (low high : ℕ) : Except Fault Bytes :=
  if low ≤ high ∧ high ≤ bytes.length then .ok ((bytes.take high).drop low)
  else .error .outOfBounds

/-- The arrays for the lengths of the keys and of the values. -/
abbrev Lengths := Vector ℕ 1024

/-- `array[i]`. -/
def load (array : Lengths) (i : ℕ) : Except Fault ℕ :=
  if h : i < 1024 then .ok (array.get ⟨i, h⟩) else .error .outOfBounds

/-- `array[i] = value`. -/
def store (array : Lengths) (i value : ℕ) : Except Fault Lengths :=
  if h : i < 1024 then .ok (array.set i value h) else .error .outOfBounds

/-! ### The buffer -/

/-- The size of the buffer. -/
def bufSize : ℕ := 64 * 1024

/-- The buffer for what the host delivers. -/
structure Buffer where
  buf : Bytes
  bufLen : ℕ
  length_buf : buf.length = bufSize

def malloc (len : ℕ) (memory : Buffer) : Except Fault Buffer :=
  if bufSize < len then .error .panic else .ok { memory with bufLen := len }

def buffer (memory : Buffer) : Except Fault Bytes := slice memory.buf 0 memory.bufLen

/-- The host writes to the start of the buffer. -/
def write (data : Bytes) (memory : Buffer) (h : data.length ≤ bufSize) : Buffer where
  buf := data ++ memory.buf.drop data.length
  bufLen := memory.bufLen
  length_buf := by
    have hlength := memory.length_buf
    rw [List.length_append, List.length_drop]
    omega

/-- The host delivers data into allocated memory. -/
def deliver (data : Bytes) (memory : Buffer) : Except Fault Buffer := do
  let memory ← malloc data.length memory
  if h : data.length ≤ bufSize then return write data memory h else throw .outOfBounds

/-! ### Pairs -/

/-- The lengths of a key and of its value. -/
def pairLengths (pair : Bytes × Bytes) : Bytes :=
  LittleEndian.encode 4 pair.1.length ++ LittleEndian.encode 4 pair.2.length

/-- A key and its value, each with a zero byte. -/
def pairTexts (pair : Bytes × Bytes) : Bytes := pair.1 ++ [0] ++ (pair.2 ++ [0])

/-- What the host sends for a header map. -/
def serialize (pairs : List (Bytes × Bytes)) : Bytes :=
  LittleEndian.encode 4 pairs.length ++ pairs.flatMap pairLengths ++ pairs.flatMap pairTexts

/-- A hash map. -/
structure PairMap (M : Type) where
  /-- `none` if the allocator fails. -/
  put : Bytes → Bytes → M → Option M
  get : M → Bytes → Option Bytes

/-- The hash map is a map, and the allocator does not fail. -/
structure PairMap.Lawful {M : Type} (map : PairMap M) : Prop where
  put_ne_none : ∀ key value m, map.put key value m ≠ none
  get_put : ∀ key value m m', map.put key value m = some m' →
    ∀ key', map.get m' key' = if key' = key then some value else map.get m key'

section

variable {M : Type} (map : PairMap M)

/-- The first loop of `parsePairs`, which reads the lengths. -/
def lengthsLoop (pairs : Bytes) (n i offset : ℕ) (keys values : Lengths) :
    Except Fault (ℕ × Lengths × Lengths) := do
  if i < n then
    let bytes ← slice pairs offset (← add offset 4)
    let keys ← store keys i (LittleEndian.decode bytes)
    let offset ← add offset 4
    let bytes ← slice pairs offset (← add offset 4)
    let values ← store values i (LittleEndian.decode bytes)
    let offset ← add offset 4
    lengthsLoop pairs n (i + 1) offset keys values
  else return (offset, keys, values)
termination_by n - i

/-- The second loop, which reads the keys and values. -/
def pairsLoop (pairs : Bytes) (n i offset : ℕ) (keys values : Lengths) (m : M) :
    Except Fault (Result × M) := do
  if i < n then
    let key ← slice pairs offset (← add offset (← load keys i))
    let offset ← add offset (← add (← load keys i) 1)
    let value ← slice pairs offset (← add offset (← load values i))
    let offset ← add offset (← add (← load values i) 1)
    match map.put key value m with
    | none => return (.parseFailure, m)
    | some m => pairsLoop pairs n (i + 1) offset keys values m
  else return (.ok, m)
termination_by n - i

/-- `keys` and `values` are what the arrays hold before. -/
def parsePairs (keys values : Lengths) (pairs : Bytes) (m : M) : Except Fault (Result × M) := do
  let n := LittleEndian.decode (← slice pairs 0 4)
  let (offset, keys, values) ← lengthsLoop pairs n 0 4 keys values
  pairsLoop map pairs n 0 offset keys values m

/-- The host replies with a result and, if it is `ok`, with the serialised pairs. -/
def getAllHeaders (keys values : Lengths) (result : Result) (data : Bytes) (memory : Buffer)
    (m : M) : Except Fault (Result × M) := do
  if result = .ok then
    let memory ← deliver data memory
    parsePairs map keys values (← buffer memory) m
  else return (result, m)

end

end ZigDemo

end WasmExtensions
