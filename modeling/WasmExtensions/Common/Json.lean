import WasmExtensions.Common.Bytes

/-!
# JSON values

The JSON values of the configurations and of the policy server's answers, and the accessors of
`json_util.cc`.  The JSON library itself is a parameter (`JsonLibrary`).
-/

namespace WasmExtensions

/-- A JSON number as the library keeps it: integers by sign, the others as the bits of a double. -/
inductive JsonNumber where
  | unsigned (n : UInt64)
  | signed (n : Int64)
  | double (bits : UInt64)
  deriving DecidableEq, Repr

/-- A JSON value. -/
inductive Json where
  | null
  | boolean (b : Bool)
  | number (n : JsonNumber)
  | string (s : Bytes)
  | array (elements : List Json)
  | object (fields : List (Bytes × Json))

namespace Json

def isObject : Json → Bool
  | .object _ => true
  | _ => false

/-- The value of a field; only objects have fields. -/
def find (field : Bytes) : Json → Option Json
  | .object fields => fields.lookup field
  | _ => none

end Json

/-- What the extensions use of the JSON library and of the number parser. -/
structure JsonLibrary where
  /-- The value of a text; `none` when it is discarded. -/
  parse : Bytes → Option Json
  /-- The text of a value; `none` when a string in it is not valid UTF-8, which aborts. -/
  dump : Json → Option Bytes
  /-- The conversion of a double to an unsigned integer. -/
  doubleToUint64 : UInt64 → UInt64
  /-- The number parser `absl::SimpleAtoi`. -/
  simpleAtoiUint64 : Bytes → Option UInt64

/-- The outcome of an accessor. -/
inductive JsonParserResultDetail where
  | UNKNOWN
  | OK
  | OUT_OF_RANGE
  | TYPE_ERROR
  | INVALID_VALUE
  deriving DecidableEq, Repr

variable (lib : JsonLibrary)

/-- The object that a text denotes. -/
def jsonParse (str : Bytes) : Option Json := (lib.parse str).filter Json.isObject

def jsonValueAsString : Json → Option Bytes × JsonParserResultDetail
  | .string s => (some s, .OK)
  | _ => (none, .TYPE_ERROR)

/-- The conversion of a number to `uint64_t`. -/
def JsonNumber.toUint64 : JsonNumber → UInt64
  | .unsigned n => n
  | .signed n => n.toUInt64
  | .double bits => lib.doubleToUint64 bits

def jsonValueAsUint64 : Json → Option UInt64 × JsonParserResultDetail
  | .number n => (some (n.toUint64 lib), .OK)
  | .string s =>
    match lib.simpleAtoiUint64 s with
    | some n => (some n, .OK)
    | none => (none, .INVALID_VALUE)
  | _ => (none, .TYPE_ERROR)

def jsonValueAsBool : Json → Option Bool × JsonParserResultDetail
  | .boolean b => (some b, .OK)
  | .string s =>
    if s = bytes "true" then (some true, .OK)
    else if s = bytes "false" then (some false, .OK)
    else (none, .INVALID_VALUE)
  | _ => (none, .TYPE_ERROR)

/-- `JsonGetField`: the accessor applied to a field of an object. -/
def jsonGetField {T : Type} (valueAs : Json → Option T × JsonParserResultDetail) (j : Json)
    (field : Bytes) : Option T × JsonParserResultDetail :=
  match j.find field with
  | none => (none, .OUT_OF_RANGE)
  | some value => valueAs value

/-- The value of a field, or `v` if it could not be read. -/
def valueOr {T : Type} (field : Option T × JsonParserResultDetail) (v : T) : T :=
  match field with
  | (some value, .OK) => value
  | _ => v

/-- Visits the elements until a visit fails. -/
def iterate {A S : Type} (visitor : A → S → Bool × S) : List A → S → Bool × S
  | [], s => (true, s)
  | a :: as, s =>
    match visitor a s with
    | (true, s) => iterate visitor as s
    | (false, s) => (false, s)

/-- Iterates over an optional array field.  The result is false if the field is set and not an
array, or if a visit fails. -/
def jsonArrayIterate {S : Type} (j : Json) (field : Bytes) (visitor : Json → S → Bool × S)
    (s : S) : Bool × S :=
  match j.find field with
  | none => (true, s)
  | some (.array elements) => iterate visitor elements s
  | some _ => (false, s)

/-- The elements of an optional array field. -/
def Json.elements (j : Json) (field : Bytes) : List Json :=
  match j.find field with
  | some (.array elements) => elements
  | _ => []

/-- Iterates over the keys of an optional object field. -/
def jsonObjectIterate {S : Type} (j : Json) (field : Bytes) (visitor : Bytes → S → Bool × S)
    (s : S) : Bool × S :=
  match j.find field with
  | none => (true, s)
  | some (.object fields) => iterate visitor (fields.map Prod.fst) s
  | some _ => (false, s)

theorem iterate_cons_of_true {A S : Type} {visitor : A → S → Bool × S} {a : A} {as : List A}
    {s s' : S} (h : visitor a s = (true, s')) :
    iterate visitor (a :: as) s = iterate visitor as s' := by
  rw [iterate, h]

theorem iterate_cons_of_false {A S : Type} {visitor : A → S → Bool × S} {a : A} {as : List A}
    {s s' : S} (h : visitor a s = (false, s')) :
    iterate visitor (a :: as) s = (false, s') := by
  rw [iterate, h]

/-- A predicate that every visit keeps holds after the iteration. -/
theorem iterate_invariant {A S : Type} {visitor : A → S → Bool × S} {I : S → Prop} {as : List A}
    {s : S} (hvisit : ∀ a ∈ as, ∀ s, I s → I (visitor a s).2) (hs : I s) :
    I (iterate visitor as s).2 := by
  induction as generalizing s with
  | nil => exact hs
  | cons a as ih =>
    have hfirst := hvisit a List.mem_cons_self s hs
    cases hv : visitor a s with
    | mk ok s' =>
      rw [hv] at hfirst
      cases ok with
      | true =>
        rw [iterate_cons_of_true hv]
        exact ih (fun a' ha' => hvisit a' (List.mem_cons_of_mem _ ha')) hfirst
      | false =>
        rw [iterate_cons_of_false hv]
        exact hfirst

theorem jsonArrayIterate_invariant {S : Type} {j : Json} {field : Bytes}
    {visitor : Json → S → Bool × S} {I : S → Prop} {s : S}
    (hvisit : ∀ elements, j.find field = some (.array elements) →
      ∀ a ∈ elements, ∀ s, I s → I (visitor a s).2) (hs : I s) :
    I (jsonArrayIterate j field visitor s).2 := by
  unfold jsonArrayIterate
  split
  · exact hs
  · rename_i elements hfind
    exact iterate_invariant (hvisit elements hfind) hs
  · exact hs

theorem snd_jsonArrayIterate {S : Type} {j : Json} {field : Bytes} {visitor : Json → S → Bool × S}
    {s : S} :
    (jsonArrayIterate j field visitor s).2 = (iterate visitor (j.elements field) s).2 := by
  unfold jsonArrayIterate Json.elements
  cases j.find field with
  | none => rfl
  | some value => cases value <;> rfl

/-- The accessor for booleans is successful exactly for `b` and the string of `b`. -/
theorem jsonValueAsBool_eq_some {j : Json} {b : Bool} :
    jsonValueAsBool j = (some b, .OK) ↔
      j = .boolean b ∨ j = .string (bytes (if b then "true" else "false")) := by
  cases j with
  | boolean b' => simp [jsonValueAsBool]
  | string s =>
    have hne : bytes "true" ≠ bytes "false" := by decide
    unfold jsonValueAsBool
    by_cases ht : s = bytes "true"
    · cases b <;> simp [ht, hne]
    · by_cases hf : s = bytes "false"
      · cases b <;> simp [hf, Ne.symm hne]
      · cases b <;> simp [ht, hf]
  | null | number | array | object => simp [jsonValueAsBool]

end WasmExtensions
