import WasmExtensions.Common.Bytes
import WasmExtensions.LinkedList.Basic
import WasmExtensions.Machine.Basic
import Mathlib.Logic.Function.Basic

/-!
# The cache of policy decisions

`cache.cc` keeps the decisions of the policy server in three containers: a map from hashes to
decisions (`result_cache_`), a list of the hashes by last use (`recent_`), and a map from hashes
to their positions in the list (`pos_`).  The functions are translated statement by statement;
`none` stands for undefined behaviour, that is for the use of a dangling iterator, of `end()` or
of a dangling reference.

`std::hash<std::string>` is a parameter.
-/

namespace WasmExtensions

namespace OpenPolicyAgent

/-- What a decision depends on. -/
structure Payload where
  /-- Principal of source workload. -/
  sourcePrincipal : Bytes
  /-- Destination workload name. -/
  destinationWorkload : Bytes
  /-- Request method. -/
  requestMethod : Bytes
  /-- URL path of the request. -/
  requestUrlPath : Bytes
  deriving DecidableEq, Repr

def kMul : UInt64 := 0x9ddfea08eb382d69

/-- The key of a payload in the cache. -/
def computeHash (stdHash : Bytes → UInt64) (payload : Payload) : UInt64 :=
  0 + stdHash payload.sourcePrincipal * kMul + stdHash payload.destinationWorkload * kMul +
    stdHash payload.requestMethod * kMul + stdHash payload.requestUrlPath * kMul

/-- The capacity of the cache. -/
def maxNumEntry : ℕ := 1000

/-- A cached decision and its insertion timestamp. -/
structure Entry where
  result : Bool
  timestamp : UInt64
  deriving DecidableEq, Repr

/-- The cache of policy decisions. -/
structure ResultCache where
  validForNanosec : UInt64
  resultCache : UInt64 → Option Entry
  /-- The hashes, most recently used first. -/
  recent : LinkedList UInt64
  /-- Where a hash stands in `recent`. -/
  pos : UInt64 → Option LinkedList.Iterator

/-- A 64-bit value that went through an `int`: its low 32 bits, sign-extended. -/
def throughInt (x : UInt64) : UInt64 := x.toUInt32.toInt32.toInt64.toUInt64

namespace ResultCache

def empty : ResultCache := ⟨10000000000, fun _ => none, .empty, fun _ => none⟩

def setValidDuration (c : ResultCache) (validForSec : UInt64) : ResultCache :=
  { c with validForNanosec := validForSec * 1000000000 }

theorem resultCache_with (c : ResultCache) (validForNanosec : UInt64) :
    { c with validForNanosec := validForNanosec }.resultCache = c.resultCache :=
  rfl

-- the product is kept out of the unification, which would compute it in unary
@[simp] theorem setValidDuration_resultCache (c : ResultCache) (validForSec : UInt64) :
    (c.setValidDuration validForSec).resultCache = c.resultCache :=
  c.resultCache_with (validForSec * 1000000000)

/-- The first part of `use`: a used hash leaves its place in the list, a new one may push out the
least recently used one. -/
def makeRoom (c : ResultCache) (hash : UInt64) : Option ResultCache :=
  match c.pos hash with
  | some it => do
    let recent ← c.recent.erase it
    return { c with recent := recent }
  | none =>
    if c.recent.size ≥ maxNumEntry then do
      let back ← c.recent.back?
      let recent ← c.recent.popBack
      -- the hash is kept in an `int` before it is looked up in the maps
      let old := throughInt back
      return { c with
        recent := recent
        resultCache := Function.update c.resultCache old none
        pos := Function.update c.pos old none }
    else return c

/-- The second part of `use`: the hash goes to the front of the list. -/
def touch (c : ResultCache) (hash : UInt64) : ResultCache :=
  { c with
    recent := c.recent.pushFront hash
    pos := Function.update c.pos hash (some (c.recent.pushFront hash).begin) }

/-- The hash was used just now. -/
def use (c : ResultCache) (hash : UInt64) : Option ResultCache := do
  let c ← c.makeRoom hash
  return c.touch hash

/-- `emplace` inserts an entry unless there is one. -/
def emplace (c : ResultCache) (hash : UInt64) (entry : Entry) : ResultCache :=
  { c with resultCache := Function.update c.resultCache hash ((c.resultCache hash).or entry) }

/-- A new decision. -/
def add (c : ResultCache) (hash : UInt64) (result : Bool) (timestamp : UInt64) :
    Option ResultCache := do
  let c ← c.use hash
  return c.emplace hash ⟨result, timestamp⟩

/-- An expired decision is dropped. -/
def dropExpired (c : ResultCache) (hash : UInt64) : Option ResultCache := do
  let it ← c.pos hash
  let recent ← c.recent.erase it
  return { c with
    recent := recent
    pos := Function.update c.pos hash none
    resultCache := Function.update c.resultCache hash none }

/-- The look-up of a hash: the cached decision, if there is a valid one, and the cache after it. -/
def lookup (c : ResultCache) (hash : UInt64) (timestamp : UInt64) :
    Option (Option Bool × ResultCache) :=
  match c.resultCache hash with
  | none => some (none, c)
  | some entry =>
    if entry.timestamp + c.validForNanosec > timestamp then do
      let c ← c.use hash
      -- the code reads the decision through a reference into the map
      let entry ← c.resultCache hash
      return (some entry.result, c)
    else do
      let c ← c.dropExpired hash
      return (none, c)

/-- What `check` reports: the hash of the payload, and the decision on a hit. -/
structure CheckResult where
  hash : UInt64
  allowed : Option Bool
  deriving DecidableEq, Repr

def check (stdHash : Bytes → UInt64) (c : ResultCache) (param : Payload) (timestamp : UInt64) :
    Option (CheckResult × ResultCache) := do
  let (allowed, c) ← c.lookup (computeHash stdHash param) timestamp
  return (⟨computeHash stdHash param, allowed⟩, c)

end ResultCache

/-- The public calls of the cache. -/
inductive CacheOp where
  | check (payload : Payload) (timestamp : UInt64)
  | add (hash : UInt64) (result : Bool) (timestamp : UInt64)
  deriving DecidableEq, Repr

/-- The cache under its public calls; a step is missing where the behaviour is undefined. -/
def cacheMachine (stdHash : Bytes → UInt64) : Machine ResultCache CacheOp where
  next c
    | .check payload timestamp => (c.check stdHash payload timestamp).map Prod.snd
    | .add hash result timestamp => c.add hash result timestamp

end OpenPolicyAgent

end WasmExtensions
