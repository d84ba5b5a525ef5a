import WasmExtensions.Machine.Basic

/-!
# The token bucket as an atomic object

A bucket that does one operation at a time.  A request takes a token, is refused since there is
none, or is let through without one; and a party that wants to refill the bucket does so, or finds
that it is not its turn.  A concurrent bucket is *linearizable* if the results of its operations are
those of such a bucket that does them one after the other.

* `AtomicBucket.Op` : the operations with what they decide.
* `AtomicBucket.machine refill` : a bucket whose number of tokens a refill changes by `refill`.
* `AtomicBucket.Does` : a bucket does operations one after the other.
-/

namespace WasmExtensions

namespace AtomicBucket

/-- An operation, with what it decides. -/
inductive Op where
  /-- A token is taken. -/
  | take
  /-- There is no token. -/
  | refuse
  /-- A request is let through without a token. -/
  | pass
  /-- The bucket is refilled. -/
  | refill
  /-- The bucket is not refilled. -/
  | skip
  deriving DecidableEq, Repr

/-- The number of tokens after an operation; `none` if it cannot decide so. -/
def machine (refill : ℕ → ℕ) : Machine ℕ Op where
  next tokens
    | .take => if tokens = 0 then none else some (tokens - 1)
    | .refuse => if tokens = 0 then some tokens else none
    | .pass => some tokens
    | .refill => some (refill tokens)
    | .skip => some tokens

/-- The bucket does the operations `ops` one after the other. -/
def Does (refill : ℕ → ℕ) (tokens : ℕ) (ops : List Op) (tokens' : ℕ) : Prop :=
  (machine refill).run (fun _ _ => True) tokens ops = some tokens'

variable {refill : ℕ → ℕ} {tokens tokens' tokens'' : ℕ} {ops ops' : List Op} {op : Op}

theorem does_nil : Does refill tokens [] tokens := rfl

theorem Does.concat (h : Does refill tokens ops tokens')
    (hn : (machine refill).next tokens' op = some tokens'') :
    Does refill tokens (ops ++ [op]) tokens'' :=
  (Machine.run_concat h trivial).trans hn

end AtomicBucket

end WasmExtensions
