import WasmExtensions.OpenPolicyAgent.Cache
import Mathlib.Data.List.Perm.Basic

/-!
# Which payloads share a key of the cache

`computeHash` adds up the hashes of the fields of a payload, each multiplied by the same constant.
The sum forgets which field a string belongs to: two payloads have the same key under every string
hash **if and only if** one is a rearrangement of the other (`computeHash_eq_iff_perm`).  So a
decision may be served to another payload whose fields are the same strings in other places
(`computeHash_swap`), and to no further payload without a collision of the string hash.
-/

namespace WasmExtensions

namespace OpenPolicyAgent

/-- The fields of a payload in the order in which they are hashed. -/
def Payload.fields (p : Payload) : List Bytes :=
  [p.sourcePrincipal, p.destinationWorkload, p.requestMethod, p.requestUrlPath]

/-- The sum of the hashes of some strings. -/
def hashSum (stdHash : Bytes → UInt64) (strings : List Bytes) : UInt64 :=
  strings.foldr (fun x sum => stdHash x * kMul + sum) 0

theorem computeHash_eq (stdHash : Bytes → UInt64) (p : Payload) :
    computeHash stdHash p = hashSum stdHash p.fields := by
  simp only [computeHash, hashSum, Payload.fields, List.foldr_cons, List.foldr_nil,
    UInt64.add_assoc, UInt64.add_zero, UInt64.zero_add]

/-- The sum does not depend on the order of the strings. -/
theorem hashSum_perm (stdHash : Bytes → UInt64) {xs ys : List Bytes} (h : xs.Perm ys) :
    hashSum stdHash xs = hashSum stdHash ys := by
  induction h with
  | nil => rfl
  | cons x _ ih => simpa only [hashSum, List.foldr_cons] using congrArg (stdHash x * kMul + ·) ih
  | swap x y xs =>
    simp only [hashSum, List.foldr_cons, ← UInt64.add_assoc]
    rw [UInt64.add_comm (stdHash y * kMul)]
  | trans _ _ ih₁ ih₂ => exact ih₁.trans ih₂

/-- A string hash that tells one string from all others. -/
def indicator (a : Bytes) (x : Bytes) : UInt64 := if x = a then 1 else 0

/-- Under an indicator the sum counts the occurrences of a string. -/
theorem hashSum_indicator (a : Bytes) (xs : List Bytes) :
    hashSum (indicator a) xs = UInt64.ofNat (xs.count a) * kMul := by
  induction xs with
  | nil => simp [hashSum]
  | cons x xs ih =>
    have hcons : hashSum (indicator a) (x :: xs) =
        indicator a x * kMul + hashSum (indicator a) xs := rfl
    rw [hcons, ih, List.count_cons, indicator]
    by_cases hx : x = a
    · rw [if_pos hx, if_pos (by simpa using hx), UInt64.ofNat_add, UInt64.add_mul,
        UInt64.add_comm]
      rfl
    · rw [if_neg hx, if_neg (by simpa using hx), UInt64.zero_mul, UInt64.zero_add, Nat.add_zero]

/-- The multiplier is odd, so multiplying by it loses nothing. -/
theorem mul_kMul_inj {x y : UInt64} (h : x * kMul = y * kMul) : x = y := by
  have hinv : kMul * 0xdc56e6f5090b32d9 = 1 := by decide
  have hmul := congrArg (· * 0xdc56e6f5090b32d9) h
  simpa only [UInt64.mul_assoc, hinv, UInt64.mul_one] using hmul

/-- **Two payloads have the same key under every string hash exactly if their fields are the same
strings up to their order.** -/
theorem computeHash_eq_iff_perm (p q : Payload) :
    (∀ stdHash, computeHash stdHash p = computeHash stdHash q) ↔ p.fields.Perm q.fields := by
  constructor
  · intro h
    refine List.perm_iff_count.2 fun a => ?_
    have hcount := h (indicator a)
    rw [computeHash_eq, computeHash_eq, hashSum_indicator, hashSum_indicator] at hcount
    have hnat := congrArg UInt64.toNat (mul_kMul_inj hcount)
    -- there are four fields, so the counts do not wrap around
    have hp : p.fields.count a ≤ 4 := List.count_le_length
    have hq : q.fields.count a ≤ 4 := List.count_le_length
    rw [UInt64.toNat_ofNat', UInt64.toNat_ofNat', Nat.mod_eq_of_lt (by omega),
      Nat.mod_eq_of_lt (by omega)] at hnat
    exact hnat
  · intro h stdHash
    rw [computeHash_eq, computeHash_eq]
    exact hashSum_perm stdHash h

/-- **The key tells a payload from another one exactly if the other one is not a rearrangement of
its fields.** -/
theorem computeHash_injective_iff (p q : Payload) :
    ((∀ stdHash, computeHash stdHash p = computeHash stdHash q) → p = q) ↔
      (p = q ∨ ¬ p.fields.Perm q.fields) := by
  rw [computeHash_eq_iff_perm]
  exact imp_iff_or_not

/-- **A `GET` of the path `POST` and a `POST` of the path `GET` have the same key.** -/
theorem computeHash_swap : ¬ ∀ p q : Payload,
    (∀ stdHash, computeHash stdHash p = computeHash stdHash q) → p = q := by
  intro h
  have hswap := h ⟨bytes "client", bytes "server", bytes "GET", bytes "POST"⟩
    ⟨bytes "client", bytes "server", bytes "POST", bytes "GET"⟩ fun stdHash => by
      rw [computeHash_eq, computeHash_eq]
      exact hashSum_perm stdHash (((List.Perm.swap ..).cons _).cons _)
  exact absurd hswap (by decide)

end OpenPolicyAgent

end WasmExtensions
