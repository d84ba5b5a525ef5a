import WasmExtensions.Machine.Basic
import Mathlib.Data.Finset.Card
import Mathlib.Tactic.Linarith

/-!
# The token bucket, abstractly

What a token bucket is for: not more than so many tokens are handed out in so much time.  Here the
bucket is a *ledger* with atomic operations.  Several parties share it: a party first claims the
right to add tokens, at least `interval` after the last claim, and later adds them or gives the
claim up.

## Main definitions

* `Ledger V` : the tokens in the bucket, the last claim, the parties that owe a refill, and the
  times at which tokens were taken and refills were claimed.
* `Ledger.machine rate interval` : the operations `take`, `claim`, `pay`, `drop` and `tick`.
* `Ledger.takes_le` : **in every run at most `B₀ + rate * (1 + (T - t₀) / interval)` tokens are
  taken up to time `T`**.
-/

namespace WasmExtensions

/-- A token bucket shared by the parties `V`. -/
structure Ledger (V : Type*) where
  /-- The tokens in the bucket. -/
  tokens : ℕ
  /-- The time of the last claim. -/
  last : ℕ
  clock : ℕ
  /-- The parties that have claimed a refill and not added it yet. -/
  owed : Finset V
  /-- The times at which tokens were taken, latest first. -/
  takes : List ℕ
  /-- The times of the claims, latest first. -/
  claims : List ℕ

namespace Ledger

variable {V : Type*}

/-- The operations on a ledger. -/
inductive Op (V : Type*) where
  /-- A token is taken. -/
  | take
  /-- The party `v` claims a refill for the time `now`. -/
  | claim (v : V) (now : ℕ)
  /-- The party `v` makes use of its claim: there are `tokens` in the bucket now. -/
  | pay (v : V) (tokens : ℕ)
  /-- The party `v` gives up its claim. -/
  | drop (v : V)
  /-- Time passes. -/
  | tick (now : ℕ)

/-- A bucket with `B₀` tokens at time `t₀`; no refill has been claimed. -/
def start (B₀ t₀ : ℕ) : Ledger V := ⟨B₀, 0, t₀, ∅, [], []⟩

/-- The number of times in `ts` up to `T`. -/
def upTo (T : ℕ) (ts : List ℕ) : ℕ := ts.countP fun t => t ≤ T

variable [DecidableEq V]

/-- The operations.  A claim is for a time since the start `t₀` of the ledger that has come and is
at least `interval` after the last claim; a refill adds at most `rate` tokens. -/
def machine (rate interval t₀ : ℕ) : Machine (Ledger V) (Op V) where
  next l
    | .take =>
      if l.tokens = 0 then none
      else some { l with tokens := l.tokens - 1, takes := l.clock :: l.takes }
    | .claim v now =>
      if v ∉ l.owed ∧ l.last + interval ≤ now ∧ t₀ ≤ now ∧ now ≤ l.clock then
        some { l with last := now, owed := insert v l.owed, claims := now :: l.claims }
      else none
    | .pay v tokens =>
      if v ∈ l.owed ∧ tokens ≤ l.tokens + rate then
        some { l with tokens := tokens, owed := l.owed.erase v }
      else none
    | .drop v => some { l with owed := l.owed.erase v }
    | .tick now => if l.clock ≤ now then some { l with clock := now } else none

section

variable {rate interval t₀ : ℕ} {l : Ledger V}

theorem next_take (h0 : l.tokens ≠ 0) : (machine rate interval t₀).next l .take =
    some { l with tokens := l.tokens - 1, takes := l.clock :: l.takes } :=
  if_neg h0

theorem next_claim {v : V} {now : ℕ} (hv : v ∉ l.owed) (hlast : l.last + interval ≤ now)
    (hstart : t₀ ≤ now) (hnow : now ≤ l.clock) :
    (machine rate interval t₀).next l (.claim v now) =
      some { l with last := now, owed := insert v l.owed, claims := now :: l.claims } :=
  if_pos ⟨hv, hlast, hstart, hnow⟩

theorem next_pay {v : V} {tokens : ℕ} (hv : v ∈ l.owed) (htokens : tokens ≤ l.tokens + rate) :
    (machine rate interval t₀).next l (.pay v tokens) =
      some { l with tokens := tokens, owed := l.owed.erase v } :=
  if_pos ⟨hv, htokens⟩

end

theorem upTo_cons_of_le {T t : ℕ} (h : t ≤ T) (ts : List ℕ) :
    upTo T (t :: ts) = upTo T ts + 1 :=
  List.countP_cons_of_pos (by simpa using h)

theorem upTo_cons_of_lt {T t : ℕ} (h : T < t) (ts : List ℕ) : upTo T (t :: ts) = upTo T ts :=
  List.countP_cons_of_neg (by simpa using h)

theorem upTo_le_upTo_cons (T t : ℕ) (ts : List ℕ) : upTo T ts ≤ upTo T (t :: ts) := by
  rcases le_or_gt t T with h | h
  · rw [upTo_cons_of_le h]; exact Nat.le_succ _
  · rw [upTo_cons_of_lt h]

theorem upTo_eq_length {T : ℕ} {ts : List ℕ} (h : ∀ t ∈ ts, t ≤ T) : upTo T ts = ts.length :=
  List.countP_eq_length.2 fun t ht => by simpa using h t ht

/-! ### The invariant -/

/-- The books of a ledger that started with `B₀` tokens at time `t₀`. -/
structure Balanced (rate interval B₀ t₀ : ℕ) (l : Ledger V) : Prop where
  /-- Taken tokens were there at the start or were added by a claimed refill. -/
  balance : l.tokens + l.takes.length + rate * l.owed.card ≤ B₀ + rate * l.claims.length
  /-- The same, up to any time. -/
  balance_upTo : ∀ T, upTo T l.takes ≤ B₀ + rate * upTo T l.claims
  takes_le : ∀ t ∈ l.takes, t ≤ l.clock
  claims_le : ∀ t ∈ l.claims, t ≤ l.last
  last_le : l.last ≤ l.clock ∨ l.claims = []
  start_le : ∀ t ∈ l.claims, t₀ ≤ t
  /-- Any two claims are at least `interval` apart. -/
  spaced : l.claims.Pairwise fun a b => b + interval ≤ a

variable {rate interval B₀ t₀ : ℕ} {l l' : Ledger V}

omit [DecidableEq V] in
theorem balanced_start : Balanced rate interval B₀ t₀ (start B₀ t₀ : Ledger V) where
  balance := by simp [start]
  balance_upTo T := by simp [start, upTo]
  takes_le := by simp [start]
  claims_le := by simp [start]
  last_le := .inr rfl
  start_le := by simp [start]
  spaced := .nil

namespace Balanced

omit [DecidableEq V] in
theorem claims_le_clock (h : Balanced rate interval B₀ t₀ l) : ∀ t ∈ l.claims, t ≤ l.clock := by
  intro t ht
  rcases h.last_le with hlast | hnil
  · exact (h.claims_le t ht).trans hlast
  · rw [hnil] at ht
    cases ht

omit [DecidableEq V] in
theorem take (h : Balanced rate interval B₀ t₀ l) (h0 : l.tokens ≠ 0) :
    Balanced rate interval B₀ t₀
      { l with tokens := l.tokens - 1, takes := l.clock :: l.takes } where
  balance := by
    have := h.balance
    simp only [List.length_cons]
    omega
  balance_upTo T := by
    rcases le_or_gt l.clock T with hT | hT
    · -- all tokens were taken and all refills claimed by now
      have hall := h.balance
      have htakes : upTo T l.takes = l.takes.length :=
        upTo_eq_length fun t ht => (h.takes_le t ht).trans hT
      have hclaims : upTo T l.claims = l.claims.length :=
        upTo_eq_length fun t ht => (h.claims_le_clock t ht).trans hT
      have hpos := Nat.pos_of_ne_zero h0
      rw [upTo_cons_of_le hT, htakes, hclaims]
      omega
    · rw [upTo_cons_of_lt hT]
      exact h.balance_upTo T
  takes_le t ht := by
    rcases List.mem_cons.1 ht with rfl | ht
    · exact le_rfl
    · exact h.takes_le t ht
  claims_le := h.claims_le
  last_le := h.last_le
  start_le := h.start_le
  spaced := h.spaced

theorem claim (h : Balanced rate interval B₀ t₀ l) {v : V} {now : ℕ} (hv : v ∉ l.owed)
    (hlast : l.last + interval ≤ now) (hstart : t₀ ≤ now) (hnow : now ≤ l.clock) :
    Balanced rate interval B₀ t₀
      { l with last := now, owed := insert v l.owed, claims := now :: l.claims } where
  balance := by
    have := h.balance
    simp only [Finset.card_insert_of_notMem hv, List.length_cons, Nat.mul_succ]
    omega
  balance_upTo T :=
    (h.balance_upTo T).trans
      (Nat.add_le_add_left (Nat.mul_le_mul_left rate (upTo_le_upTo_cons T now l.claims)) B₀)
  takes_le := h.takes_le
  claims_le t ht := by
    rcases List.mem_cons.1 ht with rfl | ht
    · exact le_rfl
    · have := h.claims_le t ht
      show t ≤ now
      omega
  last_le := .inl hnow
  start_le t ht := by
    rcases List.mem_cons.1 ht with rfl | ht
    · exact hstart
    · exact h.start_le t ht
  spaced := by
    refine List.pairwise_cons.2 ⟨fun t ht => ?_, h.spaced⟩
    exact (Nat.add_le_add_right (h.claims_le t ht) interval).trans hlast

theorem pay (h : Balanced rate interval B₀ t₀ l) {v : V} {tokens : ℕ} (hv : v ∈ l.owed)
    (htokens : tokens ≤ l.tokens + rate) :
    Balanced rate interval B₀ t₀ { l with tokens := tokens, owed := l.owed.erase v } where
  balance := by
    have hbal := h.balance
    rw [← Finset.card_erase_add_one hv, Nat.mul_succ] at hbal
    show tokens + l.takes.length + rate * (l.owed.erase v).card ≤ B₀ + rate * l.claims.length
    omega
  balance_upTo := h.balance_upTo
  takes_le := h.takes_le
  claims_le := h.claims_le
  last_le := h.last_le
  start_le := h.start_le
  spaced := h.spaced

theorem drop (h : Balanced rate interval B₀ t₀ l) (v : V) :
    Balanced rate interval B₀ t₀ { l with owed := l.owed.erase v } where
  balance := by
    have hbal := h.balance
    have hcard := Nat.mul_le_mul_left rate (Finset.card_erase_le (s := l.owed) (a := v))
    show l.tokens + l.takes.length + rate * (l.owed.erase v).card ≤ B₀ + rate * l.claims.length
    omega
  balance_upTo := h.balance_upTo
  takes_le := h.takes_le
  claims_le := h.claims_le
  last_le := h.last_le
  start_le := h.start_le
  spaced := h.spaced

omit [DecidableEq V] in
theorem tick (h : Balanced rate interval B₀ t₀ l) {now : ℕ} (hnow : l.clock ≤ now) :
    Balanced rate interval B₀ t₀ { l with clock := now } where
  balance := h.balance
  balance_upTo := h.balance_upTo
  takes_le t ht := (h.takes_le t ht).trans hnow
  claims_le := h.claims_le
  last_le := h.last_le.imp_left fun hlast => hlast.trans hnow
  start_le := h.start_le
  spaced := h.spaced

end Balanced

theorem balanced_of_next {op : Op V} (h : Balanced rate interval B₀ t₀ l)
    (hn : (machine rate interval t₀).next l op = some l') : Balanced rate interval B₀ t₀ l' := by
  cases op with
  | take =>
    simp only [machine] at hn
    split_ifs at hn with h0
    cases hn
    exact h.take h0
  | claim v now =>
    simp only [machine] at hn
    split_ifs at hn with hg
    cases hn
    exact h.claim hg.1 hg.2.1 hg.2.2.1 hg.2.2.2
  | pay v tokens =>
    simp only [machine] at hn
    split_ifs at hn with hg
    cases hn
    exact h.pay hg.1 hg.2
  | drop v =>
    cases hn
    exact h.drop v
  | tick now =>
    simp only [machine] at hn
    split_ifs at hn with hnow
    cases hn
    exact h.tick hnow

theorem balanced_of_reaches {C : Ledger V → Op V → Prop}
    (h : (machine rate interval t₀).Reaches C (start B₀ t₀) l) :
    Balanced rate interval B₀ t₀ l :=
  h.invariant balanced_start fun _ _ _ hl _ hn => balanced_of_next hl hn

/-! ### The rate bound -/

/-- Times that are at least `interval` apart and not before `t₀`: the latest comes late. -/
theorem add_mul_le_of_spaced {interval t₀ t : ℕ} {ts : List ℕ}
    (hs : (t :: ts).Pairwise fun a b => b + interval ≤ a) (h₀ : ∀ a ∈ t :: ts, t₀ ≤ a) :
    t₀ + interval * ts.length ≤ t := by
  induction ts generalizing t with
  | nil => simpa using h₀ t
  | cons b ts ih =>
    rw [List.pairwise_cons] at hs
    have hb := ih hs.2 fun a ha => h₀ a (List.mem_cons_of_mem t ha)
    have hbt := hs.1 b (List.mem_cons_self ..)
    rw [List.length_cons, Nat.mul_succ]
    omega

/-- There is room for `1 + (T - t₀) / interval` such times up to `T`. -/
theorem upTo_le_of_spaced {interval t₀ : ℕ} {ts : List ℕ} (hpos : 0 < interval)
    (hs : ts.Pairwise fun a b => b + interval ≤ a) (h₀ : ∀ a ∈ ts, t₀ ≤ a) (T : ℕ) :
    upTo T ts ≤ 1 + (T - t₀) / interval := by
  rw [upTo, List.countP_eq_length_filter]
  have hle : ∀ a ∈ ts.filter fun t => t ≤ T, a ≤ T :=
    fun a ha => by simpa using (List.mem_filter.1 ha).2
  have h₀ : ∀ a ∈ ts.filter fun t => t ≤ T, t₀ ≤ a := fun a ha => h₀ a (List.mem_filter.1 ha).1
  have hs := hs.filter fun t => t ≤ T
  cases hts : ts.filter fun t => t ≤ T with
  | nil => simp
  | cons t rest =>
    rw [hts] at hle h₀ hs
    have hspan := add_mul_le_of_spaced hs h₀
    have htT := hle t (List.mem_cons_self ..)
    have hdiv : rest.length ≤ (T - t₀) / interval :=
      (Nat.le_div_iff_mul_le hpos).2 (by rw [Nat.mul_comm]; omega)
    rw [List.length_cons]
    omega

/-- **The rate bound**: what is taken up to `T` was there at the start or was added by one of the
refills for which there was time. -/
theorem takes_le {C : Ledger V → Op V → Prop} (hpos : 0 < interval)
    (h : (machine rate interval t₀).Reaches C (start B₀ t₀) l) (T : ℕ) :
    upTo T l.takes ≤ B₀ + rate * (1 + (T - t₀) / interval) := by
  have hl := balanced_of_reaches h
  refine (hl.balance_upTo T).trans (Nat.add_le_add_left (Nat.mul_le_mul_left rate ?_) B₀)
  exact upTo_le_of_spaced hpos hl.spaced hl.start_le T

end Ledger

end WasmExtensions
