import WasmExtensions.Common.Base64

/-!
# The decoder stays in bounds

The decoder indexes its input, changes the last byte of its result and asserts the length of the
result.  Here it is written with these checks (`Checked`): it fails where an index is out of range,
where there is no last byte, and where the assertion does not hold.

* `Checked.decodeWithoutPadding_safe` : **no check ever fails.**
-/

namespace WasmExtensions

namespace Base64

namespace Checked

/-- What must not happen. -/
inductive Fault where
  | outOfRange
  | emptyBack
  | assertion
  deriving DecidableEq, Repr

/-- `input[i]`. -/
def index (input : Bytes) (i : ℕ) : Except Fault UInt8 :=
  match input[i]? with
  | some c => .ok c
  | none => .error .outOfRange

/-- `ret.back() |= c`. -/
def orBack (c : UInt8) (ret : Bytes) : Except Fault Bytes :=
  if ret.isEmpty then .error .emptyBack else .ok (Base64.orBack c ret)

/-- `none` if the character is not valid. -/
def decodeBase (curChar : UInt8) (pos : ℕ) (ret : Bytes) : Except Fault (Option Bytes) :=
  let c := reverseLookup curChar
  if c = 64 then .ok none
  else
    match pos % 4 with
    | 0 => .ok (some (ret ++ [c <<< 2]))
    | 1 => (orBack (c >>> 4) ret).map fun ret => some (ret ++ [c <<< 4])
    | 2 => (orBack (c >>> 2) ret).map fun ret => some (ret ++ [c <<< 6])
    | _ => (orBack c ret).map some

/-- The last byte is changed before the unused bits are looked at. -/
def decodeLast (curChar : UInt8) (pos : ℕ) (ret : Bytes) : Except Fault (Option Bytes) :=
  let c := reverseLookup curChar
  if c = 64 then .ok none
  else
    match pos % 4 with
    | 0 => .ok none
    | 1 => (orBack (c >>> 4) ret).map fun ret => if c &&& 0x0f = 0 then some ret else none
    | 2 => (orBack (c >>> 2) ret).map fun ret => if c &&& 0x03 = 0 then some ret else none
    | _ => (orBack c ret).map some

/-- At most last two chars can be '='. -/
def contentLength (input : Bytes) : Except Fault ℕ := do
  let n := input.length
  if (← index input (n - 1)) = '='.toUInt8 then
    let n := n - 1
    if 0 < n then return if (← index input (n - 1)) = '='.toUInt8 then n - 1 else n
    else return n
  else return n

/-- The loop, from `i` to below `last`. -/
def decodeLoop (input : Bytes) (last i : ℕ) (ret : Bytes) : Except Fault (Option Bytes) := do
  if i < last then
    match ← decodeBase (← index input i) i ret with
    | none => return none
    | some ret => decodeLoop input last (i + 1) ret
  else return some ret
termination_by last - i

def decodeWithoutPadding (input : Bytes) : Except Fault Bytes := do
  if input.isEmpty then return []
  let n ← contentLength input
  let last := if n = 0 then 2 ^ 64 - 1 else n - 1
  match ← decodeLoop input last 0 [] with
  | none => return []
  | some ret =>
    match ← decodeLast (← index input last) last ret with
    | none => return []
    | some ret => if ret.length = maxLength n then return ret else throw .assertion

variable {c : UInt8} {i last : ℕ} {input ret ret' : Bytes}

theorem index_eq (h : i < input.length) : index input i = .ok input[i] := by
  rw [index, List.getElem?_eq_getElem h]

theorem orBack_eq (h : 0 < ret.length) : orBack c ret = .ok (Base64.orBack c ret) := by
  rw [orBack, if_neg]
  simpa [← List.length_pos_iff_ne_nil] using h

theorem length_orBack : (Base64.orBack c ret).length = ret.length := by
  rcases List.eq_nil_or_concat' ret with rfl | ⟨front, b, rfl⟩
  · rfl
  · rw [orBack_concat]
    simp

/-- The number of bytes after `i` characters. -/
def decodedLength (i : ℕ) : ℕ := i / 4 * 3 + i % 4

/-- Only the first of four characters finds the bytes complete, so the others have a last byte to
change. -/
theorem length_pos_of_mod (hret : ret.length = decodedLength i) (h : i % 4 ≠ 0) :
    0 < ret.length := by
  rw [hret, decodedLength]
  omega

theorem mod_four_cases (i : ℕ) : i % 4 = 0 ∨ i % 4 = 1 ∨ i % 4 = 2 ∨ i % 4 = 3 := by omega

theorem decodeBase_eq (hret : ret.length = decodedLength i) :
    decodeBase c i ret = .ok (Base64.decodeBase c i ret) := by
  have hback := fun h d => orBack_eq (c := d) (length_pos_of_mod hret h)
  rcases mod_four_cases i with h | h | h | h
  · simp only [decodeBase, Base64.decodeBase, h]
    split_ifs <;> rfl
  all_goals
    simp only [decodeBase, Base64.decodeBase, h, hback (by omega)]
    split_ifs <;> rfl

theorem decodeLast_eq (hret : ret.length = decodedLength i) :
    decodeLast c i ret = .ok (Base64.decodeLast c i ret) := by
  have hback := fun h d => orBack_eq (c := d) (length_pos_of_mod hret h)
  rcases mod_four_cases i with h | h | h | h
  · simp only [decodeLast, Base64.decodeLast, h]
    split_ifs <;> rfl
  all_goals
    simp only [decodeLast, Base64.decodeLast, h, hback (by omega)]
    split_ifs <;> rfl

/-- One more character, one more byte, except for the fourth. -/
theorem length_decodeBase (hret : ret.length = decodedLength i)
    (h : Base64.decodeBase c i ret = some ret') : ret'.length = decodedLength (i + 1) := by
  have hlength : ret'.length = ret.length + if i % 4 = 3 then 0 else 1 := by
    rcases mod_four_cases i with hmod | hmod | hmod | hmod
    all_goals
      simp only [Base64.decodeBase, hmod] at h
      split_ifs at h
      cases h
      simp [length_orBack, hmod]
  rw [hlength, hret, decodedLength, decodedLength]
  split_ifs <;> omega

/-- The last character adds no byte, and is not the first of four. -/
theorem length_decodeLast (h : Base64.decodeLast c i ret = some ret') :
    ret'.length = ret.length ∧ i % 4 ≠ 0 := by
  rcases mod_four_cases i with hmod | hmod | hmod | hmod
  · simp [Base64.decodeLast, hmod] at h
  all_goals
    simp only [Base64.decodeLast, hmod] at h
    split_ifs at h
    cases h
    exact ⟨length_orBack, by omega⟩

/-- The assertion holds after the last character. -/
theorem maxLength_eq (h : i % 4 ≠ 0) : maxLength (i + 1) = decodedLength i := by
  simp only [maxLength, decodedLength]
  split_ifs <;> omega

/-- Up to the length of the input, the loop decodes the characters one after the other. -/
theorem decodeLoop_eq (hlast : last ≤ input.length) (hi : i ≤ last)
    (hret : ret.length = decodedLength i) :
    decodeLoop input last i ret = .ok (Base64.decodeLoop i ret ((input.take last).drop i)) ∧
      ∀ ret', Base64.decodeLoop i ret ((input.take last).drop i) = some ret' →
        ret'.length = decodedLength last := by
  -- The length of the result is what keeps `back` away from an empty one.
  induction hn : last - i generalizing i ret with
  | zero =>
    obtain rfl : i = last := by omega
    rw [decodeLoop, if_neg (Nat.lt_irrefl i), List.drop_of_length_le (by simp)]
    refine ⟨rfl, ?_⟩
    rintro ret' ⟨⟩
    exact hret
  | succ n ih =>
    have hlt : i < last := by omega
    have htake : i < (input.take last).length := by
      rw [List.length_take]
      omega
    have hstep : (input.take last).drop i = input[i] :: (input.take last).drop (i + 1) := by
      rw [List.drop_eq_getElem_cons htake, List.getElem_take]
    rw [decodeLoop, if_pos hlt, index_eq (by omega), hstep, Base64.decodeLoop]
    simp only [bind, Except.bind, decodeBase_eq hret]
    cases hbase : Base64.decodeBase input[i] i ret with
    | none => exact ⟨rfl, by simp⟩
    | some ret' => exact ih (by omega) (length_decodeBase hret hbase) (by omega)

theorem contentLength_eq (h : input ≠ []) :
    contentLength input = .ok (Base64.contentLength input) := by
  have hpos : 0 < input.length := List.length_pos_iff_ne_nil.2 h
  have hlast : input.length - 1 < input.length := by omega
  simp only [contentLength, Base64.contentLength, index_eq hlast, List.getElem?_eq_getElem hlast,
    Option.some.injEq, bind, Except.bind]
  by_cases hpad : input[input.length - 1] = '='.toUInt8
  · rw [if_pos hpad, if_pos hpad]
    by_cases hmore : 0 < input.length - 1
    · have hprev : input.length - 1 - 1 < input.length := by omega
      simp only [hmore, if_true, true_and, index_eq hprev, List.getElem?_eq_getElem hprev,
        Option.some.injEq]
      rfl
    · simp only [hmore, if_false, false_and]
      rfl
  · rw [if_neg hpad, if_neg hpad]
    rfl

/-- If there is nothing but padding, the loop stops at the first character. -/
theorem decodeLoop_padding (hpadding : input[0]? = some '='.toUInt8) (hlast : 0 < last) :
    decodeLoop input last 0 [] = .ok none := by
  rw [decodeLoop, if_pos hlast]
  simp only [index, hpadding]
  rfl

/-- **No check ever fails**: the decoder stays in bounds on every input. -/
theorem decodeWithoutPadding_safe (input : Bytes) :
    decodeWithoutPadding input = .ok (Base64.decodeWithoutPadding input) := by
  cases input with
  | nil => rfl
  | cons c rest =>
    have hle := contentLength_le (c :: rest)
    simp only [decodeWithoutPadding, Base64.decodeWithoutPadding, List.isEmpty_cons,
      Bool.false_eq_true, if_false, contentLength_eq (List.cons_ne_nil c rest), bind, Except.bind]
    by_cases hzero : Base64.contentLength (c :: rest) = 0
    · -- the position of the last character wraps around
      have hnone := take_contentLength (c :: rest)
      rw [hzero, List.take_zero] at hnone
      have hpadding : (c :: rest)[0]? = some '='.toUInt8 := by
        rw [← head_of_removePadding hnone.symm]
        rfl
      have hdecode := Base64.decodeWithoutPadding_eq (c :: rest)
      rw [← hnone] at hdecode
      simp only [Base64.decodeWithoutPadding, List.isEmpty_cons, Bool.false_eq_true, if_false]
        at hdecode
      rw [hdecode, if_pos hzero, decodeLoop_padding hpadding (by decide)]
      rfl
    · rw [if_neg hzero]
      have hlt : Base64.contentLength (c :: rest) - 1 < (c :: rest).length := by omega
      have hempty : ([] : Bytes).length = decodedLength 0 := rfl
      obtain ⟨hloop, hlength⟩ := decodeLoop_eq (Nat.le_of_lt hlt) (Nat.zero_le _) hempty
      rw [List.drop_zero] at hloop hlength
      rw [hloop, List.getElem?_eq_getElem hlt]
      cases hret : Base64.decodeLoop 0 [] ((c :: rest).take (Base64.contentLength (c :: rest) - 1))
        with
      | none => rfl
      | some ret =>
        simp only [index_eq hlt, decodeLast_eq (hlength ret hret)]
        cases hlast : Base64.decodeLast (c :: rest)[Base64.contentLength (c :: rest) - 1]
          (Base64.contentLength (c :: rest) - 1) ret with
        | none => rfl
        | some ret' =>
          -- The assertion is reached.
          obtain ⟨hsame, hmod⟩ := length_decodeLast hlast
          have hmax : ret'.length = maxLength (Base64.contentLength (c :: rest)) := by
            rw [hsame, hlength ret hret, ← maxLength_eq hmod]
            congr 1
            omega
          simp only [if_pos hmax]
          rfl

end Checked

end Base64

end WasmExtensions
