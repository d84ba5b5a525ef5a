import WasmExtensions.Common.Bytes
import WasmExtensions.Sextets.Basic
import Mathlib.Tactic.ByContra
import Mathlib.Tactic.SplitIfs

/-!
# Base64

The codec of `base64.h`.  Characters are looked up in a table; the decoder accepts a text without
its padding, of which at most two characters are removed at the end.

* `decodeWithoutPadding_eq_iff` : a text is decoded to `x` exactly if, without its padding, it is
  the encoding of `x`.
* `length_decode` : the length that the decoder asserts at its end.
-/

namespace WasmExtensions

namespace Base64

def charTable : Bytes :=
  bytes "ABCDEFGHIJKLMNOPQRSTUVWXYZabcdefghijklmnopqrstuvwxyz0123456789+/"

def reverseLookupTable : List UInt8 :=
  [
    64, 64, 64, 64, 64, 64, 64, 64, 64, 64, 64, 64, 64, 64, 64, 64, 64, 64, 64, 64, 64, 64, 64, 64,
    64, 64, 64, 64, 64, 64, 64, 64, 64, 64, 64, 64, 64, 64, 64, 64, 64, 64, 64, 62, 64, 64, 64, 63,
    52, 53, 54, 55, 56, 57, 58, 59, 60, 61, 64, 64, 64, 64, 64, 64, 64, 0, 1, 2, 3, 4, 5, 6,
    7, 8, 9, 10, 11, 12, 13, 14, 15, 16, 17, 18, 19, 20, 21, 22, 23, 24, 25, 64, 64, 64, 64, 64,
    64, 26, 27, 28, 29, 30, 31, 32, 33, 34, 35, 36, 37, 38, 39, 40, 41, 42, 43, 44, 45, 46, 47, 48,
    49, 50, 51, 64, 64, 64, 64, 64, 64, 64, 64, 64, 64, 64, 64, 64, 64, 64, 64, 64, 64, 64, 64, 64,
    64, 64, 64, 64, 64, 64, 64, 64, 64, 64, 64, 64, 64, 64, 64, 64, 64, 64, 64, 64, 64, 64, 64, 64,
    64, 64, 64, 64, 64, 64, 64, 64, 64, 64, 64, 64, 64, 64, 64, 64, 64, 64, 64, 64, 64, 64, 64, 64,
    64, 64, 64, 64, 64, 64, 64, 64, 64, 64, 64, 64, 64, 64, 64, 64, 64, 64, 64, 64, 64, 64, 64, 64,
    64, 64, 64, 64, 64, 64, 64, 64, 64, 64, 64, 64, 64, 64, 64, 64, 64, 64, 64, 64, 64, 64, 64, 64,
    64, 64, 64, 64, 64, 64, 64, 64, 64, 64, 64, 64, 64, 64, 64, 64]

/-- The entry of `char_table`; it is only looked up for sextets. -/
def char (c : UInt8) : UInt8 := charTable.getD c.toNat 0

/-- The entry of `reverse_lookup_table`. -/
def reverseLookup (c : UInt8) : UInt8 := reverseLookupTable.getD c.toNat 64

/-- `ret.back() |= c`. -/
def orBack (c : UInt8) (ret : Bytes) : Bytes :=
  ret.dropLast ++ (ret.getLast?.map fun back => back ||| c).toList

/-- One character that is not the last one; `none` if it is not valid. -/
def decodeBase (curChar : UInt8) (pos : ℕ) (ret : Bytes) : Option Bytes :=
  let c := reverseLookup curChar
  if c = 64 then none
  else
    match pos % 4 with
    | 0 => some (ret ++ [c <<< 2])
    | 1 => some (orBack (c >>> 4) ret ++ [c <<< 4])
    | 2 => some (orBack (c >>> 2) ret ++ [c <<< 6])
    | _ => some (orBack c ret)

/-- The last character, whose unused bits have to be zero. -/
def decodeLast (curChar : UInt8) (pos : ℕ) (ret : Bytes) : Option Bytes :=
  let c := reverseLookup curChar
  if c = 64 then none
  else
    match pos % 4 with
    | 0 => none
    | 1 => if c &&& 0x0f = 0 then some (orBack (c >>> 4) ret) else none
    | 2 => if c &&& 0x03 = 0 then some (orBack (c >>> 2) ret) else none
    | _ => some (orBack c ret)

/-- The `next_c` afterwards, and the text. -/
def encodeBase (curChar : UInt8) (pos : ℕ) (nextC : UInt8) (ret : Bytes) : UInt8 × Bytes :=
  match pos % 3 with
  | 0 => ((curChar &&& 0x03) <<< 4, ret ++ [char (curChar >>> 2)])
  | 1 => ((curChar &&& 0x0f) <<< 2, ret ++ [char (nextC ||| curChar >>> 4)])
  | _ => (0, ret ++ [char (nextC ||| curChar >>> 6), char (curChar &&& 0x3f)])

def encodeLast (pos : ℕ) (lastChar : UInt8) (ret : Bytes) (addPadding : Bool) : Bytes :=
  match pos % 3 with
  | 1 => ret ++ [char lastChar] ++ if addPadding then bytes "==" else []
  | 2 => ret ++ [char lastChar] ++ if addPadding then bytes "=" else []
  | _ => ret

/-- The loop of `encode` from the position `pos` on. -/
def encodeLoop (pos : ℕ) (nextC : UInt8) (ret : Bytes) : Bytes → ℕ × UInt8 × Bytes
  | [] => (pos, nextC, ret)
  | c :: input =>
    let (nextC, ret) := encodeBase c pos nextC ret
    encodeLoop (pos + 1) nextC ret input

def encode (input : Bytes) (addPadding : Bool) : Bytes :=
  let (pos, nextC, ret) := encodeLoop 0 0 [] input
  encodeLast pos nextC ret addPadding

/-- The loop of `decodeWithoutPadding` from the position `i` on. -/
def decodeLoop (i : ℕ) (ret : Bytes) : Bytes → Option Bytes
  | [] => some ret
  | c :: input => (decodeBase c i ret).bind fun ret => decodeLoop (i + 1) ret input

/-- At most last two chars can be '='. -/
def contentLength (input : Bytes) : ℕ :=
  let n := input.length
  if input[n - 1]? = some '='.toUInt8 then
    let n := n - 1
    if 0 < n ∧ input[n - 1]? = some '='.toUInt8 then n - 1 else n
  else n

/-- `last` wraps around if there is nothing but padding; the loop stops at the first character
then. -/
def decodeWithoutPadding (input : Bytes) : Bytes :=
  if input.isEmpty then []
  else
    let n := contentLength input
    let last := if n = 0 then 2 ^ 64 - 1 else n - 1
    match decodeLoop 0 [] (input.take last) with
    | none => []
    | some ret =>
      match input[last]? with
      | none => []
      | some c => (decodeLast c last ret).getD []

example : encode (bytes "ok") true = bytes "b2s=" ∧
    decodeWithoutPadding (bytes "b2s=") = bytes "ok" ∧
    decodeWithoutPadding (bytes "b2t=") = [] := by
  decide

/-! ### Digits -/

/-- The digit of a character, if it is valid. -/
def digit (c : UInt8) : Option UInt8 :=
  if reverseLookup c = 64 then none else some (reverseLookup c)

theorem digit_table : ∀ n < 256, ∀ d, digit (UInt8.ofNat n) = some d →
    d < 64 ∧ char d = UInt8.ofNat n := by
  have h : ∀ n < 256, reverseLookup (UInt8.ofNat n) = 64 ∨
      reverseLookup (UInt8.ofNat n) < 64 ∧
        char (reverseLookup (UInt8.ofNat n)) = UInt8.ofNat n := by
    decide +kernel
  intro n hn d hd
  unfold digit at hd
  split_ifs at hd with hinvalid
  obtain rfl := Option.some.inj hd
  exact (h n hn).resolve_left hinvalid

theorem char_table : ∀ n < 64, reverseLookup (char (UInt8.ofNat n)) = UInt8.ofNat n := by
  decide +kernel

/-- The two tables are inverse. -/
theorem digit_eq_some_iff {c d : UInt8} : digit c = some d ↔ d < 64 ∧ char d = c := by
  constructor
  · intro h
    have hc : UInt8.ofNat c.toNat = c := UInt8.ofNat_toNat
    rw [← hc] at h ⊢
    exact digit_table c.toNat c.toNat_lt d h
  · rintro ⟨hlt, rfl⟩
    have hd : UInt8.ofNat d.toNat = d := UInt8.ofNat_toNat
    have hlookup : reverseLookup (char d) = d := by
      rw [← hd]
      exact char_table d.toNat (UInt8.lt_iff_toNat_lt.1 hlt)
    have hne : d ≠ 64 := by
      rintro rfl
      exact absurd hlt (by decide)
    unfold digit
    rw [hlookup, if_neg hne]

/-- The digits of a text. -/
def digits (text : Bytes) : Option (List UInt8) := text.mapM digit

theorem digits_cons {c : UInt8} {text : Bytes} : digits (c :: text) =
    (digit c).bind fun d => (digits text).map fun ds => d :: ds := by
  unfold digits
  rw [List.mapM_cons]
  cases digit c with
  | none => rfl
  | some d => cases List.mapM digit text <;> rfl

theorem digits_eq_some_iff {text : Bytes} {ds : List UInt8} :
    digits text = some ds ↔ Digits ds ∧ ds.map char = text := by
  induction text generalizing ds with
  | nil =>
    have hnil : digits [] = some [] := rfl
    rw [hnil]
    constructor
    · rintro ⟨⟩
      exact ⟨fun _ h => absurd h List.not_mem_nil, rfl⟩
    · rintro ⟨-, h⟩
      rw [List.map_eq_nil_iff.1 h]
  | cons c text ih =>
    rw [digits_cons]
    constructor
    · intro h
      obtain ⟨d, hd, h⟩ := Option.bind_eq_some_iff.1 h
      obtain ⟨ds', hds, rfl⟩ := Option.map_eq_some_iff.1 h
      obtain ⟨hlt, rfl⟩ := digit_eq_some_iff.1 hd
      obtain ⟨hdigits, rfl⟩ := ih.1 hds
      exact ⟨hdigits.cons hlt, rfl⟩
    · rintro ⟨hdigits, h⟩
      obtain ⟨d, ds', rfl, rfl, rfl⟩ := List.map_eq_cons_iff.1 h
      have hd : digit (char d) = some d :=
        digit_eq_some_iff.2 ⟨hdigits d List.mem_cons_self, rfl⟩
      have hds : digits (ds'.map char) = some ds' :=
        ih.2 ⟨fun p hp => hdigits p (List.mem_cons_of_mem _ hp), rfl⟩
      rw [hd, hds]; rfl

/-! ### Decoding -/

theorem orBack_concat {c b : UInt8} {ret : Bytes} : orBack c (ret ++ [b]) = ret ++ [b ||| c] := by
  unfold orBack
  simp

theorem decodeBase_eq {c : UInt8} {i : ℕ} {ret : Bytes} : decodeBase c i ret =
    (digit c).map fun d =>
      match i % 4 with
      | 0 => ret ++ [d <<< 2]
      | 1 => orBack (d >>> 4) ret ++ [d <<< 4]
      | 2 => orBack (d >>> 2) ret ++ [d <<< 6]
      | _ => orBack d ret := by
  simp only [decodeBase, digit]
  split_ifs
  · rfl
  · rw [Option.map_some]
    split <;> rfl

theorem decodeLast_eq {c : UInt8} {i : ℕ} {ret : Bytes} : decodeLast c i ret =
    (digit c).bind fun d =>
      match i % 4 with
      | 0 => none
      | 1 => if d &&& 0x0f = 0 then some (orBack (d >>> 4) ret) else none
      | 2 => if d &&& 0x03 = 0 then some (orBack (d >>> 2) ret) else none
      | _ => some (orBack d ret) := by
  simp only [decodeLast, digit]
  by_cases hinvalid : reverseLookup c = 64
  · rw [if_pos hinvalid, if_pos hinvalid]; rfl
  · rw [if_neg hinvalid, if_neg hinvalid]; rfl

/-- The loop and the last character. -/
def decodeAll (i : ℕ) (ret : Bytes) : Bytes → Option Bytes
  | [] => some ret
  | [c] => decodeLast c i ret
  | c :: text => (decodeBase c i ret).bind fun ret => decodeAll (i + 1) ret text

theorem decodeAll_cons {c : UInt8} {text : Bytes} {i : ℕ} {ret : Bytes} (h : text ≠ []) :
    decodeAll i ret (c :: text) =
      (decodeBase c i ret).bind fun ret => decodeAll (i + 1) ret text := by
  cases text with
  | nil => exact absurd rfl h
  | cons c' text => rfl

theorem decodeLoop_decodeLast (c : UInt8) (front : Bytes) (i : ℕ) (ret : Bytes) :
    ((decodeLoop i ret front).bind fun ret => decodeLast c (i + front.length) ret) =
      decodeAll i ret (front ++ [c]) := by
  induction front generalizing i ret with
  | nil => rfl
  | cons c' front ih =>
    rw [List.cons_append, decodeAll_cons (by simp)]
    unfold decodeLoop
    rw [Option.bind_assoc]
    congr 1
    funext ret'
    rw [← ih, List.length_cons, Nat.add_assoc, Nat.add_comm 1]

/-- The fourth character completes the third byte, whether or not it is the last one. -/
theorem decodeAll_fourth {d : UInt8} {text : Bytes} {i : ℕ} {ret : Bytes} (hi : i % 4 = 3) :
    decodeAll i ret (d :: text) =
      (digit d).bind fun s => decodeAll (i + 1) (orBack s ret) text := by
  cases text with
  | nil => simp only [decodeAll, decodeLast_eq, hi]
  | cons e text =>
    rw [decodeAll_cons (by simp)]
    simp only [decodeBase_eq, hi]
    cases digit d <;> rfl

/-- Four characters are three bytes. -/
theorem decodeAll_eq : ∀ (text : Bytes) (i : ℕ) (ret : Bytes), i % 4 = 0 →
    decodeAll i ret text = ((digits text).bind ofSextets).map fun bytes => ret ++ bytes
  | [], _, ret, _ => by simp [decodeAll, digits, ofSextets]
  | [a], i, ret, hi => by
    simp only [decodeAll, decodeLast_eq, hi, digits_cons]
    cases digit a <;> rfl
  | [a, b], i, ret, hi => by
    have h1 : (i + 1) % 4 = 1 := by omega
    simp only [decodeAll, decodeBase_eq, decodeLast_eq, hi, h1, digits_cons]
    cases digit a with
    | none => rfl
    | some p =>
      cases digit b with
      | none => rfl
      | some q =>
        simp only [Option.map_some, Option.bind_some, orBack_concat, digits, List.mapM_nil,
          Option.pure_def, ofSextets]
        split_ifs <;> rfl
  | [a, b, c], i, ret, hi => by
    have h1 : (i + 1) % 4 = 1 := by omega
    have h2 : (i + 1 + 1) % 4 = 2 := by omega
    simp only [decodeAll, decodeBase_eq, decodeLast_eq, hi, h1, h2, digits_cons]
    cases digit a with
    | none => rfl
    | some p =>
      cases digit b with
      | none => rfl
      | some q =>
        cases digit c with
        | none => rfl
        | some r =>
          simp only [Option.map_some, Option.bind_some, orBack_concat, digits, List.mapM_nil,
            Option.pure_def, ofSextets]
          split_ifs
          · simp
          · rfl
  | a :: b :: c :: d :: rest, i, ret, hi => by
    have h1 : (i + 1) % 4 = 1 := by omega
    have h2 : (i + 1 + 1) % 4 = 2 := by omega
    have h3 : (i + 1 + 1 + 1) % 4 = 3 := by omega
    have ih := fun ret => decodeAll_eq rest (i + 1 + 1 + 1 + 1) ret (by omega)
    rw [decodeAll_cons (by simp), decodeBase_eq]
    simp only [hi, digits_cons]
    cases digit a with
    | none => rfl
    | some p =>
      simp only [Option.map_some, Option.bind_some]
      rw [decodeAll_cons (by simp), decodeBase_eq]
      simp only [h1]
      cases digit b with
      | none => rfl
      | some q =>
        simp only [Option.map_some, Option.bind_some]
        rw [decodeAll_cons (by simp), decodeBase_eq]
        simp only [h2]
        cases digit c with
        | none => rfl
        | some r =>
          simp only [Option.map_some, Option.bind_some, decodeAll_fourth h3]
          cases digit d with
          | none => rfl
          | some s =>
            simp only [Option.bind_some, ih, orBack_concat]
            cases digits rest with
            | none => rfl
            | some ds =>
              simp only [Option.map_some, Option.bind_some, ofSextets]
              cases ofSextets ds with
              | none => rfl
              | some bytes => simp

/-- The text without at most `n` padding characters at its end. -/
def dropPadding : ℕ → Bytes → Bytes
  | 0, text => text
  | n + 1, text =>
    if text.getLast? = some '='.toUInt8 then dropPadding n text.dropLast else text

/-- The text without its padding. -/
def removePadding (text : Bytes) : Bytes := dropPadding 2 text

theorem dropPadding_of_getLast? {n : ℕ} {text : Bytes}
    (h : text.getLast? ≠ some '='.toUInt8) : dropPadding n text = text := by
  cases n with
  | zero => rfl
  | succ n => unfold dropPadding; rw [if_neg h]

theorem take_contentLength (input : Bytes) :
    input.take (contentLength input) = removePadding input := by
  have hlast : ∀ text : Bytes, text[text.length - 1]? = text.getLast? := fun text =>
    List.getLast?_eq_getElem?.symm
  simp only [contentLength, removePadding, dropPadding, hlast]
  by_cases h : input.getLast? = some '='.toUInt8
  · have hprev : 0 < input.length - 1 ∧ input[input.length - 1 - 1]? = some '='.toUInt8 ↔
        input.dropLast.getLast? = some '='.toUInt8 := by
      rw [← hlast, List.length_dropLast, List.getElem?_dropLast]
      constructor
      · rintro ⟨hpos, hget⟩
        rw [if_pos (by omega)]
        exact hget
      · intro hget
        split_ifs at hget with hlt
        exact ⟨by omega, hget⟩
    rw [if_pos h, if_pos h]
    simp only [hprev]
    by_cases h' : input.dropLast.getLast? = some '='.toUInt8
    · rw [if_pos h', if_pos h', List.dropLast_eq_take, List.dropLast_eq_take, List.length_take,
        List.take_take]
      congr 1
      omega
    · rw [if_neg h', if_neg h', List.dropLast_eq_take]
  · rw [if_neg h, if_neg h, List.take_length]

theorem contentLength_le (input : Bytes) : contentLength input ≤ input.length := by
  simp only [contentLength]
  split_ifs <;> omega

/-- A text that is nothing but padding starts with padding. -/
theorem head_of_removePadding {c : UInt8} {input : Bytes}
    (h : removePadding (c :: input) = []) : c = '='.toUInt8 := by
  match input with
  | [] =>
    by_contra hne
    have hlast : [c].getLast? ≠ some '='.toUInt8 := fun h => hne (Option.some.inj h)
    rw [removePadding, dropPadding_of_getLast? hlast] at h
    cases h
  | [c'] =>
    simp only [removePadding, dropPadding] at h
    split_ifs at h with hlast hlast'
    · exact Option.some.inj hlast'
    · cases h
  | c' :: c'' :: input =>
    simp only [removePadding, dropPadding] at h
    split_ifs at h
    · have hlength := congrArg List.length h
      simp at hlength
    · have hlength := congrArg List.length h
      simp at hlength

/-- The decoder reads the digits of the text without its padding. -/
theorem decodeWithoutPadding_eq (input : Bytes) : decodeWithoutPadding input =
    ((digits (removePadding input)).bind ofSextets).getD [] := by
  have htake := take_contentLength input
  have hle := contentLength_le input
  unfold decodeWithoutPadding
  cases input with
  | nil => rfl
  | cons c rest =>
    simp only [List.isEmpty_cons, Bool.false_eq_true, if_false]
    by_cases hzero : contentLength (c :: rest) = 0
    · rw [hzero, List.take_zero] at htake
      have hc := head_of_removePadding htake.symm
      have hloop : decodeLoop 0 [] ((c :: rest).take (2 ^ 64 - 1)) = none := by
        rw [List.take_cons (by decide), hc]; rfl
      rw [if_pos hzero, hloop, ← htake]; rfl
    · have hlt : contentLength (c :: rest) - 1 < (c :: rest).length := by omega
      have hfront : ((c :: rest).take (contentLength (c :: rest) - 1)).length =
          contentLength (c :: rest) - 1 := by
        rw [List.length_take]
        omega
      have hsplit : (c :: rest).take (contentLength (c :: rest) - 1) ++
          [(c :: rest)[contentLength (c :: rest) - 1]] = removePadding (c :: rest) := by
        rw [List.take_append_getElem hlt, ← htake]
        congr 1
        omega
      rw [if_neg hzero, List.getElem?_eq_getElem hlt]
      have hall := decodeLoop_decodeLast (c :: rest)[contentLength (c :: rest) - 1]
        ((c :: rest).take (contentLength (c :: rest) - 1)) 0 []
      rw [hsplit, hfront, Nat.zero_add, decodeAll_eq _ _ _ rfl] at hall
      simp only [List.nil_append, Option.map_id'] at hall
      rw [← hall]
      cases decodeLoop 0 [] ((c :: rest).take (contentLength (c :: rest) - 1)) <;> rfl

/-- The length that the decoder computes in advance, and asserts in the end. -/
def maxLength (n : ℕ) : ℕ :=
  let maxLength := (n + 3) / 4 * 3
  let maxLength := if n % 4 = 3 then maxLength - 1 else maxLength
  if n % 4 = 2 then maxLength - 2 else maxLength

/-- The assertion of the decoder holds. -/
theorem length_decode {input ret : Bytes}
    (h : (digits (removePadding input)).bind ofSextets = some ret) :
    ret.length = maxLength (contentLength input) := by
  obtain ⟨ds, hds, hret⟩ := Option.bind_eq_some_iff.1 h
  obtain ⟨hlength, hmod⟩ := length_of_ofSextets hret
  have hds' : ds.length = contentLength input := by
    have htext := congrArg List.length (digits_eq_some_iff.1 hds).2
    rw [List.length_map, ← take_contentLength, List.length_take] at htext
    have := contentLength_le input
    omega
  simp only [maxLength]
  rw [hlength, ← hds']
  split_ifs <;> omega

/-! ### Encoding -/

/-- The padding for the encoding of `n` bytes. -/
def padding (n : ℕ) : Bytes :=
  match n % 3 with
  | 1 => bytes "=="
  | 2 => bytes "="
  | _ => []

/-- The loop and the rest. -/
def encodeAll (pos : ℕ) (ret : Bytes) (input : Bytes) (addPadding : Bool) : Bytes :=
  let (pos, nextC, ret) := encodeLoop pos 0 ret input
  encodeLast pos nextC ret addPadding

/-- Three bytes are four characters. -/
theorem encodeAll_eq (addPadding : Bool) : ∀ (input : Bytes) (pos : ℕ) (ret : Bytes),
    pos % 3 = 0 → encodeAll pos ret input addPadding =
      ret ++ (toSextets input).map char ++ if addPadding then padding input.length else []
  | [], pos, ret, hpos => by
    simp only [encodeAll, encodeLoop, encodeLast, hpos, toSextets]
    cases addPadding <;> simp [padding]
  | [a], pos, ret, hpos => by
    have h1 : (pos + 1) % 3 = 1 := by omega
    simp only [encodeAll, encodeLoop, encodeBase, encodeLast, hpos, h1, toSextets]
    cases addPadding <;> simp [padding]
  | [a, b], pos, ret, hpos => by
    have h1 : (pos + 1) % 3 = 1 := by omega
    have h2 : (pos + 1 + 1) % 3 = 2 := by omega
    simp only [encodeAll, encodeLoop, encodeBase, encodeLast, hpos, h1, h2, toSextets]
    cases addPadding <;> simp [padding]
  | a :: b :: c :: rest, pos, ret, hpos => by
    have h1 : (pos + 1) % 3 = 1 := by omega
    have h2 : (pos + 1 + 1) % 3 = 2 := by omega
    have hmod : (a :: b :: c :: rest).length % 3 = rest.length % 3 := by
      simp only [List.length_cons]
      omega
    have hpadding : padding (a :: b :: c :: rest).length = padding rest.length := by
      simp only [padding, hmod]
    have ih := fun ret => encodeAll_eq addPadding rest (pos + 1 + 1 + 1) ret
      (by omega)
    simp only [encodeAll] at ih
    simp only [encodeAll, encodeLoop, encodeBase, hpos, h1, h2, toSextets]
    rw [ih, hpadding]
    simp

theorem encode_eq (input : Bytes) (addPadding : Bool) : encode input addPadding =
    (toSextets input).map char ++ if addPadding then padding input.length else [] := by
  have h := encodeAll_eq addPadding input 0 [] rfl
  rw [List.nil_append] at h
  exact h

/-! ### The codec -/

/-- The padding character stands for no digit. -/
theorem char_ne {d : UInt8} (hd : d < 64) : char d ≠ '='.toUInt8 := by
  intro h
  have hdigit : digit '='.toUInt8 = some d := digit_eq_some_iff.2 ⟨hd, h⟩
  have hnone : digit '='.toUInt8 = none := by decide
  rw [hnone] at hdigit
  cases hdigit

theorem getLast?_map_char {ds : List UInt8} (hds : Digits ds) :
    (ds.map char).getLast? ≠ some '='.toUInt8 := by
  intro h
  rw [List.getLast?_map] at h
  obtain ⟨d, hd, hchar⟩ := Option.map_eq_some_iff.1 h
  exact char_ne (hds d (List.mem_of_getLast? hd)) hchar

/-- What encoding appends is what decoding removes. -/
theorem removePadding_encode (input : Bytes) (addPadding : Bool) :
    removePadding (encode input addPadding) = encode input false := by
  have hlast := getLast?_map_char (digits_toSextets input)
  have hremove : ∀ n ≤ 2, removePadding
      ((toSextets input).map char ++ List.replicate n '='.toUInt8) =
        (toSextets input).map char := by
    intro n hn
    match n, hn with
    | 0, _ =>
      rw [List.replicate_zero, List.append_nil, removePadding, dropPadding_of_getLast? hlast]
    | 1, _ =>
      simp only [removePadding, dropPadding, List.replicate_one, List.getLast?_concat, if_true,
        List.dropLast_concat, hlast, if_false]
    | 2, _ =>
      have htwo : (toSextets input).map char ++ List.replicate 2 '='.toUInt8 =
          ((toSextets input).map char ++ ['='.toUInt8]) ++ ['='.toUInt8] := by simp
      rw [htwo]
      simp only [removePadding, dropPadding, List.getLast?_concat, if_true, List.dropLast_concat]
  obtain ⟨n, hn, hpadding⟩ : ∃ n ≤ 2, (if addPadding then padding input.length else []) =
      List.replicate n '='.toUInt8 := by
    cases addPadding with
    | false => exact ⟨0, by omega, rfl⟩
    | true =>
      simp only [padding, if_true]
      split
      · exact ⟨2, by omega, rfl⟩
      · exact ⟨1, by omega, rfl⟩
      · exact ⟨0, by omega, rfl⟩
  rw [encode_eq, encode_eq, hpadding, hremove n hn]
  simp

/-- Only padding characters are dropped. -/
theorem exists_dropPadding (n : ℕ) (text : Bytes) :
    ∃ k ≤ n, text = dropPadding n text ++ List.replicate k '='.toUInt8 := by
  induction n generalizing text with
  | zero => exact ⟨0, Nat.le_refl 0, (List.append_nil text).symm⟩
  | succ n ih =>
    unfold dropPadding
    split_ifs with hlast
    · obtain ⟨k, hk, htext⟩ := ih text.dropLast
      refine ⟨k + 1, Nat.succ_le_succ hk, ?_⟩
      rw [List.replicate_succ', ← List.append_assoc, ← htext]
      exact (List.dropLast_append_getLast? _ hlast).symm
    · exact ⟨0, Nat.zero_le _, (List.append_nil text).symm⟩

theorem length_toSextets_add_padding : ∀ input : Bytes,
    ∃ k ≤ 2, padding input.length = List.replicate k '='.toUInt8 ∧
      ((toSextets input).length + k) % 4 = 0
  | [] => ⟨0, by decide, rfl, rfl⟩
  | [_] => ⟨2, by decide, rfl, by simp [toSextets]⟩
  | [_, _] => ⟨1, by decide, rfl, by simp [toSextets]⟩
  | a :: b :: c :: rest => by
    obtain ⟨k, hk, hpadding, hlength⟩ := length_toSextets_add_padding rest
    have hmod : (a :: b :: c :: rest).length % 3 = rest.length % 3 := by
      simp only [List.length_cons]
      omega
    refine ⟨k, hk, ?_, ?_⟩
    · rw [← hpadding]
      simp only [padding, hmod]
    · simp only [toSextets, List.length_cons]
      omega

/-- Of the texts that are decoded to the same bytes, the padded encoding is the one whose length is
a multiple of four. -/
theorem eq_encode_iff {input x : Bytes} (h : removePadding input = encode x false) :
    input = encode x true ↔ input.length % 4 = 0 := by
  obtain ⟨k, hk, hinput⟩ := exists_dropPadding 2 input
  obtain ⟨k', hk', hpadding, hlength⟩ := length_toSextets_add_padding x
  have hdigits : encode x false = (toSextets x).map char := by
    rw [encode_eq]
    simp
  have htext : input = (toSextets x).map char ++ List.replicate k '='.toUInt8 := by
    rw [← hdigits, ← h]
    exact hinput
  have hencode : encode x true = (toSextets x).map char ++ List.replicate k' '='.toUInt8 := by
    rw [encode_eq, if_pos rfl, hpadding]
  rw [htext, hencode, List.append_right_inj, List.replicate_left_inj, List.length_append,
    List.length_map, List.length_replicate]
  omega

/-- A text is decoded successfully exactly if it is an encoding without its padding. -/
theorem digits_bind_ofSextets {input x : Bytes} :
    (digits (removePadding input)).bind ofSextets = some x ↔
      removePadding input = encode x false := by
  rw [encode_eq, Option.bind_eq_some_iff]
  constructor
  · rintro ⟨ds, hds, hx⟩
    obtain ⟨hdigits, htext⟩ := digits_eq_some_iff.1 hds
    rw [← htext, (ofSextets_eq_some_iff hdigits).1 hx]
    simp
  · intro h
    have hdigits := digits_toSextets x
    refine ⟨toSextets x, digits_eq_some_iff.2 ⟨hdigits, ?_⟩, (ofSextets_eq_some_iff hdigits).2 rfl⟩
    rw [h]
    simp

/-- **Encoding and decoding are inverse.**  A text is decoded to `x` if and only if, without its
padding, it is the encoding of `x`; and a text that is no encoding is decoded to nothing. -/
theorem decodeWithoutPadding_eq_iff (s x : Bytes) :
    (x ≠ [] → (decodeWithoutPadding s = x ↔ removePadding s = encode x false)) ∧
      decodeWithoutPadding (encode x true) = x ∧ decodeWithoutPadding (encode x false) = x ∧
      ((∀ y, removePadding s ≠ encode y false) → decodeWithoutPadding s = []) := by
  have hencode : ∀ addPadding, decodeWithoutPadding (encode x addPadding) = x := by
    intro addPadding
    rw [decodeWithoutPadding_eq, digits_bind_ofSextets.2 (removePadding_encode x addPadding)]; rfl
  refine ⟨fun hx => ?_, hencode true, hencode false, fun hno => ?_⟩
  · rw [decodeWithoutPadding_eq, ← digits_bind_ofSextets]
    cases (digits (removePadding s)).bind ofSextets with
    | none => exact iff_of_false (Ne.symm hx) (by simp)
    | some y => exact (Option.some_inj (a := y)).symm
  · rw [decodeWithoutPadding_eq]
    cases hdecode : (digits (removePadding s)).bind ofSextets with
    | none => rfl
    | some y => exact absurd (digits_bind_ofSextets.1 hdecode) (hno y)

end Base64

end WasmExtensions
