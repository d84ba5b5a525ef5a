import Mathlib.Data.Nat.Bitwise
import Mathlib.Data.UInt
import WasmExtensions.Common.Decimal
import WasmExtensions.Common.ResponseFlag

/-!
# What the text of the response flags says

The text is a list of elements joined by commas: the short names of the set bits, then the number if
bits above the last flag are set (`elements`).  No element contains a comma, so the elements can be
read off the text, and no two sets of flags have the same elements.

* `parseResponseFlag_eq` : the text, as a list of elements.
* `parseResponseFlag_lossless` : **distinct flags have distinct texts.**
-/

namespace WasmExtensions

/-- The short name of the flag with this bit. -/
def shortName (bit : ℕ) : Bytes := (responseFlags.lookup (UInt64.ofNat (2 ^ bit))).getD []

/-- The bits of the flags that are set, in increasing order. -/
def setBits (responseFlag : UInt64) : List ℕ := (List.range 27).filter responseFlag.toNat.testBit

/-- The elements of the text. -/
def elements (responseFlag : UInt64) : List Bytes :=
  (setBits responseFlag).map shortName ++
    if 2 ^ 27 ≤ responseFlag.toNat then [toDecimal responseFlag.toNat] else []

/-- The flags are the bits in increasing order. -/
theorem responseFlags_eq :
    responseFlags = (List.range 27).map fun bit => (UInt64.ofNat (2 ^ bit), shortName bit) := by
  decide

theorem shortName_inj : ∀ i < 27, ∀ j < 27, shortName i = shortName j → i = j := by decide

/-- A short name is a text of capital letters. -/
theorem shortName_letters :
    ∀ i < 27, shortName i ≠ [] ∧ ∀ c ∈ shortName i, 65 ≤ c.toNat ∧ c.toNat ≤ 90 := by
  decide +kernel

variable {a b responseFlag : UInt64} {bit : ℕ} {element : Bytes}

theorem mem_setBits : bit ∈ setBits a ↔ bit < 27 ∧ a.toNat.testBit bit = true := by
  simp [setBits]

theorem and_two_pow_ne_zero (h : bit < 64) :
    a &&& UInt64.ofNat (2 ^ bit) ≠ 0 ↔ a.toNat.testBit bit = true := by
  have hpow : 2 ^ bit % 2 ^ 64 = 2 ^ bit :=
    Nat.mod_eq_of_lt (Nat.pow_lt_pow_right (by decide) h)
  have hand : (a &&& UInt64.ofNat (2 ^ bit)).toNat = (a.toNat.testBit bit).toNat * 2 ^ bit := by
    rw [UInt64.toNat_and, UInt64.toNat_ofNat', hpow, Nat.and_two_pow]
  rw [ne_eq, ← UInt64.toNat_inj, hand]
  cases a.toNat.testBit bit <;> simp

/-- Behind a nonempty text, every element is appended with a comma. -/
theorem foldl_appendString_of_ne_nil {result : Bytes} {texts : List Bytes} (hresult : result ≠ []) :
    texts.foldl appendString result = [44].intercalate (result :: texts) := by
  induction texts generalizing result with
  | nil => simp
  | cons text texts ih =>
    have hstep : appendString result text = result ++ [44] ++ text := by
      simp [appendString, hresult, show bytes "," = [44] from rfl]
    rw [List.foldl_cons, hstep, ih (by simp)]
    cases texts <;> simp

/-- Appending nonempty elements one after the other joins them by commas. -/
theorem foldl_appendString {texts : List Bytes} (hne : ∀ text ∈ texts, text ≠ []) :
    texts.foldl appendString [] = [44].intercalate texts := by
  cases texts with
  | nil => rfl
  | cons text texts =>
    rw [List.foldl_cons, show appendString [] text = text from rfl]
    exact foldl_appendString_of_ne_nil (hne text List.mem_cons_self)

/-- The branches that are taken are those of the set bits. -/
theorem filter_responseFlags : (responseFlags.filter fun flag => a &&& flag.1 ≠ 0).map Prod.snd =
    (setBits a).map shortName := by
  rw [responseFlags_eq, List.filter_map, List.map_map, setBits]
  refine congrArg (List.map shortName) (List.filter_congr fun bit hbit => ?_)
  have hlt := List.mem_range.1 hbit
  have hand : a &&& UInt64.ofNat (2 ^ bit) ≠ 0 ↔ a.toNat.testBit bit = true :=
    and_two_pow_ne_zero (by omega)
  rw [Bool.eq_iff_iff]
  simpa using hand

theorem mem_elements :
    element ∈ elements a ↔
      (∃ bit, bit < 27 ∧ a.toNat.testBit bit = true ∧ shortName bit = element) ∨
        2 ^ 27 ≤ a.toNat ∧ element = toDecimal a.toNat := by
  simp [elements, mem_setBits, and_assoc]

theorem ne_nil_of_mem_elements (h : element ∈ elements a) : element ≠ [] := by
  rcases mem_elements.1 h with ⟨bit, hbit, -, rfl⟩ | ⟨-, rfl⟩
  · exact (shortName_letters bit hbit).1
  · exact toDecimal_ne_nil

/-- No element contains a comma. -/
theorem comma_notMem_elements (h : element ∈ elements a) : (44 : UInt8) ∉ element := by
  intro hcomma
  rcases mem_elements.1 h with ⟨bit, hbit, -, rfl⟩ | ⟨-, rfl⟩
  · exact absurd ((shortName_letters bit hbit).2 _ hcomma) (by decide)
  · exact absurd (digit_of_mem_toDecimal hcomma) (by decide)

/-- The branches append the elements one after the other. -/
theorem parseResponseFlag_eq_foldl :
    parseResponseFlag a =
      if ((elements a).foldl appendString []).isEmpty then bytes "-"
      else (elements a).foldl appendString [] := by
  have hnames : responseFlags.foldl (fun result flag =>
        if a &&& flag.1 ≠ 0 then appendString result flag.2 else result) [] =
      ((setBits a).map shortName).foldl appendString [] := by
    rw [← filter_responseFlags, List.foldl_map, List.foldl_filter]
    simp
  have hlast : lastFlag <<< 1 ≤ a ↔ 2 ^ 27 ≤ a.toNat := UInt64.le_iff_toNat_le
  have helements : (elements a).foldl appendString [] =
      if lastFlag <<< 1 ≤ a then
        appendString (((setBits a).map shortName).foldl appendString []) (toDecimal a.toNat)
      else ((setBits a).map shortName).foldl appendString [] := by
    rw [elements, List.foldl_append]
    by_cases h : lastFlag <<< 1 ≤ a
    · rw [if_pos h, if_pos (hlast.1 h)]
      rfl
    · rw [if_neg h, if_neg (mt hlast.2 h)]
      rfl
  rw [helements, ← hnames]
  rfl

/-- **The text is the list of its elements**, or `-` if there are none. -/
theorem parseResponseFlag_eq :
    parseResponseFlag a =
      if elements a = [] then bytes "-" else [44].intercalate (elements a) := by
  have hne : ∀ element ∈ elements a, element ≠ [] := fun _ h => ne_nil_of_mem_elements h
  rw [parseResponseFlag_eq_foldl, foldl_appendString hne]
  cases h : elements a with
  | nil => rfl
  | cons element rest =>
    have helement : element ≠ [] := hne element (h ▸ List.mem_cons_self)
    have htext : [44].intercalate (element :: rest) ≠ [] := by
      cases rest <;> simp [helement]
    simp [htext]

/-- What the text shows: the elements, or `-`. -/
def shown (responseFlag : UInt64) : List Bytes :=
  if elements responseFlag = [] then [bytes "-"] else elements responseFlag

/-- The text can be split into what it shows. -/
theorem strSplit_parseResponseFlag : strSplit 44 (parseResponseFlag a) = shown a := by
  rw [parseResponseFlag_eq, shown, strSplit]
  by_cases h : elements a = []
  · simp only [h, if_true]
    rfl
  · simp only [h, if_false]
    exact List.splitOn_intercalate 44 (fun _ hmem => comma_notMem_elements hmem) h

theorem mem_shown_of_ne (h : element ≠ bytes "-") : element ∈ shown a ↔ element ∈ elements a := by
  by_cases hnone : elements a = [] <;> simp [shown, hnone, h]

/-- A short name is shown exactly if its bit is set. -/
theorem shortName_mem_shown (h : bit < 27) :
    shortName bit ∈ shown a ↔ a.toNat.testBit bit = true := by
  obtain ⟨hne, hletters⟩ := shortName_letters bit h
  have hdash : shortName bit ≠ bytes "-" := by
    intro heq
    exact absurd (hletters 45 (heq ▸ by decide)) (by decide)
  have hnumber : shortName bit ≠ toDecimal a.toNat := by
    intro heq
    obtain ⟨c, hc⟩ := List.exists_mem_of_ne_nil _ hne
    have hletter := hletters c hc
    have hdigit := digit_of_mem_toDecimal (heq ▸ hc)
    omega
  rw [mem_shown_of_ne hdash, mem_elements]
  constructor
  · -- A name is the name of one bit only, and no numeral.
    rintro (⟨other, hother, hset, heq⟩ | ⟨-, heq⟩)
    · exact shortName_inj other hother bit h heq ▸ hset
    · exact absurd heq hnumber
  · intro hset
    exact .inl ⟨bit, h, hset, rfl⟩

/-- A numeral is shown exactly if it is the number of flags above the last one. -/
theorem toDecimal_mem_shown {n : ℕ} :
    toDecimal n ∈ shown a ↔ 2 ^ 27 ≤ a.toNat ∧ n = a.toNat := by
  obtain ⟨c, hc⟩ := List.exists_mem_of_ne_nil _ (toDecimal_ne_nil (n := n))
  have hdigit := digit_of_mem_toDecimal hc
  have hdash : toDecimal n ≠ bytes "-" := by
    intro heq
    exact absurd (digit_of_mem_toDecimal (n := n) (c := 45) (heq ▸ by decide)) (by decide)
  rw [mem_shown_of_ne hdash, mem_elements]
  constructor
  · rintro (⟨bit, hbit, -, heq⟩ | ⟨hlast, heq⟩)
    · have hletter := (shortName_letters bit hbit).2 c (heq ▸ hc)
      omega
    · exact ⟨hlast, toDecimal_inj heq⟩
  · rintro ⟨hlast, rfl⟩
    exact .inr ⟨hlast, rfl⟩

/-- What is shown determines the flags. -/
theorem eq_of_shown_eq (h : shown a = shown b) : a = b := by
  have hnumber : ∀ n, 2 ^ 27 ≤ a.toNat ∧ n = a.toNat ↔ 2 ^ 27 ≤ b.toNat ∧ n = b.toNat := by
    intro n
    rw [← toDecimal_mem_shown, ← toDecimal_mem_shown, h]
  apply UInt64.toNat_inj.1
  by_cases ha : 2 ^ 27 ≤ a.toNat
  · exact ((hnumber a.toNat).1 ⟨ha, rfl⟩).2
  · have hb : ¬ 2 ^ 27 ≤ b.toNat := fun hb => ha ((hnumber b.toNat).2 ⟨hb, rfl⟩).1
    -- only named bits are set, and the names show which
    refine Nat.eq_of_testBit_eq fun bit => ?_
    by_cases hbit : bit < 27
    · rw [Bool.eq_iff_iff, ← shortName_mem_shown hbit, ← shortName_mem_shown hbit, h]
    · have hpow : 2 ^ 27 ≤ 2 ^ bit := Nat.pow_le_pow_right (by decide) (by omega)
      rw [Nat.testBit_lt_two_pow (by omega), Nat.testBit_lt_two_pow (by omega)]

/-- **The response flags are rendered without information loss.** -/
theorem parseResponseFlag_lossless :
    (∀ a b, a ≠ b → parseResponseFlag a ≠ parseResponseFlag b) ∧
    (∀ a, a.toNat < 2 ^ 27 → parseResponseFlag a =
      if setBits a = [] then bytes "-" else [44].intercalate ((setBits a).map shortName)) ∧
    ∀ a, 2 ^ 27 ≤ a.toNat → parseResponseFlag a =
      [44].intercalate ((setBits a).map shortName ++ [toDecimal a.toNat]) := by
  refine ⟨fun a b hne heq => hne (eq_of_shown_eq ?_), fun a ha => ?_, fun a ha => ?_⟩
  · rw [← strSplit_parseResponseFlag, ← strSplit_parseResponseFlag, heq]
  · rw [parseResponseFlag_eq, elements, if_neg (Nat.not_le.2 ha), List.append_nil]
    simp only [List.map_eq_nil_iff]
  · rw [parseResponseFlag_eq, elements, if_pos ha]
    simp

/-- Two flags, one of which is in the text of the other, and a number above the last flag. -/
theorem parseResponseFlag_lossless_rl_rlse :
    parseResponseFlag 0x800 ≠ parseResponseFlag 0x2000 ∧ parseResponseFlag 0 = bytes "-" ∧
      parseResponseFlag 0x8000800 = bytes "RL,134219776" := by
  refine ⟨parseResponseFlag_lossless.1 _ _ (by decide), ?_, ?_⟩
  · rw [parseResponseFlag_lossless.2.1 0 (by decide)]
    decide
  · rw [parseResponseFlag_lossless.2.2 0x8000800 (by decide)]
    decide

end WasmExtensions
