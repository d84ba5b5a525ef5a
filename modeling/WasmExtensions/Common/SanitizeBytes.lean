import WasmExtensions.Common.Bytes
import WasmExtensions.Utf8.Basic

/-!
# Sanitizing texts

`sanitizeBytes` makes UTF-8 of the bytes of a request: where the decoder of the FlatBuffers library
finds no character, it writes a space and goes on with the next byte.  The decoder is a parameter
(`FromUTF8`).  It gets a pointer and no length, so what it reads behind the text matters: the
terminator is not part of a longer character, and stops it.

* `FromUTF8.Documented` : what the decoder does.
* `sanitizeLoop_repairs` : the loop repairs the rest of the text, character by character.
* `sanitizeBytes_sanitized` : **what the caller of `sanitizeBytes` gets.**
-/

namespace WasmExtensions

open Resync

/-- The decoder, applied to the memory from a position on. -/
structure FromUTF8 where
  /-- How far the position is advanced; `none` if the result is negative. -/
  advance : (ℕ → UInt8) → Option ℕ+
  /-- How many bytes are read. -/
  reads : (ℕ → UInt8) → ℕ

/-- The bytes of a character after the first one. -/
def isContinuation (c : UInt8) : Bool := c &&& 0xc0 = 0x80

structure FromUTF8.Documented (fromUTF8 : FromUTF8) : Prop where
  /-- It decodes one well-formed sequence. -/
  advance_iff : ∀ memory (k : ℕ+),
    fromUTF8.advance memory = some k ↔ Utf8.Encodes ((List.range k).map memory)
  /-- It does not read past a byte that is not a continuation byte. -/
  reads_continuation : ∀ memory i, 0 < i → i + 1 < fromUTF8.reads memory → isContinuation (memory i)

/-- The memory at the position `i` of a text: its bytes, the terminator, and what is behind it. -/
def memoryOf (buf : Bytes) (beyond : ℕ → UInt8) (i : ℕ) : UInt8 :=
  (buf ++ [0])[i]?.getD (beyond i)

/-- The text afterwards, the returned value, and the end of what was read. -/
structure Sanitized where
  buf : Bytes
  modified : Bool
  reach : ℕ
  deriving DecidableEq, Repr

section

variable (fromUTF8 : FromUTF8) (beyond : ℕ → UInt8)

/-- The loop from the position `start` on. -/
def sanitizeLoop (start : ℕ) (buf : Bytes) (modified : Bool) (reach : ℕ) : Sanitized :=
  if start < buf.length then
    let memory i := memoryOf buf beyond (start + i)
    let reach := max reach (start + fromUTF8.reads memory)
    match fromUTF8.advance memory with
    | none => sanitizeLoop (start + 1) (buf.set start ' '.toUInt8) true reach
    | some k => sanitizeLoop (start + k) buf modified reach
  else { buf, modified, reach }
termination_by buf.length - start
decreasing_by
  · rw [List.length_set]
    omega
  · have hpos := k.pos
    omega

def sanitizeBytes (buf : Bytes) : Sanitized := sanitizeLoop fromUTF8 beyond 0 buf false 0

/-- The decoder takes the sequence for one character, whatever follows it. -/
def FromUTF8.Accepts (word : Bytes) : Prop :=
  ∀ memory : ℕ → UInt8, (List.range word.length).map memory = word →
    ∃ k, fromUTF8.advance memory = some k ∧ k = word.length

end

variable {fromUTF8 : FromUTF8} {beyond : ℕ → UInt8} {front rest word : Bytes} {start reach : ℕ}
  {modified : Bool}

theorem accepts_iff (h : fromUTF8.Documented) : fromUTF8.Accepts word ↔ Utf8.Encodes word := by
  constructor
  · intro haccepts
    have hmap : (List.range word.length).map (fun i => word.getD i 0) = word := by
      refine List.ext_getElem (by simp) fun i hi hi' => ?_
      simp [hi']
    obtain ⟨k, hk, hlength⟩ := haccepts _ hmap
    rw [h.advance_iff, hlength, hmap] at hk
    exact hk
  · intro hencodes memory hmap
    have hpos : 0 < word.length := List.length_pos_iff_ne_nil.2 (Utf8.code.ne_nil word hencodes)
    refine ⟨word.length.toPNat hpos, (h.advance_iff ..).2 ?_, rfl⟩
    rwa [Nat.toPNat, PNat.mk_coe, hmap]

/-- What is behind a text, seen from the end of its first part. -/
def behind (front : Bytes) (beyond : ℕ → UInt8) (i : ℕ) : UInt8 := beyond (front.length + i)

/-- Behind the first part of a text, the memory holds its second part and the terminator. -/
theorem memoryOf_append : (fun i => memoryOf (front ++ rest) beyond (front.length + i)) =
    memoryOf rest (behind front beyond) := by
  funext i
  simp [memoryOf, behind, List.getElem?_append_right]

theorem map_memoryOf {n : ℕ} (h : n ≤ rest.length) :
    (List.range n).map (memoryOf rest beyond) = rest.take n := by
  refine List.ext_getElem (by simp [h]) fun i hi hi' => ?_
  have hlt : i < rest.length := by
    rw [List.length_take] at hi'
    omega
  rw [List.getElem_map, List.getElem_range, List.getElem_take, memoryOf,
    List.getElem?_append_left hlt, List.getElem?_eq_getElem hlt, Option.getD_some]

theorem memoryOf_length : memoryOf rest beyond rest.length = 0 := by simp [memoryOf]

/-- The terminator ends what is read of a text. -/
theorem reads_le (h : fromUTF8.Documented) (hne : rest ≠ []) :
    fromUTF8.reads (memoryOf rest beyond) ≤ rest.length + 1 := by
  have hpos := List.length_pos_iff_ne_nil.2 hne
  by_contra hlt
  -- The terminator would have been read past, but it continues no character.
  have hnull := h.reads_continuation (memoryOf rest beyond) rest.length hpos (by omega)
  rw [memoryOf_length] at hnull
  exact absurd hnull (by decide)

/-- What is decoded is in the text: the terminator is not part of a character. -/
theorem advance_some (h : fromUTF8.Documented) (hne : rest ≠ []) {k : ℕ+}
    (hk : fromUTF8.advance (memoryOf rest beyond) = some k) :
    ∃ word rest', Utf8.Encodes word ∧ rest = word ++ rest' ∧ word.length = k := by
  have hencodes := (h.advance_iff ..).1 hk
  have hle : (k : ℕ) ≤ rest.length := by
    by_contra hlt
    refine hencodes.ne_zero (mt List.length_eq_zero_iff.1 hne) ?_
    rw [List.getElem?_map, List.getElem?_range (by omega), Option.map_some, memoryOf_length]
  rw [map_memoryOf hle] at hencodes
  refine ⟨rest.take k, rest.drop k, hencodes, (List.take_append_drop ..).symm, ?_⟩
  rw [List.length_take, Nat.min_eq_left hle]

/-- If nothing is decoded, the text starts with no character. -/
theorem advance_none (h : fromUTF8.Documented)
    (hnone : fromUTF8.advance (memoryOf rest beyond) = none) (hword : Utf8.Encodes word) :
    ¬ word <+: rest := by
  intro hprefix
  have hmap : (List.range word.length).map (memoryOf rest beyond) = word := by
    rw [map_memoryOf hprefix.length_le, ← List.prefix_iff_eq_take.1 hprefix]
  obtain ⟨k, hk, -⟩ := (accepts_iff h).2 hword _ hmap
  rw [hnone] at hk
  cases hk

/-- The end of what is read by one more call of the decoder. -/
def nextReach (fromUTF8 : FromUTF8) (beyond : ℕ → UInt8) (front rest : Bytes) (reach : ℕ) : ℕ :=
  max reach (front.length + fromUTF8.reads (memoryOf rest (behind front beyond)))

theorem nextReach_le (h : fromUTF8.Documented) (hne : rest ≠ [])
    (hreach : reach ≤ (front ++ rest).length + 1) :
    nextReach fromUTF8 beyond front rest reach ≤ (front ++ rest).length + 1 := by
  have hle : fromUTF8.reads (memoryOf rest (behind front beyond)) ≤ rest.length + 1 :=
    reads_le h hne
  rw [List.length_append] at hreach ⊢
  rw [nextReach]
  omega

/-- One turn of the loop. -/
theorem sanitizeLoop_turn (hne : rest ≠ []) :
    sanitizeLoop fromUTF8 beyond front.length (front ++ rest) modified reach =
      match fromUTF8.advance (memoryOf rest (behind front beyond)) with
      | none => sanitizeLoop fromUTF8 beyond (front.length + 1)
          ((front ++ rest).set front.length ' '.toUInt8) true
          (nextReach fromUTF8 beyond front rest reach)
      | some k => sanitizeLoop fromUTF8 beyond (front.length + k) (front ++ rest) modified
          (nextReach fromUTF8 beyond front rest reach) := by
  have hlt : front.length < (front ++ rest).length := by
    have hpos := List.length_pos_iff_ne_nil.2 hne
    rw [List.length_append]
    omega
  rw [sanitizeLoop, if_pos hlt]
  simp only [memoryOf_append, nextReach]

/-- **The loop repairs the rest of the text**, and reads at most its terminator. -/
theorem sanitizeLoop_repairs (h : fromUTF8.Documented) (front rest : Bytes) (modified : Bool)
    (reach : ℕ) (hreach : reach ≤ (front ++ rest).length + 1) :
    ∃ rest' changed reach', Repairs Utf8.Encodes 32 rest rest' changed ∧
      sanitizeLoop fromUTF8 beyond front.length (front ++ rest) modified reach =
        { buf := front ++ rest', modified := modified || changed, reach := reach' } ∧
      reach' ≤ (front ++ rest).length + 1 := by
  induction hn : rest.length using Nat.strong_induction_on
    generalizing front rest modified reach with
  | _ n ih =>
    by_cases hne : rest = []
    · subst hne
      refine ⟨[], false, reach, .nil, ?_, hreach⟩
      rw [sanitizeLoop, if_neg (by simp), Bool.or_false]
    · have hnext : nextReach fromUTF8 beyond front rest reach ≤ (front ++ rest).length + 1 :=
        nextReach_le h hne hreach
      rw [sanitizeLoop_turn hne]
      cases hdecode : fromUTF8.advance (memoryOf rest (behind front beyond)) with
      | none =>
        -- a space takes the place of the first byte
        obtain ⟨a, rest, rfl⟩ := List.exists_cons_of_ne_nil hne
        have hset : (front ++ a :: rest).set front.length ' '.toUInt8 = front ++ [32] ++ rest := by
          simp
          rfl
        have hlength : (front ++ [32] ++ rest).length = (front ++ a :: rest).length := by simp
        obtain ⟨rest', changed, reach', hrepairs, hloop, hreach'⟩ :=
          ih rest.length (by simp [← hn]) (front ++ [32]) rest true _ (hlength ▸ hnext) rfl
        refine ⟨32 :: rest', true, reach', .replace (fun _ => advance_none h hdecode) hrepairs,
          ?_, hlength ▸ hreach'⟩
        rw [List.length_append, List.length_singleton] at hloop
        simp only [hset, hloop]
        simp
      | some k =>
        -- a character is kept
        obtain ⟨word, rest, hword, rfl, hlength⟩ := advance_some h hne hdecode
        have hpos := k.pos
        have hlt : rest.length < n := by
          rw [← hn, List.length_append]
          omega
        rw [← List.append_assoc] at hnext ⊢
        obtain ⟨rest', changed, reach', hrepairs, hloop, hreach'⟩ :=
          ih rest.length hlt (front ++ word) rest modified _ hnext rfl
        rw [List.length_append, hlength] at hloop
        refine ⟨word ++ rest', changed, reach', .keep hword hrepairs, ?_, hreach'⟩
        simp only [List.append_assoc] at hloop ⊢
        exact hloop

/-- What the caller of `sanitizeBytes` gets for `buf`. -/
structure IsSanitized (fromUTF8 : FromUTF8) (buf : Bytes) (result : Sanitized) : Prop where
  length_eq : result.buf.length = buf.length
  /-- The text consists of what the decoder accepts. -/
  concatenation : Concatenation fromUTF8.Accepts result.buf
  /-- Bytes are only replaced by spaces. -/
  kept_or_space : ∀ i : ℕ, result.buf[i]? = buf[i]? ∨ result.buf[i]? = some ' '.toUInt8
  /-- A valid text is not changed. -/
  eq_of_valid : Concatenation fromUTF8.Accepts buf → result.buf = buf
  modified_iff : result.modified = true ↔ result.buf ≠ buf
  /-- Nothing behind the terminator is read. -/
  reach_le : result.reach ≤ buf.length + 1

theorem concatenation_congr {P Q : Bytes → Prop} {buf : Bytes} (hiff : ∀ word, P word ↔ Q word)
    (h : Concatenation P buf) : Concatenation Q buf := by
  induction h with
  | nil => exact .nil
  | append hword _ ih => exact .append ((hiff _).1 hword) ih

/-- The call repairs the text. -/
theorem sanitizeBytes_repairs (h : fromUTF8.Documented) (beyond : ℕ → UInt8) (buf : Bytes) :
    Repairs Utf8.Encodes 32 buf (sanitizeBytes fromUTF8 beyond buf).buf
        (sanitizeBytes fromUTF8 beyond buf).modified ∧
      (sanitizeBytes fromUTF8 beyond buf).reach ≤ buf.length + 1 := by
  obtain ⟨buf', changed, reach, hrepairs, hloop, hreach⟩ :=
    sanitizeLoop_repairs h [] buf false 0 (Nat.zero_le _)
  have hcall : sanitizeBytes fromUTF8 beyond buf =
      { buf := buf', modified := changed, reach := reach } := hloop
  rw [hcall]
  exact ⟨hrepairs, hreach⟩

/-- **`sanitizeBytes` makes valid UTF-8 with minimal change**, and calling it again changes
nothing. -/
theorem sanitizeBytes_sanitized (h : fromUTF8.Documented) (beyond beyond' : ℕ → UInt8)
    (buf : Bytes) :
    IsSanitized fromUTF8 buf (sanitizeBytes fromUTF8 beyond buf) ∧
      (sanitizeBytes fromUTF8 beyond' (sanitizeBytes fromUTF8 beyond buf).buf).buf =
        (sanitizeBytes fromUTF8 beyond buf).buf ∧
      (sanitizeBytes fromUTF8 beyond' (sanitizeBytes fromUTF8 beyond buf).buf).modified =
        false := by
  obtain ⟨hrepairs, hreach⟩ := sanitizeBytes_repairs h beyond buf
  obtain ⟨hagain, -⟩ := sanitizeBytes_repairs h beyond' (sanitizeBytes fromUTF8 beyond buf).buf
  have hiff (word : Bytes) : fromUTF8.Accepts word ↔ Utf8.Encodes word := accepts_iff h
  refine ⟨?_, hrepairs.repairs_again Utf8.code hagain⟩
  constructor
  · exact hrepairs.length_eq
  · exact concatenation_congr (fun word => (hiff word).symm) (hrepairs.concatenation Utf8.code)
  · intro i
    obtain ⟨hlength, hletters⟩ := List.forall₂_iff_get.1 hrepairs.forall₂
    by_cases hi : i < buf.length
    · have hi' : i < (sanitizeBytes fromUTF8 beyond buf).buf.length := hlength ▸ hi
      rw [List.getElem?_eq_getElem hi, List.getElem?_eq_getElem hi', Option.some_inj,
        Option.some_inj]
      exact hletters i hi hi'
    · rw [List.getElem?_eq_none (hlength ▸ Nat.not_lt.1 hi),
        List.getElem?_eq_none (Nat.not_lt.1 hi)]
      exact .inl rfl
  · intro hvalid
    exact (hrepairs.eq_of_concatenation Utf8.code (concatenation_congr hiff hvalid)).1
  · exact hrepairs.changed_iff Utf8.code
  · exact hreach

/-- The number of bytes that the first byte of a character announces. -/
def announced (lead : UInt8) : ℕ :=
  if lead &&& 0xe0 = 0xc0 then 1
  else if lead &&& 0xf0 = 0xe0 then 2
  else if lead &&& 0xf8 = 0xf0 then 3
  else 0

/-- How many of at most `n` bytes from the position `i` on are read, up to the first one that does
not continue a character. -/
def readsFrom (memory : ℕ → UInt8) : ℕ → ℕ → ℕ
  | 0, _ => 0
  | n + 1, i => if isContinuation (memory i) then readsFrom memory n (i + 1) + 1 else 1

/-- A decoder. -/
def utf8Decoder : FromUTF8 where
  advance memory := Utf8.decodeSize ((List.range 4).map memory)
  reads memory := readsFrom memory (announced (memory 0)) 1 + 1

theorem isContinuation_of_readsFrom {memory : ℕ → UInt8} {n i j : ℕ} (hle : i ≤ j)
    (h : j + 1 < i + readsFrom memory n i) : isContinuation (memory j) := by
  induction n generalizing i with
  | zero =>
    rw [readsFrom] at h
    omega
  | succ n ih =>
    rw [readsFrom] at h
    split_ifs at h with hmore
    · rcases Nat.eq_or_lt_of_le hle with rfl | hlt
      · exact hmore
      · have hnext : j + 1 < (i + 1) + readsFrom memory n (i + 1) := by omega
        exact ih hlt hnext
    · omega

theorem utf8Decoder_documented : utf8Decoder.Documented where
  advance_iff memory k := by
    have htake (n : ℕ) (hn : n ≤ 4) :
        ((List.range 4).map memory).take n = (List.range n).map memory := by
      rw [← List.map_take, List.take_range, Nat.min_eq_left hn]
    rw [utf8Decoder, Utf8.decodeSize_eq_some_iff]
    constructor
    · rintro ⟨word, hword, hprefix, hlength⟩
      have hle := hprefix.length_le
      rw [List.length_map, List.length_range] at hle
      rw [List.prefix_iff_eq_take, htake _ hle, hlength] at hprefix
      exact hprefix ▸ hword
    · intro hword
      have hle : (k : ℕ) ≤ 4 := by
        obtain ⟨c, hc⟩ := hword
        have hlength := congrArg List.length hc
        rw [List.length_map, List.length_range, String.length_utf8EncodeChar] at hlength
        exact hlength ▸ c.utf8Size_le_four
      refine ⟨_, hword, ?_, by simp⟩
      rw [← htake _ hle]
      exact List.take_prefix ..
  reads_continuation memory i hpos h := by
    have hread : i + 1 < 1 + readsFrom memory (announced (memory 0)) 1 :=
      Nat.add_comm (readsFrom memory (announced (memory 0)) 1) 1 ▸ h
    exact isContinuation_of_readsFrom hpos hread

/-- A character that is cut off, in front of bytes that would complete it. -/
theorem sanitizeBytes_sanitized_cut_off :
    IsSanitized utf8Decoder [0x61, 0xe2, 0x82]
      (sanitizeBytes utf8Decoder (fun _ => 0xac) [0x61, 0xe2, 0x82]) :=
  (sanitizeBytes_sanitized utf8Decoder_documented (fun _ => 0xac) (fun _ => 0xac) _).1

end WasmExtensions
