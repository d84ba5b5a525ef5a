import Mathlib.Data.List.Induction
import WasmExtensions.Assignments.Basic
import WasmExtensions.ZigDemo.Language

/-!
# Slices of the buffer

The host answers every question in the same buffer.  A text is handed on as a slice of the buffer,
not as a copy, so that a later answer shows through it.  What is logged is printed into a smaller
buffer first.

* `slice_reads` : **what a slice reads after later answers**: byte by byte, the last answer that is
  long enough.
* `log_header_iff` : **when the message of `proxy_on_log` shows the header**, what its comparison
  with the property can tell, and when it is logged at all.
-/

namespace WasmExtensions

namespace ZigDemo

open Segment

/-- A slice of the buffer, from its start. -/
structure View where
  len : ℕ
  deriving DecidableEq, Repr

/-- What the slice shows, with the buffer as it is now. -/
def View.read (view : View) (memory : Buffer) : Bytes := memory.buf.take view.len

/-- What the host answers; `none` stands for all results but `ok`. -/
structure Host where
  property : Bytes → Option Bytes
  requestHeader : Bytes → Option Bytes
  requestHeaders : Result × Bytes

/-! ### Logging -/

inductive LogLevel where
  | trace
  | debug
  | info
  | warn
  | err
  | critical
  deriving DecidableEq, Repr

/-- What is handed to the host with `proxy_log`. -/
structure Message where
  level : LogLevel
  text : Bytes
  deriving DecidableEq, Repr

/-- The size of the buffer that a message is printed into. -/
def logBufSize : ℕ := 1024

/-- A text that does not fit the buffer is replaced. -/
def log (level : LogLevel) (text : Bytes) : Message :=
  if text.length ≤ logBufSize then ⟨level, text⟩ else ⟨.trace, bytes "buffer too small"⟩

/-- How an optional argument is printed. -/
def formatOption {T : Type} (format : T → Bytes) (value : Option T) : Bytes :=
  value.elim (bytes "null") format

def formatInt64 (value : Int64) : Bytes :=
  (if value < 0 then bytes "-" else []) ++ toDecimal value.toInt.natAbs

/-- The arguments of the message about the request. -/
structure LogLine where
  size : Option Int64
  totalSize : Option Int64
  header : Option Bytes
  property : Option Bytes
  deriving DecidableEq, Repr

/-- The message, as it is printed. -/
def LogLine.text (line : LogLine) : Bytes :=
  bytes "request size " ++ formatOption formatInt64 line.size ++
    bytes ", with headers " ++ formatOption formatInt64 line.totalSize ++
    bytes ", header value " ++ formatOption id line.header ++
    bytes ", which is same as " ++ formatOption id line.property

/-! ### Answers of the host -/

/-- The parts of the path, each with a zero byte. -/
def propertyPath (parts : List Bytes) : Bytes := parts.flatMap (· ++ [0])

/-- The host answers with a text, of which a slice is taken. -/
def answerText (answer : Option Bytes) (memory : Buffer) :
    Except Fault (Option View × Buffer) := do
  match answer with
  | none => return (none, memory)
  | some data =>
    let memory ← deliver data memory
    let bytes ← buffer memory
    return (some ⟨bytes.length⟩, memory)

/-- The number that eight bytes stand for. -/
def decodeInt64 (data : Bytes) : Int64 := (UInt64.ofNat (LittleEndian.decode data)).toInt64

/-- The host answers with a number, which is copied. -/
def answerInt64 (answer : Option Bytes) (memory : Buffer) :
    Except Fault (Option Int64 × Buffer) := do
  match answer with
  | none => return (none, memory)
  | some data =>
    let memory ← deliver data memory
    if memory.bufLen = 8 then
      let bytes ← slice memory.buf 0 8
      return (some (decodeInt64 bytes), memory)
    else throw .panic

section

variable (host : Host)

def getProperty (parts : List Bytes) (memory : Buffer) : Except Fault (Option View × Buffer) :=
  answerText (host.property (propertyPath parts)) memory

def getPropertyInt64 (parts : List Bytes) (memory : Buffer) :
    Except Fault (Option Int64 × Buffer) :=
  answerInt64 (host.property (propertyPath parts)) memory

def getHeader (key : Bytes) (memory : Buffer) : Except Fault (Option View × Buffer) :=
  answerText (host.requestHeader key) memory

def wasmTest : Bytes := bytes "wasm-test"

/-- The path of the property that is the header. -/
def wasmTestPath : List Bytes := [bytes "request", bytes "headers", wasmTest]

/-- The arguments of the message about the request.  All of them are there before it is printed. -/
def requestLine (memory : Buffer) : Except Fault (LogLine × Buffer) := do
  let (size, memory) ← getPropertyInt64 host [bytes "request", bytes "size"] memory
  let (totalSize, memory) ← getPropertyInt64 host [bytes "request", bytes "total_size"] memory
  let (header, memory) ← getHeader host wasmTest memory
  let (property, memory) ← getProperty host wasmTestPath memory
  return ({
    size := size
    totalSize := totalSize
    header := header.map (·.read memory)
    property := property.map (·.read memory) }, memory)

variable {M : Type} (map : PairMap M) (iterator : M → List (Bytes × Bytes)) (keys values : Lengths)

/-- The messages, and the map of headers, which starts as `m`.  A check that fails ends the module
after the messages before it. -/
def proxyOnLog (id : UInt32) (memory : Buffer) (m : M) : List Message × Except Fault M :=
  let messages := [log .info (bytes "log " ++ toDecimal id.toNat)]
  match requestLine host memory with
  | .error fault => (messages, .error fault)
  | .ok (line, memory) =>
    let messages := messages ++ [log .info line.text]
    match getAllHeaders map keys values host.requestHeaders.1 host.requestHeaders.2 memory m with
    | .error fault => (messages, .error fault)
    | .ok (_, m) =>
      (messages ++ (iterator m).map fun next => log .info (next.1 ++ bytes ": " ++ next.2), .ok m)

end

/-- The buffer after answers, one after the other. -/
def deliverAll (answers : List Bytes) (memory : Buffer) : Except Fault Buffer :=
  answers.foldlM (fun memory data => deliver data memory) memory

variable {data own : Bytes} {answers later : List Bytes} {memory memory' memory₁ memory₂ : Buffer}
  {view : View} {j : ℕ}

/-- A byte of the buffer. -/
def Buffer.byte (memory : Buffer) (j : ℕ) : UInt8 := memory.buf.getD j 0

theorem deliver_spec (h : deliver data memory = .ok memory') :
    memory'.buf = data ++ memory.buf.drop data.length ∧ memory'.bufLen = data.length ∧
      data.length ≤ bufSize := by
  unfold deliver malloc at h
  simp only [bind_eq_ok_iff] at h
  obtain ⟨memory₁, hmalloc, h⟩ := h
  split_ifs at hmalloc with hpanic
  obtain rfl := Except.ok.inj hmalloc
  split_ifs at h with hfits
  cases h
  exact ⟨rfl, rfl, hfits⟩

theorem byte_deliver (h : deliver data memory = .ok memory') (j : ℕ) :
    memory'.byte j = (data[j]?).getD (memory.byte j) := by
  obtain ⟨hbuf, -, -⟩ := deliver_spec h
  unfold Buffer.byte
  rw [hbuf, List.getD_eq_getElem?_getD, List.getD_eq_getElem?_getD]
  by_cases hj : j < data.length
  · rw [List.getElem?_append_left hj, List.getElem?_eq_getElem hj]
    rfl
  · have hle := Nat.le_of_not_lt hj
    rw [List.getElem?_append_right hle, List.getElem?_drop, List.getElem?_eq_none hle,
      Nat.add_sub_cancel' hle]
    rfl

/-- A byte of the buffer is that of the last answer that is long enough. -/
theorem byte_deliverAll (h : deliverAll answers memory = .ok memory') (j : ℕ) :
    memory'.byte j = latest (fun data => data[j]?) answers (memory.byte j) := by
  induction answers using List.reverseRecOn generalizing memory' with
  | nil =>
    cases h
    rfl
  | append_singleton answers data ih =>
    unfold deliverAll at h ih
    rw [List.foldlM_append, bind_eq_ok_iff] at h
    obtain ⟨memory₁, hanswers, hdata⟩ := h
    rw [List.foldlM_cons, bind_eq_ok_iff] at hdata
    obtain ⟨memory₂, hdeliver, hnil⟩ := hdata
    cases hnil
    rw [byte_deliver hdeliver, ih hanswers, latest_append]

theorem answerText_some {result : Option View × Buffer}
    (h : answerText (some own) memory = .ok result) :
    result.1 = some ⟨own.length⟩ ∧ deliver own memory = .ok result.2 := by
  unfold answerText at h
  simp only [bind_eq_ok_iff] at h
  obtain ⟨memory₁, hdeliver, bytes, hbuffer, h⟩ := h
  obtain ⟨-, hlen, -⟩ := deliver_spec hdeliver
  obtain ⟨-, hlength⟩ := slice_eq_ok_iff.1 hbuffer
  cases h
  rw [Nat.zero_add, hlen] at hlength
  exact ⟨by rw [hlength], hdeliver⟩

/-- What fits the buffer can be answered. -/
theorem exists_answerText_eq (h : own.length ≤ bufSize) (memory : Buffer) :
    ∃ memory', answerText (some own) memory = .ok (some ⟨own.length⟩, memory') := by
  have hdeliver : ∃ memory', deliver own memory = .ok memory' := by
    unfold deliver malloc
    rw [if_neg (Nat.not_lt.2 h)]
    exact ⟨_, dif_pos h⟩
  obtain ⟨memory', hdeliver⟩ := hdeliver
  obtain ⟨hbuf, hlen, -⟩ := deliver_spec hdeliver
  have hbuffer : buffer memory' = .ok own := by
    refine slice_eq_ok_iff.2 ⟨hbuf ▸ at_zero, ?_⟩
    rw [hlen, Nat.zero_add]
  refine ⟨memory', ?_⟩
  unfold answerText
  simp only [hdeliver, hbuffer, bind, Except.bind]
  rfl

theorem read_length (view : View) (h : view.len ≤ bufSize) (memory : Buffer) :
    (view.read memory).length = view.len := by
  unfold View.read
  rw [List.length_take_of_le (memory.length_buf ▸ h)]

theorem read_getElem? (hj : j < view.len) (hle : view.len ≤ bufSize) (memory : Buffer) :
    (view.read memory)[j]? = some (memory.byte j) := by
  have hlt : j < memory.buf.length := memory.length_buf ▸ Nat.lt_of_lt_of_le hj hle
  unfold View.read Buffer.byte
  rw [List.getElem?_take_of_lt hj, List.getD_eq_getElem?_getD, List.getElem?_eq_getElem hlt]
  rfl

/-- **What a slice reads after later answers**: each of its bytes is that of the last answer that is
long enough.  So it is still the text that was answered if and only if later answers have the same
bytes, as far as they go. -/
theorem slice_reads (hown : answerText (some own) memory = .ok (some view, memory₁))
    (hlater : deliverAll later memory₁ = .ok memory₂) :
    (view.read memory₂).length = own.length ∧
      ∀ (j : ℕ) (b : UInt8), own[j]? = some b →
        (view.read memory₂)[j]? = some (latest (fun data : Bytes => data[j]?) later b) := by
  obtain ⟨hview, hdeliver⟩ := answerText_some hown
  obtain rfl := Option.some.inj hview
  obtain ⟨-, -, hfits⟩ := deliver_spec hdeliver
  refine ⟨read_length _ hfits memory₂, fun j b hb => ?_⟩
  have hj : j < own.length := (List.getElem?_eq_some_iff.1 hb).1
  have hbyte : memory₁.byte j = b := by rw [byte_deliver hdeliver, hb, Option.getD_some]
  rw [read_getElem? hj hfits, byte_deliverAll hlater, hbyte]

/-- The last answer is shorter than the one before, and both are shorter than the text. -/
theorem slice_reads_covered : ∃ view memory₁ memory₂,
    answerText (some (bytes "header")) zeroBuffer = .ok (some view, memory₁) ∧
      deliverAll [bytes "true", bytes "no"] memory₁ = .ok memory₂ ∧
      (view.read memory₂).length = 6 ∧
      ∀ (j : ℕ) (b : UInt8), (bytes "header")[j]? = some b → (view.read memory₂)[j]? =
        some (latest (fun data : Bytes => data[j]?) [bytes "true", bytes "no"] b) := by
  obtain ⟨memory₁, hown⟩ :=
    exists_answerText_eq (show (bytes "header").length ≤ bufSize by decide) zeroBuffer
  obtain ⟨memory', hfirst⟩ :=
    exists_answerText_eq (show (bytes "true").length ≤ bufSize by decide) memory₁
  obtain ⟨memory₂, hsecond⟩ :=
    exists_answerText_eq (show (bytes "no").length ≤ bufSize by decide) memory'
  have hlater : deliverAll [bytes "true", bytes "no"] memory₁ = .ok memory₂ := by
    unfold deliverAll
    simp only [List.foldlM_cons, List.foldlM_nil, (answerText_some hfirst).2,
      (answerText_some hsecond).2, bind, Except.bind]
    rfl
  exact ⟨_, memory₁, memory₂, hown, hlater, slice_reads hown hlater⟩

/-! ### The message of `proxy_on_log` -/

/-- What a text looks like after one later answer, which covers its start. -/
def covered (later : Option Bytes) (own : Bytes) : Bytes :=
  later.elim own fun data => data.take own.length ++ own.drop data.length

theorem covered_some (data own : Bytes) :
    covered (some data) own = data.take own.length ++ own.drop data.length := rfl

theorem covered_some_eq_iff : covered (some data) own = own ↔
    data.take own.length = own.take data.length := by
  rw [covered_some]
  constructor
  · intro h
    exact List.append_cancel_right (h.trans (List.take_append_drop data.length own).symm)
  · intro h
    rw [h, List.take_append_drop]

theorem covered_some_of_length_eq (h : own.length = data.length) :
    covered (some data) own = data := by
  rw [covered_some, h, List.take_length, ← h, List.drop_length, List.append_nil]

theorem answerText_read {answer : Option Bytes} {slot : Option View}
    (h : answerText answer memory = .ok (slot, memory₁)) :
    slot.map (·.read memory₁) = answer := by
  cases answer with
  | none =>
    cases h
    rfl
  | some own =>
    obtain ⟨rfl, hdeliver⟩ := answerText_some h
    obtain ⟨hbuf, -, -⟩ := deliver_spec hdeliver
    unfold View.read
    rw [Option.map_some, hbuf, List.take_left]

theorem answerText_read_later {answer later : Option Bytes} {slot slot' : Option View}
    (h : answerText answer memory = .ok (slot, memory₁))
    (hlater : answerText later memory₁ = .ok (slot', memory₂)) :
    slot.map (·.read memory₂) = answer.map (covered later) := by
  cases later with
  | none =>
    cases hlater
    rw [answerText_read h]
    exact Option.map_id'.symm
  | some data =>
    cases answer with
    | none =>
      cases h
      rfl
    | some own =>
      obtain ⟨rfl, hdeliver⟩ := answerText_some h
      obtain ⟨hbuf, -, -⟩ := deliver_spec hdeliver
      obtain ⟨hbuf', -, -⟩ := deliver_spec (answerText_some hlater).2
      unfold View.read
      rw [Option.map_some, hbuf', hbuf, List.take_append, List.drop_append,
        List.take_left' List.length_drop]
      rfl

theorem length_covered (later : Option Bytes) (own : Bytes) :
    (covered later own).length = own.length := by
  cases later with
  | none => rfl
  | some data =>
    rw [covered_some, List.length_append, List.length_take, List.length_drop]
    omega

theorem answerInt64_eq {answer : Option Bytes} {value : Option Int64}
    (h : answerInt64 answer memory = .ok (value, memory₁)) : value = answer.map decodeInt64 := by
  cases answer with
  | none =>
    cases h
    rfl
  | some data =>
    unfold answerInt64 at h
    simp only [bind_eq_ok_iff] at h
    obtain ⟨memory', hdeliver, h⟩ := h
    obtain ⟨hbuf, hlen, -⟩ := deliver_spec hdeliver
    split_ifs at h with hsize
    obtain ⟨bytes, hslice, h⟩ := bind_eq_ok_iff.1 h
    have hdata : slice memory'.buf 0 8 = .ok data := by
      refine slice_eq_ok_iff.2 ⟨hbuf ▸ at_zero, ?_⟩
      rw [Nat.zero_add, ← hlen, hsize]
    obtain rfl : data = bytes := Except.ok.inj (hdata.symm.trans hslice)
    cases h
    rfl

/-- What the message about the request should show: the answers of the host. -/
def Host.line (host : Host) : LogLine where
  size := (host.property (propertyPath [bytes "request", bytes "size"])).map decodeInt64
  totalSize := (host.property (propertyPath [bytes "request", bytes "total_size"])).map decodeInt64
  header := host.requestHeader wasmTest
  property := host.property (propertyPath wasmTestPath)

/-- The header may be covered; the other arguments are what the host answers. -/
theorem requestLine_eq {host : Host} {line : LogLine}
    (h : requestLine host memory = .ok (line, memory')) :
    line = { host.line with header := host.line.header.map (covered host.line.property) } := by
  unfold requestLine getHeader getProperty getPropertyInt64 at h
  simp only [bind_eq_ok_iff] at h
  obtain ⟨_, hsize, _, htotal, _, hheader, _, hproperty, h⟩ := h
  cases h
  rw [LogLine.mk.injEq]
  exact ⟨answerInt64_eq hsize, answerInt64_eq htotal, answerText_read_later hheader hproperty,
    answerText_read hproperty⟩

/-- Whatever is shown for the header, the message has the same length. -/
theorem length_text_covered (line : LogLine) (later : Option Bytes) :
    ({ line with header := line.header.map (covered later) } : LogLine).text.length =
      line.text.length := by
  unfold LogLine.text formatOption
  cases line.header with
  | none => rfl
  | some own =>
    simp only [Option.map_some, Option.elim_some, id_eq, List.length_append, length_covered]

theorem length_property_le {line : LogLine} (h : line.property = some own) :
    own.length ≤ line.text.length := by
  unfold LogLine.text formatOption
  rw [h, List.length_append]
  exact Nat.le_add_left ..

/-- The message about the request comes after another one. -/
theorem message_eq_some_iff {M : Type} {map : PairMap M} {iterator : M → List (Bytes × Bytes)}
    {keys values : Lengths} {host : Host} {id : UInt32} {m : M} {message : Message} :
    (proxyOnLog host map iterator keys values id memory m).1[1]? = some message ↔
      ∃ line memory', requestLine host memory = .ok (line, memory') ∧
        log .info line.text = message := by
  unfold proxyOnLog
  cases hline : requestLine host memory with
  | error fault => simp
  | ok result =>
    obtain ⟨line, memory₁⟩ := result
    dsimp only
    split <;> simp

/-- **When the message of `proxy_on_log` shows the header.**  The message is logged if the answers
of the host fit the buffer of `log`; otherwise another one takes its place.  It shows the property
as the host answered it.  The header is shown if its text and that of the property, which is
answered later, agree as far as both go.  The message says that they are the same; if they are as
long as each other, they are shown as the same even if they differ. -/
theorem log_header_iff {M : Type} {map : PairMap M} {iterator : M → List (Bytes × Bytes)}
    {keys values : Lengths} {host : Host} {id : UInt32} {m : M} {message : Message}
    (h : (proxyOnLog host map iterator keys values id memory m).1[1]? = some message) :
    (1024 < host.line.text.length → message = ⟨.trace, bytes "buffer too small"⟩) ∧
    (host.line.text.length ≤ 1024 → ∃ line : LogLine, message = ⟨.info, line.text⟩ ∧
      line.size = host.line.size ∧ line.totalSize = host.line.totalSize ∧
      line.property = host.property (propertyPath wasmTestPath) ∧
      (line.header = host.requestHeader wasmTest ↔
        ∀ header property, host.requestHeader wasmTest = some header →
          host.property (propertyPath wasmTestPath) = some property →
          property.take header.length = header.take property.length) ∧
      ∀ header property, host.requestHeader wasmTest = some header →
        host.property (propertyPath wasmTestPath) = some property →
        header.length = property.length → line.header = line.property) := by
  obtain ⟨line, memory', hline, hmessage⟩ := message_eq_some_iff.1 h
  have hcovered := requestLine_eq hline
  have hlength : line.text.length = host.line.text.length := by
    rw [hcovered]
    exact length_text_covered ..
  unfold log logBufSize at hmessage
  rw [hlength] at hmessage
  constructor
  · intro hlarge
    rw [← hmessage, if_neg (Nat.not_le.2 hlarge)]
  · intro hfits
    rw [if_pos hfits] at hmessage
    have hheader : line.header =
        (host.requestHeader wasmTest).map
          (covered (host.property (propertyPath wasmTestPath))) := by
      rw [hcovered]
      rfl
    have hproperty : line.property = host.property (propertyPath wasmTestPath) := by
      rw [hcovered]
      rfl
    refine ⟨line, hmessage.symm, by rw [hcovered], by rw [hcovered], hproperty, ?_,
      fun header property hhost hhost' hsame => ?_⟩
    · rw [hheader]
      cases host.requestHeader wasmTest with
      | none => exact iff_of_true rfl nofun
      | some header =>
        cases host.property (propertyPath wasmTestPath) with
        | none => exact iff_of_true rfl nofun
        | some property =>
          constructor
          · rintro hshown _ _ ⟨⟩ ⟨⟩
            exact covered_some_eq_iff.1 (Option.some.inj hshown)
          · intro hagree
            exact congrArg some (covered_some_eq_iff.2 (hagree _ _ rfl rfl))
    · calc line.header
        _ = some (covered (some property) header) := by rw [hheader, hhost, hhost', Option.map_some]
        _ = some property := by rw [covered_some_of_length_eq hsame]
        _ = line.property := by rw [hproperty, hhost']

/-- The header is `on`, and the property that should be the same is another text. -/
def coveringHost (text : Bytes) : Host where
  property path := if path = propertyPath wasmTestPath then some text else none
  requestHeader _ := some (bytes "on")
  requestHeaders := (.notFound, [])

theorem property_coveringHost (text : Bytes) :
    (coveringHost text).property (propertyPath wasmTestPath) = some text := by
  unfold coveringHost
  dsimp only
  rw [if_pos rfl]

theorem getPropertyInt64_coveringHost {parts : List Bytes} (text : Bytes)
    (h : propertyPath parts ≠ propertyPath wasmTestPath) (memory : Buffer) :
    getPropertyInt64 (coveringHost text) parts memory = .ok (none, memory) := by
  have hnone : (coveringHost text).property (propertyPath parts) = none := by
    unfold coveringHost
    dsimp only
    rw [if_neg h]
  unfold getPropertyInt64
  rw [hnone]
  rfl

theorem exists_message (text : Bytes) (h : text.length ≤ bufSize) (memory : Buffer) :
    ∃ message, (proxyOnLog (coveringHost text) functionMap (fun _ => []) zeroLengths zeroLengths 1
      memory fun _ => none).1[1]? = some message := by
  obtain ⟨memory₁, hheader⟩ :=
    exists_answerText_eq (show (bytes "on").length ≤ bufSize by decide) memory
  obtain ⟨memory₂, hproperty⟩ := exists_answerText_eq h memory₁
  have hsize := getPropertyInt64_coveringHost text
    (show propertyPath [bytes "request", bytes "size"] ≠ propertyPath wasmTestPath by decide) memory
  have htotal := getPropertyInt64_coveringHost text
    (show propertyPath [bytes "request", bytes "total_size"] ≠ propertyPath wasmTestPath by decide)
    memory
  have hproperty' : getProperty (coveringHost text) wasmTestPath memory₁ =
      .ok (some ⟨text.length⟩, memory₂) := by
    unfold getProperty
    rw [property_coveringHost]
    exact hproperty
  refine ⟨_, message_eq_some_iff.2 ⟨⟨none, none, some ((⟨2⟩ : View).read memory₂),
    some ((⟨text.length⟩ : View).read memory₂)⟩, memory₂, ?_, rfl⟩⟩
  unfold requestLine
  simp only [bind_eq_ok_iff]
  exact ⟨_, hsize, _, htotal, _, hheader, _, hproperty', rfl⟩

/-- The message shows `of` for the header; with a long property there is no such message. -/
theorem log_header_iff_covered :
    (∃ line : LogLine, (proxyOnLog (coveringHost (bytes "off")) functionMap (fun _ => [])
        zeroLengths zeroLengths 1 zeroBuffer fun _ => none).1[1]? = some ⟨.info, line.text⟩ ∧
      line.property = some (bytes "off") ∧ line.header ≠ some (bytes "on")) ∧
    (proxyOnLog (coveringHost (List.replicate 1100 97)) functionMap (fun _ => [])
        zeroLengths zeroLengths 1 zeroBuffer fun _ => none).1[1]? =
      some ⟨.trace, bytes "buffer too small"⟩ := by
  constructor
  · obtain ⟨message, hmessage⟩ := exists_message (bytes "off") (by decide) zeroBuffer
    obtain ⟨line, rfl, -, -, hshown, hiff, -⟩ := (log_header_iff hmessage).2 (by decide)
    refine ⟨line, hmessage, hshown.trans (property_coveringHost _), fun hsame => ?_⟩
    have hagree := hiff.1 hsame (bytes "on") (bytes "off") rfl (property_coveringHost _)
    exact absurd hagree (by decide)
  · obtain ⟨message, hmessage⟩ := exists_message (List.replicate 1100 97)
      (by rw [List.length_replicate]; decide) zeroBuffer
    have hshown : (coveringHost (List.replicate 1100 97)).line.property =
        some (List.replicate 1100 97) := property_coveringHost _
    have hlength := length_property_le hshown
    rw [List.length_replicate] at hlength
    rw [hmessage, (log_header_iff hmessage).1 (Nat.lt_of_lt_of_le (by decide) hlength)]

end ZigDemo

end WasmExtensions
