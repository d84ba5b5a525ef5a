import WasmExtensions.Common.Bytes

/-!
# Response flags

The host gives the response flags of a stream as a bit set; the text that access logs and metrics
show for it is assembled here.
-/

namespace WasmExtensions

/-- The flags with their short names, in the order in which they are looked at. -/
def responseFlags : List (UInt64 × Bytes) :=
  [(0x1, bytes "LH"), (0x2, bytes "UH"), (0x4, bytes "UT"), (0x8, bytes "LR"),
    (0x10, bytes "UR"), (0x20, bytes "UF"), (0x40, bytes "UC"), (0x80, bytes "UO"),
    (0x100, bytes "NR"), (0x200, bytes "DI"), (0x400, bytes "FI"), (0x800, bytes "RL"),
    (0x1000, bytes "UAEX"), (0x2000, bytes "RLSE"), (0x4000, bytes "DC"), (0x8000, bytes "URX"),
    (0x10000, bytes "SI"), (0x20000, bytes "IH"), (0x40000, bytes "DPE"),
    (0x80000, bytes "UMSDR"), (0x100000, bytes "RFCF"), (0x200000, bytes "NFCF"),
    (0x400000, bytes "DT"), (0x800000, bytes "UPE"), (0x1000000, bytes "NC"),
    (0x2000000, bytes "OM"), (0x4000000, bytes "DF")]

def lastFlag : UInt64 := 0x4000000

def appendString (result append : Bytes) : Bytes :=
  if result.isEmpty then append else result ++ bytes "," ++ append

/-- Bits above the last flag are shown by the number. -/
def parseResponseFlag (responseFlag : UInt64) : Bytes :=
  let result := responseFlags.foldl (fun result flag =>
    if responseFlag &&& flag.1 ≠ 0 then appendString result flag.2 else result) []
  let result :=
    if lastFlag <<< 1 ≤ responseFlag then appendString result (toDecimal responseFlag.toNat)
    else result
  if result.isEmpty then bytes "-" else result

example : parseResponseFlag 0x60 = bytes "UF,UC" := by decide

end WasmExtensions
