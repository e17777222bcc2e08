import Sensor.Core.DigitSums
import Sensor.Net.RouteTable

/-!
# Gateway text on machines of either byte order

`hex_to_uint32` puts the digits into four bytes in the order of the text and
takes these for a word of the machine, which `read_default_gateway` converts to
network order.  The order of the machine counts twice and cancels.
-/

namespace Sensor

open ByteOrder DigitSums RouteTable

/-- Which end of a word a machine stores first. -/
inductive HostOrder where
  | littleEndian
  | bigEndian
  deriving DecidableEq

namespace HostOrder

/-- The word of the machine whose bytes begin at `place`. -/
def load32 (order : HostOrder) (memory : ℕ → Byte) (place : ℕ) : BitVec 32 :=
  match order with
  | littleEndian => ByteOrder.load32 memory place
  | bigEndian =>
      memory place ++ memory (place + 1) ++ memory (place + 2) ++
        memory (place + 3)

/-- A machine that stores the high byte first has nothing to convert. -/
def htonl (order : HostOrder) (word : BitVec 32) : BitVec 32 :=
  match order with
  | littleEndian => swap32 word
  | bigEndian => word

/-- The array `a` of `hex_to_uint32`. -/
def hexBytes (hex : List Byte) : Option (List Byte) :=
  match hex with
  | hex0 :: hex1 :: hex2 :: hex3 :: hex4 :: hex5 :: hex6 :: hex7 :: _ =>
      some [combine (hexToUint8 hex0) (hexToUint8 hex1),
        combine (hexToUint8 hex2) (hexToUint8 hex3),
        combine (hexToUint8 hex4) (hexToUint8 hex5),
        combine (hexToUint8 hex6) (hexToUint8 hex7)]
  | _ => none

def hexToUint32 (order : HostOrder) (hex : List Byte) : Option (BitVec 32) :=
  (hexBytes hex).map fun a => order.load32 (fun place => a.getD place 0) 0

/-- What `read_default_gateway` makes of the gateway's column. -/
def gatewayOf (order : HostOrder) (gwHEX : List Byte) : Option (BitVec 32) :=
  (order.hexToUint32 gwHEX).map order.htonl

variable {order : HostOrder} {memory : ℕ → Byte} {place : ℕ}

/-! ## The order cancels -/

/-- Whatever the order of the machine, the first byte becomes the highest. -/
theorem htonl_load32 :
    order.htonl (order.load32 memory place) =
      bigEndian.load32 memory place := by
  cases order with
  | littleEndian =>
      rw [htonl, load32, load32, swap32, ByteOrder.load32]
      ext index
      grind
  | bigEndian => rfl

/-- All machines find the same gateway in a text, whatever it holds. -/
theorem gatewayOf_eq (gwHEX : List Byte) :
    order.gatewayOf gwHEX = bigEndian.hexToUint32 gwHEX := by
  rw [gatewayOf, hexToUint32, hexToUint32, Option.map_map]
  congr 1
  funext a
  exact htonl_load32

/-- The machine of the routing table's model. -/
theorem littleEndian_hexToUint32 (hex : List Byte) :
    littleEndian.hexToUint32 hex = RouteTable.hexToUint32 hex := by
  rw [hexToUint32, RouteTable.hexToUint32.eq_def, hexBytes.eq_def]
  split
  · rfl
  · grind

/-- What `readRow` makes of the gateway's column is the same on every
machine. -/
theorem gatewayOf_eq_readRow (gwHEX : List Byte) :
    order.gatewayOf gwHEX = (RouteTable.hexToUint32 gwHEX).map swap32 := by
  calc order.gatewayOf gwHEX = littleEndian.gatewayOf gwHEX := by
        rw [gatewayOf_eq, gatewayOf_eq]
    _ = (RouteTable.hexToUint32 gwHEX).map swap32 := by
        rw [gatewayOf, littleEndian_hexToUint32]
        rfl

/-! ## Eight digits -/

/-- The text is the numeral of the word in base 16. -/
theorem hexText_eq_numeral (word : BitVec 32) :
    hexText word =
      ((lowDigits 16 8 word.toNat).map fun digit =>
        hexDigits.getD digit 0).reverse := by
  have hdigit (start : ℕ) : hexDigit (word.extractLsb' start 4) =
      hexDigits.getD (word.toNat / 2 ^ start % 16) 0 := by
    rw [hexDigit, BitVec.extractLsb'_toNat, Nat.shiftRight_eq_div_pow]
  simp only [hexText, hdigit, lowDigits, List.map_cons, List.map_nil,
    Nat.div_div_eq_div_mul, pow_zero, Nat.div_one]
  rfl

theorem hexBytes_hexText (word : BitVec 32) (behind : List Byte) :
    hexBytes (hexText word ++ behind) =
      some [word.extractLsb' 24 8, word.extractLsb' 16 8,
        word.extractLsb' 8 8, word.extractLsb' 0 8] := by
  rw [hexText, ← combine_hexDigits word 24, ← combine_hexDigits word 16,
    ← combine_hexDigits word 8, ← combine_hexDigits word 0]
  rfl

theorem append_bytes (word : BitVec 32) :
    word.extractLsb' 24 8 ++ word.extractLsb' 16 8 ++ word.extractLsb' 8 8 ++
      word.extractLsb' 0 8 = word := by
  ext index
  grind

/-- On a machine of either order the value printed as eight digits is the one
that is read, whatever is behind the digits. -/
theorem gatewayOf_hexText (order : HostOrder) (word : BitVec 32)
    (behind : List Byte) :
    order.gatewayOf (hexText word ++ behind) = some word := by
  rw [gatewayOf_eq, hexToUint32, hexBytes_hexText]
  exact congrArg some (append_bytes word)

end HostOrder

end Sensor
