import Mathlib
import Sensor.Core.ByteOrder

/-!
# Configuration files

`kvset.c` reads a file of sections of `key = value` lines into variables that
were registered for a section and a key.  A C string is the list of the bytes
before its NUL; an array is the list of all its bytes.  A function returns
`none` where it would access an array outside of its bounds or compute with the
null pointer.
-/

namespace Sensor.Kvs

open ByteOrder

instance (byte : Byte) (bytes : List Byte) : Decidable (byte ∈ bytes) :=
  inferInstance

/-- The byte of an ASCII character. -/
def char (character : Char) : Byte := BitVec.ofNat 8 character.toNat

/-- The bytes of a string literal. -/
def text (literal : String) : List Byte := literal.toList.map char

/-- The C string an array holds. -/
def cString (array : List Byte) : Option (List Byte) :=
  if 0 ∈ array then some (array.takeWhile (· != 0)) else none

/-- Storing a byte in an array. -/
def store (array : List Byte) (index : ℕ) (byte : Byte) :
    Option (List Byte) :=
  if index < array.length then some (array.set index byte) else none

/-! ## Values -/

inductive KvsType where
  | string
  | hex
  | uint32
  | uint8
  | int32
  | int8
  | bool
  deriving DecidableEq

/-- What a variable holds; the signed and the unsigned types of a size have the
same bits. -/
inductive Content where
  | string (value : List Byte)
  | bits32 (value : BitVec 32)
  | bits8 (value : BitVec 8)
  | bool (value : Bool)
  deriving DecidableEq

def maxString : ℕ := 255

/-- `isspace` in the C locale. -/
def isSpace (byte : Byte) : Bool :=
  byte == char ' ' || (9 ≤ byte.toNat && byte.toNat ≤ 13)

def isDigit (byte : Byte) : Bool :=
  48 ≤ byte.toNat && byte.toNat ≤ 57

/-- The number the digits at the start of a string make. -/
def digits (value : List Byte) : ℕ :=
  (value.takeWhile isDigit).foldl
    (fun number digit => 10 * number + (digit.toNat - 48)) 0

/-- `strtol(value, 0, 10)` for a `long` of 64 bits. -/
def strtol (value : List Byte) : ℤ :=
  match value.dropWhile isSpace with
  | [] => 0
  | byte :: rest =>
      if byte = char '-' then max (-2 ^ 63) (-(digits rest : ℤ))
      else if byte = char '+' then min (2 ^ 63 - 1) (digits rest : ℤ)
      else min (2 ^ 63 - 1) (digits (byte :: rest) : ℤ)

/-- What the variable holds after `parseValue`. -/
def parseValue (type : KvsType) (value : List Byte) (content : Content) :
    Content :=
  match type with
  | .string => .string (value.take maxString)
  | .int32 => .bits32 (BitVec.ofInt 32 (strtol value))
  | .int8 => .bits8 (BitVec.ofInt 8 (strtol value))
  | .uint32 => .bits32 (BitVec.ofInt 32 (strtol value))
  | .uint8 => .bits8 (BitVec.ofInt 8 (strtol value))
  | .bool => .bool (value = text "1" ∨ value = text "true")
  | .hex => content

/-! ## Registration -/

structure Value (Target : Type*) where
  type : KvsType
  name : List Byte
  content : Target

/-- `struct kvset`; `count` is `catCount`. -/
structure Kvset (count : ℕ) (Target : Type*) where
  sections : Fin count → List Byte
  values : Fin count → List (Value Target)

variable {count : ℕ} {Target : Type*}

def initKVS (sections : Fin count → List Byte) : Kvset count Target where
  sections := sections
  values := fun _ => []

def addKVS (self : Kvset count Target) (section_ : Fin count)
    (type : KvsType) (name : List Byte) (value : Target) :
    Kvset count Target :=
  { self with
    values := Function.update self.values section_
      (⟨type, name, value⟩ :: self.values section_) }

/-! ## Lines -/

/-- `get_cmp_section` of the line in `buf`; the inner `none` is -1. -/
def getCmpSection (sections : Fin count → List Byte) (buf : List Byte) :
    Option (Option (Fin count)) :=
  match buf with
  | [] => some none
  | byte :: rest =>
      if byte ≠ char '[' then some none
      else if char ']' ∈ rest then
        let name := rest.takeWhile (· != char ']')
        if name.length ≤ 1 then some none
        else some ((List.finRange count).find? fun index =>
          (sections index).take name.length = name)
      else none

/-- The loops of `get_key_value`: the bytes of `buffer` from `i` on go to
`array` from `j` on, without spaces, up to the byte `stop`.  There are `fuel`
bytes left before `buflen`. -/
def copyLoop (stop : Byte) (buffer : List Byte) (arraylen : ℕ) :
    (fuel i j : ℕ) → (array : List Byte) → Option (ℕ × ℕ × List Byte)
  | 0, i, j, array => some (i, j, array)
  | fuel + 1, i, j, array =>
      if j < arraylen then
        (buffer[i]?).bind fun byte =>
          if byte = char ' ' then
            copyLoop stop buffer arraylen fuel (i + 1) j array
          else if byte = stop then some (i, j, array)
          else (store array j byte).bind
            (copyLoop stop buffer arraylen fuel (i + 1) (j + 1))
      else some (i, j, array)

/-- `get_key_value`: the arrays it fills, and its result. -/
def getKeyValue (buffer : List Byte) (keylen vallen buflen : ℕ) :
    Option (List Byte × List Byte × ℕ) :=
  (copyLoop (char '=') buffer keylen buflen 0 0
    (List.replicate keylen 0)).bind fun (i, j, key) =>
      if i = buflen ∨ j = keylen then
        some (key, List.replicate vallen 0, 1)
      else
        (copyLoop (char '\n') buffer vallen (buflen - (i + 1)) (i + 1) 0
          (List.replicate vallen 0)).map fun (_, _, value) => (key, value, 0)

section Load

variable [DecidableEq Target]

/-- One pass of the loop over the values of a section. -/
def loadValue (buffer : List Byte) (buflen : ℕ) (memory : Target → Content)
    (current : Value Target) : Option (Target → Content) :=
  (getKeyValue buffer 128 512 buflen).bind fun (key, value, _) =>
    if key[0]? ≠ some 0 ∧ value[0]? ≠ some 0 then
      (cString key).bind fun keyString =>
        if current.name = keyString then
          (cString value).map fun valueString =>
            Function.update memory current.content
              (parseValue current.type valueString (memory current.content))
        else some memory
    else some memory

/-- One pass of the loop of `LoadKVS`: the string `line` is in `buf`.  The state
is `section` and the variables. -/
def loadLine (self : Kvset count Target) (state : ℕ × (Target → Content))
    (line : List Byte) : Option (ℕ × (Target → Content)) :=
  if line.length ≤ 1 ∨ line.head? = some (char '#') then some state
  else
    (getCmpSection self.sections line).bind fun
      | some index => some (index.val, state.2)
      | none =>
          if h : state.1 < count then
            if char '=' ∈ line then
              ((self.values ⟨state.1, h⟩).foldlM
                (loadValue (line ++ [0]) line.length) state.2).map
                  fun memory => (state.1, memory)
            else some state
          else some state

/-- What the calls of `fgets` with room for `size` bytes read, when `buf` was
read before in the call. -/
def fgetsAll (size : ℕ) (buf : List Byte) : List Byte → List (List Byte)
  | [] => if buf.isEmpty then [] else [buf]
  | byte :: file =>
      if byte = char '\n' ∨ buf.length + 2 = size then
        (buf ++ [byte]) :: fgetsAll size [] file
      else fgetsAll size (buf ++ [byte]) file

/-- `LoadKVS` on the contents of a file, or without one if it cannot be opened:
the result and the variables. -/
def loadKVS (self : Kvset count Target) (file : Option (List Byte))
    (memory : Target → Content) : Option (ℕ × (Target → Content)) :=
  match file with
  | none => some (1, memory)
  | some file =>
      ((fgetsAll 512 [] file).foldlM
        (fun state buf => loadLine self state (buf.takeWhile (· != 0)))
        (0, memory)).map fun state => (0, state.2)

end Load

end Sensor.Kvs
