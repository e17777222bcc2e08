import Mathlib.Logic.Function.Basic
import Sensor.Base.SizeT

/-!
# The hash table

`TsHashTable` keeps its buckets in `length` chains and doubles `length` when a
key is added at a load of three quarters.  Keys are hashed by the bytes of
their objects and compared by `operator==`; every call runs under the table's
lock, so calls are atomic.  The hash is computed on `int` values of 32 bits,
whose shifts and sums wrap around and whose right shift keeps the sign.  Counts
are natural numbers: chains and buckets that fit in memory overflow no `size_t`.
-/

namespace Sensor

/-- What the table uses of its key type: the bytes of an object, which
`times33` reads, and `operator==`. -/
structure KeyOps (Key : Type*) where
  size : ℕ
  bytes : Key → Vector (BitVec 8) size
  equal : Key → Key → Bool

/-- A key type whose `operator==` holds exactly when the bytes are equal. -/
structure KeyType (Key : Type*) extends KeyOps Key where
  equal_iff : ∀ left right, equal left right = true ↔ bytes left = bytes right

instance {Key : Type*} : Coe (KeyType Key) (KeyOps Key) where
  coe := KeyType.toKeyOps

/-- A `Bucket` without its link `next`. -/
structure TsHashTable.Bucket (Key Value : Type*) where
  hash : BitVec 32
  key : Key
  val : Value

/-- The fields of the class; `table index` is the chain of buckets at
`table[index]`, first to last along `next`. -/
structure TsHashTable (Key Value : Type*) where
  table : ℕ → List (TsHashTable.Bucket Key Value)
  capacity : ℕ
  length : ℕ

namespace TsHashTable

variable {Key Value : Type*} (keys : KeyOps Key)

/-- `hash = 33 * hash + *data++` over the bytes, which are signed `char`s. -/
def times33 {size : ℕ} (data : Vector (BitVec 8) size) : BitVec 32 :=
  data.toList.foldl (fun hash byte => 33 * hash + byte.signExtend 32) 0

def spreadHash (h : BitVec 32) : BitVec 32 :=
  let h := h ^^^ ((h <<< 15) ^^^ 0xcd7dcd7d)
  let h := h ^^^ h.sshiftRight 10
  let h := h ^^^ (h <<< 3)
  let h := h ^^^ h.sshiftRight 6
  let h := h ^^^ ((h <<< 2) + (h <<< 14))
  h ^^^ h.sshiftRight 16

def getPlace (len : ℕ) (hash : BitVec 32) : ℕ :=
  hash.toNat &&& (len - 1)

/-- The constructor. -/
def new : TsHashTable Key Value where
  table := fun _ => []
  capacity := 0
  length := 16

/-- `spread_hash(times33(key))`. -/
def hashOf (key : Key) : BitVec 32 :=
  spreadHash (times33 (keys.bytes key))

/-- `bucket->hash == hash && bucket->key == key`. -/
def isBucket (hash : BitVec 32) (key : Key) (bucket : Bucket Key Value) :
    Bool :=
  bucket.hash == hash && keys.equal bucket.key key

def getBucket (self : TsHashTable Key Value) (hash : BitVec 32)
    (key : Key) : Option (Bucket Key Value) :=
  (self.table (getPlace self.length hash)).find? (isBucket keys hash key)

/-- The loop of `steal_bucket`; `passed` holds the buckets it went by, the last
one, `previous`, first. -/
def stealLoop (wanted : Bucket Key Value → Bool)
    (passed : List (Bucket Key Value)) : List (Bucket Key Value) →
      Option (Bucket Key Value) × List (Bucket Key Value)
  | [] => (none, passed.reverse)
  | bucket :: next =>
      if wanted bucket then (some bucket, passed.reverse ++ next)
      else stealLoop wanted (bucket :: passed) next

def stealBucket (self : TsHashTable Key Value) (hash : BitVec 32)
    (key : Key) : Option (Bucket Key Value) × TsHashTable Key Value :=
  let index := getPlace self.length hash
  let (bucket, chain) := stealLoop (isBucket keys hash key) [] (self.table index)
  (bucket, { self with table := Function.update self.table index chain })

/-- The body of the inner loop of `expand_map`: `b` goes in front of the chain
`newData[j]`, where `j` is an `int`; an index outside the allocation is
undefined behaviour. -/
def relink (newLen : ℕ) (newData : ℕ → List (Bucket Key Value))
    (b : Bucket Key Value) : Option (ℕ → List (Bucket Key Value)) :=
  let j := SizeT.toInt (getPlace newLen b.hash)
  if 0 ≤ j ∧ j < newLen then
    some (Function.update newData j.toNat (b :: newData j.toNat))
  else none

def expandMap (self : TsHashTable Key Value) : Option (TsHashTable Key Value) :=
  let newLen := 2 * self.length
  let oldLen := self.length
  let newData := (List.range oldLen).foldlM
    (fun newData i => (self.table i).foldlM (relink newLen) newData)
    (fun _ => [])
  newData.map fun newData => { self with table := newData, length := newLen }

def getSize (self : TsHashTable Key Value) : ℕ :=
  self.capacity

/-- `(float)capacity / (float)length >= 0.75`; a quotient by a power of two is
exact. -/
def isLoaded (self : TsHashTable Key Value) : Bool :=
  3 * SizeT.toFloat self.length ≤ 4 * SizeT.toFloat self.capacity

/-- The result and, where one is found, the value stored at `value`. -/
def get (self : TsHashTable Key Value) (key : Key) :
    Bool × Option Value :=
  let bucket := self.getBucket keys (hashOf keys key) key
  (bucket.isSome, bucket.map (·.val))

def contains (self : TsHashTable Key Value) (key : Key) : Bool :=
  (self.getBucket keys (hashOf keys key) key).isSome

/-- `add` after the table had its chance to expand: the loop gives every
matching bucket the value. -/
def insert (self : TsHashTable Key Value) (key : Key) (val : Value) :
    Bool × TsHashTable Key Value :=
  let hash := hashOf keys key
  let index := getPlace self.length hash
  let chain := self.table index
  let found := chain.any (isBucket keys hash key)
  let assigned := chain.map fun b =>
    if isBucket keys hash key b then { b with val := val } else b
  if !found then
    (found, { self with
      table := Function.update self.table index
        ({ hash := hash, key := key, val := val } :: assigned)
      capacity := self.capacity + 1 })
  else
    (found, { self with table := Function.update self.table index assigned })

def add (self : TsHashTable Key Value) (key : Key) (val : Value) :
    Option (Bool × TsHashTable Key Value) :=
  (if self.isLoaded then self.expandMap else some self).map fun self =>
    self.insert keys key val

/-- `bucket->val = val` for the first bucket of the chain that is wanted. -/
def assign (wanted : Bucket Key Value → Bool) (val : Value) :
    List (Bucket Key Value) → List (Bucket Key Value)
  | [] => []
  | bucket :: next =>
      if wanted bucket then { bucket with val := val } :: next
      else bucket :: assign wanted val next

def replace (self : TsHashTable Key Value) (key : Key) (val : Value) :
    Bool × TsHashTable Key Value :=
  let hash := hashOf keys key
  let index := getPlace self.length hash
  if (self.getBucket keys hash key).isSome then
    (true, { self with
      table := Function.update self.table index
        (assign (isBucket keys hash key) val (self.table index)) })
  else (false, self)

/-- The result of `remove` and `steal` and the value `steal` stores. -/
def steal (self : TsHashTable Key Value) (key : Key) :
    Bool × Option Value × TsHashTable Key Value :=
  let (bucket, self) := self.stealBucket keys (hashOf keys key) key
  match bucket with
  | some bucket =>
      (true, some bucket.val, { self with capacity := self.capacity - 1 })
  | none => (false, none, self)

def remove (self : TsHashTable Key Value) (key : Key) :
    Bool × TsHashTable Key Value :=
  let (bucket, self) := self.stealBucket keys (hashOf keys key) key
  match bucket with
  | some _ => (true, { self with capacity := self.capacity - 1 })
  | none => (false, self)

/-- A call of one of the six operations. -/
inductive Call (Key Value : Type*) where
  | add (key : Key) (val : Value)
  | replace (key : Key) (val : Value)
  | get (key : Key)
  | contains (key : Key)
  | remove (key : Key)
  | steal (key : Key)

def Call.key : Call Key Value → Key
  | .add key _ => key
  | .replace key _ => key
  | .get key => key
  | .contains key => key
  | .remove key => key
  | .steal key => key

/-- The table after a call, its result and the value it hands out. -/
def call (self : TsHashTable Key Value) :
    Call Key Value → Option (TsHashTable Key Value × Bool × Option Value)
  | .add key val => (self.add keys key val).map fun (found, next) =>
      (next, found, none)
  | .replace key val =>
      let (found, next) := self.replace keys key val
      some (next, found, none)
  | .get key => some (self, self.get keys key)
  | .contains key => some (self, self.contains keys key, none)
  | .remove key =>
      let (found, next) := self.remove keys key
      some (next, found, none)
  | .steal key =>
      let (found, val, next) := self.steal keys key
      some (next, found, val)

end TsHashTable

end Sensor
