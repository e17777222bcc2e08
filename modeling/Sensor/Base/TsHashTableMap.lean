import Mathlib.Data.Finmap
import Sensor.Base.TsHashTable
import Sensor.Core.BucketMap

/-!
# The hash table as a finite map

Every bucket lies in the chain its hash selects and the keys of a chain are
distinct, so the table binds each key to at most one value.  An expansion moves
the buckets to other chains and keeps what they bind.  The last step of
`spread_hash` clears the sign of its `int` result, so the `int` index of an
expansion is never negative.
-/

namespace Sensor.TsHashTable

open BucketMap

variable {Key Value : Type*} (keys : KeyType Key)

/-! ## What the table promises -/

/-- A finite map from keys, which are what their bytes are, to values. -/
abbrev Bindings (Value : Type*) :=
  Finmap fun _ : Vector (BitVec 8) keys.size => Value

variable {keys}

/-- What a call does to the finite map: the map after it, the result and the
value handed out. -/
def Call.spec (map : Bindings keys Value) :
    Call Key Value → Bindings keys Value × Bool × Option Value
  | .add key val =>
      (map.insert (keys.bytes key) val,
        (map.lookup (keys.bytes key)).isSome, none)
  | .replace key val =>
      if (map.lookup (keys.bytes key)).isSome then
        (map.insert (keys.bytes key) val, true, none)
      else (map, false, none)
  | .get key =>
      (map, (map.lookup (keys.bytes key)).isSome,
        map.lookup (keys.bytes key))
  | .contains key => (map, (map.lookup (keys.bytes key)).isSome, none)
  | .remove key =>
      (map.erase (keys.bytes key),
        (map.lookup (keys.bytes key)).isSome, none)
  | .steal key =>
      (map.erase (keys.bytes key), (map.lookup (keys.bytes key)).isSome,
        map.lookup (keys.bytes key))

/-- In every state of the run the size is the number of bound keys, and every
call stays inside the allocation and answers as the finite map does. -/
def Refines (self : TsHashTable Key Value) (map : Bindings keys Value) :
    List (Call Key Value) → Prop
  | [] => self.getSize = map.keys.card
  | call :: calls =>
      self.getSize = map.keys.card ∧
        ∃ next, self.call keys call = some (next, (call.spec map).2) ∧
          next.Refines (call.spec map).1 calls

/-! ## The hash of a key -/

/-- The last step of `spread_hash` makes its result nonnegative. -/
theorem spreadHash_toNat_lt (h : BitVec 32) :
    (spreadHash h).toNat < 2 ^ 31 := by
  apply BitVec.toNat_lt_of_msb_false
  simp only [spreadHash, BitVec.msb_xor, BitVec.msb_sshiftRight,
    Bool.xor_self]

theorem getPlace_lt {len : ℕ} (hlen : 0 < len) (hash : BitVec 32) :
    getPlace len hash < len := by
  have hle : getPlace len hash ≤ len - 1 := Nat.and_le_right
  omega

/-- The place of a key is small enough for an `int`. -/
theorem getPlace_spreadHash_lt (len : ℕ) (h : BitVec 32) :
    getPlace len (spreadHash h) < 2 ^ 31 :=
  Nat.and_le_left.trans_lt (spreadHash_toNat_lt h)

/-- `remove` is `steal` without the value. -/
theorem remove_eq_steal (keys : KeyOps Key) (table : TsHashTable Key Value)
    (key : Key) :
    table.remove keys key =
      ((table.steal keys key).1, (table.steal keys key).2.2) := by
  simp only [remove, steal]
  cases (table.stealBucket keys (hashOf keys key) key).1 with
  | none => rfl
  | some bucket => rfl

/-! ## Expansion -/

theorem relink_eq_push {newLen : ℕ} (hlen : 0 < newLen)
    (newData : ℕ → List (Bucket Key Value)) {bucket : Bucket Key Value}
    (hint : getPlace newLen bucket.hash < 2 ^ 31) :
    relink newLen newData bucket =
      some (push Bucket.hash (getPlace newLen) newData bucket) := by
  have hinside : (0 : ℤ) ≤ getPlace newLen bucket.hash ∧
      (getPlace newLen bucket.hash : ℤ) < newLen := by
    have hplace := getPlace_lt hlen bucket.hash
    omega
  simp only [relink]
  rw [SizeT.toInt_eq_iff.mpr hint, if_pos hinside, Int.toNat_natCast, push]

/-- The inner loop puts the buckets of a chain in front of their new chains. -/
theorem relinkChain_eq_push {newLen : ℕ} (hlen : 0 < newLen)
    {chain : List (Bucket Key Value)}
    (hint : ∀ bucket ∈ chain, getPlace newLen bucket.hash < 2 ^ 31)
    (newData : ℕ → List (Bucket Key Value)) :
    chain.foldlM (relink newLen) newData =
      some (chain.foldl (push Bucket.hash (getPlace newLen)) newData) := by
  induction chain generalizing newData with
  | nil => rfl
  | cons bucket chain ih =>
      rw [List.foldlM_cons, List.foldl_cons,
        relink_eq_push hlen _ (hint bucket List.mem_cons_self)]
      exact ih (fun later hlater => hint later (List.mem_cons_of_mem _ hlater))
        _

/-- The outer loop does so for one chain after the other. -/
theorem relinkChains_eq_push {newLen : ℕ} (hlen : 0 < newLen)
    {data : ℕ → List (Bucket Key Value)} {indices : List ℕ}
    (hint : ∀ bucket ∈ indices.flatMap data,
      getPlace newLen bucket.hash < 2 ^ 31)
    (newData : ℕ → List (Bucket Key Value)) :
    indices.foldlM
        (fun newData i => (data i).foldlM (relink newLen) newData) newData =
      some ((indices.flatMap data).foldl
        (push Bucket.hash (getPlace newLen)) newData) := by
  induction indices generalizing newData with
  | nil => rfl
  | cons index indices ih =>
      rw [List.flatMap_cons] at hint ⊢
      rw [List.foldlM_cons, List.foldl_append, relinkChain_eq_push hlen
        fun bucket hmem => hint bucket (List.mem_append_left _ hmem)]
      exact ih (fun bucket hmem => hint bucket (List.mem_append_right _ hmem))
        _

/-- The table after an expansion. -/
def moved (table : TsHashTable Key Value) : TsHashTable Key Value where
  table := ((List.range table.length).flatMap table.table).foldl
    (push Bucket.hash (getPlace (2 * table.length))) (fun _ => [])
  capacity := table.capacity
  length := 2 * table.length

/-- An expansion whose indices an `int` holds moves every bucket. -/
theorem expandMap_eq_moved {table : TsHashTable Key Value}
    (hlength : 0 < table.length)
    (hint : ∀ bucket ∈ (List.range table.length).flatMap table.table,
      getPlace (2 * table.length) bucket.hash < 2 ^ 31) :
    table.expandMap = some table.moved := by
  have hlen : 0 < 2 * table.length := Nat.mul_pos Nat.two_pos hlength
  simp only [expandMap]
  rw [relinkChains_eq_push hlen hint]
  rfl

variable (keys) in
/-- The key of a bucket. -/
def bytesOf (bucket : Bucket Key Value) : Vector (BitVec 8) keys.size :=
  keys.bytes bucket.key

variable (keys) in
/-- The chain of a key in a table of `length` chains. -/
def place (length : ℕ) (wanted : Vector (BitVec 8) keys.size) : ℕ :=
  getPlace length (spreadHash (times33 wanted))

theorem isBucket_eq {bucket : Bucket Key Value} {key : Key}
    (hhash : bucket.hash = hashOf keys bucket.key) :
    isBucket keys (hashOf keys key) key bucket =
      decide (bytesOf keys bucket = keys.bytes key) := by
  by_cases hkey : keys.bytes bucket.key = keys.bytes key
  · have hequal : keys.equal bucket.key key = true :=
      (keys.equal_iff _ _).mpr hkey
    have hsame : hashOf keys bucket.key = hashOf keys key := by
      rw [hashOf, hashOf, hkey]
    rw [isBucket, hhash, hsame, hequal, bytesOf, decide_eq_true hkey]
    simp
  · have hequal : keys.equal bucket.key key = false := by
      rw [← Bool.not_eq_true, keys.equal_iff]
      exact hkey
    rw [isBucket, hequal, bytesOf, decide_eq_false hkey, Bool.and_false]

/-! ## What a table binds -/

/-- The table represents the map: its length is a power of two, every bucket is
in its chain under the hash of its key, and the buckets bind what the map
binds. -/
structure Represents (table : TsHashTable Key Value)
    (map : Bindings keys Value) : Prop where
  length_eq : ∃ exponent, table.length = 2 ^ exponent
  wellFormed : WellFormed (bytesOf keys) (place keys table.length) table.table
  hash_eq : ∀ bucket, Holds table.table bucket →
    bucket.hash = hashOf keys bucket.key
  lookup_eq : ∀ wanted, map.lookup wanted =
    (lookup (bytesOf keys) (place keys table.length) table.table wanted).map
      (·.val)
  capacity_eq : table.capacity = map.keys.card

namespace Represents

variable {table : TsHashTable Key Value} {map : Bindings keys Value}
variable {key : Key} {val : Value}

theorem new : (new : TsHashTable Key Value).Represents (∅ : Bindings keys Value)
    where
  length_eq := ⟨4, rfl⟩
  wellFormed := WellFormed.empty
  hash_eq := by
    rintro bucket ⟨index, hmem⟩
    cases hmem
  lookup_eq := fun _ => Finmap.lookup_empty _
  capacity_eq := rfl

theorem length_pos (hrep : table.Represents map) : 0 < table.length := by
  obtain ⟨exponent, hlength⟩ := hrep.length_eq
  rw [hlength]
  exact Nat.two_pow_pos exponent

/-- In its chain the bucket of a key is told by the key alone. -/
theorem isBucket_eq (hrep : table.Represents map) {index : ℕ}
    {bucket : Bucket Key Value} (hmem : bucket ∈ table.table index) :
    isBucket keys (hashOf keys key) key bucket =
      decide (bytesOf keys bucket = keys.bytes key) :=
  TsHashTable.isBucket_eq (hrep.hash_eq _ ⟨index, hmem⟩)

theorem getBucket_eq (hrep : table.Represents map) (key : Key) :
    table.getBucket keys (hashOf keys key) key =
      lookup (bytesOf keys) (place keys table.length) table.table
        (keys.bytes key) :=
  List.find?_congr fun _ hmem => hrep.isBucket_eq hmem

theorem map_getBucket (hrep : table.Represents map) (key : Key) :
    (table.getBucket keys (hashOf keys key) key).map (·.val) =
      map.lookup (keys.bytes key) := by
  rw [hrep.getBucket_eq, hrep.lookup_eq]

theorem isSome_getBucket (hrep : table.Represents map) (key : Key) :
    (table.getBucket keys (hashOf keys key) key).isSome =
      (map.lookup (keys.bytes key)).isSome := by
  rw [← hrep.map_getBucket, Option.isSome_map]

theorem get_eq (hrep : table.Represents map) :
    table.get keys key = ((map.lookup (keys.bytes key)).isSome,
      map.lookup (keys.bytes key)) := by
  simp only [get, hrep.isSome_getBucket, hrep.map_getBucket]

theorem contains_eq (hrep : table.Represents map) :
    table.contains keys key = (map.lookup (keys.bytes key)).isSome :=
  hrep.isSome_getBucket key

/-- An expansion succeeds and binds what was bound before. -/
theorem expandMap_eq (hrep : table.Represents map) :
    ∃ next, table.expandMap = some next ∧ next.Represents map := by
  have hlength := hrep.length_pos
  have hplace : ∀ wanted, place keys table.length wanted < table.length :=
    fun _ => getPlace_lt hlength _
  have hhash : ∀ bucket ∈ (List.range table.length).flatMap table.table,
      bucket.hash = hashOf keys bucket.key := by
    intro bucket hmem
    exact hrep.hash_eq bucket ((hrep.wellFormed.mem_flatMap_iff hplace).mp hmem)
  have hholds : ∀ bucket,
      Holds table.moved.table bucket ↔ Holds table.table bucket := by
    intro bucket
    rw [moved, holds_foldl_push, hrep.wellFormed.mem_flatMap_iff hplace]
    constructor
    · rintro (hold | ⟨_, hmem⟩)
      · exact hold
      · cases hmem
    · exact .inl
  have hsame : table.moved.table =
      ((List.range table.length).flatMap table.table).foldl
        (push (bytesOf keys) (place keys (2 * table.length))) (fun _ => []) :=
    foldl_push_congr fun bucket hmem =>
      congrArg (getPlace (2 * table.length)) (hhash bucket hmem)
  have hwf : WellFormed (bytesOf keys) (place keys (2 * table.length))
      table.moved.table := by
    rw [hsame]
    apply WellFormed.empty.foldl_push (hrep.wellFormed.nodup_flatMap _)
    rintro _ _ _ ⟨_, hmem⟩
    cases hmem
  refine ⟨table.moved, ?_, ?_⟩
  · apply expandMap_eq_moved hlength
    intro bucket hmem
    rw [hhash bucket hmem]
    exact getPlace_spreadHash_lt _ _
  · obtain ⟨exponent, hexponent⟩ := hrep.length_eq
    exact {
      length_eq := ⟨exponent + 1, by rw [moved, hexponent, Nat.pow_succ']⟩
      wellFormed := hwf
      hash_eq := fun bucket hbucket =>
        hrep.hash_eq bucket ((hholds bucket).mp hbucket)
      lookup_eq := fun wanted => by
        rw [hrep.lookup_eq]
        exact congrArg _ (hrep.wellFormed.lookup_congr hwf hholds wanted).symm
      capacity_eq := hrep.capacity_eq }

/-! ## Binding a key -/

theorem card_keys_insert_of_isSome {wanted : Vector (BitVec 8) keys.size}
    (hbound : (map.lookup wanted).isSome) :
    (map.insert wanted val).keys.card = map.keys.card := by
  congr 1
  ext other
  rw [Finmap.mem_keys, Finmap.mem_keys, Finmap.mem_insert]
  rw [Finmap.lookup_isSome] at hbound
  constructor
  · rintro (rfl | hmem)
    · exact hbound
    · exact hmem
  · exact .inr

theorem card_keys_insert_of_not_isSome {wanted : Vector (BitVec 8) keys.size}
    (hbound : ¬ (map.lookup wanted).isSome) :
    (map.insert wanted val).keys.card = map.keys.card + 1 := by
  rw [Finmap.lookup_isSome, ← Finmap.mem_keys] at hbound
  rw [← Finset.card_insert_of_notMem hbound]
  congr 1
  ext other
  rw [Finmap.mem_keys, Finmap.mem_insert, Finset.mem_insert, Finmap.mem_keys]

/-- Giving the bucket of a bound key another value rebinds the key. -/
theorem assigned (hrep : table.Represents map)
    (hbound : (map.lookup (keys.bytes key)).isSome) :
    Represents
      { table with
        table := modify (bytesOf keys) (place keys table.length) table.table
          (keys.bytes key) fun bucket => { bucket with val := val } }
      (map.insert (keys.bytes key) val) where
  length_eq := hrep.length_eq
  wellFormed := hrep.wellFormed.modify fun _ => rfl
  hash_eq := by
    intro bucket hbucket
    obtain ⟨old, hold, rfl | rfl⟩ := exists_of_holds_modify hbucket
    · exact hrep.hash_eq _ hold
    · exact hrep.hash_eq old hold
  lookup_eq := by
    intro wanted
    have hkeep : ∀ bucket : Bucket Key Value,
        bytesOf keys { bucket with val := val } = bytesOf keys bucket :=
      fun _ => rfl
    rw [lookup_modify hkeep]
    by_cases hkey : keys.bytes key = wanted
    · subst hkey
      rw [hrep.lookup_eq, Option.isSome_map, Option.isSome_iff_exists]
        at hbound
      obtain ⟨bucket, hbucket⟩ := hbound
      rw [Finmap.lookup_insert, if_pos rfl, hbucket]
      rfl
    · rw [Finmap.lookup_insert_of_ne _ (Ne.symm hkey), if_neg hkey,
        hrep.lookup_eq]
  capacity_eq :=
    hrep.capacity_eq.trans (card_keys_insert_of_isSome hbound).symm

/-- A bucket in front of the chain of an unbound key binds it. -/
theorem pushed (hrep : table.Represents map)
    (hbound : ¬ (map.lookup (keys.bytes key)).isSome) :
    Represents
      { table with
        table := push (bytesOf keys) (place keys table.length) table.table
          { hash := hashOf keys key, key := key, val := val }
        capacity := table.capacity + 1 }
      (map.insert (keys.bytes key) val) where
  length_eq := hrep.length_eq
  wellFormed := by
    apply hrep.wellFormed.push
    intro other hother hkey
    change bytesOf keys other = keys.bytes key at hkey
    apply hbound
    rw [hrep.lookup_eq, hrep.wellFormed.lookup_eq_some_iff.mpr ⟨hother, hkey⟩]
    rfl
  hash_eq := by
    intro bucket hbucket
    rcases holds_push.mp hbucket with rfl | hold
    · rfl
    · exact hrep.hash_eq bucket hold
  lookup_eq := by
    intro wanted
    rw [lookup_push]
    by_cases hkey : keys.bytes key = wanted
    · subst hkey
      rw [Finmap.lookup_insert, bytesOf, if_pos rfl]
      rfl
    · rw [Finmap.lookup_insert_of_ne _ (Ne.symm hkey), bytesOf, if_neg hkey,
        hrep.lookup_eq]
  capacity_eq := by
    rw [card_keys_insert_of_not_isSome hbound, ← hrep.capacity_eq]

/-- Taking the bucket of a key out unbinds it. -/
theorem erased (hrep : table.Represents map) {capacity : ℕ}
    (hcapacity : capacity = (map.erase (keys.bytes key)).keys.card) :
    Represents
      { table with
        table := erase (bytesOf keys) (place keys table.length) table.table
          (keys.bytes key)
        capacity := capacity }
      (map.erase (keys.bytes key)) where
  length_eq := hrep.length_eq
  wellFormed := hrep.wellFormed.erase
  hash_eq := fun bucket hbucket =>
    hrep.hash_eq bucket (hrep.wellFormed.holds_erase.mp hbucket).1
  lookup_eq := by
    intro wanted
    rw [hrep.wellFormed.lookup_erase]
    by_cases hkey : keys.bytes key = wanted
    · subst hkey
      rw [Finmap.lookup_erase, if_pos rfl]
      rfl
    · rw [Finmap.lookup_erase_ne (Ne.symm hkey), if_neg hkey, hrep.lookup_eq]
  capacity_eq := hcapacity

/-! ## The operations -/

theorem any_isBucket (hrep : table.Represents map) (key : Key) :
    ((table.table (getPlace table.length (hashOf keys key))).any
      (isBucket keys (hashOf keys key) key)) =
        (map.lookup (keys.bytes key)).isSome := by
  rw [← List.isSome_find?]
  exact hrep.isSome_getBucket key

/-- `add` gives another value to the bucket of a bound key. -/
theorem insert_of_bound (hrep : table.Represents map)
    (hbound : (map.lookup (keys.bytes key)).isSome) :
    table.insert keys key val =
      (true, { table with
        table := modify (bytesOf keys) (place keys table.length) table.table
          (keys.bytes key) fun bucket => { bucket with val := val } }) := by
  have hassigned :
      ((table.table (getPlace table.length (hashOf keys key))).map fun b =>
          if isBucket keys (hashOf keys key) key b then { b with val := val }
          else b) =
        (table.table (place keys table.length (keys.bytes key))).map fun b =>
          if bytesOf keys b = keys.bytes key then { b with val := val }
          else b := by
    apply List.map_congr_left
    intro bucket hmem
    rw [hrep.isBucket_eq hmem]
    simp only [decide_eq_true_eq]
  simp only [insert, hrep.any_isBucket, hbound, hassigned, Bool.not_true,
    Bool.false_eq_true, if_false]
  rfl

/-- `add` puts a bucket in front of the chain of an unbound key. -/
theorem insert_of_unbound (hrep : table.Represents map)
    (hbound : ¬ (map.lookup (keys.bytes key)).isSome) :
    table.insert keys key val =
      (false, { table with
        table := push (bytesOf keys) (place keys table.length) table.table
          { hash := hashOf keys key, key := key, val := val }
        capacity := table.capacity + 1 }) := by
  rw [Bool.not_eq_true] at hbound
  have hassigned :
      ((table.table (getPlace table.length (hashOf keys key))).map fun b =>
          if isBucket keys (hashOf keys key) key b then { b with val := val }
          else b) =
        table.table (getPlace table.length (hashOf keys key)) := by
    have hnone := hrep.any_isBucket key
    rw [hbound, List.any_eq_false] at hnone
    calc
      _ = (table.table (getPlace table.length (hashOf keys key))).map id := by
        apply List.map_congr_left
        intro bucket hmem
        rw [if_neg (hnone bucket hmem), id]
      _ = _ := List.map_id _
  simp only [insert, hrep.any_isBucket, hbound, hassigned, Bool.not_false,
    if_true]
  rfl

theorem insert_eq (hrep : table.Represents map) (key : Key) (val : Value) :
    ∃ next, table.insert keys key val =
        ((map.lookup (keys.bytes key)).isSome, next) ∧
      next.Represents (map.insert (keys.bytes key) val) := by
  by_cases hbound : (map.lookup (keys.bytes key)).isSome
  · refine ⟨_, ?_, hrep.assigned hbound⟩
    rw [hrep.insert_of_bound hbound, hbound]
  · refine ⟨_, ?_, hrep.pushed hbound⟩
    rw [hrep.insert_of_unbound hbound, Bool.eq_false_of_not_eq_true hbound]

theorem add_eq (hrep : table.Represents map) (key : Key) (val : Value) :
    ∃ next, table.add keys key val =
        some ((map.lookup (keys.bytes key)).isSome, next) ∧
      next.Represents (map.insert (keys.bytes key) val) := by
  rw [add]
  split
  · obtain ⟨expanded, hexpand, hexpanded⟩ := hrep.expandMap_eq
    obtain ⟨next, hinsert, hnext⟩ := hexpanded.insert_eq key val
    refine ⟨next, ?_, hnext⟩
    rw [hexpand, Option.map_some, hinsert]
  · obtain ⟨next, hinsert, hnext⟩ := hrep.insert_eq key val
    refine ⟨next, ?_, hnext⟩
    rw [Option.map_some, hinsert]

/-- In a chain of distinct keys the first match is the only one. -/
theorem assign_eq {wanted : Vector (BitVec 8) keys.size}
    {isWanted : Bucket Key Value → Bool} {chain : List (Bucket Key Value)}
    (hnodup : (chain.map (bytesOf keys)).Nodup)
    (hwanted : ∀ bucket ∈ chain,
      isWanted bucket = decide (bytesOf keys bucket = wanted)) :
    assign isWanted val chain =
      chain.map fun bucket =>
        if bytesOf keys bucket = wanted then { bucket with val := val }
        else bucket := by
  induction chain with
  | nil => rfl
  | cons bucket chain ih =>
      rw [List.map_cons, List.nodup_cons] at hnodup
      rw [assign, List.map_cons, hwanted bucket List.mem_cons_self]
      by_cases hkey : bytesOf keys bucket = wanted
      · have hrest : (chain.map fun bucket =>
            if bytesOf keys bucket = wanted then { bucket with val := val }
            else bucket) = chain.map id := by
          apply List.map_congr_left
          intro other hother
          apply if_neg
          rintro rfl
          apply hnodup.1
          rw [hkey]
          exact List.mem_map_of_mem hother
        rw [if_pos hkey, decide_eq_true hkey, if_pos rfl, hrest, List.map_id]
      · rw [if_neg hkey, decide_eq_false hkey, if_neg Bool.false_ne_true,
          ih hnodup.2 fun other hother =>
            hwanted other (List.mem_cons_of_mem _ hother)]

theorem replace_of_bound (hrep : table.Represents map)
    (hbound : (map.lookup (keys.bytes key)).isSome) :
    ∃ next, table.replace keys key val = (true, next) ∧
      next.Represents (map.insert (keys.bytes key) val) := by
  refine ⟨_, ?_, hrep.assigned hbound⟩
  simp only [replace, hrep.isSome_getBucket, hbound, if_true]
  rw [assign_eq (hrep.wellFormed.nodup _) fun bucket hmem =>
    hrep.isBucket_eq hmem]
  rfl

theorem replace_of_unbound (hrep : table.Represents map)
    (hbound : ¬ (map.lookup (keys.bytes key)).isSome) :
    table.replace keys key val = (false, table) := by
  simp only [replace, hrep.isSome_getBucket, hbound]
  rfl

/-- The loop of `steal_bucket` finds the first match and takes it out. -/
theorem stealLoop_eq {wanted : Vector (BitVec 8) keys.size}
    {isWanted : Bucket Key Value → Bool}
    (passed : List (Bucket Key Value)) {chain : List (Bucket Key Value)}
    (hwanted : ∀ bucket ∈ chain,
      isWanted bucket = decide (bytesOf keys bucket = wanted)) :
    stealLoop isWanted passed chain =
      (chain.find? isWanted,
        passed.reverse ++
          chain.eraseP fun bucket => bytesOf keys bucket = wanted) := by
  induction chain generalizing passed with
  | nil => simp [stealLoop]
  | cons bucket chain ih =>
      have hbucket := hwanted bucket List.mem_cons_self
      rw [stealLoop, ih _ fun other hother =>
        hwanted other (List.mem_cons_of_mem _ hother)]
      by_cases hkey : bytesOf keys bucket = wanted
      · simp [hbucket, hkey]
      · simp [hbucket, hkey]

theorem stealBucket_eq (hrep : table.Represents map) (key : Key) :
    table.stealBucket keys (hashOf keys key) key =
      (table.getBucket keys (hashOf keys key) key,
        { table with
          table := erase (bytesOf keys) (place keys table.length) table.table
            (keys.bytes key) }) := by
  rw [stealBucket, stealLoop_eq [] fun bucket hmem => hrep.isBucket_eq hmem]
  rfl

/-- The size after a bucket was taken out. -/
theorem capacity_sub_one (hrep : table.Represents map)
    {bucket : Bucket Key Value}
    (hfound : table.getBucket keys (hashOf keys key) key = some bucket) :
    table.capacity - 1 = (map.erase (keys.bytes key)).keys.card := by
  have hmem : keys.bytes key ∈ map.keys := by
    rw [Finmap.mem_keys, ← Finmap.lookup_isSome, ← hrep.isSome_getBucket,
      hfound]
    rfl
  rw [Finmap.keys_erase, Finset.card_erase_of_mem hmem, hrep.capacity_eq]

/-- The size after no bucket was taken out. -/
theorem capacity_of_absent (hrep : table.Represents map)
    (hfound : table.getBucket keys (hashOf keys key) key = none) :
    table.capacity = (map.erase (keys.bytes key)).keys.card := by
  have hmem : keys.bytes key ∉ map.keys := by
    rw [Finmap.mem_keys, ← Finmap.lookup_isSome, ← hrep.isSome_getBucket,
      hfound]
    exact Bool.false_ne_true
  rw [Finmap.keys_erase, Finset.erase_eq_of_notMem hmem, hrep.capacity_eq]

theorem steal_eq (hrep : table.Represents map) (key : Key) :
    ∃ next, table.steal keys key =
        ((map.lookup (keys.bytes key)).isSome,
          map.lookup (keys.bytes key), next) ∧
      next.Represents (map.erase (keys.bytes key)) := by
  rw [← hrep.map_getBucket]
  cases hfound : table.getBucket keys (hashOf keys key) key with
  | none =>
      refine ⟨_, ?_, hrep.erased (hrep.capacity_of_absent hfound)⟩
      simp only [steal, hrep.stealBucket_eq, hfound]
      rfl
  | some bucket =>
      refine ⟨_, ?_, hrep.erased (hrep.capacity_sub_one hfound)⟩
      simp only [steal, hrep.stealBucket_eq, hfound]
      rfl

/-- Every call answers as the map does and leads to a table that represents
the map after the call. -/
theorem call_eq (hrep : table.Represents map) (call : Call Key Value) :
    ∃ next, table.call keys call = some (next, (call.spec map).2) ∧
      next.Represents (call.spec map).1 := by
  cases call with
  | add key val =>
      obtain ⟨next, hadd, hnext⟩ := hrep.add_eq key val
      refine ⟨next, ?_, hnext⟩
      rw [TsHashTable.call, hadd]
      rfl
  | replace key val =>
      by_cases hbound : (map.lookup (keys.bytes key)).isSome
      · obtain ⟨next, hreplace, hnext⟩ := hrep.replace_of_bound hbound
        rw [Call.spec, if_pos hbound]
        refine ⟨next, ?_, hnext⟩
        rw [TsHashTable.call, hreplace]
      · rw [Call.spec, if_neg hbound]
        refine ⟨table, ?_, hrep⟩
        rw [TsHashTable.call, hrep.replace_of_unbound hbound]
  | get key =>
      refine ⟨table, ?_, hrep⟩
      rw [TsHashTable.call, hrep.get_eq]
      rfl
  | contains key =>
      refine ⟨table, ?_, hrep⟩
      rw [TsHashTable.call, hrep.contains_eq]
      rfl
  | remove key =>
      obtain ⟨next, hsteal, hnext⟩ := hrep.steal_eq key
      refine ⟨next, ?_, hnext⟩
      rw [TsHashTable.call, remove_eq_steal, hsteal]
      rfl
  | steal key =>
      obtain ⟨next, hsteal, hnext⟩ := hrep.steal_eq key
      refine ⟨next, ?_, hnext⟩
      rw [TsHashTable.call, hsteal]
      rfl

/-- A table that represents a map refines it from then on. -/
theorem refines (hrep : table.Represents map) (calls : List (Call Key Value)) :
    table.Refines map calls := by
  induction calls generalizing table map with
  | nil => exact hrep.capacity_eq
  | cons call calls ih =>
      obtain ⟨next, hcall, hnext⟩ := hrep.call_eq call
      exact ⟨hrep.capacity_eq, next, hcall, ih hnext⟩

end Represents

/-! ## The hash table refines a finite map -/

/-- A call changes the binding of its own key only. -/
theorem Call.lookup_spec_of_ne (map : Bindings keys Value)
    (call : Call Key Value) {wanted : Vector (BitVec 8) keys.size}
    (hwanted : wanted ≠ keys.bytes call.key) :
    (call.spec map).1.lookup wanted = map.lookup wanted := by
  cases call with
  | add key val => exact Finmap.lookup_insert_of_ne _ hwanted
  | replace key val =>
      rw [Call.spec]
      split
      · exact Finmap.lookup_insert_of_ne _ hwanted
      · rfl
  | get key => rfl
  | contains key => rfl
  | remove key => exact Finmap.lookup_erase_ne hwanted
  | steal key => exact Finmap.lookup_erase_ne hwanted

/-- Whatever the keys and their hashes, every run of calls from an empty table
answers as the finite map does. -/
theorem refines_finite_map (keys : KeyType Key)
    (calls : List (Call Key Value)) :
    (new : TsHashTable Key Value).Refines (∅ : Bindings keys Value) calls :=
  Represents.new.refines calls

end Sensor.TsHashTable
