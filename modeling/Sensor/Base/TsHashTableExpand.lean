import Mathlib
import Sensor.Base.TsHashTableDestroy

/-!
# The expansion of a hash table

An expansion moves the buckets one after the other into twice as many chains;
those moved so far are where their hashes say at every moment.  A new bucket
comes after the test of the load, and so a test that fails leaves room for it.
-/

namespace Sensor.TsHashTable

open BucketMap

variable {Key Value : Type*} (keys : KeyOps Key)

/-- The length is a power of two, every bucket is in the chain that its hash
selects, and no key is the key of two buckets. -/
structure Intact (table : TsHashTable Key Value) : Prop where
  length_eq : ∃ exponent, table.length = 2 ^ exponent
  placed : Placed Bucket.hash (getPlace table.length) table.table
  distinct : ∀ key,
    (table.buckets.countP fun bucket => keys.equal bucket.key key) ≤ 1

/-- The `int` index of an expansion holds the place of every bucket: there are
not so many chains, or the hashes are those that `spread_hash` makes. -/
def Indexable (table : TsHashTable Key Value) : Prop :=
  table.length < 2 ^ 31 ∨
    ∀ bucket ∈ table.buckets, ∃ word, bucket.hash = spreadHash word

section

variable {keys} {table : TsHashTable Key Value} {bucket : Bucket Key Value}
variable {hash : BitVec 32} {key : Key}

theorem Intact.length_pos (hintact : table.Intact keys) : 0 < table.length := by
  obtain ⟨exponent, hexponent⟩ := hintact.length_eq
  rw [hexponent]
  exact Nat.two_pow_pos exponent

/-! ## Looking a key up -/

theorem Intact.countP_isBucket_le (hintact : table.Intact keys)
    (hash : BitVec 32) (key : Key) :
    table.buckets.countP (isBucket keys hash key) ≤ 1 := by
  apply le_trans _ (hintact.distinct key)
  apply List.countP_mono_left
  intro bucket _ hwanted
  exact (Bool.and_eq_true_iff.mp hwanted).2

/-- Looking a key up is a question about the buckets only. -/
theorem Intact.getBucket_eq_some_iff (hintact : table.Intact keys) :
    table.getBucket keys hash key = some bucket ↔
      bucket ∈ table.buckets ∧ isBucket keys hash key bucket = true := by
  apply hintact.placed.find?_eq_some_iff (getPlace_lt hintact.length_pos hash)
  · intro other hwanted
    exact eq_of_beq (Bool.and_eq_true_iff.mp hwanted).1
  · exact hintact.countP_isBucket_le hash key

/-! ## The expansion -/

theorem Intact.getPlace_lt_of_indexable (hintact : table.Intact keys)
    (hindexable : table.Indexable) (hbucket : bucket ∈ table.buckets) :
    getPlace (2 * table.length) bucket.hash < 2 ^ 31 := by
  cases hindexable with
  | inl hlength =>
      obtain ⟨exponent, hexponent⟩ := hintact.length_eq
      rw [hexponent] at hlength ⊢
      have hsmall : exponent ≤ 30 :=
        Nat.le_of_lt_succ ((Nat.pow_lt_pow_iff_right Nat.one_lt_two).mp hlength)
      have hdouble : 2 * 2 ^ exponent ≤ 2 ^ 31 := by
        rw [← pow_succ']
        exact Nat.pow_le_pow_right Nat.two_pos (Nat.succ_le_succ hsmall)
      exact (getPlace_lt (Nat.mul_pos Nat.two_pos (Nat.two_pow_pos _))
        bucket.hash).trans_le hdouble
  | inr hhashed =>
      obtain ⟨word, hword⟩ := hhashed bucket hbucket
      rw [hword]
      exact getPlace_spreadHash_lt _ word

theorem Intact.expandMap_eq_moved (hintact : table.Intact keys)
    (hindexable : table.Indexable) : table.expandMap = some table.moved :=
  TsHashTable.expandMap_eq_moved hintact.length_pos
    fun _ hbucket => hintact.getPlace_lt_of_indexable hindexable hbucket

theorem Intact.moved (hintact : table.Intact keys) :
    table.moved.Intact keys where
  length_eq := by
    obtain ⟨exponent, hexponent⟩ := hintact.length_eq
    rw [TsHashTable.moved, hexponent]
    exact ⟨exponent + 1, (pow_succ' 2 exponent).symm⟩
  placed := placed_moved table
  distinct := by
    intro key
    rw [← (buckets_moved_perm hintact.length_pos).countP_eq]
    exact hintact.distinct key

theorem Intact.getBucket_moved (hintact : table.Intact keys)
    (hash : BitVec 32) (key : Key) :
    table.moved.getBucket keys hash key = table.getBucket keys hash key := by
  ext bucket
  rw [hintact.moved.getBucket_eq_some_iff, hintact.getBucket_eq_some_iff,
    (buckets_moved_perm hintact.length_pos).mem_iff]

end

/-! ## Tables of the class are intact -/

/-- Where `operator==` compares the bytes, the keys are distinct when their
bytes are. -/
theorem distinct_iff_nodup (keys : KeyType Key)
    (buckets : List (Bucket Key Value)) :
    (∀ key, (buckets.countP fun bucket => keys.equal bucket.key key) ≤ 1) ↔
      (buckets.map (bytesOf keys)).Nodup := by
  have hcount (key : Key) :
      (buckets.map (bytesOf keys)).count (keys.bytes key) =
        buckets.countP fun bucket => keys.equal bucket.key key := by
    rw [List.count, List.countP_map]
    apply List.countP_congr
    intro bucket _
    rw [keys.equal_iff]
    exact beq_iff_eq
  rw [List.nodup_iff_count_le_one]
  constructor
  · intro hdistinct wanted
    by_cases hwanted : wanted ∈ buckets.map (bytesOf keys)
    · obtain ⟨bucket, -, hbytes⟩ := List.mem_map.mp hwanted
      rw [← hbytes, bytesOf, hcount]
      exact hdistinct bucket.key
    · rw [List.count_eq_zero_of_not_mem hwanted]
      exact Nat.zero_le 1
  · intro hnodup key
    rw [← hcount]
    exact hnodup (keys.bytes key)

/-- A table that represents a finite map is intact, whatever calls led to
it. -/
theorem Represents.intact {keys : KeyType Key} {table : TsHashTable Key Value}
    {map : Bindings keys Value} (hrep : table.Represents map) :
    table.Intact keys.toKeyOps where
  length_eq := hrep.length_eq
  placed := by
    intro index bucket hbucket
    rw [hrep.hash_eq bucket ⟨index, hbucket⟩]
    exact hrep.wellFormed.placed index bucket hbucket
  distinct := (distinct_iff_nodup keys _).mpr
    (hrep.wellFormed.nodup_flatMap table.length)

/-! ## The load -/

/-- The test of `add` in exact arithmetic. -/
def isLoadedExactly (self : TsHashTable Key Value) : Bool :=
  3 * self.length ≤ 4 * self.capacity

/-- `add` with any test of the load. -/
def addWith (loaded : TsHashTable Key Value → Bool)
    (self : TsHashTable Key Value) (key : Key) (val : Value) :
    Option (Bool × TsHashTable Key Value) :=
  (if loaded self then self.expandMap else some self).map fun self =>
    self.insert keys key val

/-- The table after a call. -/
def after (loaded : TsHashTable Key Value → Bool)
    (self : TsHashTable Key Value) :
    Call Key Value → Option (TsHashTable Key Value)
  | .add key val => (self.addWith keys loaded key val).map (·.2)
  | call => (self.call keys call).map (·.1)

/-- The table after the calls, one after the other. -/
def afterAll (loaded : TsHashTable Key Value → Bool)
    (self : TsHashTable Key Value) (calls : List (Call Key Value)) :
    Option (TsHashTable Key Value) :=
  calls.foldlM (after keys loaded) self

theorem after_isLoaded (self : TsHashTable Key Value)
    (call : Call Key Value) :
    self.after keys isLoaded call = (self.call keys call).map (·.1) := by
  cases call with
  | add key val =>
      rw [after, TsHashTable.call, Option.map_map]
      rfl
  | replace key val => rfl
  | get key => rfl
  | contains key => rfl
  | remove key => rfl
  | steal key => rfl

/-- A call leads from a table that represents a finite map to another one. -/
theorem Represents.after {keys : KeyType Key} {table : TsHashTable Key Value}
    {map : Bindings keys Value} (hrep : table.Represents map)
    (call : Call Key Value) :
    ∃ next, table.after keys.toKeyOps isLoaded call = some next ∧
      next.Represents (call.spec map).1 := by
  obtain ⟨next, hcall, hnext⟩ := hrep.call_eq call
  refine ⟨next, ?_, hnext⟩
  rw [after_isLoaded, hcall]
  rfl

theorem Represents.afterAll {keys : KeyType Key}
    {table : TsHashTable Key Value} {map : Bindings keys Value}
    (hrep : table.Represents map) (calls : List (Call Key Value)) :
    ∃ last, ∃ map' : Bindings keys Value,
      table.afterAll keys.toKeyOps isLoaded calls = some last ∧
        last.Represents map' := by
  induction calls generalizing table map with
  | nil => exact ⟨table, map, rfl, hrep⟩
  | cons call calls ih =>
      obtain ⟨next, hafter, hnext⟩ := hrep.after call
      obtain ⟨last, map', hrest, hlast⟩ := ih hnext
      refine ⟨last, map', ?_, hlast⟩
      rw [TsHashTable.afterAll, List.foldlM_cons, hafter]
      exact hrest

/-- Every run of calls on a new table leads to an intact one, all of whose
buckets an expansion can move. -/
theorem intact_of_afterAll (keys : KeyType Key)
    (calls : List (Call Key Value)) :
    ∃ last, new.afterAll keys.toKeyOps isLoaded calls = some last ∧
      last.Intact keys.toKeyOps ∧ last.Indexable := by
  have hnew : new.Represents (∅ : Bindings keys Value) := Represents.new
  obtain ⟨last, map, hlast, hrep⟩ := hnew.afterAll calls
  refine ⟨last, hlast, hrep.intact, Or.inr ?_⟩
  intro bucket hbucket
  obtain ⟨index, -, hmem⟩ := List.mem_flatMap.mp hbucket
  exact ⟨_, hrep.hash_eq bucket ⟨index, hmem⟩⟩

/-! ## Three quarters are not passed -/

/-- The length is a power of two that has a quarter, and three quarters are not
passed. -/
structure Roomy (table : TsHashTable Key Value) : Prop where
  sound : table.Sound
  length_eq : ∃ exponent, table.length = 2 ^ (exponent + 2)
  load_le : 4 * table.capacity ≤ 3 * table.length

/-- The test finds every table loaded that has three quarters or more. -/
def Notices (loaded : TsHashTable Key Value → Bool) : Prop :=
  ∀ table, (∃ exponent, table.length = 2 ^ (exponent + 2)) →
    3 * table.length ≤ 4 * table.capacity → loaded table = true

section

variable {loaded : TsHashTable Key Value → Bool} {table : TsHashTable Key Value}

theorem roomy_new : (new : TsHashTable Key Value).Roomy where
  sound := sound_new
  length_eq := ⟨2, rfl⟩
  load_le := Nat.zero_le _

theorem length_insert (key : Key) (val : Value) :
    (table.insert keys key val).2.length = table.length := by
  rw [insert]
  split
  · rfl
  · rfl

theorem capacity_insert_le (key : Key) (val : Value) :
    (table.insert keys key val).2.capacity ≤ table.capacity + 1 := by
  rw [insert]
  split
  · exact le_rfl
  · exact Nat.le_succ _

/-- A quarter of the length is whole, so less than three of them leave room for
one more. -/
theorem Roomy.has_room (hroomy : table.Roomy)
    (hbelow : ¬ 3 * table.length ≤ 4 * table.capacity) :
    4 * (table.capacity + 1) ≤ 3 * table.length := by
  obtain ⟨exponent, hexponent⟩ := hroomy.length_eq
  rw [pow_add] at hexponent
  omega

/-- Twice the chains have room for one more bucket. -/
theorem Roomy.moved_has_room (hroomy : table.Roomy) :
    4 * (table.moved.capacity + 1) ≤ 3 * table.moved.length := by
  have hpos := hroomy.sound.length_pos
  have hload := hroomy.load_le
  obtain ⟨exponent, hexponent⟩ := hroomy.length_eq
  rw [pow_add] at hexponent
  rw [moved]
  dsimp only
  omega

theorem roomy_insert (hsound : table.Sound)
    (hlength : ∃ exponent, table.length = 2 ^ (exponent + 2))
    (hroom : 4 * (table.capacity + 1) ≤ 3 * table.length) (key : Key)
    (val : Value) : (table.insert keys key val).2.Roomy where
  sound := (hsound.insert keys key val).1
  length_eq := by
    rw [length_insert]
    exact hlength
  load_le := by
    rw [length_insert]
    exact (Nat.mul_le_mul_left 4 (capacity_insert_le keys key val)).trans hroom

/-- The expansion, when the test asks for one, comes in time. -/
theorem Roomy.add (hroomy : table.Roomy) (hnotices : Notices loaded)
    (key : Key) (val : Value) :
    ∃ found next, table.addWith keys loaded key val = some (found, next) ∧
      next.Roomy := by
  rw [addWith]
  split
  case isTrue =>
    rw [hroomy.sound.expandMap_eq_moved]
    refine ⟨_, _, rfl, ?_⟩
    apply roomy_insert keys hroomy.sound.moved _ hroomy.moved_has_room
    obtain ⟨exponent, hexponent⟩ := hroomy.length_eq
    rw [moved, hexponent]
    exact ⟨exponent + 1, (pow_succ' 2 (exponent + 2)).symm⟩
  case isFalse hquiet =>
    refine ⟨_, _, rfl, ?_⟩
    apply roomy_insert keys hroomy.sound hroomy.length_eq
    exact hroomy.has_room fun hfull =>
      hquiet (hnotices table hroomy.length_eq hfull)

theorem Roomy.replace (hroomy : table.Roomy) (key : Key) (val : Value) :
    (table.replace keys key val).2.Roomy where
  sound := (hroomy.sound.replace keys key val).1
  length_eq := by
    rw [TsHashTable.replace]
    split
    · exact hroomy.length_eq
    · exact hroomy.length_eq
  load_le := by
    rw [TsHashTable.replace]
    split
    · exact hroomy.load_le
    · exact hroomy.load_le

theorem Roomy.steal (hroomy : table.Roomy) (key : Key) :
    (table.steal keys key).2.2.Roomy where
  sound := (hroomy.sound.steal keys key).1
  length_eq := by
    rw [TsHashTable.steal]
    dsimp only
    split
    · exact hroomy.length_eq
    · exact hroomy.length_eq
  load_le := by
    have hload := hroomy.load_le
    rw [TsHashTable.steal]
    dsimp only
    split
    · exact (Nat.mul_le_mul_left 4 (Nat.sub_le _ 1)).trans hload
    · exact hload

/-- Every call succeeds and leaves room. -/
theorem Roomy.after (hroomy : table.Roomy) (hnotices : Notices loaded)
    (call : Call Key Value) :
    ∃ next, table.after keys loaded call = some next ∧ next.Roomy := by
  cases call with
  | add key val =>
      obtain ⟨found, next, hadd, hnext⟩ :=
        hroomy.add keys hnotices key val
      exact ⟨next, congrArg (Option.map _) hadd, hnext⟩
  | replace key val => exact ⟨_, rfl, hroomy.replace keys key val⟩
  | get key => exact ⟨table, rfl, hroomy⟩
  | contains key => exact ⟨table, rfl, hroomy⟩
  | remove key =>
      refine ⟨(table.remove keys key).2, rfl, ?_⟩
      rw [remove_eq_steal]
      exact hroomy.steal keys key
  | steal key => exact ⟨_, rfl, hroomy.steal keys key⟩

/-- Every run of calls succeeds and leaves room. -/
theorem Roomy.afterAll (hroomy : table.Roomy) (hnotices : Notices loaded)
    (calls : List (Call Key Value)) :
    ∃ last, table.afterAll keys loaded calls = some last ∧ last.Roomy := by
  induction calls generalizing table with
  | nil => exact ⟨table, rfl, hroomy⟩
  | cons call calls ih =>
      obtain ⟨next, hafter, hnext⟩ := hroomy.after keys hnotices call
      obtain ⟨last, hrest, hlast⟩ := ih hnext
      refine ⟨last, ?_, hlast⟩
      rw [TsHashTable.afterAll, List.foldlM_cons, hafter]
      exact hrest

end

theorem notices_isLoadedExactly :
    Notices (isLoadedExactly : TsHashTable Key Value → Bool) :=
  fun _ _ hfull => decide_eq_true hfull

/-- Rounding to `float` does not hide a load of three quarters. -/
theorem notices_isLoaded :
    Notices (isLoaded : TsHashTable Key Value → Bool) := by
  intro table hlength hfull
  obtain ⟨exponent, hexponent⟩ := hlength
  have hquarter : 2 ^ (exponent + 2) = 4 * 2 ^ exponent := by
    rw [pow_add]
    exact Nat.mul_comm _ _
  have hcapacity : 3 * 2 ^ exponent ≤ SizeT.toFloat table.capacity := by
    apply SizeT.le_toFloat_of_le (by decide)
    omega
  rw [isLoaded, decide_eq_true_eq, hexponent, SizeT.toFloat_two_pow]
  omega

/-- With the test of the code, too, the load is never above three quarters. -/
theorem load_le_of_afterAll (calls : List (Call Key Value)) :
    ∃ last, (new : TsHashTable Key Value).afterAll keys isLoaded calls =
        some last ∧ 4 * last.capacity ≤ 3 * last.length := by
  obtain ⟨last, hrun, hlast⟩ := roomy_new.afterAll keys notices_isLoaded calls
  exact ⟨last, hrun, hlast.load_le⟩

/-- An expansion keeps a table intact and its answers the same, and after every
run of calls on a new table the load is at most three quarters. -/
theorem expansion_keeps_table :
    (∀ table : TsHashTable Key Value, table.Intact keys → table.Indexable →
      ∃ next, table.expandMap = some next ∧
        next.length = 2 * table.length ∧
        table.buckets.Perm next.buckets ∧
        next.Intact keys ∧
        ∀ hash key,
          next.getBucket keys hash key = table.getBucket keys hash key) ∧
      ∀ calls : List (Call Key Value),
        ∃ last, new.afterAll keys isLoadedExactly calls = some last ∧
          4 * last.capacity ≤ 3 * last.length := by
  constructor
  · intro table hintact hindexable
    refine ⟨table.moved, hintact.expandMap_eq_moved hindexable, rfl,
      buckets_moved_perm hintact.length_pos, hintact.moved, ?_⟩
    exact hintact.getBucket_moved
  · intro calls
    obtain ⟨last, hrun, hlast⟩ :=
      roomy_new.afterAll keys notices_isLoadedExactly calls
    exact ⟨last, hrun, hlast.load_le⟩

/-- Keys of one byte. -/
def byteKeys : KeyOps (BitVec 8) where
  size := 1
  bytes := fun key => #v[key]
  equal := fun left right => left = right

/-- Two buckets in the only chain, which an expansion takes apart. -/
def oneChain : TsHashTable (BitVec 8) ℕ where
  table := fun index =>
    if index = 0 then
      [{ hash := 2, key := 10, val := 7 }, { hash := 5, key := 11, val := 8 }]
    else []
  capacity := 2
  length := 1

theorem intact_oneChain : oneChain.Intact byteKeys where
  length_eq := ⟨0, rfl⟩
  placed := by
    intro index bucket hbucket
    by_cases hindex : index = 0
    · rw [hindex]
      exact Nat.and_zero _
    · have hempty : oneChain.table index = [] := if_neg hindex
      rw [hempty] at hbucket
      exact absurd hbucket List.not_mem_nil
  distinct := by decide

theorem expansion_keeps_oneChain :
    ∃ next, oneChain.expandMap = some next ∧ next.length = 2 ∧
      next.getBucket byteKeys 5 11 = some ⟨5, 11, 8⟩ := by
  obtain ⟨next, hexpand, hlength, -, -, hget⟩ :=
    (expansion_keeps_table byteKeys).1 oneChain intact_oneChain
      (Or.inl (by decide))
  refine ⟨next, hexpand, hlength, ?_⟩
  rw [hget]
  rfl

end Sensor.TsHashTable
