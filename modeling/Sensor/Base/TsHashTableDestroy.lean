import Mathlib
import Sensor.Base.TsHashTableMap

/-!
# The end of a hash table

The destructor walks the chains until its copy of the element count is zero.
To tell the buckets apart, every bucket carries the number of the `new` that
made it: it stands beside the key the bucket was made with, and hashing and
comparing do not see it.  Nothing is asked of the key type.
-/

namespace Sensor.TsHashTable

open BucketMap
open scoped List

variable {Key Value : Type*} (keys : KeyOps Key)

/-! ## The destructor -/

/-- The inner loop: every bucket of the chain is deleted and counted down.  A
negative count is one that wrapped around. -/
def destroyChain (chain : List (Bucket Key Value))
    (state : List (Bucket Key Value) × ℤ) : List (Bucket Key Value) × ℤ :=
  chain.foldl (fun (deleted, capacity) b => (deleted ++ [b], capacity - 1))
    state

/-- The outer loop over the `remaining` chains from `i` on. -/
def destroyLoop (data : ℕ → List (Bucket Key Value)) :
    (remaining i : ℕ) → List (Bucket Key Value) × ℤ → List (Bucket Key Value)
  | 0, _, state => state.1
  | remaining + 1, i, state =>
      if state.2 ≠ 0 then
        destroyLoop data remaining (i + 1) (destroyChain (data i) state)
      else state.1

/-- The buckets the destructor deletes, in this order. -/
def destroy (self : TsHashTable Key Value) : List (Bucket Key Value) :=
  destroyLoop self.table self.length 0 ([], self.capacity)

section

variable {chain deleted : List (Bucket Key Value)} {capacity : ℤ}

theorem destroyChain_eq :
    destroyChain chain (deleted, capacity) =
      (deleted ++ chain, capacity - chain.length) := by
  induction chain generalizing deleted capacity with
  | nil => simp [destroyChain]
  | cons bucket chain ih =>
    calc destroyChain (bucket :: chain) (deleted, capacity)
      _ = destroyChain chain (deleted ++ [bucket], capacity - 1) := rfl
      _ = (deleted ++ [bucket] ++ chain, capacity - 1 - chain.length) := ih
      _ = _ := by
        rw [List.append_assoc, List.singleton_append, List.length_cons,
          Nat.cast_add, Nat.cast_one, sub_sub, add_comm (1 : ℤ)]

/-- A count of the buckets that are left does not stop the loop too early. -/
theorem destroyLoop_eq {data : ℕ → List (Bucket Key Value)}
    {remaining i : ℕ}
    (hcapacity : capacity =
      ((List.range' i remaining).flatMap data).length) :
    destroyLoop data remaining i (deleted, capacity) =
      deleted ++ (List.range' i remaining).flatMap data := by
  induction remaining generalizing i deleted capacity with
  | zero => exact (List.append_nil deleted).symm
  | succ remaining ih =>
    rw [List.range'_succ, List.flatMap_cons] at hcapacity ⊢
    rw [destroyLoop]
    split
    case isTrue =>
      have hrest : capacity - (data i).length =
          ((List.range' (i + 1) remaining).flatMap data).length := by
        rw [hcapacity, List.length_append, Nat.cast_add]
        exact add_sub_cancel_left _ _
      rw [destroyChain_eq, ih hrest, List.append_assoc]
    case isFalse hzero =>
      have hempty : capacity = 0 := not_not.mp hzero
      rw [hempty, eq_comm, Nat.cast_eq_zero, List.length_eq_zero_iff]
        at hcapacity
      rw [hcapacity, List.append_nil]

/-- With the right count the destructor deletes chain after chain. -/
theorem destroy_eq {self : TsHashTable Key Value}
    (hcapacity : self.capacity =
      ((List.range self.length).flatMap self.table).length) :
    self.destroy = (List.range self.length).flatMap self.table := by
  rw [List.range_eq_range'] at hcapacity ⊢
  rw [destroy, destroyLoop_eq (congrArg _ hcapacity), List.nil_append]

end

/-! ## Which buckets there are -/

/-- What a bucket keeps from the `new` that made it on. -/
def Bucket.made (bucket : Bucket Key Value) : BitVec 32 × Key :=
  (bucket.hash, bucket.key)

/-- The buckets of the table, chain after chain. -/
def buckets (self : TsHashTable Key Value) : List (Bucket Key Value) :=
  (List.range self.length).flatMap self.table

/-- What the buckets of the table keep. -/
def marks (self : TsHashTable Key Value) : List (BitVec 32 × Key) :=
  self.buckets.map Bucket.made

/-- There are no chains behind the last one, the count is the number of
buckets, and every hash comes from `spread_hash`. -/
structure Sound (store : TsHashTable Key Value) : Prop where
  length_pos : 0 < store.length
  outside : ∀ index, store.length ≤ index → store.table index = []
  counted : store.capacity = store.marks.length
  hashed : ∀ mark ∈ store.marks, ∃ word, mark.1 = spreadHash word

section

variable {self next : TsHashTable Key Value} {key : Key} {val : Value}
variable {chain : List (Bucket Key Value)}

theorem marks_eq :
    self.marks = (List.range self.length).flatMap
      fun index => (self.table index).map Bucket.made :=
  List.map_flatMap

/-- What enters and leaves one chain enters and leaves the table. -/
theorem marks_update {index capacity : ℕ} (hindex : index < self.length)
    {entering leaving : List (BitVec 32 × Key)}
    (hchain : (entering ++ (self.table index).map Bucket.made).Perm
      (leaving ++ chain.map Bucket.made)) :
    (entering ++ self.marks).Perm (leaving ++
      marks ⟨Function.update self.table index chain, capacity,
        self.length⟩) := by
  have hupdate : (fun other =>
      (Function.update self.table index chain other).map Bucket.made) =
        Function.update (fun other => (self.table other).map Bucket.made)
          index (chain.map Bucket.made) := by
    funext other
    by_cases hother : other = index
    · rw [hother, Function.update_self, Function.update_self]
    · rw [Function.update_of_ne hother, Function.update_of_ne hother]
  rw [marks_eq, marks_eq]
  dsimp only
  rw [hupdate]
  exact flatMap_update_perm hindex hchain

/-- A table that changed in one chain is sound again. -/
theorem Sound.update (hsound : self.Sound) {index capacity : ℕ}
    (hindex : index < self.length)
    {entering leaving : List (BitVec 32 × Key)}
    (hchain : (entering ++ (self.table index).map Bucket.made).Perm
      (leaving ++ chain.map Bucket.made))
    (hcapacity : capacity + leaving.length =
      self.capacity + entering.length)
    (hentering : ∀ mark ∈ entering, ∃ word, mark.1 = spreadHash word) :
    Sound ⟨Function.update self.table index chain, capacity,
      self.length⟩ := by
  have hperm := @marks_update _ _ self chain index capacity hindex _ _ hchain
  constructor
  · exact hsound.length_pos
  · intro other hother
    have hne : other ≠ index :=
      (Nat.lt_of_lt_of_le hindex hother).ne'
    exact (Function.update_of_ne hne _ _).trans (hsound.outside other hother)
  · have hlength := hperm.length_eq
    rw [List.length_append, List.length_append, ← hsound.counted] at hlength
    dsimp only
    omega
  · intro mark hmark
    have hmem := hperm.mem_iff.mpr (List.mem_append_right leaving hmark)
    cases List.mem_append.mp hmem with
    | inl hnew => exact hentering mark hnew
    | inr hold => exact hsound.hashed mark hold

/-- A chain whose buckets keep what they are changes nothing. -/
theorem Sound.update_of_eq (hsound : self.Sound) {index : ℕ}
    (hindex : index < self.length)
    (hsame : chain.map Bucket.made = (self.table index).map Bucket.made) :
    Sound ⟨Function.update self.table index chain, self.capacity,
      self.length⟩ ∧
      self.marks.Perm (marks ⟨Function.update self.table index chain,
        self.capacity, self.length⟩) := by
  have hchain : ([] ++ (self.table index).map Bucket.made).Perm
      ([] ++ chain.map Bucket.made) :=
    List.Perm.of_eq (congrArg _ hsame.symm)
  constructor
  · apply hsound.update hindex hchain rfl
    exact fun _ hmark => absurd hmark List.not_mem_nil
  · exact marks_update hindex hchain

theorem sound_new : (new : TsHashTable Key Value).Sound where
  length_pos := Nat.zero_lt_succ 15
  outside := fun _ _ => rfl
  counted := rfl
  hashed := fun _ hmark => absurd hmark List.not_mem_nil

/-! ## Expansion -/

/-- The buckets of the table behind an expansion lie in the chains that their
hashes select. -/
theorem placed_moved (table : TsHashTable Key Value) :
    Placed Bucket.hash (getPlace (2 * table.length)) table.moved.table :=
  Placed.foldl_push fun _ _ hmem => absurd hmem List.not_mem_nil

/-- They are the buckets that were there before, each of them once. -/
theorem buckets_moved_perm {table : TsHashTable Key Value}
    (hlength : 0 < table.length) :
    table.buckets.Perm table.moved.buckets := by
  have hlen : 0 < 2 * table.length := Nat.mul_pos Nat.two_pos hlength
  have hperm := @flatMap_foldl_push_perm _ _ Bucket.hash
    (getPlace (2 * table.length)) (fun _ => []) (2 * table.length)
    table.buckets fun bucket _ => getPlace_lt hlen bucket.hash
  have hempty : (List.range (2 * table.length)).flatMap
      (fun _ => ([] : List (Bucket Key Value))) = [] := by
    rw [List.flatMap_eq_nil_iff]
    intro _ _
    rfl
  rw [hempty, List.append_nil] at hperm
  exact hperm

/-- The hashes of a sound table leave the index of an expansion inside the
range of an `int`. -/
theorem Sound.expandMap_eq_moved (hsound : self.Sound) :
    self.expandMap = some self.moved := by
  apply TsHashTable.expandMap_eq_moved hsound.length_pos
  intro bucket hbucket
  obtain ⟨word, hword⟩ := hsound.hashed _ (List.mem_map_of_mem hbucket)
  change bucket.hash = spreadHash word at hword
  rw [hword]
  exact getPlace_spreadHash_lt _ word

theorem Sound.marks_moved_perm (hsound : self.Sound) :
    self.marks.Perm self.moved.marks :=
  (buckets_moved_perm hsound.length_pos).map Bucket.made

theorem Sound.moved (hsound : self.Sound) : self.moved.Sound := by
  have hlen : 0 < 2 * self.length := Nat.mul_pos Nat.two_pos hsound.length_pos
  constructor
  · exact hlen
  · intro index hindex
    rw [List.eq_nil_iff_forall_not_mem]
    intro bucket hbucket
    have hplaced := placed_moved self index bucket hbucket
    have hinside := getPlace_lt hlen bucket.hash
    rw [hplaced] at hinside
    exact Nat.not_lt.mpr hindex hinside
  · exact hsound.counted.trans hsound.marks_moved_perm.length_eq
  · intro mark hmark
    exact hsound.hashed mark (hsound.marks_moved_perm.mem_iff.mpr hmark)

/-! ## The other calls -/

theorem Sound.place_lt (hsound : self.Sound) (hash : BitVec 32) :
    getPlace self.length hash < self.length :=
  getPlace_lt hsound.length_pos hash

/-- Giving buckets other values keeps what they are. -/
theorem made_assigned (key : Key) (val : Value) :
    (chain.map fun b => if isBucket keys (hashOf keys key) key b then
      { b with val := val } else b).map Bucket.made =
        chain.map Bucket.made := by
  rw [List.map_map]
  apply List.map_congr_left
  intro bucket _
  rw [Function.comp_apply]
  split
  case isTrue => rfl
  case isFalse => rfl

theorem made_assign {wanted : Bucket Key Value → Bool} :
    (assign wanted val chain).map Bucket.made = chain.map Bucket.made := by
  induction chain with
  | nil => rfl
  | cons bucket chain ih =>
    rw [assign]
    split
    case isTrue => rfl
    case isFalse => rw [List.map_cons, List.map_cons, ih]

/-- `insert` makes one bucket or none. -/
theorem Sound.insert (hsound : self.Sound) (key : Key) (val : Value) :
    (self.insert keys key val).2.Sound ∧
      ∃ entering, (∀ mark ∈ entering, mark.2 = key) ∧ entering.length ≤ 1 ∧
        (entering ++ self.marks).Perm (self.insert keys key val).2.marks := by
  have hindex := hsound.place_lt (hashOf keys key)
  by_cases hfound : ((self.table (getPlace self.length (hashOf keys key))).any
      (isBucket keys (hashOf keys key) key)) = true
  · simp only [TsHashTable.insert, hfound, Bool.not_true, Bool.false_eq_true,
      if_false]
    obtain ⟨hnext, hmarks⟩ :=
      hsound.update_of_eq hindex (made_assigned keys key val)
    refine ⟨hnext, [], ?_, Nat.zero_le _, hmarks⟩
    exact fun _ hmark => absurd hmark List.not_mem_nil
  · have hchain : ([(hashOf keys key, key)] ++
        (self.table (getPlace self.length (hashOf keys key))).map
          Bucket.made).Perm
        ([] ++ (({ hash := hashOf keys key, key := key, val := val } ::
          (self.table (getPlace self.length (hashOf keys key))).map fun b =>
            if isBucket keys (hashOf keys key) key b then
              { b with val := val }
            else b)).map Bucket.made) := by
      rw [List.nil_append, List.map_cons, made_assigned keys]
      exact List.Perm.refl _
    simp only [TsHashTable.insert, hfound, Bool.not_false, if_true]
    refine ⟨?_, [(hashOf keys key, key)], ?_, Nat.le_refl _, ?_⟩
    · apply hsound.update hindex hchain rfl
      intro mark hmark
      rw [List.mem_singleton.mp hmark]
      exact ⟨_, rfl⟩
    · intro mark hmark
      rw [List.mem_singleton.mp hmark]
    · exact marks_update hindex hchain

/-- `add` makes one bucket or none. -/
theorem Sound.add (hsound : self.Sound) (key : Key) (val : Value) :
    ∃ found next, self.add keys key val = some (found, next) ∧ next.Sound ∧
      ∃ entering, (∀ mark ∈ entering, mark.2 = key) ∧ entering.length ≤ 1 ∧
        (entering ++ self.marks).Perm next.marks := by
  rw [TsHashTable.add]
  split
  case isTrue =>
    obtain ⟨hnext, entering, hkey, hlength, hmarks⟩ :=
      hsound.moved.insert keys key val
    refine ⟨_, _, congrArg (Option.map _) hsound.expandMap_eq_moved, hnext,
      entering, hkey, hlength, ?_⟩
    exact (hsound.marks_moved_perm.append_left entering).trans hmarks
  case isFalse => exact ⟨_, _, rfl, hsound.insert keys key val⟩

/-- `replace` keeps the buckets. -/
theorem Sound.replace (hsound : self.Sound) (key : Key) (val : Value) :
    (self.replace keys key val).2.Sound ∧
      self.marks.Perm (self.replace keys key val).2.marks := by
  have hindex := hsound.place_lt (hashOf keys key)
  rw [TsHashTable.replace]
  split
  case isTrue => exact hsound.update_of_eq hindex made_assign
  case isFalse => exact ⟨hsound, List.Perm.refl _⟩

/-- The bucket that is found is the one that leaves the chain. -/
theorem stealLoop_perm {wanted : Bucket Key Value → Bool}
    {passed : List (Bucket Key Value)} :
    (passed.reverse ++ chain).Perm
      ((stealLoop wanted passed chain).1.toList ++
        (stealLoop wanted passed chain).2) := by
  induction chain generalizing passed with
  | nil =>
    rw [List.append_nil]
    exact List.Perm.refl _
  | cons bucket chain ih =>
    rw [stealLoop]
    split
    case isTrue => exact List.perm_middle
    case isFalse =>
      have hrest := @ih (bucket :: passed)
      rw [List.reverse_cons, List.append_assoc] at hrest
      exact hrest

/-- A bucket that is found leaves the table. -/
theorem Sound.stealBucket (hsound : self.Sound) (key : Key) :
    let result := self.stealBucket keys (hashOf keys key) key
    self.marks.Perm
        (result.1.toList.map Bucket.made ++ result.2.marks) ∧
      Sound { result.2 with
        capacity := self.capacity - result.1.toList.length } := by
  intro result
  have hindex := hsound.place_lt (hashOf keys key)
  have hloop := @stealLoop_perm _ _
    (self.table (getPlace self.length (hashOf keys key)))
    (isBucket keys (hashOf keys key) key) []
  have hchain : ([] ++ (self.table
      (getPlace self.length (hashOf keys key))).map Bucket.made).Perm
        (result.1.toList.map Bucket.made ++ (stealLoop
          (isBucket keys (hashOf keys key) key) []
          (self.table (getPlace self.length (hashOf keys key)))).2.map
            Bucket.made) := by
    rw [← List.map_append]
    exact hloop.map Bucket.made
  have hmarks : self.marks.Perm
      (result.1.toList.map Bucket.made ++ result.2.marks) :=
    @marks_update _ _ _ _ _ self.capacity hindex [] _ hchain
  refine ⟨hmarks, ?_⟩
  have hlength := hmarks.length_eq
  rw [List.length_append, List.length_map, ← hsound.counted] at hlength
  apply hsound.update hindex hchain
  · rw [List.length_map, List.length_nil]
    omega
  · exact fun _ hmark => absurd hmark List.not_mem_nil

theorem Sound.steal (hsound : self.Sound) (key : Key) :
    (self.steal keys key).2.2.Sound ∧
      self.marks.Perm
        ((self.stealBucket keys (hashOf keys key) key).1.toList.map
          Bucket.made ++ (self.steal keys key).2.2.marks) := by
  obtain ⟨hmarks, hnext⟩ := hsound.stealBucket keys key
  rw [TsHashTable.steal]
  have hcapacity : (self.stealBucket keys (hashOf keys key) key).2.capacity =
    self.capacity := rfl
  revert hmarks hnext hcapacity
  generalize self.stealBucket keys (hashOf keys key) key = result
  obtain ⟨found, rest⟩ := result
  intro hmarks hnext hcapacity
  cases found with
  | some bucket =>
    refine ⟨?_, hmarks⟩
    rw [← hcapacity] at hnext
    exact hnext
  | none =>
    refine ⟨?_, hmarks⟩
    rw [← hcapacity] at hnext
    exact hnext

theorem Sound.remove (hsound : self.Sound) (key : Key) :
    (self.remove keys key).2.Sound ∧
      self.marks.Perm
        ((self.stealBucket keys (hashOf keys key) key).1.toList.map
          Bucket.made ++ (self.remove keys key).2.marks) := by
  rw [remove_eq_steal]
  exact hsound.steal keys key

end

/-! ## The life of a table -/

/-- The keys of numbered buckets. -/
def numbered : KeyOps (Key × ℕ) where
  size := keys.size
  bytes := fun key => keys.bytes key.1
  equal := fun left right => keys.equal left.1 right.1

/-- The number of the `new` that made the bucket. -/
def Bucket.number (bucket : Bucket (Key × ℕ) Value) : ℕ := bucket.key.2

/-- The call, whose bucket gets the number if it makes one. -/
def Call.withNumber (number : ℕ) :
    Call Key Value → Call (Key × ℕ) Value
  | .add key val => .add (key, number) val
  | .replace key val => .replace (key, number) val
  | .get key => .get (key, number)
  | .contains key => .contains (key, number)
  | .remove key => .remove (key, number)
  | .steal key => .steal (key, number)

/-- The bucket that a call deletes. -/
def deletedBy (self : TsHashTable (Key × ℕ) Value) :
    Call (Key × ℕ) Value → Option (Bucket (Key × ℕ) Value)
  | .remove key =>
      (self.stealBucket (numbered keys) (hashOf (numbered keys) key) key).1
  | .steal key =>
      (self.stealBucket (numbered keys) (hashOf (numbered keys) key) key).1
  | _ => none

/-- A table, the next number and the numbers of the buckets deleted so far. -/
structure Life (Key Value : Type*) where
  table : TsHashTable (Key × ℕ) Value
  next : ℕ
  deleted : List ℕ

namespace Life

def new : Life Key Value where
  table := TsHashTable.new
  next := 0
  deleted := []

def step (self : Life Key Value) (call : Call Key Value) :
    Option (Life Key Value) :=
  let call := call.withNumber self.next
  (self.table.call (numbered keys) call).map fun (table, _) => {
    table := table
    next := self.next + 1
    deleted := self.deleted ++
      ((deletedBy keys self.table call).map Bucket.number).toList }

def run (self : Life Key Value) (calls : List (Call Key Value)) :
    Option (Life Key Value) :=
  calls.foldlM (step keys) self

end Life

section

variable {keys} {life : Life Key Value}

/-- The bucket a call makes has the call's number, and the one it deletes has
left the table. -/
theorem Sound.call {table : TsHashTable (Key × ℕ) Value} (hsound : table.Sound)
    (number : ℕ) (call : Call Key Value) :
    ∃ next answer, table.call (numbered keys) (call.withNumber number) =
        some (next, answer) ∧ next.Sound ∧
      ∃ entering, (∀ mark ∈ entering, mark.2.2 = number) ∧
        entering.length ≤ 1 ∧
        (entering ++ table.marks).Perm
          ((deletedBy keys table (call.withNumber number)).toList.map
            Bucket.made ++ next.marks) := by
  have hnothing : ∀ mark ∈ ([] : List (BitVec 32 × (Key × ℕ))),
      mark.2.2 = number := fun _ hmark => absurd hmark List.not_mem_nil
  cases call with
  | add key val =>
    obtain ⟨found, next, hadd, hnext, entering, hkey, hlength, hmarks⟩ :=
      hsound.add (numbered keys) (key, number) val
    refine ⟨next, _, congrArg (Option.map _) hadd, hnext, entering, ?_,
      hlength, hmarks⟩
    intro mark hmark
    rw [hkey mark hmark]
  | replace key val =>
    obtain ⟨hnext, hmarks⟩ :=
      hsound.replace (numbered keys) (key, number) val
    exact ⟨_, _, rfl, hnext, [], hnothing, Nat.zero_le _, hmarks⟩
  | get key =>
    exact ⟨table, _, rfl, hsound, [], hnothing, Nat.zero_le _,
      List.Perm.refl _⟩
  | contains key =>
    exact ⟨table, _, rfl, hsound, [], hnothing, Nat.zero_le _,
      List.Perm.refl _⟩
  | remove key =>
    obtain ⟨hnext, hmarks⟩ := hsound.remove (numbered keys) (key, number)
    exact ⟨_, _, rfl, hnext, [], hnothing, Nat.zero_le _, hmarks⟩
  | steal key =>
    obtain ⟨hnext, hmarks⟩ := hsound.steal (numbered keys) (key, number)
    exact ⟨_, _, rfl, hnext, [], hnothing, Nat.zero_le _, hmarks⟩

/-- The numbers of the buckets in the table and of the deleted ones differ, and
all of them were given out. -/
structure Accounted (life : Life Key Value) : Prop where
  sound : life.table.Sound
  given : ∀ number ∈ life.deleted ++ life.table.marks.map (·.2.2),
    number < life.next
  nodup : (life.deleted ++ life.table.marks.map (·.2.2)).Nodup

theorem accounted_new : Accounted (Life.new : Life Key Value) where
  sound := sound_new
  given := fun _ hmem => absurd hmem List.not_mem_nil
  nodup := List.nodup_nil

/-- The numbers behind a call are those before it and the new one. -/
theorem numbers_perm {marks marks' entering : List (BitVec 32 × (Key × ℕ))}
    {deleted : List ℕ} {gone : Option (Bucket (Key × ℕ) Value)}
    (hmarks : (entering ++ marks).Perm
      (gone.toList.map Bucket.made ++ marks')) :
    (deleted ++ (gone.map Bucket.number).toList ++ marks'.map (·.2.2)).Perm
      (deleted ++ marks.map (·.2.2) ++ entering.map (·.2.2)) := by
  have hgone : (gone.toList.map Bucket.made).map (·.2.2) =
      (gone.map Bucket.number).toList := by
    cases gone with
    | none => rfl
    | some bucket => rfl
  have hnumbers := hmarks.map (·.2.2)
  rw [List.map_append, List.map_append, hgone] at hnumbers
  rw [List.append_assoc, List.append_assoc]
  apply List.Perm.append_left
  exact hnumbers.symm.trans List.perm_append_comm

/-- Every call succeeds and keeps the account. -/
theorem Accounted.step (haccounted : Accounted life) (call : Call Key Value) :
    ∃ next, life.step keys call = some next ∧ Accounted next := by
  obtain ⟨table, answer, hcall, hsound, entering, hnumber, hlength, hmarks⟩ :=
    @Sound.call _ _ keys _ haccounted.sound life.next call
  have hnumbers := @numbers_perm _ _ _ _ _ life.deleted _ hmarks
  have hnew : ∀ number ∈ entering.map (·.2.2), number = life.next := by
    intro number hmem
    obtain ⟨mark, hmark, rfl⟩ := List.mem_map.mp hmem
    exact hnumber mark hmark
  refine ⟨_, congrArg (Option.map _) hcall, ?_⟩
  constructor
  · exact hsound
  · intro number hmem
    apply Nat.lt_succ_of_le
    cases List.mem_append.mp (hnumbers.mem_iff.mp hmem) with
    | inl hold => exact (haccounted.given number hold).le
    | inr hlast => exact (hnew number hlast).le
  · apply hnumbers.nodup_iff.mpr
    rw [List.nodup_append']
    refine ⟨haccounted.nodup, ?_, ?_⟩
    · cases entering with
      | nil => exact List.nodup_nil
      | cons mark rest =>
        have hrest : rest = [] := by
          rw [← List.length_eq_zero_iff]
          exact Nat.le_zero.mp (Nat.le_of_succ_le_succ hlength)
        rw [hrest]
        exact List.nodup_singleton _
    · intro number hold hlast
      have hlt := haccounted.given number hold
      rw [hnew number hlast] at hlt
      exact Nat.lt_irrefl _ hlt

/-- Every run of calls succeeds and keeps the account. -/
theorem Accounted.run (haccounted : Accounted life)
    (calls : List (Call Key Value)) :
    ∃ last, life.run keys calls = some last ∧ Accounted last := by
  induction calls generalizing life with
  | nil => exact ⟨life, rfl, haccounted⟩
  | cons call calls ih =>
    obtain ⟨next, hstep, hnext⟩ := @Accounted.step _ _ keys _ haccounted call
    obtain ⟨last, hrun, hlast⟩ := ih hnext
    refine ⟨last, ?_, hlast⟩
    rw [Life.run, List.foldlM_cons, hstep]
    exact hrun

/-- The destructor deletes chain after chain. -/
theorem Sound.destroy_eq_buckets {table : TsHashTable Key Value}
    (hsound : table.Sound) : table.destroy = table.buckets := by
  have hcounted := hsound.counted
  rw [marks, List.length_map] at hcounted
  exact destroy_eq hcounted

theorem Sound.mem_destroy_iff {table : TsHashTable Key Value}
    (hsound : table.Sound) {bucket : Bucket Key Value} :
    bucket ∈ table.destroy ↔ Holds table.table bucket := by
  rw [hsound.destroy_eq_buckets, buckets, List.mem_flatMap]
  constructor
  · rintro ⟨index, -, hmem⟩
    exact ⟨index, hmem⟩
  · rintro ⟨index, hmem⟩
    refine ⟨index, ?_, hmem⟩
    rw [List.mem_range]
    by_contra hbehind
    rw [hsound.outside index (Nat.not_lt.mp hbehind)] at hmem
    exact List.not_mem_nil hmem

/-- Whatever the key type, after any run of calls the destructor deletes every
bucket of the table once, and none that the run deleted. -/
theorem destroy_deletes_once (keys : KeyOps Key)
    (calls : List (Call Key Value)) :
    ∃ life, (Life.new : Life Key Value).run keys calls = some life ∧
      (∀ bucket, bucket ∈ life.table.destroy ↔
        Holds life.table.table bucket) ∧
      (life.deleted ++ life.table.destroy.map Bucket.number).Nodup := by
  obtain ⟨life, hrun, haccounted⟩ :=
    @Accounted.run _ _ keys _ accounted_new calls
  refine ⟨life, hrun, fun _ => haccounted.sound.mem_destroy_iff, ?_⟩
  have hnodup := haccounted.nodup
  rw [marks, List.map_map, ← haccounted.sound.destroy_eq_buckets] at hnodup
  exact hnodup

end

end Sensor.TsHashTable
