import Mathlib
import Sensor.Base.TsHashTableWalks
import Sensor.Core.Linearizability

/-!
# The hash table under its lock

An expansion moves the buckets in memory as it moves them in the lists of
buckets, so every operation does in memory what it does to a finite map, and
the table looks to its threads like a finite map whose operations happen at
once.  `getSize` reads the count without the lock; an operation changes the
count in its last step, so what it reads is the size of the map.
-/

namespace Sensor.TsHashTable

variable {Key Value : Type*}

/-! ## Expansion -/

section Expansion

variable {keys : KeyOps Key} {allocator : Allocator}
variable {memory : Memory Key Value} {root newData : ℕ → Option ℕ}
variable {cells newCells : ℕ → List (ℕ × Bucket Key Value)}
variable {lists lists' : ℕ → List (Bucket Key Value)}
variable {Post : Memory Key Value → Prop} {answer : Answer Value}
variable {key : Key} {val : Value} {i count : ℕ}

/-- In the middle of an expansion: what is left of the old chains, and the new
chains. -/
structure Growing (memory : Memory Key Value) (root newData : ℕ → Option ℕ)
    (cells newCells : ℕ → List (ℕ × Bucket Key Value))
    (lists : ℕ → List (Bucket Key Value)) : Prop where
  forest : Forest memory.read (Sum.elim root newData)
    (Sum.elim cells newCells)
  lists_eq : ∀ index, (newCells index).map Prod.snd = lists index

/-- One bucket moves from an old chain to a new one. -/
theorem Growing.move (hgrowing : Growing memory root newData cells newCells lists)
    {addr j : ℕ} {bucket : Bucket Key Value} {next : Option ℕ}
    {rest : List (ℕ × Bucket Key Value)}
    (hcells : cells i = (addr, bucket) :: rest)
    (hread : memory.read addr = some ⟨bucket, next⟩) :
    Growing (memory.write addr ⟨bucket, newData j⟩)
      (Function.update root i next) (Function.update newData j (some addr))
      (Function.update cells i rest)
      (Function.update newCells j ((addr, bucket) :: newCells j))
      (Function.update lists j (bucket :: lists j)) where
  forest := by
    have hne : (.inr j : ℕ ⊕ ℕ) ≠ .inl i := Sum.inr_ne_inl
    have hold : Sum.elim cells newCells (.inl i) = (addr, bucket) :: rest :=
      hcells
    have hmove := hgrowing.forest.move hne hold hread
    rw [Memory.read_write]
    rw [Sum.update_elim_inl, Sum.update_elim_inr, Sum.update_elim_inl,
      Sum.update_elim_inr] at hmove
    exact hmove
  lists_eq := by
    intro other
    rw [map_update hgrowing.lists_eq, List.map_cons, hgrowing.lists_eq]

/-- The inner loop of `expand_map` moves one chain. -/
theorem reaches_relinking {rest : List (ℕ × Bucket Key Value)}
    (hgrowing : Growing memory root newData cells newCells lists)
    (hcells : cells i = rest)
    (hrelink : (rest.map Prod.snd).foldlM (relink (2 * memory.length)) lists =
      some lists') (hcount : memory.capacity = count)
    (hdone : ∀ memory' newData' newCells', memory'.table = memory.table →
      memory'.length = memory.length → memory'.capacity = count →
      Growing memory' (Function.update root i none) newData'
        (Function.update cells i []) newCells' lists' →
      (locked keys allocator).Reaches (·.capacity = count) Post memory'
        (.expanding key val newData' (i + 1)) answer) :
    (locked keys allocator).Reaches (·.capacity = count) Post memory
      (.relinking key val newData i (root i)) answer := by
  induction rest generalizing memory root newData cells newCells lists with
  | nil =>
      have hroot : root i = none := by
        have hlinked := hgrowing.forest.linked (.inl i)
        rw [Sum.elim_inl, Sum.elim_inl, hcells] at hlinked
        exact hlinked
      obtain rfl : lists = lists' := Option.some.inj hrelink
      have hbody : (locked keys allocator).body memory
          (.relinking key val newData i (root i)) =
            some (memory, .running (.expanding key val newData (i + 1))) := by
        rw [hroot]
        rfl
      refine LockedObject.Reaches.step hbody hcount ?_
      apply hdone memory newData newCells rfl rfl hcount
      rw [← hroot, ← hcells, Function.update_eq_self, Function.update_eq_self]
      exact hgrowing
  | cons cell rest ih =>
      obtain ⟨addr, bucket⟩ := cell
      have hlinked := hgrowing.forest.linked (.inl i)
      rw [Sum.elim_inl, Sum.elim_inl, hcells] at hlinked
      obtain ⟨hroot, next, hread, -⟩ := hlinked
      rw [List.map_cons, List.foldlM_cons] at hrelink
      obtain ⟨moved, hmoved, hrest⟩ := Option.bind_eq_some_iff.mp hrelink
      simp only [relink, Option.ite_none_right_eq_some, Option.some.injEq]
        at hmoved
      obtain ⟨hinside, rfl⟩ := hmoved
      have hbody : (locked keys allocator).body memory
          (.relinking key val newData i (root i)) = some
            (memory.write addr ⟨bucket, newData
              (SizeT.toInt (getPlace (2 * memory.length) bucket.hash)).toNat⟩,
            .running (.relinking key val
              (Function.update newData
                (SizeT.toInt (getPlace (2 * memory.length) bucket.hash)).toNat
                (some addr)) i next)) := by
        rw [hroot]
        simp only [locked, body, hread, Option.bind_some, hinside, and_self,
          if_true]
      refine LockedObject.Reaches.step hbody hcount ?_
      have hnext := ih (hgrowing.move hcells hread) (Function.update_self ..)
        hrest hcount
      rw [Function.update_self] at hnext
      apply hnext
      intro memory' newData' newCells' htable hlength hcapacity hgrowing'
      rw [Function.update_idem, Function.update_idem] at hgrowing'
      exact hdone memory' newData' newCells' htable hlength hcapacity hgrowing'

/-- The outer loop of `expand_map` moves one chain after the other. -/
theorem reaches_expanding {chains : ℕ → List (Bucket Key Value)}
    {remaining : ℕ}
    (hgrowing : Growing memory root newData cells newCells lists)
    (hremaining : i + remaining = memory.length)
    (hroot : ∀ k, i ≤ k → root k = memory.table k)
    (hchains : ∀ k, i ≤ k → (cells k).map Prod.snd = chains k)
    (hempty : ∀ k, k < i ∨ memory.length ≤ k → cells k = [])
    (hrelink : (List.range' i remaining).foldlM
      (fun newData k => (chains k).foldlM (relink (2 * memory.length)) newData)
      lists = some lists')
    (hcount : memory.capacity = count)
    (hdone : ∀ memory' newCells', memory'.length = 2 * memory.length →
      memory'.capacity = count →
      Forest memory'.read memory'.table newCells' →
      (∀ index, (newCells' index).map Prod.snd = lists' index) →
      (locked keys allocator).Reaches (·.capacity = count) Post memory'
        (.hashing key val) answer) :
    (locked keys allocator).Reaches (·.capacity = count) Post memory
      (.expanding key val newData i) answer := by
  induction remaining generalizing memory root newData cells newCells lists i
    with
  | zero =>
      obtain rfl : lists = lists' := Option.some.inj hrelink
      have hbody : (locked keys allocator).body memory
          (.expanding key val newData i) =
            some ({ memory with
              table := newData
              length := 2 * memory.length }, .running (.hashing key val)) := by
        simp only [locked, body, if_neg (show ¬ i < memory.length by omega)]
      refine LockedObject.Reaches.step hbody hcount ?_
      refine hdone _ newCells rfl hcount ?_ hgrowing.lists_eq
      apply hgrowing.forest.right
      intro k
      exact hempty k (by omega)
  | succ remaining ih =>
      rw [List.range'_succ, List.foldlM_cons] at hrelink
      obtain ⟨moved, hmoved, hrest⟩ := Option.bind_eq_some_iff.mp hrelink
      have hbody : (locked keys allocator).body memory
          (.expanding key val newData i) =
            some (memory, .running
              (.relinking key val newData i (root i))) := by
        rw [hroot i le_rfl]
        simp only [locked, body, if_pos (show i < memory.length by omega)]
      rw [← hchains i le_rfl] at hmoved
      refine LockedObject.Reaches.step hbody hcount ?_
      apply reaches_relinking hgrowing rfl hmoved hcount
      intro memory' newData' newCells' htable hlength hcapacity hgrowing'
      rw [← hlength] at hrest hremaining
      apply ih hgrowing' (by omega) _ _ _ hrest hcapacity
      · intro memory'' newCells'' hlength''
        rw [hlength] at hlength''
        exact hdone memory'' newCells'' hlength''
      · intro k hk
        rw [Function.update_of_ne (by omega), htable, hroot k (by omega)]
      · intro k hk
        rw [Function.update_of_ne (by omega), hchains k (by omega)]
      · intro k hk
        by_cases heq : k = i
        · rw [heq, Function.update_self]
        · rw [Function.update_of_ne heq]
          exact hempty k (by omega)

variable {table : TsHashTable Key Value}

theorem Stores.isLoaded_eq (hstores : Stores memory table cells) :
    memory.isLoaded = table.isLoaded := by
  rw [Memory.isLoaded, isLoaded, hstores.capacity_eq, hstores.length_eq]

/-- `add`, with an expansion where the table is loaded. -/
theorem reaches_add (hstores : Stores memory table cells)
    (hlength : 0 < table.length)
    (houtside : ∀ index, table.length ≤ index → table.table index = [])
    {found : Bool} {next : TsHashTable Key Value}
    (hadd : table.add keys key val = some (found, next)) :
    (locked keys allocator).Reaches (·.capacity = memory.capacity)
      (fun final => ∃ cells', Stores final next cells')
      memory (.start (.add key val)) (.call found none) := by
  rw [add] at hadd
  split at hadd
  case isTrue hloaded =>
    obtain ⟨grown, hgrown, hinsert⟩ := Option.map_eq_some_iff.mp hadd
    obtain ⟨lists, hlists, rfl⟩ := Option.map_eq_some_iff.mp hgrown
    have hbody : (locked keys allocator).body memory (.start (.add key val)) =
        some (memory, .running
          (.expanding key val (fun _ => none) 0)) := by
      simp only [locked, body, hstores.isLoaded_eq, hloaded, if_true]
    have hbeside : Growing memory memory.table (fun _ => none) cells
        (fun _ => []) (fun _ => []) :=
      ⟨hstores.forest.beside, fun _ => rfl⟩
    rw [List.range_eq_range', ← hstores.length_eq] at hlists
    refine LockedObject.Reaches.step hbody rfl ?_
    apply reaches_expanding hbeside (Nat.zero_add _) (fun _ _ => rfl)
      (fun k _ => hstores.table_eq k) _ hlists rfl
    · intro memory' newCells hlength' hcapacity hforest hpayload
      have hstores' : Stores memory'
          { table with table := lists, length := 2 * table.length } newCells :=
        { forest := hforest
          table_eq := hpayload
          capacity_eq := hcapacity.trans hstores.capacity_eq
          length_eq := by rw [hlength', hstores.length_eq] }
      have hhashing : (locked keys allocator).Reaches _ _ _ _ _ :=
        reaches_hashing hstores' (Nat.mul_pos Nat.two_pos hlength) key val
          hcapacity
      rw [hinsert] at hhashing
      exact hhashing
    · intro k hk
      have hnil := hstores.table_eq k
      rw [houtside k (by rw [← hstores.length_eq]; omega)] at hnil
      exact List.map_eq_nil_iff.mp hnil
  case isFalse hloaded =>
    rw [Option.map_some] at hadd
    have hbody : (locked keys allocator).body memory (.start (.add key val)) =
        some (memory, .running (.hashing key val)) := by
      simp only [locked, body, hstores.isLoaded_eq]
      rw [if_neg hloaded]
    refine LockedObject.Reaches.step hbody rfl ?_
    have hhashing : (locked keys allocator).Reaches _ _ _ _ _ :=
      reaches_hashing hstores hlength key val rfl
    rw [Option.some.inj hadd] at hhashing
    exact hhashing

end Expansion

/-! ## The operations implement the finite map -/

section Map

variable {keys : KeyType Key} {allocator : Allocator}
variable {memory : Memory Key Value} {table next : TsHashTable Key Value}
variable {cells : ℕ → List (ℕ × Bucket Key Value)}
variable {map : Bindings keys Value}

/-- What a request does to the finite map. -/
def Request.spec (request : Request Key Value) (map : Bindings keys Value) :
    Bindings keys Value × Answer Value :=
  match request with
  | .call operation =>
      let (map, found, val) := operation.spec map
      (map, .call found val)
  | .getSize => (map, .size map.keys.card)

/-- The buckets in memory represent the map. -/
def Memory.Represents (memory : Memory Key Value)
    (map : Bindings keys Value) : Prop :=
  ∃ table cells, Stores memory table cells ∧ table.Represents map

/-- The count is the size of the map. -/
def Memory.Counts (memory : Memory Key Value)
    (map : Bindings keys Value) : Prop :=
  memory.capacity = map.keys.card

theorem Memory.Represents.counts (hrep : memory.Represents map) :
    memory.Counts map := by
  obtain ⟨table, cells, hstores, htable⟩ := hrep
  exact hstores.capacity_eq.trans htable.capacity_eq

/-- There are no buckets behind the last chain. -/
theorem Represents.outside (hrep : table.Represents map) {index : ℕ}
    (hindex : table.length ≤ index) : table.table index = [] := by
  rw [List.eq_nil_iff_forall_not_mem]
  intro bucket hmem
  have hplace := hrep.wellFormed.placed index bucket hmem
  have hlt : place keys table.length (bytesOf keys bucket) < table.length :=
    getPlace_lt hrep.length_pos _
  omega

/-- A call that may change the table. -/
theorem reaches_call (hstores : Stores memory table cells)
    (hrep : table.Represents map) {call : Call Key Value}
    (hmode : (Request.call call).mode = .exclusive) {found : Bool}
    {val : Option Value}
    (hcall : table.call keys call = some (next, found, val)) :
    (locked keys.toKeyOps allocator).Reaches (·.capacity = memory.capacity)
      (fun final => ∃ cells', Stores final next cells')
      memory (.start call) (.call found val) := by
  have hlength := hrep.length_pos
  cases call with
  | add key stored =>
      obtain ⟨⟨added, grown⟩, hadd, heq⟩ := Option.map_eq_some_iff.mp hcall
      cases heq
      exact reaches_add hstores hlength (fun _ => hrep.outside) hadd
  | replace key stored =>
      cases hcall
      exact reaches_replace hstores hlength key stored
  | get key => cases hmode
  | contains key => cases hmode
  | remove key =>
      cases hcall
      exact reaches_remove hstores hlength key
  | steal key =>
      cases hcall
      exact reaches_steal hstores hlength key

/-- The key of the bucket at an address. -/
def Memory.keyAt (keys : KeyType Key) (memory : Memory Key Value) (addr : ℕ)
    (haddr : addr ∈ memory.heap.keys) : Vector (BitVec 8) keys.size :=
  bytesOf keys ((memory.read addr).get
    (Finmap.lookup_isSome.mpr (Finmap.mem_keys.mp haddr))).val

theorem Memory.keyAt_eq {addr : ℕ} (haddr : addr ∈ memory.heap.keys)
    {cell : HeapCell ℕ (Bucket Key Value)}
    (hread : memory.read addr = some cell) :
    memory.keyAt keys addr haddr = bytesOf keys cell.val := by
  simp only [Memory.keyAt, hread, Option.get_some]

theorem Memory.exists_read {addr : ℕ} (haddr : addr ∈ memory.heap.keys) :
    ∃ cell, memory.read addr = some cell :=
  Option.isSome_iff_exists.mp
    (Finmap.lookup_isSome.mpr (Finmap.mem_keys.mp haddr))

/-- A bucket in memory is one of the table. -/
theorem Stores.holds (hstores : Stores memory table cells) {index addr : ℕ}
    {bucket : Bucket Key Value} (hmem : (addr, bucket) ∈ cells index) :
    bucket ∈ table.table index := by
  rw [← hstores.table_eq]
  exact List.mem_map_of_mem hmem

/-- Nothing leaks: there are as many buckets in memory as there are keys
bound. -/
theorem Memory.Represents.card_heap (hrep : memory.Represents map) :
    memory.heap.keys.card = map.keys.card := by
  obtain ⟨table, cells, hstores, htable⟩ := hrep
  have hwf := htable.wellFormed
  apply Finset.card_bij (memory.keyAt keys)
  · intro addr haddr
    obtain ⟨cell, hread⟩ := Memory.exists_read haddr
    obtain ⟨index, hmem⟩ := hstores.forest.exists_mem hread
    have hfound := hwf.lookup_eq_some_iff.mpr
      ⟨⟨index, hstores.holds hmem⟩, rfl⟩
    rw [Memory.keyAt_eq haddr hread, Finmap.mem_keys, ← Finmap.lookup_isSome,
      htable.lookup_eq, hfound]
    rfl
  · intro addr haddr other hother hkey
    obtain ⟨cell, hread⟩ := Memory.exists_read haddr
    obtain ⟨cell', hread'⟩ := Memory.exists_read hother
    obtain ⟨index, hmem⟩ := hstores.forest.exists_mem hread
    obtain ⟨index', hmem'⟩ := hstores.forest.exists_mem hread'
    rw [Memory.keyAt_eq haddr hread, Memory.keyAt_eq hother hread'] at hkey
    -- Buckets with one key are in one chain, where keys are distinct.
    obtain rfl : index = index' := by
      rw [← hwf.placed _ _ (hstores.holds hmem),
        ← hwf.placed _ _ (hstores.holds hmem'), hkey]
    have hnodup := hwf.nodup index
    rw [← hstores.table_eq, List.map_map] at hnodup
    exact congrArg Prod.fst
      (List.inj_on_of_nodup_map hnodup hmem hmem' hkey)
  · intro wanted hwanted
    rw [Finmap.mem_keys, ← Finmap.lookup_isSome, htable.lookup_eq,
      Option.isSome_map, Option.isSome_iff_exists] at hwanted
    obtain ⟨bucket, hbucket⟩ := hwanted
    obtain ⟨⟨index, hmem⟩, rfl⟩ := hwf.lookup_eq_some_iff.mp hbucket
    rw [← hstores.table_eq] at hmem
    obtain ⟨⟨addr, _⟩, hcell, rfl⟩ := List.mem_map.mp hmem
    obtain ⟨next, hread⟩ := (hstores.forest.linked index).exists_of_mem hcell
    have haddr : addr ∈ memory.heap.keys := by
      rw [Finmap.mem_keys, ← Finmap.lookup_isSome]
      change (memory.read addr).isSome
      rw [hread]
      rfl
    exact ⟨addr, haddr, Memory.keyAt_eq haddr hread⟩

/-- The operations under the lock implement the operations of the map. -/
theorem implements (keys : KeyType Key) (allocator : Allocator) :
    (locked keys.toKeyOps allocator).Implements
      (Request.spec : Request Key Value → Bindings keys Value → _)
      Memory.Represents Memory.Counts where
  shows := fun _ _ hrep => hrep.counts
  peek := by
    intro request memory map hmode hcounts
    cases request with
    | getSize =>
        rw [Request.spec, ← hcounts]
        rfl
    | call call => cases call <;> cases hmode
  shared := by
    rintro request memory map hmode ⟨table, cells, hstores, hrep⟩
    cases request with
    | getSize => cases hmode
    | call call =>
        cases call with
        | get key =>
            have hget := @executes_get _ _ keys.toKeyOps allocator _ _ _
              hstores hrep.length_pos key
            rw [hrep.get_eq] at hget
            exact ⟨_, rfl, hget⟩
        | contains key =>
            have hcontains := @executes_contains _ _ keys.toKeyOps allocator
              _ _ _ hstores hrep.length_pos key
            rw [hrep.contains_eq] at hcontains
            exact ⟨_, rfl, hcontains⟩
        | _ => cases hmode
  exclusive := by
    rintro request memory map hmode ⟨table, cells, hstores, hrep⟩
    cases request with
    | getSize => cases hmode
    | call call =>
        obtain ⟨next, hcall, hnext⟩ := hrep.call_eq call
        obtain ⟨final, ⟨cells', hfinal⟩, hexecutes⟩ :=
          @reaches_call _ _ keys allocator _ _ _ _ _ hstores hrep _ hmode _ _
            hcall
        have hcount : memory.capacity = map.keys.card :=
          hstores.capacity_eq.trans hrep.capacity_eq
        rw [hcount] at hexecutes
        exact ⟨final, ⟨next, cells', hfinal, hnext⟩, hexecutes⟩

end Map

/-! ## The table and its threads -/

section Threads

variable {Thread : Type*} [DecidableEq Thread]

/-- A state of the table with its threads. -/
abbrev Threads (Key Value Thread : Type*) :=
  LockedObject.State (Memory Key Value) (Request Key Value) (Pc Key Value)
    (Answer Value) Thread

/-- The table with its threads, after the constructor. -/
def threads (keys : KeyOps Key) (allocator : Allocator) :
    TransitionSystem (Threads Key Value Thread)
      (LockedObject.Label (Request Key Value) Thread) :=
  (locked keys allocator).system .new

theorem Memory.represents_new (keys : KeyType Key) :
    (Memory.new : Memory Key Value).Represents (∅ : Bindings keys Value) := by
  refine ⟨_, fun _ => [], ?_, TsHashTable.Represents.new⟩
  constructor
  · exact Forest.empty
  · exact fun _ => rfl
  · rfl
  · rfl

variable {keys : KeyType Key} {allocator : Allocator}
variable {state : Threads Key Value Thread}

/-- Whatever the threads do and in whatever order their steps happen, what they
see is what a finite map could have answered them at once: every call of an
operation, `getSize` included, takes effect at one moment between its start and
its return. -/
theorem threads_linearizable
    (hreach : (threads keys.toKeyOps allocator).Reachable state) :
    ∃ atomic, (LockedObject.atomicSystem Request.spec
        (∅ : Bindings keys Value)).Reachable atomic ∧
      atomic.history = state.history :=
  LockedObject.exists_atomic_history (implements keys allocator)
    (Memory.represents_new keys) hreach

/-- A thread inside the lock is never stuck: every bucket it follows a link to
is allocated, it deletes no bucket twice, it stays inside the array, and its own
steps alone lead to the release of the lock. -/
theorem threads_release
    (hreach : (threads keys.toKeyOps allocator).Reachable state)
    {thread : Thread} {request : Request Key Value} {pc : Pc Key Value}
    (hplace : state.place thread = some (.working request pc)) :
    ∃ count last answer, TransitionSystem.execute
        (locked keys.toKeyOps allocator).systemStep state
          (List.replicate count (.work thread)) = some last ∧
      last.place thread = some (.releasing request answer) :=
  LockedObject.exists_execute_releasing (implements keys allocator)
    (Memory.represents_new keys) hreach hplace

/-- While no thread changes the table there are exactly as many buckets in
memory as `getSize` counts: none has leaked and none was deleted too early. -/
theorem threads_card_heap
    (hreach : (threads keys.toKeyOps allocator).Reachable state)
    (hshared : ∀ thread request pc,
      state.place thread = some (.working request pc) →
        request.mode = .shared) :
    state.object.heap.keys.card = state.object.capacity := by
  obtain ⟨atomic, -, hrelated⟩ := LockedObject.exists_related
    (implements keys allocator) (Memory.represents_new keys) hreach
  have hrep := hrelated.progress.represents hshared
  rw [hrep.card_heap]
  exact hrep.counts.symm

end Threads

/-! ## A run of two threads -/

theorem octet_equal_iff (left right : BitVec 8) :
    decide (left = right) = true ↔
      Vector.singleton left = Vector.singleton right := by
  simp [Vector.singleton]

/-- Keys of one byte. -/
def octetKeys : KeyType (BitVec 8) where
  size := 1
  bytes := fun byte => Vector.singleton byte
  equal := fun left right => decide (left = right)
  equal_iff := octet_equal_iff

/-- An allocator that goes upwards. -/
def upwards : Allocator where
  malloc used := used.sup id + 1
  fresh used hmem := by
    have hle : used.sup id + 1 ≤ used.sup id := Finset.le_sup (f := id) hmem
    exact absurd hle (Nat.not_succ_le_self _)

/-- One thread adds a key while the other asks for the size. -/
def overlapping :
    List (LockedObject.Label (Request (BitVec 8) ℕ) Bool) :=
  [.call false (.call (.add 7 1)), .acquire false, .work false,
    .call true .getSize, .work false, .work false, .work false, .work true,
    .work false, .release false, .leave true, .leave false]

/-- The state after the first steps of the two threads. -/
def afterSteps (count : ℕ) : Option (Threads (BitVec 8) ℕ Bool) :=
  TransitionSystem.execute (locked octetKeys.toKeyOps upwards).systemStep
    (LockedObject.initial .new) (overlapping.take count)

theorem threads_linearizable_overlapping :
    ∃ atomic, (LockedObject.atomicSystem Request.spec
        (∅ : Bindings octetKeys ℕ)).Reachable atomic ∧
      atomic.history = [.called false (.call (.add 7 1)),
        .called true .getSize, .returned true (.size 0),
        .returned false (.call false none)] := by
  have hrun : (afterSteps 12).map (·.history) =
      some [.called false (.call (.add 7 1)), .called true .getSize,
        .returned true (.size 0), .returned false (.call false none)] := rfl
  obtain ⟨state, hstate, hhistory⟩ := Option.map_eq_some_iff.mp hrun
  rw [← hhistory]
  exact threads_linearizable
    (TransitionSystem.reachable_of_execute rfl hstate)

theorem threads_release_overlapping :
    ∃ state, afterSteps 6 = some state ∧
      ∃ count last answer, TransitionSystem.execute
          (locked octetKeys.toKeyOps upwards).systemStep state
            (List.replicate count (.work false)) = some last ∧
        last.place false =
          some (.releasing (.call (.add 7 1)) answer) := by
  have hrun : (afterSteps 6).map (·.place false) =
      some (some (.working (.call (.add 7 1))
        (.linking 7 1 (hashOf octetKeys.toKeyOps 7) 3))) := rfl
  obtain ⟨state, hstate, hplace⟩ := Option.map_eq_some_iff.mp hrun
  exact ⟨state, hstate, threads_release
    (TransitionSystem.reachable_of_execute rfl hstate) hplace⟩

theorem threads_card_heap_overlapping :
    ∃ state, afterSteps 12 = some state ∧
      state.object.heap.keys.card = state.object.capacity := by
  have hrun : (afterSteps 12).map (fun state =>
      (state.place false, state.place true)) = some (none, none) := rfl
  obtain ⟨state, hstate, hplaces⟩ := Option.map_eq_some_iff.mp hrun
  refine ⟨state, hstate, threads_card_heap
    (TransitionSystem.reachable_of_execute rfl hstate) ?_⟩
  intro thread request pc hplace
  cases thread with
  | false => cases (congrArg Prod.fst hplaces).symm.trans hplace
  | true => cases (congrArg Prod.snd hplaces).symm.trans hplace

end Sensor.TsHashTable
