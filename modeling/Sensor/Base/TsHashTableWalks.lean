import Mathlib
import Sensor.Base.TsHashTableMap
import Sensor.Base.TsHashTableMemory

/-!
# The walks of the hash table

Every operation, run bucket by bucket in memory, ends and does to the chains
what the operation on lists of buckets does.
-/

namespace Sensor.TsHashTable

variable {Key Value : Type*} {keys : KeyOps Key} {allocator : Allocator}

/-- The memory holds the buckets of the table: `cells` says where. -/
structure Stores (memory : Memory Key Value) (table : TsHashTable Key Value)
    (cells : ℕ → List (ℕ × Bucket Key Value)) : Prop where
  forest : Forest memory.read memory.table cells
  table_eq : ∀ index, (cells index).map Prod.snd = table.table index
  capacity_eq : memory.capacity = table.capacity
  length_eq : memory.length = table.length

/-! ## Reading and writing -/

section Memory

variable {memory : Memory Key Value} {bucket : ℕ}
variable {cell : HeapCell ℕ (Bucket Key Value)}

theorem Memory.read_write :
    (memory.write bucket cell).read =
      Function.update memory.read bucket (some cell) := by
  funext other
  by_cases hother : other = bucket
  · rw [hother, Function.update_self]
    exact Finmap.lookup_insert _
  · rw [Function.update_of_ne hother]
    exact Finmap.lookup_insert_of_ne _ hother

theorem Memory.read_delete :
    (memory.delete bucket).read = Function.update memory.read bucket none := by
  funext other
  by_cases hother : other = bucket
  · rw [hother, Function.update_self]
    exact Finmap.lookup_erase _ _
  · rw [Function.update_of_ne hother]
    exact Finmap.lookup_erase_ne hother

/-- The allocator hands out an address without a bucket. -/
theorem Memory.read_malloc (allocator : Allocator)
    (memory : Memory Key Value) :
    memory.read (allocator.malloc memory.heap.keys) = none := by
  rw [Memory.read, Finmap.lookup_eq_none, ← Finmap.mem_keys]
  exact allocator.fresh _

theorem Memory.entry_eq {index : ℕ} (hindex : index < memory.length) :
    memory.entry index = some (memory.table index) :=
  if_pos hindex

theorem Memory.setEntry_eq {index : ℕ} (hindex : index < memory.length)
    (start : Option ℕ) :
    memory.setEntry index start = some
      { memory with table := Function.update memory.table index start } :=
  if_pos hindex

theorem Memory.setEntry_write {index : ℕ} (hindex : index < memory.length)
    {start : Option ℕ} :
    (memory.write bucket cell).setEntry index start = some
      { memory.write bucket cell with
        table := Function.update memory.table index start } :=
  if_pos hindex

end Memory

section Walks

variable {memory : Memory Key Value} {table : TsHashTable Key Value}
variable {cells : ℕ → List (ℕ × Bucket Key Value)}
variable {Keeps Post : Memory Key Value → Prop} {answer : Answer Value}
variable {front rest : List (ℕ × Bucket Key Value)} {bucket : Option ℕ}
variable {hash : BitVec 32}

/-- No bucket of the list matches. -/
abbrev Passed (keys : KeyOps Key) (hash : BitVec 32) (key : Key)
    (cells : List (ℕ × Bucket Key Value)) : Prop :=
  ∀ cell ∈ cells, isBucket keys hash key cell.2 = false

/-! ## `get_bucket` -/

/-- The loop of `get_bucket` stops at the first bucket that matches. -/
theorem reaches_finding {call : Call Key Value} (hkeeps : Keeps memory)
    (hsegment : Segment memory.read none bucket rest)
    (hfound : ∀ before addr found after,
      rest = before ++ (addr, found) :: after →
        Passed keys hash call.key before →
        isBucket keys hash call.key found = true →
          (locked keys allocator).Reaches Keeps Post memory (.found call addr)
            answer)
    (hnone : Passed keys hash call.key rest →
      (locked keys allocator).Reaches Keeps Post memory
        (.finding call hash none) answer) :
    (locked keys allocator).Reaches Keeps Post memory
      (.finding call hash bucket) answer := by
  induction rest generalizing bucket with
  | nil =>
      obtain rfl : bucket = none := hsegment
      exact hnone fun _ hmem => absurd hmem List.not_mem_nil
  | cons cell rest ih =>
      obtain ⟨addr, val⟩ := cell
      obtain ⟨rfl, next, hread, hrest⟩ := hsegment
      by_cases hmatch : isBucket keys hash call.key val = true
      · have hbody : (locked keys allocator).body memory
            (.finding call hash (some addr)) =
              some (memory, .running (.found call addr)) := by
          simp only [locked, body, hread, Option.map_some, hmatch, if_true]
        apply LockedObject.Reaches.step hbody hkeeps
        apply hfound [] addr val rest rfl _ hmatch
        exact fun _ hmem => absurd hmem List.not_mem_nil
      · rw [Bool.not_eq_true] at hmatch
        have hbody : (locked keys allocator).body memory
            (.finding call hash (some addr)) =
              some (memory, .running (.finding call hash next)) := by
          simp only [locked, body, hread, Option.map_some, hmatch,
            Bool.false_eq_true, if_false]
        have hcons : ∀ {before}, Passed keys hash call.key before →
            Passed keys hash call.key ((addr, val) :: before) :=
          fun hbefore => List.forall_mem_cons.mpr ⟨hmatch, hbefore⟩
        apply LockedObject.Reaches.step hbody hkeeps
        apply ih hrest
        · rintro before other found after rfl hbefore
          exact hfound _ other found after rfl (hcons hbefore)
        · exact fun hpassed => hnone (hcons hpassed)

/-- The walk of `get_bucket` starts at the chain of the hash. -/
theorem body_start_finding {call : Call Key Value}
    (hlength : 0 < memory.length)
    (hcall : (∃ key, call = .get key) ∨ (∃ key, call = .contains key) ∨
      ∃ key val, call = .replace key val) :
    (locked keys allocator).body memory (.start call) =
      some (memory, .running (.finding call (hashOf keys call.key)
        (memory.table (getPlace memory.length (hashOf keys call.key))))) := by
  have hentry := memory.entry_eq
    (getPlace_lt hlength (hashOf keys call.key))
  obtain ⟨key, rfl⟩ | ⟨key, rfl⟩ | ⟨key, val, rfl⟩ := hcall
  · simp only [locked, body, hentry, Option.map_some]
  · simp only [locked, body, hentry, Option.map_some]
  · simp only [locked, body, hentry, Option.map_some]

/-- Where the first bucket that matches is known `find?` returns it. -/
theorem getBucket_of_split (hstores : Stores memory table cells) {key : Key}
    {addr : ℕ} {found : Bucket Key Value}
    (hcells : cells (getPlace table.length hash) =
      front ++ (addr, found) :: rest)
    (hfront : Passed keys hash key front)
    (hfound : isBucket keys hash key found = true) :
    table.getBucket keys hash key = some found := by
  rw [getBucket, ← hstores.table_eq, hcells, List.map_append, List.map_cons,
    List.find?_append]
  have hnone : (front.map Prod.snd).find? (isBucket keys hash key) = none := by
    rw [List.find?_eq_none]
    intro bucket hmem
    obtain ⟨cell, hcell, rfl⟩ := List.mem_map.mp hmem
    rw [hfront cell hcell]
    exact Bool.false_ne_true
  rw [hnone, Option.none_or, List.find?_cons_of_pos hfound]

theorem getBucket_of_passed (hstores : Stores memory table cells) {key : Key}
    (hpassed : Passed keys hash key (cells (getPlace table.length hash))) :
    table.getBucket keys hash key = none := by
  rw [getBucket, ← hstores.table_eq, List.find?_eq_none]
  intro bucket hmem
  obtain ⟨cell, hcell, rfl⟩ := List.mem_map.mp hmem
  rw [hpassed cell hcell]
  exact Bool.false_ne_true

/-- `get_bucket`, started at the chain of the key. -/
theorem reaches_start_finding (hstores : Stores memory table cells)
    (hlength : 0 < table.length) {call : Call Key Value}
    (hcall : (∃ key, call = .get key) ∨ (∃ key, call = .contains key) ∨
      ∃ key val, call = .replace key val) (hkeeps : Keeps memory)
    (hfound : ∀ before addr found after next,
      cells (getPlace table.length (hashOf keys call.key)) =
          before ++ (addr, found) :: after →
        Passed keys (hashOf keys call.key) call.key before →
        isBucket keys (hashOf keys call.key) call.key found = true →
        memory.read addr = some ⟨found, next⟩ →
        table.getBucket keys (hashOf keys call.key) call.key = some found →
          (locked keys allocator).Reaches Keeps Post memory (.found call addr)
            answer)
    (hnone : table.getBucket keys (hashOf keys call.key) call.key = none →
      (locked keys allocator).Reaches Keeps Post memory
        (.finding call (hashOf keys call.key) none) answer) :
    (locked keys allocator).Reaches Keeps Post memory (.start call) answer := by
  have hlength' : 0 < memory.length := by
    rw [hstores.length_eq]
    exact hlength
  have hlinked := hstores.forest.linked
    (getPlace table.length (hashOf keys call.key))
  refine LockedObject.Reaches.step (body_start_finding hlength' hcall)
    hkeeps ?_
  rw [hstores.length_eq]
  apply reaches_finding hkeeps hlinked
  · intro before addr found after hcells hbefore hmatch
    rw [hcells, Segment.append_cons_iff] at hlinked
    obtain ⟨-, next, hread, -⟩ := hlinked
    exact hfound before addr found after next hcells hbefore hmatch hread
      (getBucket_of_split hstores hcells hbefore hmatch)
  · exact fun hpassed => hnone (getBucket_of_passed hstores hpassed)

theorem executes_get (hstores : Stores memory table cells)
    (hlength : 0 < table.length) (key : Key) :
    (locked keys allocator).Executes (· = memory) memory (.start (.get key))
      memory (.call (table.get keys key).1 (table.get keys key).2) := by
  have hreaches : (locked keys allocator).Reaches (· = memory) (· = memory)
      memory (.start (.get key))
        (.call (table.get keys key).1 (table.get keys key).2) := by
    refine reaches_start_finding hstores hlength (.inl ⟨key, rfl⟩) rfl ?_ ?_
    · intro before addr found after next _ _ _ hread hget
      rw [Call.key] at hget
      refine LockedObject.Reaches.done ?_ rfl
      simp only [locked, body, hread, get, hget, Option.map_some]
      rfl
    · intro hget
      rw [Call.key] at hget
      refine LockedObject.Reaches.done ?_ rfl
      simp only [locked, body, get, hget]
      rfl
  obtain ⟨final, rfl, hexecutes⟩ := hreaches
  exact hexecutes

theorem executes_contains (hstores : Stores memory table cells)
    (hlength : 0 < table.length) (key : Key) :
    (locked keys allocator).Executes (· = memory) memory
      (.start (.contains key)) memory
        (.call (table.contains keys key) none) := by
  have hreaches : (locked keys allocator).Reaches (· = memory) (· = memory)
      memory (.start (.contains key))
        (.call (table.contains keys key) none) := by
    refine reaches_start_finding hstores hlength (.inr (.inl ⟨key, rfl⟩)) rfl
      ?_ ?_
    · intro before addr found after next _ _ _ _ hget
      rw [Call.key] at hget
      refine LockedObject.Reaches.done ?_ rfl
      simp only [locked, body, contains, hget]
      rfl
    · intro hget
      rw [Call.key] at hget
      refine LockedObject.Reaches.done ?_ rfl
      simp only [locked, body, contains, hget]
      rfl
  obtain ⟨final, rfl, hexecutes⟩ := hreaches
  exact hexecutes

/-! ## `replace` -/

theorem map_update {chains : ℕ → List (Bucket Key Value)}
    (heq : ∀ index, (cells index).map Prod.snd = chains index)
    (index : ℕ) (other : ℕ) :
    (Function.update cells index rest other).map Prod.snd =
      Function.update chains index (rest.map Prod.snd) other := by
  by_cases hother : other = index
  · rw [hother, Function.update_self, Function.update_self]
  · rw [Function.update_of_ne hother, Function.update_of_ne hother, heq]

/-- Storing a value in a bucket of the table. -/
theorem Stores.store (hstores : Stores memory table cells) {index addr : ℕ}
    {found : Bucket Key Value} {next : Option ℕ}
    (hcells : cells index = front ++ (addr, found) :: rest)
    (hread : memory.read addr = some ⟨found, next⟩)
    (stored : Bucket Key Value) :
    Stores (memory.write addr ⟨stored, next⟩)
      { table with
        table := Function.update table.table index
          (front.map Prod.snd ++ stored :: rest.map Prod.snd) }
      (Function.update cells index (front ++ (addr, stored) :: rest)) where
  forest := by
    rw [Memory.read_write]
    exact hstores.forest.store hcells hread
  table_eq := by
    intro other
    rw [map_update hstores.table_eq, List.map_append, List.map_cons]
  capacity_eq := hstores.capacity_eq
  length_eq := hstores.length_eq

/-- `assign` gives the value to the first bucket that matches. -/
theorem assign_of_split {wanted : Bucket Key Value → Bool} {val : Value}
    {before after : List (Bucket Key Value)} {found : Bucket Key Value}
    (hbefore : ∀ bucket ∈ before, wanted bucket = false)
    (hfound : wanted found = true) :
    assign wanted val (before ++ found :: after) =
      before ++ { found with val := val } :: after := by
  induction before with
  | nil => rw [List.nil_append, assign, if_pos hfound, List.nil_append]
  | cons bucket before ih =>
      rw [List.cons_append, assign, hbefore bucket List.mem_cons_self,
        if_neg Bool.false_ne_true, List.cons_append,
        ih fun other hother => hbefore other (List.mem_cons_of_mem _ hother)]

theorem reaches_replace (hstores : Stores memory table cells)
    (hlength : 0 < table.length) (key : Key) (val : Value) :
    (locked keys allocator).Reaches (·.capacity = memory.capacity)
      (fun final => ∃ cells', Stores final (table.replace keys key val).2 cells')
      memory (.start (.replace key val))
        (.call (table.replace keys key val).1 none) := by
  refine reaches_start_finding hstores hlength (.inr (.inr ⟨key, val, rfl⟩))
    rfl ?_ ?_
  · intro before addr found after next hcells hbefore hmatch hread hget
    rw [Call.key] at hcells hbefore hmatch hget
    have hpassed : ∀ bucket ∈ before.map Prod.snd,
        isBucket keys (hashOf keys key) key bucket = false := by
      intro bucket hmem
      obtain ⟨cell, hcell, rfl⟩ := List.mem_map.mp hmem
      exact hbefore cell hcell
    have hreplace : table.replace keys key val =
        (true, { table with
          table := Function.update table.table
            (getPlace table.length (hashOf keys key))
            (before.map Prod.snd ++ { found with val := val } ::
              after.map Prod.snd) }) := by
      simp only [replace, hget, Option.isSome_some, if_true]
      rw [← hstores.table_eq, hcells, List.map_append, List.map_cons,
        assign_of_split hpassed hmatch]
    rw [hreplace]
    refine LockedObject.Reaches.done ?_ ⟨_, hstores.store hcells hread _⟩
    simp only [locked, body, hread, Option.map_some]
  · intro hget
    rw [Call.key] at hget
    have hreplace : table.replace keys key val = (false, table) := by
      simp only [replace, hget]
      rfl
    rw [hreplace]
    exact LockedObject.Reaches.done rfl ⟨cells, hstores⟩

/-! ## `remove` and `steal` -/

/-- What `remove` and `steal` make of the result of `steal_bucket`. -/
def stolen (table : TsHashTable Key Value) (index : ℕ)
    (result : Option (Bucket Key Value) × List (Bucket Key Value)) :
    TsHashTable Key Value where
  table := Function.update table.table index result.2
  capacity := if result.1.isSome then table.capacity - 1 else table.capacity
  length := table.length

/-- The value `steal` stores; `remove` stores none. -/
def stolenVal (call : Call Key Value) (bucket : Option (Bucket Key Value)) :
    Option Value :=
  match call with
  | .steal _ => bucket.map (·.val)
  | _ => none

/-- `delete bucket; capacity--`. -/
theorem reaches_taken {call : Call Key Value} {addr : ℕ}
    {cell : HeapCell ℕ (Bucket Key Value)}
    {count : ℕ} (hcount : memory.capacity = count)
    (hread : memory.read addr = some cell)
    (hpost : Post { memory.delete addr with
      capacity := memory.capacity - 1 }) :
    (locked keys allocator).Reaches (·.capacity = count) Post memory
      (.taken call addr) (.call true (stolenVal call (some cell.val))) := by
  have htaken : (locked keys allocator).body memory (.taken call addr) =
      some (memory, .running
        (.deleting addr (stolenVal call (some cell.val)))) := by
    cases call with
    | steal key => simp only [locked, body, hread, Option.map_some, stolenVal]
    | _ => rfl
  have hdelete : (locked keys allocator).body memory
      (.deleting addr (stolenVal call (some cell.val))) =
        some (memory.delete addr, .running
          (.uncounting (stolenVal call (some cell.val)))) := by
    simp only [locked, body, hread, Option.map_some]
  refine .step htaken hcount (.step hdelete hcount ?_)
  exact LockedObject.Reaches.done rfl hpost

/-- The first bucket of a chain is taken out. -/
theorem Stores.takeFirst (hstores : Stores memory table cells)
    {index addr : ℕ} {val : Bucket Key Value} {next : Option ℕ}
    (hcells : cells index = (addr, val) :: rest)
    (hread : memory.read addr = some ⟨val, next⟩) :
    Stores
      { ({ memory with table := Function.update memory.table index next } :
          Memory Key Value).delete addr with capacity := memory.capacity - 1 }
      (table.stolen index (some val, rest.map Prod.snd))
      (Function.update cells index rest) where
  forest := by
    have hpop := hstores.forest.pop hcells hread
    rw [← Memory.read_delete] at hpop
    exact hpop
  table_eq := map_update hstores.table_eq index
  capacity_eq := congrArg (· - 1) hstores.capacity_eq
  length_eq := hstores.length_eq

/-- A later bucket of a chain is taken out. -/
theorem Stores.takeLater (hstores : Stores memory table cells)
    {index addr previous : ℕ} {val kept : Bucket Key Value} {next : Option ℕ}
    (hcells : cells index =
      front ++ (previous, kept) :: (addr, val) :: rest)
    (hread : memory.read addr = some ⟨val, next⟩) :
    Stores
      { (memory.write previous ⟨kept, next⟩).delete addr with
        capacity := memory.capacity - 1 }
      (table.stolen index
        (some val, (front ++ (previous, kept) :: rest).map Prod.snd))
      (Function.update cells index (front ++ (previous, kept) :: rest)) where
  forest := by
    have hunlink := hstores.forest.unlink hcells hread
    rw [← Memory.read_write, ← Memory.read_delete] at hunlink
    exact hunlink
  table_eq := map_update hstores.table_eq index
  capacity_eq := congrArg (· - 1) hstores.capacity_eq
  length_eq := hstores.length_eq

/-- `steal_bucket` found its bucket: it is linked past and deleted. -/
theorem reaches_unlinking_match (hstores : Stores memory table cells)
    {call : Call Key Value} (hlength : 0 < table.length)
    {addr : ℕ} {val : Bucket Key Value} {next : Option ℕ}
    (hcells : cells (getPlace table.length hash) =
      front ++ (addr, val) :: rest)
    (hread : memory.read addr = some ⟨val, next⟩)
    (hmatch : isBucket keys hash call.key val = true) :
    (locked keys allocator).Reaches (·.capacity = memory.capacity)
      (fun final => ∃ cells', Stores final
        (table.stolen (getPlace table.length hash)
          (some val, (front ++ rest).map Prod.snd)) cells')
      memory (.unlinking call hash (front.getLast?.map Prod.fst) (some addr))
        (.call true (stolenVal call (some val))) := by
  cases List.eq_nil_or_concat' front with
  | inl hnil =>
      subst hnil
      rw [← hstores.length_eq] at hcells ⊢
      have hindex : getPlace memory.length hash < memory.length := by
        rw [hstores.length_eq]
        exact getPlace_lt hlength hash
      have hbody : (locked keys allocator).body memory
          (.unlinking call hash none (some addr)) =
            some ({ memory with
              table := Function.update memory.table
                (getPlace memory.length hash) next },
              .running (.taken call addr)) := by
        simp only [locked, body, hread, Option.bind_some, hmatch, if_true,
          Memory.setEntry_eq hindex, Option.map_some]
      have hread' : Memory.read { memory with
          table := Function.update memory.table
            (getPlace memory.length hash) next } addr =
              some ⟨val, next⟩ := hread
      refine LockedObject.Reaches.step hbody rfl ?_
      refine reaches_taken rfl hread' ?_
      exact ⟨_, hstores.takeFirst hcells hread⟩
  | inr hconcat =>
      obtain ⟨front, ⟨previous, kept⟩, rfl⟩ := hconcat
      have hcells' : cells (getPlace table.length hash) =
          front ++ (previous, kept) :: (addr, val) :: rest := by
        rw [hcells, List.append_assoc, List.singleton_append]
      have hlinked := hstores.forest.linked (getPlace table.length hash)
      rw [hcells', Segment.append_cons_iff] at hlinked
      obtain ⟨-, _, hprevious, rfl, -⟩ := hlinked
      have hne : addr ≠ previous := by
        rintro rfl
        exact (hstores.forest.mem_split hcells').2.1 List.mem_cons_self
      have hbody : (locked keys allocator).body memory
          (.unlinking call hash (some previous) (some addr)) =
            some (memory.write previous ⟨kept, next⟩,
              .running (.taken call addr)) := by
        simp only [locked, body, hread, Option.bind_some, hmatch, if_true,
          hprevious, Option.map_some]
      have hread' : (memory.write previous ⟨kept, next⟩).read addr =
          some ⟨val, next⟩ := by
        rw [Memory.read_write, Function.update_of_ne hne, hread]
      rw [List.getLast?_concat, Option.map_some]
      refine LockedObject.Reaches.step hbody rfl ?_
      refine reaches_taken rfl hread' ?_
      rw [List.append_assoc, List.singleton_append]
      exact ⟨_, hstores.takeLater hcells' hread⟩

/-- The loop of `steal_bucket` takes out the first bucket that matches. -/
theorem reaches_unlinking (hstores : Stores memory table cells)
    {call : Call Key Value} (hlength : 0 < table.length)
    (hcells : cells (getPlace table.length hash) = front ++ rest)
    (hsegment : Segment memory.read none bucket rest)
    {result : Option (Bucket Key Value) × List (Bucket Key Value)}
    (hresult : stealLoop (isBucket keys hash call.key)
      (front.map Prod.snd).reverse (rest.map Prod.snd) = result) :
    (locked keys allocator).Reaches (·.capacity = memory.capacity)
      (fun final => ∃ cells', Stores final
        (table.stolen (getPlace table.length hash) result) cells')
      memory (.unlinking call hash (front.getLast?.map Prod.fst) bucket)
        (.call result.1.isSome (stolenVal call result.1)) := by
  induction rest generalizing front bucket with
  | nil =>
      obtain rfl : bucket = none := hsegment
      rw [List.map_nil, stealLoop, List.reverse_reverse] at hresult
      subst hresult
      rw [List.append_nil] at hcells
      have hval : stolenVal call (none : Option (Bucket Key Value)) = none := by
        cases call <;> rfl
      rw [hval]
      refine LockedObject.Reaches.done rfl ⟨cells, ?_⟩
      rw [← hcells, hstores.table_eq, stolen, Function.update_eq_self]
      exact hstores
  | cons cell rest ih =>
      obtain ⟨addr, val⟩ := cell
      obtain ⟨rfl, next, hread, hrest⟩ := hsegment
      rw [List.map_cons, stealLoop] at hresult
      by_cases hmatch : isBucket keys hash call.key val = true
      · rw [hmatch, if_pos rfl, List.reverse_reverse, ← List.map_append]
          at hresult
        subst hresult
        exact reaches_unlinking_match hstores hlength hcells hread hmatch
      · rw [Bool.not_eq_true] at hmatch
        rw [hmatch, if_neg Bool.false_ne_true] at hresult
        have hbody : (locked keys allocator).body memory
            (.unlinking call hash (front.getLast?.map Prod.fst) (some addr)) =
              some (memory, .running
                (.unlinking call hash (some addr) next)) := by
          simp only [locked, body, hread, Option.bind_some, hmatch,
            Bool.false_eq_true, if_false]
        refine .step hbody rfl ?_
        have hnext := @ih (front ++ [(addr, val)]) next
          (by rw [hcells, List.append_assoc, List.singleton_append]) hrest
          (by simpa using hresult)
        rw [List.getLast?_append_of_ne_nil _ (List.cons_ne_nil _ _)] at hnext
        exact hnext

/-- The walk of `steal_bucket` starts at the chain of the key. -/
theorem reaches_start_unlinking (hstores : Stores memory table cells)
    (hlength : 0 < table.length) {call : Call Key Value}
    (hcall : (∃ key, call = .remove key) ∨ ∃ key, call = .steal key)
    {result : Option (Bucket Key Value) × List (Bucket Key Value)}
    (hresult : stealLoop (isBucket keys (hashOf keys call.key) call.key) []
      (table.table (getPlace table.length (hashOf keys call.key))) = result) :
    (locked keys allocator).Reaches (·.capacity = memory.capacity)
      (fun final => ∃ cells', Stores final
        (table.stolen (getPlace table.length (hashOf keys call.key)) result)
          cells')
      memory (.start call)
        (.call result.1.isSome (stolenVal call result.1)) := by
  have hindex : getPlace table.length (hashOf keys call.key) <
      memory.length := by
    rw [hstores.length_eq]
    exact getPlace_lt hlength _
  have hbody : (locked keys allocator).body memory (.start call) =
      some (memory, .running (.unlinking call (hashOf keys call.key) none
        (memory.table (getPlace table.length (hashOf keys call.key))))) := by
    have hentry := Memory.entry_eq hindex
    rw [← hstores.length_eq] at hentry ⊢
    obtain ⟨key, rfl⟩ | ⟨key, rfl⟩ := hcall
    · simp only [locked, body, hentry, Option.map_some]
    · simp only [locked, body, hentry, Option.map_some]
  refine LockedObject.Reaches.step hbody rfl ?_
  rw [← hstores.table_eq] at hresult
  have hcells : cells (getPlace table.length (hashOf keys call.key)) =
      [] ++ cells (getPlace table.length (hashOf keys call.key)) := rfl
  exact reaches_unlinking hstores hlength hcells (hstores.forest.linked _)
    hresult

/-- `steal` in terms of the result of `steal_bucket`. -/
theorem steal_eq_stolen (table : TsHashTable Key Value) (key : Key) :
    let index := getPlace table.length (hashOf keys key)
    let result := stealLoop (isBucket keys (hashOf keys key) key) []
      (table.table index)
    table.steal keys key =
      (result.1.isSome, result.1.map (·.val), table.stolen index result) := by
  intro index result
  simp only [steal, stealBucket, stolen, result, index]
  cases (stealLoop (isBucket keys (hashOf keys key) key) []
      (table.table (getPlace table.length (hashOf keys key)))).1 with
  | none => rfl
  | some bucket => rfl

theorem reaches_steal (hstores : Stores memory table cells)
    (hlength : 0 < table.length) (key : Key) :
    (locked keys allocator).Reaches (·.capacity = memory.capacity)
      (fun final => ∃ cells',
        Stores final (table.steal keys key).2.2 cells')
      memory (.start (.steal key))
        (.call (table.steal keys key).1 (table.steal keys key).2.1) := by
  rw [steal_eq_stolen]
  exact reaches_start_unlinking hstores hlength (.inr ⟨key, rfl⟩) rfl

theorem reaches_remove (hstores : Stores memory table cells)
    (hlength : 0 < table.length) (key : Key) :
    (locked keys allocator).Reaches (·.capacity = memory.capacity)
      (fun final => ∃ cells',
        Stores final (table.remove keys key).2 cells')
      memory (.start (.remove key))
        (.call (table.remove keys key).1 none) := by
  rw [remove_eq_steal, steal_eq_stolen]
  exact reaches_start_unlinking hstores hlength (.inl ⟨key, rfl⟩) rfl

/-! ## `add` to a table that need not grow -/

/-- What the loop of `add` makes of a bucket. -/
def assigned (keys : KeyOps Key) (hash : BitVec 32) (key : Key) (val : Value)
    (bucket : Bucket Key Value) : Bucket Key Value :=
  if isBucket keys hash key bucket then { bucket with val := val } else bucket

/-- The loop of `add` gives every bucket that matches the value. -/
theorem reaches_scanning {key : Key} {val : Value} {index : ℕ} {found : Bool}
    {count : ℕ} (hcount : memory.capacity = count)
    (hstores : Stores memory table cells)
    (hcells : cells index = front ++ rest)
    (hsegment : Segment memory.read none bucket rest)
    (hdone : ∀ memory' cells', memory'.capacity = count →
      Stores memory'
        { table with
          table := Function.update table.table index
            (front.map Prod.snd ++
              (rest.map Prod.snd).map (assigned keys hash key val)) } cells' →
      (locked keys allocator).Reaches (·.capacity = count) Post memory'
        (.scanning key val hash index
          (found || (rest.map Prod.snd).any (isBucket keys hash key)) none)
          answer) :
    (locked keys allocator).Reaches (·.capacity = count) Post memory
      (.scanning key val hash index found bucket) answer := by
  induction rest generalizing memory table cells front bucket found with
  | nil =>
      obtain rfl : bucket = none := hsegment
      have hsame : Function.update table.table index
          (front.map Prod.snd) = table.table := by
        rw [List.append_nil] at hcells
        rw [← hcells, hstores.table_eq, Function.update_eq_self]
      have hend := hdone memory cells hcount
      rw [List.map_nil, List.map_nil, List.append_nil, hsame, List.any_nil,
        Bool.or_false] at hend
      exact hend hstores
  | cons cell rest ih =>
      obtain ⟨addr, old⟩ := cell
      obtain ⟨rfl, next, hread, hrest⟩ := hsegment
      obtain ⟨-, hlater, -⟩ := hstores.forest.mem_split hcells
      by_cases hmatch : isBucket keys hash key old = true
      · have hbody : (locked keys allocator).body memory
            (.scanning key val hash index found (some addr)) =
              some (memory.write addr ⟨{ old with val := val }, next⟩,
                .running (.scanning key val hash index true next)) := by
          simp only [locked, body, hread, Option.map_some, hmatch, if_true]
        refine LockedObject.Reaches.step hbody hcount ?_
        have hstored := hstores.store hcells hread { old with val := val }
        have hpassed : Function.update cells index
            (front ++ (addr, { old with val := val }) :: rest) index =
              (front ++ [(addr, { old with val := val })]) ++ rest := by
          rw [Function.update_self, List.append_assoc, List.singleton_append]
        refine ih hcount hstored hpassed ?_ ?_
        · apply hrest.frame
          intro other hother
          rw [Memory.read_write, Function.update_of_ne]
          rintro rfl
          exact hlater hother
        · intro memory' cells' hcount' hstores'
          have hend := hdone memory' cells' hcount'
          simp only [List.map_cons, List.any_cons, hmatch, Bool.true_or,
            Bool.or_true, assigned, if_true] at hend
          simp only [Function.update_idem, List.map_append, List.map_cons,
            List.map_nil, List.append_assoc, List.singleton_append] at hstores'
          rw [Bool.true_or]
          exact hend hstores'
      · rw [Bool.not_eq_true] at hmatch
        have hbody : (locked keys allocator).body memory
            (.scanning key val hash index found (some addr)) =
              some (memory,
                .running (.scanning key val hash index found next)) := by
          simp only [locked, body, hread, Option.map_some, hmatch,
            Bool.false_eq_true, if_false]
        refine LockedObject.Reaches.step hbody hcount ?_
        have hpassed : cells index = (front ++ [(addr, old)]) ++ rest := by
          rw [hcells, List.append_assoc, List.singleton_append]
        refine ih hcount hstores hpassed hrest ?_
        intro memory' cells' hcount' hstores'
        have hend := hdone memory' cells' hcount'
        simp only [List.map_cons, List.any_cons, hmatch, Bool.false_or,
          assigned, Bool.false_eq_true, if_false] at hend
        simp only [List.map_append, List.map_cons, List.map_nil,
          List.append_assoc, List.singleton_append] at hstores'
        exact hend hstores'

/-- A new bucket in front of a chain. -/
theorem Stores.push (hstores : Stores memory table cells) (index : ℕ)
    {addr : ℕ} (hfresh : memory.read addr = none)
    (pushed : Bucket Key Value) :
    Stores
      { memory.write addr ⟨pushed, memory.table index⟩ with
        table := Function.update memory.table index (some addr)
        capacity := memory.capacity + 1 }
      { table with
        table := Function.update table.table index
          (pushed :: table.table index)
        capacity := table.capacity + 1 }
      (Function.update cells index ((addr, pushed) :: cells index)) where
  forest := by
    have hpush := hstores.forest.push index pushed hfresh
    rw [← Memory.read_write] at hpush
    exact hpush
  table_eq := by
    intro other
    rw [map_update hstores.table_eq, List.map_cons, hstores.table_eq]
  capacity_eq := congrArg (· + 1) hstores.capacity_eq
  length_eq := hstores.length_eq

/-- `new Bucket(hash, key, val, table[index]); capacity++`. -/
theorem reaches_linking (hstores : Stores memory table cells) {key : Key}
    {val : Value} {index : ℕ} (hindex : index < table.length) {count : ℕ}
    (hcount : memory.capacity = count) :
    (locked keys allocator).Reaches (·.capacity = count)
      (fun final => ∃ cells', Stores final
        { table with
          table := Function.update table.table index
            (⟨hash, key, val⟩ :: table.table index)
          capacity := table.capacity + 1 } cells')
      memory (.linking key val hash index) (.call false none) := by
  rw [← hstores.length_eq] at hindex
  have hbody : (locked keys allocator).body memory
      (.linking key val hash index) =
        some ({ memory.write (allocator.malloc memory.heap.keys)
            ⟨⟨hash, key, val⟩, memory.table index⟩ with
          table := Function.update memory.table index
            (some (allocator.malloc memory.heap.keys)) },
          .running .counting) := by
    simp only [locked, body, Memory.entry_eq hindex, Option.bind_some,
      Memory.setEntry_write hindex, Option.map_some]
  have hpush := hstores.push index (memory.read_malloc allocator)
    ⟨hash, key, val⟩
  exact LockedObject.Reaches.step hbody hcount
    (LockedObject.Reaches.done rfl ⟨_, hpush⟩)

/-- `add` after the table had its chance to expand. -/
theorem reaches_hashing (hstores : Stores memory table cells)
    (hlength : 0 < table.length) (key : Key) (val : Value) {count : ℕ}
    (hcount : memory.capacity = count) :
    (locked keys allocator).Reaches (·.capacity = count)
      (fun final => ∃ cells',
        Stores final (table.insert keys key val).2 cells')
      memory (.hashing key val)
        (.call (table.insert keys key val).1 none) := by
  have hindex := getPlace_lt hlength (hashOf keys key)
  have hindex' : getPlace table.length (hashOf keys key) < memory.length := by
    rw [hstores.length_eq]
    exact hindex
  have hbody : (locked keys allocator).body memory (.hashing key val) =
      some (memory, .running (.scanning key val (hashOf keys key)
        (getPlace table.length (hashOf keys key)) false
        (memory.table (getPlace table.length (hashOf keys key))))) := by
    have hentry := Memory.entry_eq hindex'
    rw [← hstores.length_eq] at hentry ⊢
    simp only [locked, body, hentry, Option.map_some]
  have hcells : cells (getPlace table.length (hashOf keys key)) =
      [] ++ cells (getPlace table.length (hashOf keys key)) := rfl
  refine LockedObject.Reaches.step hbody hcount ?_
  refine reaches_scanning hcount hstores hcells (hstores.forest.linked _) ?_
  intro memory' cells' hcount' hstores'
  rw [hstores.table_eq, List.map_nil, List.nil_append] at hstores'
  rw [hstores.table_eq, Bool.false_or]
  by_cases hfound : (table.table (getPlace table.length (hashOf keys key))).any
      (isBucket keys (hashOf keys key) key) = true
  · have hinsert : table.insert keys key val = (true, { table with
        table := Function.update table.table
          (getPlace table.length (hashOf keys key))
          ((table.table (getPlace table.length (hashOf keys key))).map
            (assigned keys (hashOf keys key) key val)) }) := by
      simp only [insert, hfound, Bool.not_true, Bool.false_eq_true, if_false]
      rfl
    rw [hinsert, hfound]
    refine LockedObject.Reaches.done ?_ ⟨cells', hstores'⟩
    simp only [locked, body, if_true]
  · rw [Bool.not_eq_true] at hfound
    have hinsert : table.insert keys key val = (false, { table with
        table := Function.update table.table
          (getPlace table.length (hashOf keys key))
          (⟨hashOf keys key, key, val⟩ ::
            (table.table (getPlace table.length (hashOf keys key))).map
              (assigned keys (hashOf keys key) key val))
        capacity := table.capacity + 1 }) := by
      simp only [insert, hfound, Bool.not_false, if_true]
      rfl
    rw [hinsert, hfound]
    have hnone : (locked keys allocator).body memory'
        (.scanning key val (hashOf keys key)
          (getPlace table.length (hashOf keys key)) false none) =
            some (memory', .running (.linking key val (hashOf keys key)
              (getPlace table.length (hashOf keys key)))) := by
      simp only [locked, body, Bool.false_eq_true, if_false]
    refine LockedObject.Reaches.step hnone hcount' ?_
    have hlinking : (locked keys allocator).Reaches (·.capacity = count) _
        memory' (.linking key val (hashOf keys key) _) _ :=
      reaches_linking hstores' hindex hcount'
    simp only [Function.update_self, Function.update_idem] at hlinking
    exact hlinking

end Walks

end Sensor.TsHashTable
