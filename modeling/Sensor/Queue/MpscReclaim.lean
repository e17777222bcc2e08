import Sensor.Queue.MpscInvariant

/-!
# The allocating queue is first-in first-out and reclaims its nodes safely

`pop` deletes the old dummy while slower producers may still hold pointers
taken from the tail.  None of them is the old dummy: a producer's `prev` is in
the chain, and the dummy left the chain when its link was found.  What is left
at the end the destructor deletes, clearing exactly the values nobody popped.
-/

namespace Sensor.MpscQueue

open TransitionSystem

variable {Addr Data Producer : Type*} [DecidableEq Addr]
variable {state : State Addr Data Producer} {chain : List Addr}

theorem Invariant.producer_access (hinv : Invariant state chain)
    {thread : Producer} {pc : PushPc Addr Data} {node : Addr}
    (hthread : state.producer thread = some pc)
    (haccess : pc.accesses = some node) : state.memory.live node = true := by
  have hlive := hinv.producer_live thread pc hthread
  cases pc with
  | linkPrev next prev =>
      cases haccess
      apply hinv.chain_live
      exact (hinv.linked.gap _ next ⟨thread, _, hthread, rfl⟩).1.left_mem
  | exchange next => cases haccess
  | _ =>
      cases haccess
      exact hlive

theorem Invariant.consumer_access (hinv : Invariant state chain)
    {pc : PopPc Addr Data} {node : Addr} (hpc : state.consumer = some pc)
    (haccess : pc.accesses = some node) : state.memory.live node = true := by
  have hvalid := hinv.consumer_valid pc hpc
  have hhead := hinv.chain_live _ hinv.head_mem
  cases pc with
  | loadNext h =>
      cases haccess
      have hnode : node = state.memory.head := hvalid
      exact hnode ▸ hhead
  | readData h next =>
      cases haccess
      have hnode : node = state.memory.head := hvalid
      exact hnode ▸ hhead
  | deleteHead h data =>
      cases haccess
      exact (hinv.detached _ _ hpc rfl).2.1
  | _ => cases haccess

/-! ## The destructor -/

/-- A chain all of whose links are stored: each node leads to the next, and
the last one to nothing. -/
def Closed (next : Addr → Option Addr) : List Addr → Prop
  | [] => True
  | node :: rest => next node = rest.head? ∧ Closed next rest

omit [DecidableEq Addr] in
theorem LinkedChain.closed {next : Addr → Option Addr}
    {pending : Addr → Addr → Prop} {chain : List Addr}
    (hchain : LinkedChain next pending chain)
    (hpending : ∀ left right, ¬ pending left right) : Closed next chain := by
  induction chain with
  | nil => trivial
  | cons node rest ih =>
      cases hrest : rest.head? with
      | none =>
          have hnil : rest = [] := List.head?_eq_none_iff.mp hrest
          subst hnil
          exact ⟨hchain.last_open node rfl, trivial⟩
      | some second =>
          have hadj : Adjacent (node :: rest) node second :=
            Adjacent.cons_iff.mpr (.inl ⟨rfl, hrest⟩)
          have hnext : next node = some second := by
            rcases hchain.linked _ _ hadj with hlink | ⟨-, hgap⟩
            · exact hlink
            · exact absurd hgap (hpending _ _)
          exact ⟨hnext.trans hrest.symm, ih (hchain.advance hnext)⟩

/-- The loop of the destructor walks a closed chain to its end, deleting its
nodes and clearing their values. -/
theorem destroyLoop_closed {chain : List Addr} (done : Destroyed Addr Data)
    (fuel : ℕ) (hclosed : Closed done.memory.next chain)
    (hfuel : chain.length ≤ fuel) :
    ∃ final, destroyLoop fuel chain.head? done = some final ∧
      final.deleted = done.deleted ++ chain ∧
      final.cleared = done.cleared ++ chain.map done.memory.data ∧
      ∀ node, final.memory.live node =
        (done.memory.live node && decide (node ∉ chain)) := by
  induction chain generalizing done fuel with
  | nil =>
      refine ⟨done, ?_, by simp, by simp, by simp⟩
      cases fuel <;> rfl
  | cons node rest ih =>
      obtain ⟨fuel, rfl⟩ : ∃ less, fuel = less + 1 :=
        Nat.exists_eq_succ_of_ne_zero (by
          rintro rfl
          simp at hfuel)
      obtain ⟨hnext, hrest⟩ := hclosed
      obtain ⟨final, hfinal, hdeleted, hcleared, hlive⟩ := ih
        { memory := done.memory.delete node
          deleted := done.deleted ++ [node]
          cleared := done.cleared ++ [done.memory.data node] }
        fuel hrest (by simpa using hfuel)
      refine ⟨final, ?_, ?_, ?_, ?_⟩
      · rw [List.head?_cons, destroyLoop, hnext]
        exact hfinal
      · simpa using hdeleted
      · simpa [Memory.delete] using hcleared
      · intro other
        rw [hlive other]
        by_cases heq : other = node
        · simp [Memory.delete, heq]
        · simp [Memory.delete, heq]

/-- With no call in progress the live nodes are those of the chain. -/
theorem Invariant.mem_chain_iff (hinv : Invariant state chain)
    (hproducer : ∀ thread, state.producer thread = none)
    (hconsumer : state.consumer = none) (node : Addr) :
    node ∈ chain ↔ state.memory.live node = true := by
  refine ⟨hinv.chain_live node, fun hnode => ?_⟩
  rcases hinv.live_owned node hnode with hmem | ⟨thread, pc, hpc, -⟩ |
    ⟨pc, hpc, -⟩
  · exact hmem
  · rw [hproducer thread] at hpc
    cases hpc
  · rw [hconsumer] at hpc
    cases hpc

/-- With no call in progress the destructor deletes the whole chain and clears
the values behind the dummy. -/
theorem Invariant.destroy (hinv : Invariant state chain)
    (hproducer : ∀ thread, state.producer thread = none)
    (hconsumer : state.consumer = none) {fuel : ℕ}
    (hfuel : chain.length ≤ fuel) :
    ∃ done, destroy fuel state.memory = some done ∧ done.deleted = chain ∧
      (∀ node, done.memory.live node = false) ∧
        state.pushed = state.popped ++ done.cleared := by
  have hclosed := LinkedChain.closed hinv.linked (by
    rintro left right ⟨thread, pc, hthread, -⟩
    rw [hproducer thread] at hthread
    cases hthread)
  obtain ⟨rest, hchain⟩ := hinv.chain_eq
  rw [hchain] at hclosed hfuel
  obtain ⟨hnext, hrest⟩ := hclosed
  obtain ⟨done, hdone, hdeleted, hcleared, hlive⟩ := destroyLoop_closed
    { memory := state.memory.delete state.memory.head
      deleted := [state.memory.head]
      cleared := [] } fuel hrest (by
        rw [List.length_cons] at hfuel
        omega)
  refine ⟨done, ?_, ?_, ?_, ?_⟩
  · rw [MpscQueue.destroy, hnext]
    exact hdone
  · rw [hdeleted, hchain]
    rfl
  · intro node
    rw [hlive node]
    by_cases hnode : state.memory.live node = true
    · have hmem := (hinv.mem_chain_iff hproducer hconsumer node).mpr hnode
      rw [hchain] at hmem
      rcases List.mem_cons.mp hmem with heq | hmem
      · simp [Memory.delete, heq]
      · simp [hmem]
    · by_cases heq : node = state.memory.head
      · simp [Memory.delete, heq]
      · simp [Memory.delete, heq, hnode]
  · have hfifo := hinv.fifo
    rw [hconsumer] at hfifo
    rw [hfifo, hcleared, hchain]
    simp [held, stored, Memory.delete]

/-! ## The main result -/

/-- In every reachable state the popped values are a prefix of the pushed ones,
no node was deleted more often than allocated, and no thread is about to touch
a node that was deleted.  With no call in progress the destructor deletes every
remaining node once and clears exactly the values pushed and not popped. -/
theorem fifo_and_reclaimed [Inhabited Data] [DecidableEq Producer]
    (hreach : (system Addr Data Producer).Reachable state) :
    state.popped <+: state.pushed ∧
      (∀ node, state.deleted.count node ≤ state.allocated.count node) ∧
      (∀ thread pc node, state.producer thread = some pc →
        pc.accesses = some node → state.memory.live node = true) ∧
      (∀ pc node, state.consumer = some pc → pc.accesses = some node →
        state.memory.live node = true) ∧
      ((∀ thread, state.producer thread = none) → state.consumer = none →
        ∃ size, ∀ fuel, size ≤ fuel → ∃ done,
          destroy fuel state.memory = some done ∧ done.deleted.Nodup ∧
            (∀ node, node ∈ done.deleted ↔ state.memory.live node = true) ∧
            (∀ node, (state.deleted ++ done.deleted).count node =
              state.allocated.count node) ∧
            (∀ node, done.memory.live node = false) ∧
            state.pushed = state.popped ++ done.cleared) := by
  obtain ⟨chain, hinv⟩ := reachable_invariant hreach
  refine ⟨⟨held state.memory state.consumer ++ stored state.memory chain, ?_⟩,
    ?_, ?_, ?_, ?_⟩
  · rw [← List.append_assoc]
    exact hinv.fifo.symm
  · intro node
    rw [hinv.balance node]
    omega
  · exact fun thread pc node hpc haccess => hinv.producer_access hpc haccess
  · exact fun pc node hpc haccess => hinv.consumer_access hpc haccess
  · intro hproducer hconsumer
    refine ⟨chain.length, fun fuel hfuel => ?_⟩
    obtain ⟨done, hdone, hdeleted, hlive, hcleared⟩ :=
      hinv.destroy hproducer hconsumer hfuel
    have hmem := hinv.mem_chain_iff hproducer hconsumer
    refine ⟨done, hdone, ?_, ?_, ?_, hlive, hcleared⟩
    · rw [hdeleted]
      exact hinv.linked.nodup
    · rw [hdeleted]
      exact hmem
    · intro node
      rw [List.count_append, hinv.balance node, hdeleted,
        hinv.linked.nodup.count]
      simp only [hmem node]

/-- A producer pushes 5 and 6 in turn, the consumer pops 5. -/
def pushPushPop : List (Label ℕ ℕ ℕ) :=
  .callPush 0 1 5 :: List.replicate 4 (.push 0) ++
    .callPush 0 2 6 :: List.replicate 4 (.push 0) ++
    .callPop :: List.replicate 5 .pop

theorem fifo_and_reclaimed_pushPushPop : ∃ state : State ℕ ℕ ℕ,
    (system ℕ ℕ ℕ).Reachable state ∧ state.pushed = [5, 6] ∧
      state.popped = [5] ∧ state.popped <+: state.pushed ∧
      (∀ node, state.deleted.count node ≤ state.allocated.count node) := by
  let start : State ℕ ℕ ℕ := .initial 0 (fun _ => none) fun _ => 0
  let state := (execute step start pushPushPop).get rfl
  have hexecute : execute step start pushPushPop = some state := rfl
  have hreach : (system ℕ ℕ ℕ).Reachable state :=
    reachable_of_execute ⟨_, _, _, rfl⟩ hexecute
  obtain ⟨horder, hcount, -⟩ := fifo_and_reclaimed hreach
  exact ⟨state, hreach, rfl, rfl, horder, hcount⟩

end Sensor.MpscQueue
