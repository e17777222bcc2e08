import Sensor.Queue.IntMpscInvariant

/-!
# The intrusive queue is a first-in first-out queue

The order of the `tail.exchange` steps is the order of the queue: whatever the
interleaving, `pop` returns the nodes in that order, and once it has returned
a node no thread still inside `push` reads or writes it.
-/

namespace Sensor.IntMpscQueue

open TransitionSystem

variable {Node Producer : Type*} [DecidableEq Node] [DecidableEq Producer]
variable {state next final : State Node Producer}
variable {labels : List (Label Node Producer)} {node : Node}

/-- The node whose `next` field the next step of a thread inside `push` writes.
The exchange touches `tail` only. -/
def PushPc.touches : PushPc Node → Option (NodePtr Node)
  | .clearNext next => some next
  | .exchange _ => none
  | .linkPrev _ prev => some prev

omit [DecidableEq Producer] in
/-- A node the queue does not use is not touched by any producer. -/
theorem Invariant.not_touched {chain : List (NodePtr Node)}
    (hinv : Invariant state chain) (hfree : state.inUse node = false)
    {thread : Producer} {pc : PushPc Node}
    (hthread : state.producer thread = some pc) :
    pc.touches ≠ some (.client node) := by
  intro htouch
  have hused : state.inUse node = true := by
    cases pc with
    | clearNext next =>
        obtain ⟨own, hnode, hused⟩ := hinv.producer_node thread _ hthread
        have heq : NodePtr.client node = NodePtr.client own :=
          (Option.some.inj htouch).symm.trans hnode
        cases heq
        exact hused
    | exchange next => cases htouch
    | linkPrev next prev =>
        cases htouch
        apply hinv.chain_inUse
        exact (hinv.linked.gap _ next (.inl ⟨thread, hthread⟩)).1.left_mem
  rw [hfree] at hused
  cases hused

omit [DecidableEq Producer] in
/-- The node `pop` returns belongs to the client again. -/
theorem inUse_of_returned (hstep : consumerStep state = some next)
    (hreturned : next.returned = state.returned ++ [.client node]) :
    next.inUse node = false := by
  obtain ⟨pc, -, rfl⟩ := Option.map_eq_some_iff.mp hstep
  cases hpop : popStep state.memory pc with
  | mk memory result =>
      simp only [hpop] at hreturned ⊢
      cases result with
      | running pc' => simp at hreturned
      | done pointer =>
          have hpointer : pointer = some (.client node) := by
            have hlist := List.append_cancel_left hreturned
            cases pointer <;> simp_all
          simp [hpointer, release]

omit [DecidableEq Producer] in
theorem release_of_free {inUse : Node → Bool}
    {pointer : Option (NodePtr Node)} (hfree : inUse node = false) :
    release inUse pointer node = false := by
  rcases pointer with _ | _ | other
  · exact hfree
  · exact hfree
  · by_cases heq : node = other
    · simp [release, heq]
    · simpa [release, heq] using hfree

/-- A node becomes used only by a call of `push` on it. -/
theorem inUse_step {label : Label Node Producer}
    (hlabel : ∀ thread, label ≠ .callPush thread node)
    (hfree : state.inUse node = false)
    (hstep : step state label = some next) : next.inUse node = false := by
  cases label with
  | callPush thread other =>
      simp only [step, callPush] at hstep
      split at hstep
      case isFalse => cases hstep
      case isTrue =>
      cases hstep
      have hne : node ≠ other := by
        rintro rfl
        exact hlabel thread rfl
      simpa [hne] using hfree
  | push thread =>
      obtain ⟨pc, -, rfl⟩ := Option.map_eq_some_iff.mp hstep
      exact hfree
  | callPop =>
      simp only [step, callPop] at hstep
      split at hstep <;> cases hstep
      exact hfree
  | pop =>
      obtain ⟨pc, -, rfl⟩ := Option.map_eq_some_iff.mp hstep
      cases hpop : popStep state.memory pc with
      | mk memory result =>
          cases result with
          | running pc' => exact hfree
          | done pointer => exact release_of_free hfree


/-! ## The main result -/

/-- In every reachable state `pop` has returned a prefix of the nodes in the
order of their exchanges, never the stub; and after it returned `node`, no
thread inside `push` touches that node until a client pushes it again. -/
theorem pop_returns_in_order (hreach : (system Node Producer).Reachable state) :
    state.returned <+: state.pushed ∧ .stub ∉ state.returned ∧
      ∀ node next final labels,
        consumerStep state = some next →
        next.returned = state.returned ++ [.client node] →
        (system Node Producer).Run next labels final →
        (∀ thread, .callPush thread node ∉ labels) →
        ∀ thread pc, final.producer thread = some pc →
          pc.touches ≠ some (.client node) := by
  obtain ⟨chain, hinv⟩ := reachable_invariant hreach
  refine ⟨⟨_, hinv.fifo.symm⟩, hinv.returned_client, ?_⟩
  intro node next final labels hstep hreturned hrun hlabels thread pc hthread
  have hpop : (system Node Producer).Step state .pop next := hstep
  obtain ⟨finalChain, hfinal⟩ :=
    reachable_invariant ((hreach.step hpop).run hrun)
  apply hfinal.not_touched _ hthread
  apply hrun.preserves (fun label => ∀ thread, label ≠ .callPush thread node)
    (fun state => state.inUse node = false)
  · exact fun _ _ _ hlabel hfree hstep => inUse_step hlabel hfree hstep
  · rintro label hmem thread rfl
    exact hlabels thread hmem
  · exact inUse_of_returned hstep hreturned

/-- One producer pushes node 7 and the consumer pops it, putting the stub back
on the way. -/
def oneNodeRun : List (Label ℕ ℕ) :=
  .callPush 0 7 :: List.replicate 3 (.push 0) ++
    .callPop :: List.replicate 9 .pop

theorem pop_returns_in_order_one_node : ∃ state next : State ℕ ℕ,
    consumerStep state = some next ∧ next.returned = [.client 7] ∧
      state.returned <+: state.pushed ∧
      ∀ thread pc, next.producer thread = some pc →
        pc.touches ≠ some (.client 7) := by
  let start : State ℕ ℕ := .initial fun _ => none
  let state := (execute step start oneNodeRun).get rfl
  have hexecute : execute step start oneNodeRun = some state := rfl
  have hreach : (system ℕ ℕ).Reachable state :=
    reachable_of_execute ⟨_, rfl⟩ hexecute
  obtain ⟨horder, -, htouch⟩ := pop_returns_in_order hreach
  refine ⟨state, (consumerStep state).get rfl, rfl, rfl, horder, ?_⟩
  exact htouch 7 _ _ [] rfl rfl (.nil _) (by simp)

end Sensor.IntMpscQueue
