import Sensor.Queue.IntMpscInvariant

/-!
# When `pop` gives up

`pop` returns `nullptr` at three places.  It does so with a node in the queue
only if during that call some producer was between its `tail.exchange` and the
store of `prev->next`; in a state without such a producer, a call that nobody
interferes with returns the oldest node, or `nullptr` if there is none.
-/

namespace Sensor.IntMpscQueue

open TransitionSystem

variable {Node Producer : Type*}

/-- Some producer is between its exchange and its link. -/
def Cut (state : State Node Producer) : Prop :=
  ∃ producer next prev, state.producer producer = some (.linkPrev next prev)

/-- What the consumer knows inside `pop` if the list was whole since its call:
behind the load that found no next node, `h` is the tail. -/
def PopPc.Whole (memory : Memory Node) : PopPc Node → Prop
  | .loadTail h => memory.tail = h
  | .pushStub h (.clearNext _) => memory.tail = h
  | .pushStub h (.exchange _) => memory.tail = h
  | .pushStub h (.linkPrev _ prev) => prev = h
  | .lastNext h => memory.next h ≠ none
  | _ => True

/-- The places of `pop` are passed in descending order. -/
def PopPc.rank : PopPc Node → ℕ
  | .loadHead => 9
  | .loadNext _ => 8
  | .skipStub _ => 7
  | .reloadNext _ => 6
  | .loadTail _ => 5
  | .pushStub _ (.clearNext _) => 4
  | .pushStub _ (.exchange _) => 3
  | .pushStub _ (.linkPrev _ _) => 2
  | .lastNext _ => 1
  | .takeHead _ _ => 0

variable [DecidableEq Node]

/-- The next step of the consumer returns `result` from `pop`. -/
def Returns (state : State Node Producer) (result : Option (NodePtr Node)) :
    Prop :=
  ∃ pc, state.consumer = some pc ∧ (popStep state.memory pc).2 = .done result

/-- The state is reached in a call of `pop` during which no producer was between
its exchange and its link so far. -/
structure WholePop (state : State Node Producer) : Prop where
  invariant : ∃ chain, Invariant state chain
  whole : ∀ pc, state.consumer = some pc → pc.Whole state.memory

/-! ## The three places -/

section Places

variable {memory : Memory Node} {pc : PopPc Node}

omit [DecidableEq Node] in
theorem takeOr_eq_done {h : NodePtr Node} {n : Option (NodePtr Node)}
    {otherwise : PopResult Node} {result : Option (NodePtr Node)}
    (htake : takeOr h n otherwise = .done result) :
    n = none ∧ otherwise = .done result := by
  cases n with
  | none => exact ⟨rfl, htake⟩
  | some n => cases htake

/-- `pop` returns `nullptr` at a stub without a next node, at an `h` that is not
the tail, and at an `h` that has no next node after the stub was pushed. -/
theorem popStep_done_none (hpop : (popStep memory pc).2 = .done none) :
    (pc = .loadNext .stub ∧ memory.next .stub = none) ∨
      (∃ h, pc = .loadTail h ∧ memory.tail ≠ h) ∨
      ∃ h, pc = .lastNext h ∧ memory.next h = none := by
  cases pc with
  | loadHead => cases hpop
  | loadNext h =>
      simp only [popStep] at hpop
      split at hpop
      case isTrue hstub =>
        subst hstub
        split at hpop
        case h_1 hnext => exact .inl ⟨rfl, hnext⟩
        case h_2 => cases hpop
      case isFalse => cases (takeOr_eq_done hpop).2
  | skipStub n => cases hpop
  | reloadNext h => cases (takeOr_eq_done hpop).2
  | takeHead h n => cases hpop
  | loadTail h =>
      simp only [popStep] at hpop
      split at hpop
      case isTrue htail => exact .inr (.inl ⟨h, rfl, htail⟩)
      case isFalse => cases hpop
  | pushStub h push =>
      cases push with
      | clearNext node => cases hpop
      | exchange node => cases hpop
      | linkPrev node prev => cases hpop
  | lastNext h => exact .inr (.inr ⟨h, rfl, (takeOr_eq_done hpop).1⟩)

end Places

/-! ## A call of `pop` in a whole list -/

variable {state next last : State Node Producer} {chain : List (NodePtr Node)}

/-- In a whole list a node without a next one is the last. -/
theorem Invariant.chain_eq_singleton (hinv : Invariant state chain)
    (hcut : ¬ Cut state)
    (hlink : ∀ h next prev,
      state.consumer ≠ some (.pushStub h (.linkPrev next prev)))
    (hnext : state.memory.next state.memory.head = none) :
    chain = [state.memory.head] := by
  obtain ⟨rest, hchain⟩ := hinv.chain_eq
  cases rest with
  | nil => exact hchain
  | cons second rest =>
      have hadj : Adjacent chain state.memory.head second := by
        rw [hchain, Adjacent.cons_iff]
        exact .inl ⟨rfl, rfl⟩
      rcases hinv.linked.linked _ _ hadj with hsome | ⟨-, hgap⟩
      · rw [hnext] at hsome
        cases hsome
      · rcases hgap with ⟨thread, hthread⟩ | ⟨h, hstub⟩
        · exact absurd ⟨thread, second, _, hthread⟩ hcut
        · exact absurd hstub (hlink _ _ _)

theorem Invariant.tail_eq_head (hinv : Invariant state chain)
    (hcut : ¬ Cut state)
    (hlink : ∀ h next prev,
      state.consumer ≠ some (.pushStub h (.linkPrev next prev)))
    (hnext : state.memory.next state.memory.head = none) :
    state.memory.tail = state.memory.head := by
  have htail := hinv.tail
  rw [hinv.chain_eq_singleton hcut hlink hnext] at htail
  exact (Option.some.inj htail).symm

/-- `n = h->next; if (n) ...` at the head of a whole list. -/
theorem Invariant.takeOr_whole (hinv : Invariant state chain)
    (hcut : ¬ Cut state)
    (hlink : ∀ h next prev,
      state.consumer ≠ some (.pushStub h (.linkPrev next prev)))
    {pc : PopPc Node}
    (htake : takeOr state.memory.head (state.memory.next state.memory.head)
      (.running (.loadTail state.memory.head)) = .running pc) :
    pc.Whole state.memory := by
  cases hnext : state.memory.next state.memory.head with
  | none =>
      rw [hnext] at htake
      cases htake
      exact hinv.tail_eq_head hcut hlink hnext
  | some n =>
      rw [hnext] at htake
      cases htake
      trivial

/-- A step of `pop` in a whole list keeps what the consumer knows. -/
theorem Invariant.popStep_whole (hinv : Invariant state chain)
    (hcut : ¬ Cut state) {pc pc' : PopPc Node}
    (hpc : state.consumer = some pc) (hwhole : pc.Whole state.memory)
    (hpop : (popStep state.memory pc).2 = .running pc') :
    pc'.Whole (popStep state.memory pc).1 := by
  have hvalid := hinv.consumer_valid pc hpc
  cases pc with
  | loadHead =>
      cases hpop
      trivial
  | loadNext h =>
      obtain rfl : h = state.memory.head := hvalid
      simp only [popStep] at hpop ⊢
      split at hpop
      case isTrue hstub =>
        split at hpop
        · cases hpop
        · cases hpop
          trivial
      case isFalse hstub =>
        rw [if_neg hstub]
        exact hinv.takeOr_whole hcut (by simp [hpc]) hpop
  | skipStub n =>
      cases hpop
      trivial
  | reloadNext h =>
      obtain ⟨rfl, -⟩ := hvalid
      exact hinv.takeOr_whole hcut (by simp [hpc]) hpop
  | takeHead h n => cases hpop
  | loadTail h =>
      simp only [popStep] at hpop ⊢
      split at hpop
      case isTrue => cases hpop
      case isFalse htail =>
        cases hpop
        rw [if_neg htail]
        exact hwhole
  | pushStub h push =>
      cases push with
      | clearNext node =>
          cases hpop
          exact hwhole
      | exchange node =>
          cases hpop
          exact hwhole
      | linkPrev node prev =>
          cases hpop
          obtain rfl : prev = h := hwhole
          simp [popStep, IntMpscQueue.pushStep, PopPc.Whole]
  | lastNext h =>
      simp only [popStep] at hpop
      cases hnext : state.memory.next h with
      | none => exact absurd hnext hwhole
      | some n =>
          rw [hnext] at hpop
          cases hpop
          trivial

/-- In a whole list `pop` gives up only if every node was returned. -/
theorem Invariant.returned_eq_pushed (hinv : Invariant state chain)
    (hcut : ¬ Cut state)
    (hwhole : ∀ pc, state.consumer = some pc → pc.Whole state.memory)
    (hreturns : Returns state none) : state.returned = state.pushed := by
  obtain ⟨pc, hpc, hpop⟩ := hreturns
  have hvalid := hinv.consumer_valid pc hpc
  have hpcWhole := hwhole pc hpc
  rcases popStep_done_none hpop with ⟨rfl, hnext⟩ | ⟨h, rfl, htail⟩ |
    ⟨h, rfl, hnext⟩
  · have hstub : NodePtr.stub = state.memory.head := hvalid
    have hsingle := hinv.chain_eq_singleton hcut (by simp [hpc])
      (hstub ▸ hnext)
    rw [hinv.fifo, hsingle, ← hstub]
    simp
  · exact absurd hpcWhole htail
  · exact absurd hnext hpcWhole

/-! ## Steps between states whose list is whole -/

section Steps

variable [DecidableEq Producer]

/-- Between two whole lists a producer only clears the `next` field of a node
outside the list. -/
theorem WholePop.producerStep (hpop : WholePop state) (hcut : ¬ Cut state)
    (hcut' : ¬ Cut next) {thread : Producer}
    (hstep : IntMpscQueue.step state (.push thread) = some next) :
    WholePop next := by
  obtain ⟨chain, hinv⟩ := hpop.invariant
  refine ⟨Invariant.step ⟨chain, hinv⟩ hstep, ?_⟩
  obtain ⟨push, hthread, rfl⟩ := Option.map_eq_some_iff.mp hstep
  intro pc hpc
  have hwhole := hpop.whole pc hpc
  have hvalid := hinv.consumer_valid pc hpc
  cases push with
  | exchange node =>
      refine absurd ⟨thread, node, state.memory.tail, ?_⟩ hcut'
      simp [pushStep]
  | linkPrev node prev => exact absurd ⟨thread, node, prev, hthread⟩ hcut
  | clearNext node =>
      cases pc with
      | lastNext h =>
          have hne : node ≠ h := by
            rintro rfl
            apply hinv.producer_valid thread _ hthread
            rw [hvalid.1]
            exact hinv.head_mem
          simpa [pushStep, PopPc.Whole, hne.symm] using hwhole
      | pushStub h push => cases push <;> exact hwhole
      | _ => exact hwhole

theorem WholePop.consumerStep (hpop : WholePop state) (hcut : ¬ Cut state)
    (hstep : IntMpscQueue.step state .pop = some next) : WholePop next := by
  obtain ⟨chain, hinv⟩ := hpop.invariant
  refine ⟨Invariant.step ⟨chain, hinv⟩ hstep, ?_⟩
  rcases consumerStep_cases hstep with ⟨pc, memory, pc', hpc, hresult, rfl⟩ |
    ⟨pc, memory, result, hpc, hresult, rfl⟩
  · rintro other ⟨⟩
    have hrunning : (popStep state.memory pc).2 = .running pc' := by
      rw [hresult]
    have hwhole := hinv.popStep_whole hcut hpc (hpop.whole pc hpc) hrunning
    rwa [hresult] at hwhole
  · rintro other ⟨⟩

theorem WholePop.step (hpop : WholePop state) (hcut : ¬ Cut state)
    (hcut' : ¬ Cut next) {label : Label Node Producer}
    (hstep : IntMpscQueue.step state label = some next) : WholePop next := by
  cases label with
  | callPush thread node =>
      refine ⟨Invariant.step hpop.invariant hstep, ?_⟩
      simp only [IntMpscQueue.step, callPush] at hstep
      split at hstep <;> cases hstep
      exact hpop.whole
  | push thread => exact hpop.producerStep hcut hcut' hstep
  | callPop =>
      refine ⟨Invariant.step hpop.invariant hstep, ?_⟩
      simp only [IntMpscQueue.step, callPop] at hstep
      split at hstep <;> cases hstep
      rintro pc ⟨⟩
      trivial
  | pop => exact hpop.consumerStep hcut hstep

/-! ## A call nobody interferes with -/

omit [DecidableEq Node] in
theorem rank_of_takeOr {h : NodePtr Node} {n : Option (NodePtr Node)}
    {otherwise : PopResult Node} {pc : PopPc Node}
    (htake : takeOr h n otherwise = .running pc) :
    pc.rank = 0 ∨ otherwise = .running pc := by
  cases n with
  | none => exact .inr htake
  | some n =>
      cases htake
      exact .inl rfl

theorem rank_lt {memory : Memory Node} {pc pc' : PopPc Node}
    (hpop : (popStep memory pc).2 = .running pc') : pc'.rank < pc.rank := by
  cases pc with
  | loadHead =>
      cases hpop
      simp [PopPc.rank]
  | loadNext h =>
      simp only [popStep] at hpop
      split at hpop
      · split at hpop
        · cases hpop
        · cases hpop
          simp [PopPc.rank]
      · rcases rank_of_takeOr hpop with hrank | hother
        · rw [hrank]
          simp [PopPc.rank]
        · cases hother
          simp [PopPc.rank]
  | skipStub n =>
      cases hpop
      simp [PopPc.rank]
  | reloadNext h =>
      rcases rank_of_takeOr hpop with hrank | hother
      · rw [hrank]
        simp [PopPc.rank]
      · cases hother
        simp [PopPc.rank]
  | takeHead h n => cases hpop
  | loadTail h =>
      simp only [popStep] at hpop
      split at hpop
      · cases hpop
      · cases hpop
        simp [PopPc.rank]
  | pushStub h push => cases push <;> cases hpop <;> simp [PopPc.rank]
  | lastNext h =>
      rcases rank_of_takeOr hpop with hrank | hother
      · rw [hrank]
        simp [PopPc.rank]
      · cases hother

/-- In a whole list the consumer, left alone, returns from `pop`, and it gives up
only if every node was returned. -/
theorem WholePop.execute (hpop : WholePop state) (hcut : ¬ Cut state)
    {pc : PopPc Node} (hpc : state.consumer = some pc) :
    ∃ steps final result,
      TransitionSystem.execute IntMpscQueue.step state
        (List.replicate steps .pop) = some final ∧
      (∃ chain, Invariant final chain) ∧ final.consumer = none ∧
      final.pushed = state.pushed ∧
      final.returned = state.returned ++ result.toList ∧
      (result = none → state.returned = state.pushed) := by
  induction hrank : pc.rank using Nat.strong_induction_on
    generalizing state pc with
  | _ rank ih =>
    obtain ⟨next, hstep⟩ : ∃ next,
        IntMpscQueue.step state .pop = some next :=
      ⟨_, congrArg (Option.map _) hpc⟩
    have hnext := hpop.consumerStep hcut hstep
    rcases consumerStep_cases hstep with
      ⟨from_, memory, pc', hfrom, hresult, rfl⟩ |
      ⟨from_, memory, result, hfrom, hresult, rfl⟩
    · obtain rfl : pc = from_ := Option.some.inj (hpc.symm.trans hfrom)
      obtain ⟨steps, final, result, hexecute, hfinal⟩ :=
        ih _ (hrank ▸ rank_lt (congrArg Prod.snd hresult)) hnext hcut rfl rfl
      refine ⟨steps + 1, final, result, ?_, hfinal⟩
      rw [List.replicate_succ, TransitionSystem.execute, hstep,
        Option.bind_some]
      exact hexecute
    · refine ⟨1, _, result, ?_, hnext.invariant, rfl, rfl, rfl, ?_⟩
      · rw [List.replicate_one, TransitionSystem.execute, hstep]
        rfl
      · rintro rfl
        obtain ⟨chain, hinv⟩ := hpop.invariant
        exact hinv.returned_eq_pushed hcut hpop.whole
          ⟨from_, hfrom, congrArg Prod.snd hresult⟩

/-! ## The main result -/

theorem WholePop.of_callPop (hreach : (system Node Producer).Reachable state)
    (hcall : IntMpscQueue.step state .callPop = some next) : WholePop next := by
  refine ⟨Invariant.step (reachable_invariant hreach) hcall, ?_⟩
  simp only [IntMpscQueue.step, callPop] at hcall
  split at hcall <;> cases hcall
  rintro pc ⟨⟩
  trivial

/-- In a state whose list is whole, a call of `pop` that nobody interferes with
returns: `nullptr` exactly if every node pushed was returned, and the oldest
other one otherwise. -/
theorem exists_pop_alone (hreach : (system Node Producer).Reachable state)
    (hidle : state.consumer = none) (hcut : ¬ Cut state) :
    ∃ steps final result,
      execute step state (.callPop :: List.replicate steps .pop) =
        some final ∧
      final.consumer = none ∧
      final.returned = state.returned ++ result.toList ∧
      (result = none ↔ state.returned = state.pushed) ∧
      ∀ node, result = some node → state.returned ++ [node] <+: state.pushed := by
  have hcall : step state .callPop =
      some { state with consumer := some .loadHead } := if_pos hidle
  obtain ⟨steps, final, result, hexecute, ⟨chain, hinv⟩, hreturn, hpushed,
    hreturned, hnone⟩ := (WholePop.of_callPop hreach hcall).execute hcut rfl
  have hprefix : state.returned ++ result.toList <+: state.pushed :=
    ⟨_, by rw [← hreturned, ← hpushed]; exact hinv.fifo.symm⟩
  refine ⟨steps, final, result, ?_, hreturn, hreturned, ⟨hnone, ?_⟩, ?_⟩
  · rw [execute, hcall]
    exact hexecute
  · intro hall
    have hlength := hprefix.length_le
    rw [hall, List.length_append] at hlength
    cases result with
    | none => rfl
    | some node =>
        rw [Option.toList_some, List.length_singleton] at hlength
        omega
  · rintro node rfl
    exact hprefix

/-- `pop` gives up only when it must.  A call that nobody interferes with, in a
state whose list is whole, gives up only on an empty queue and otherwise returns
the oldest node; and a call that gives up on a queue with a node in it passed
through a state in which some producer was between its exchange and its
link. -/
theorem pop_gives_up_only_when_cut
    (hreach : (system Node Producer).Reachable state) :
    (state.consumer = none → ¬ Cut state → ∃ steps final result,
      execute step state (.callPop :: List.replicate steps .pop) =
        some final ∧
      final.consumer = none ∧
      final.returned = state.returned ++ result.toList ∧
      (result = none ↔ state.returned = state.pushed) ∧
      ∀ node, result = some node →
        state.returned ++ [node] <+: state.pushed) ∧
    ∀ start labels last, step state .callPop = some start →
      (system Node Producer).Run start labels last →
      .callPop ∉ labels → Returns last none → last.returned ≠ last.pushed →
      ∃ first second middle, labels = first ++ second ∧
        (system Node Producer).Run start first middle ∧
          (system Node Producer).Run middle second last ∧ Cut middle := by
  refine ⟨exists_pop_alone hreach, ?_⟩
  intro start labels last hcall hrun _ hreturns hne
  have hstart := WholePop.of_callPop hreach hcall
  rcases hrun.preserves_or_leaves (fun state => ¬ Cut state) WholePop
    (fun _ _ _ hcut hcut' hpop hstep => hpop.step hcut hcut' hstep) hstart with
    ⟨hcut, hlast⟩ | ⟨first, second, middle, hlabels, hbefore, hafter, hcut⟩
  · obtain ⟨chain, hinv⟩ := hlast.invariant
    exact absurd (hinv.returned_eq_pushed hcut hlast.whole hreturns) hne
  · exact ⟨first, second, middle, hlabels, hbefore, hafter, not_not.mp hcut⟩

end Steps

/-- One producer pushed node 7 but for its last step: a pop gives up.  After
that step a pop returns the node. -/
theorem pop_gives_up_only_when_cut_lastStep :
    ∃ cut whole : State ℕ ℕ, step cut (.push 0) = some whole ∧
      (∃ labels first middle, first <+: labels ∧
        (system ℕ ℕ).Run { cut with consumer := some .loadHead } first middle ∧
          Cut middle) ∧
      ∃ steps final, execute step whole
          (.callPop :: List.replicate steps .pop) = some final ∧
        final.returned ≠ [] := by
  let start : State ℕ ℕ := .initial fun _ => none
  let cut := (execute step start [.callPush 0 7, .push 0, .push 0]).get rfl
  let called : State ℕ ℕ := { cut with consumer := some .loadHead }
  let last := (execute step called [.pop]).get rfl
  let whole := (execute step start
    [.callPush 0 7, .push 0, .push 0, .push 0]).get rfl
  have hexecute : execute step start [.callPush 0 7, .push 0, .push 0] =
      some cut := rfl
  have hcut : (system ℕ ℕ).Reachable cut :=
    reachable_of_execute ⟨_, rfl⟩ hexecute
  have hpush : (system ℕ ℕ).Step cut (.push 0) whole := rfl
  have hwhole : (system ℕ ℕ).Reachable whole := hcut.step hpush
  refine ⟨cut, whole, rfl, ?_, ?_⟩
  · have hrun : (system ℕ ℕ).Run called [.pop] last := run_of_execute rfl
    obtain ⟨first, second, middle, hlabels, hbefore, -, hmiddle⟩ :=
      (pop_gives_up_only_when_cut hcut).2 called [.pop] last rfl hrun (by simp)
        ⟨_, rfl, rfl⟩ (by decide)
    exact ⟨[.pop], first, middle, ⟨second, hlabels.symm⟩, hbefore, hmiddle⟩
  · have hnone : ¬ Cut whole := by
      rintro ⟨producer, next, prev, hproducer⟩
      by_cases heq : producer = 0 <;>
        simp [whole, start, execute, step, callPush, producerStep, State.initial,
          pushStep, heq] at hproducer
    obtain ⟨steps, final, result, hexecute, -, hreturned, hresult, -⟩ :=
      (pop_gives_up_only_when_cut hwhole).1 rfl hnone
    refine ⟨steps, final, hexecute, ?_⟩
    rw [hreturned]
    cases result with
    | none => exact absurd (hresult.mp rfl) (by decide)
    | some node => simp

end Sensor.IntMpscQueue
