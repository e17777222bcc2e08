import Sensor.Queue.MessageQueue

/-!
# What the message queue delivers

`IntMpscPipe::send` pops instead of pushing, so whatever the threads do the
queue holds nothing but its stub: every `pop` returns `nullptr`, the worker
never leaves `recv`, and the promise of exactly one delivery holds only while
no call has been completed.
-/

namespace Sensor.MessageQueue

open IntMpscQueue Eventcount TransitionSystem

variable {Node Sender Command : Type*}

/-! ## What the queue promises -/

/-- The messages in the queue that no `pop` has returned yet. -/
def State.available (state : State Node Sender Command) : ℕ :=
  state.enqueued.length - state.popped.length

variable [DecidableEq Node]

/-- Every call enqueues its node exactly once, the worker executes and deletes
the messages in the order of the queue, and it returns at the first null
message, having executed what was enqueued before it.  When no call is in
progress and none was a `nullmsg`, the messages available are those sent and
not received. -/
structure State.DeliversExactlyOnce (state : State Node Sender Command) :
    Prop where
  enqueued_once : ∀ node,
    state.completed.count node ≤ (state.enqueued.map Prod.fst).count node ∧
      (state.enqueued.map Prod.fst).count node ≤
        (state.called.map Prod.fst).count node
  executed_order : state.executed.map some <+: state.enqueued.map Prod.snd
  deleted_order : state.deleted <+: state.enqueued.map (.client ·.1)
  deleted_once : state.deleted.length = state.executed.length +
    (if state.worker = .returned then 1 else 0)
  returned_at_null : state.worker = .returned →
    ∃ before null after, state.enqueued = before ++ null :: after ∧
      null.2 = none ∧ before.map Prod.snd = state.executed.map some
  available_eq : (∀ sender, state.sender sender = none) →
    (∀ message ∈ state.called, message.2 ≠ none) →
      state.available = state.completed.length - state.received.length

/-! ## The queue stays empty -/

/-- A place inside `pop` that a thread reaches on the empty queue. -/
def EmptyPop (pc : PopPc Node) : Prop :=
  pc = .loadHead ∨ pc = .loadNext .stub

omit [DecidableEq Node] in
theorem recordExchange_empty (self : NodePtr Node → Option Command)
    (enqueued : List (Message Node Command)) {pc : PopPc Node}
    (hpc : EmptyPop pc) : recordExchange self enqueued pc = enqueued := by
  rcases hpc with rfl | rfl <;> rfl

/-- Nothing but the stub was ever in the queue. -/
structure State.Empty (state : State Node Sender Command) : Prop where
  head : state.memory.head = .stub
  next : state.memory.next .stub = none
  sender_pop : ∀ sender call pc, state.sender sender = some call →
    call.pc = .pop pc → EmptyPop pc
  worker_recv : ∃ pc, state.worker = .recv pc ∧
    ∀ popPc, pc = .poll popPc ∨ pc = .recheck popPc → EmptyPop popPc
  worker_wait : ∀ node, state.worker ≠ .recv (.cancelWait node)
  enqueued : state.enqueued = []
  popped : state.popped = []
  received : state.received = []
  executed : state.executed = []
  deleted : state.deleted = []

/-- On the empty queue `pop` reads `head` and the stub's link and returns
`nullptr`. -/
theorem popStep_empty {memory : Memory Node} (hhead : memory.head = .stub)
    (hnext : memory.next .stub = none) {pc : PopPc Node} (hpc : EmptyPop pc) :
    popStep memory pc = (memory, .running (.loadNext .stub)) ∨
      popStep memory pc = (memory, .done none) := by
  rcases hpc with rfl | rfl
  · left
    simp [popStep, hhead]
  · right
    simp [popStep, hnext]

variable {state next : State Node Sender Command}

theorem State.Empty.initial (heap : NodePtr Node → Option (NodePtr Node))
    (self : NodePtr Node → Option Command) :
    (State.initial heap self : State Node Sender Command).Empty where
  head := rfl
  next := by simp [State.initial, Memory.new]
  sender_pop := by simp [State.initial]
  worker_recv := ⟨_, rfl, by
    rintro popPc (heq | heq) <;> cases heq
    exact .inl rfl⟩
  worker_wait := by simp [State.initial]
  enqueued := rfl
  popped := rfl
  received := rfl
  executed := rfl
  deleted := rfl

variable [DecidableEq Sender]

theorem State.Empty.call (hempty : state.Empty) {sender : Sender} {node : Node}
    {command : Option Command}
    (hstep : callSend state sender node command = some next) : next.Empty := by
  simp only [callSend] at hstep
  split at hstep
  case isFalse => cases hstep
  case isTrue =>
  cases hstep
  exact { hempty with
    sender_pop := fun other call pc hcall hpc => by
      rcases update_eq_some_iff.mp hcall with ⟨-, hvalue⟩ | ⟨-, hother⟩
      · cases hvalue
        cases hpc
        exact .inl rfl
      · exact hempty.sender_pop other call pc hother hpc }

omit [DecidableEq Node] in
/-- Replacing the call a thread is in, by one that is not inside `pop` at
another place than the empty queue allows. -/
theorem State.Empty.setSender (hempty : state.Empty) (sender : Sender)
    (eventcount : Eventcount) (completed : List Node)
    (call : Option (Call Node))
    (hcall : ∀ value pc, call = some value → value.pc = .pop pc → EmptyPop pc) :
    State.Empty { state with
      eventcount, completed
      sender := Function.update state.sender sender call } :=
  { hempty with
    sender_pop := fun other value pc hvalue hpc => by
      rcases update_eq_some_iff.mp hvalue with ⟨-, hnew⟩ | ⟨-, hold⟩
      · exact hcall value pc hnew hpc
      · exact hempty.sender_pop other value pc hold hpc }

theorem State.Empty.send (hempty : state.Empty) {sender : Sender}
    (hstep : senderStep state sender = some next) : next.Empty := by
  obtain ⟨⟨node, place⟩, hcall, rfl⟩ := Option.map_eq_some_iff.mp hstep
  cases place with
  | pop pc =>
      have hpc := hempty.sender_pop sender _ pc hcall rfl
      have hrecord := recordExchange_empty state.self state.enqueued hpc
      rcases popStep_empty hempty.head hempty.next hpc with hpop | hpop
      all_goals
        simp only [hpop, hrecord, recordPop]
        apply hempty.setSender
        rintro value pc' ⟨⟩ hplace
        cases hplace
      exact .inr rfl
  | notify pc =>
      cases pc with
      | loadWaiting =>
          cases hwaiting : state.eventcount.waiting with
          | true =>
              simp only [notifyStep, hwaiting]
              apply hempty.setSender
              rintro value pc ⟨⟩ ⟨⟩
          | false =>
              simp only [notifyStep, hwaiting]
              exact hempty.setSender _ _ _ none (by simp)
      | clearWaiting =>
          apply hempty.setSender
          rintro value pc ⟨⟩ ⟨⟩
      | post => exact hempty.setSender _ _ _ none (by simp)

omit [DecidableEq Node] [DecidableEq Sender] in
/-- The worker moves inside `recv` to a place the empty queue allows. -/
theorem State.Empty.recv (hempty : state.Empty) (eventcount : Eventcount)
    (pc : OutPc (PopPc Node) (NodePtr Node))
    (hplace : ∀ popPc, pc = .poll popPc ∨ pc = .recheck popPc → EmptyPop popPc)
    (hwait : ∀ node, pc ≠ .cancelWait node) :
    State.Empty { state with eventcount, worker := .recv pc } :=
  { hempty with
    worker_recv := ⟨pc, rfl, hplace⟩
    worker_wait := by simpa using hwait }

/-- On the empty queue the loop of `recv` never gets a node. -/
theorem outStep_empty {memory memory' : Memory Node}
    (hhead : memory.head = .stub) (hnext : memory.next .stub = none)
    {eventcount eventcount' : Eventcount}
    {pc : OutPc (PopPc Node) (NodePtr Node)}
    {result : StepResult (OutPc (PopPc Node) (NodePtr Node)) (NodePtr Node)}
    (hplace : ∀ popPc, pc = .poll popPc ∨ pc = .recheck popPc → EmptyPop popPc)
    (hwait : ∀ node, pc ≠ .cancelWait node)
    (hout : outStep popStep .loadHead memory eventcount pc =
      some (memory', eventcount', result)) :
    memory' = memory ∧ ∃ after, result = .running after ∧
      (∀ popPc, after = .poll popPc ∨ after = .recheck popPc →
        EmptyPop popPc) ∧ ∀ node, after ≠ .cancelWait node := by
  cases pc with
  | poll popPc =>
      rcases popStep_empty hhead hnext (hplace popPc (.inl rfl)) with hpop | hpop
      all_goals
        simp only [outStep, hpop, Option.some.injEq, Prod.mk.injEq] at hout
        obtain ⟨rfl, -, rfl⟩ := hout
        refine ⟨rfl, _, rfl, ?_, by simp⟩
        rintro other (heq | heq) <;> cases heq
      exact .inr rfl
  | prepareWait =>
      simp only [outStep, Option.some.injEq, Prod.mk.injEq] at hout
      obtain ⟨rfl, -, rfl⟩ := hout
      refine ⟨rfl, _, rfl, ?_, by simp⟩
      rintro other (heq | heq) <;> cases heq
      exact .inl rfl
  | recheck popPc =>
      rcases popStep_empty hhead hnext (hplace popPc (.inr rfl)) with hpop | hpop
      all_goals
        simp only [outStep, hpop, Option.some.injEq, Prod.mk.injEq] at hout
        obtain ⟨rfl, -, rfl⟩ := hout
        refine ⟨rfl, _, rfl, ?_, by simp⟩
        rintro other (heq | heq) <;> cases heq
      exact .inr rfl
  | cancelWait node => exact absurd rfl (hwait node)
  | commitWait =>
      simp only [outStep, Option.map_eq_some_iff, Prod.mk.injEq] at hout
      obtain ⟨after, -, rfl, -, rfl⟩ := hout
      refine ⟨rfl, _, rfl, ?_, by simp⟩
      rintro other (heq | heq) <;> cases heq
      exact .inl rfl

omit [DecidableEq Sender] in
/-- The call of `pop` inside `recv` neither enqueues nor returns a node. -/
theorem State.Empty.recordOut_eq (hempty : state.Empty)
    {pc : OutPc (PopPc Node) (NodePtr Node)}
    (hplace : ∀ popPc, pc = .poll popPc ∨ pc = .recheck popPc →
      EmptyPop popPc) : recordOut state pc = state := by
  have hrecord : ∀ popPc, EmptyPop popPc →
      { state with
        enqueued := recordExchange state.self state.enqueued popPc
        popped := recordPop state.popped (popStep state.memory popPc).2 } =
          state := by
    intro popPc hpc
    rw [recordExchange_empty state.self state.enqueued hpc]
    rcases popStep_empty hempty.head hempty.next hpc with hpop | hpop
    · rw [hpop]
      rfl
    · rw [hpop]
      rfl
  cases pc with
  | poll popPc => exact hrecord popPc (hplace popPc (.inl rfl))
  | recheck popPc => exact hrecord popPc (hplace popPc (.inr rfl))
  | _ => rfl

omit [DecidableEq Sender] in
theorem State.Empty.work (hempty : state.Empty)
    (hstep : workerStep state = some next) : next.Empty := by
  obtain ⟨pc, hworker, hplace⟩ := hempty.worker_recv
  have hwait : ∀ node, pc ≠ .cancelWait node := by
    rintro node rfl
    exact hempty.worker_wait node hworker
  simp only [workerStep, hworker, Option.map_eq_some_iff] at hstep
  obtain ⟨⟨memory, eventcount, result⟩, hout, rfl⟩ := hstep
  obtain ⟨rfl, after, rfl, hafter, hafterWait⟩ :=
    outStep_empty hempty.head hempty.next hplace hwait hout
  simp only [hempty.recordOut_eq hplace]
  exact hempty.recv eventcount after hafter hafterWait

theorem reachable_empty
    (hreach : (system Node Sender Command).Reachable state) : state.Empty := by
  apply hreach.invariant
  · rintro start ⟨heap, self, rfl⟩
    exact State.Empty.initial heap self
  · intro start label final hempty hstep
    cases label with
    | call sender node command => exact hempty.call hstep
    | send sender => exact hempty.send hstep
    | work => exact hempty.work hstep

/-! ## The main result -/

/-- In every reachable state the promise holds exactly when no call has been
completed. -/
theorem deliversExactlyOnce_iff
    (hreach : (system Node Sender Command).Reachable state) :
    state.DeliversExactlyOnce ↔ state.completed = [] := by
  have hempty := reachable_empty hreach
  constructor
  · intro hdelivers
    rw [List.eq_nil_iff_forall_not_mem]
    intro node hnode
    have hcount := (hdelivers.enqueued_once node).1
    rw [hempty.enqueued] at hcount
    have hpositive := List.count_pos_iff.mpr hnode
    simp only [List.map_nil, List.count_nil] at hcount
    omega
  · intro hcompleted
    obtain ⟨pc, hworker, -⟩ := hempty.worker_recv
    exact {
      enqueued_once := by simp [hcompleted, hempty.enqueued]
      executed_order := by simp [hempty.executed]
      deleted_order := by simp [hempty.deleted]
      deleted_once := by simp [hempty.deleted, hempty.executed, hworker]
      returned_at_null := by simp [hworker]
      available_eq := by
        simp [State.available, hcompleted, hempty.enqueued] }

/-- One thread calls `send` and the call runs to its end. -/
def oneSendRun : List (Label ℕ ℕ ℕ) :=
  .call 0 7 (some 1) :: List.replicate 3 (.send 0)

theorem deliversExactlyOnce_iff_oneSend : ∃ state : State ℕ ℕ ℕ,
    (system ℕ ℕ ℕ).Reachable state ∧ state.completed = [7] ∧
      (state.DeliversExactlyOnce ↔ state.completed = []) := by
  let start : State ℕ ℕ ℕ := .initial (fun _ => none) fun _ => none
  let state := (execute step start oneSendRun).get rfl
  have hexecute : execute step start oneSendRun = some state := rfl
  have hreach : (system ℕ ℕ ℕ).Reachable state :=
    reachable_of_execute ⟨_, _, rfl⟩ hexecute
  exact ⟨state, hreach, rfl, deliversExactlyOnce_iff hreach⟩

/-- The completed call left its node out of the queue. -/
theorem not_deliversExactlyOnce : ¬ ∀ state : State ℕ ℕ ℕ,
    (system ℕ ℕ ℕ).Reachable state → state.DeliversExactlyOnce := by
  intro hdelivers
  let start : State ℕ ℕ ℕ := .initial (fun _ => none) fun _ => none
  let state := (execute step start oneSendRun).get rfl
  have hexecute : execute step start oneSendRun = some state := rfl
  have hcount := ((hdelivers state
    (reachable_of_execute ⟨_, _, rfl⟩ hexecute)).enqueued_once 7).1
  have hnone : ¬ state.completed.count 7 ≤
      (state.enqueued.map Prod.fst).count 7 := by decide
  exact hnone hcount

end Sensor.MessageQueue
