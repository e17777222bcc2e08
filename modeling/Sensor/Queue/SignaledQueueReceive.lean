import Sensor.Queue.IntMpscPop
import Sensor.Queue.SignaledQueueCounter

/-!
# What `receive` waits for

In every run, with null messages, with a counter that is full and with one that
no `int` holds, the messages `receive` still has to take and the ones counted
are in the queue.  Its inner loop calls `pop` again only because a producer is
between its exchange and its link.
-/

namespace Sensor.SignaledQueue

open AsyncQueue IntMpscQueue TransitionSystem

variable {Node Sender Command : Type*} [DecidableEq Node]

/-- The places of a thread in one of the three functions and in `push`. -/
def Within : Option (SenderPc Command) → Option (PushPc Node) → Prop
  | none, none => True
  | some (.push _), some _ => True
  | some .signal, none => True
  | _, _ => False

/-- The messages in the queue cover what is counted, owed by a thread and going
to be taken. -/
structure Covers (state : State Node Sender Command)
    (owing : Finset Sender) : Prop where
  mem_owing : ∀ sender, sender ∈ owing ↔ state.owes sender = true
  within : ∀ sender,
    Within (state.sender sender) (state.queue.producer sender)
  round : ∀ i times, state.receiver = some (.pop i times) → i < times
  account : state.queue.returned.length + state.counter +
    remaining state.receiver + owing.card ≤ state.queue.pushed.length

variable {state next : State Node Sender Command} {owing : Finset Sender}

theorem Covers.initial (heap : NodePtr Node → Option (NodePtr Node))
    (self : NodePtr Node → Option Command) :
    Covers (State.initial heap self : State Node Sender Command) ∅ where
  mem_owing := fun _ => by
    simp [State.owes, owes, State.initial, IntMpscQueue.State.initial]
  within := fun _ => trivial
  round := by simp [State.initial]
  account := by
    simp [State.initial, IntMpscQueue.State.initial, remaining]

/-! ## The threads that enqueue -/

section Senders

variable [DecidableEq Sender]

omit [DecidableEq Node] in
/-- A step of one thread: what it comes to owe it pushes, and what it counts it
owed. -/
theorem Covers.moveSender (hinv : Covers state owing) (sender : Sender)
    (hother : ∀ other, other ≠ sender →
      next.sender other = state.sender other ∧
        next.queue.producer other = state.queue.producer other)
    (hwithin : Within (next.sender sender) (next.queue.producer sender))
    (hreceiver : next.receiver = state.receiver)
    (hreturned : next.queue.returned = state.queue.returned)
    (haccount : state.queue.pushed.length + next.counter +
        (next.owes sender).toNat ≤
      next.queue.pushed.length + state.counter + (state.owes sender).toNat) :
    ∃ owing', Covers next owing' := by
  obtain ⟨owing', hmem, hplace, hcard⟩ :=
    exists_owing hinv.mem_owing hinv.within sender hother hwithin
  refine ⟨owing', hmem, hplace, ?_, ?_⟩
  · rw [hreceiver]
    exact hinv.round
  · rw [hreceiver, hreturned]
    have hbefore := hinv.account
    simp only [State.owes] at haccount
    omega

theorem Covers.call (hinv : Covers state owing) {sender : Sender}
    {node : Node} {command : Option Command}
    (hstep : callSend state sender node command = some next) :
    ∃ owing', Covers next owing' := by
  obtain ⟨hidle, hpush⟩ := Option.ite_none_right_eq_some.mp hstep
  obtain ⟨queue, hcall, rfl⟩ := Option.map_eq_some_iff.mp hpush
  obtain ⟨hfree, ⟨⟩⟩ := Option.ite_none_right_eq_some.mp hcall
  refine hinv.moveSender sender (fun other hne => ?_) ?_ rfl rfl ?_
  · simp [hne]
  · simp [Within]
  · simp [State.owes, owes, hidle.1, hfree.1]

/-- A thread inside `push`: behind the store a message that is not counted is no
longer owed. -/
theorem Covers.push (hinv : Covers state owing) {sender : Sender}
    {command : Option Command}
    (hplace : state.sender sender = some (.push command))
    (hpush : producerStep state.queue sender = some next.queue)
    (hnext : next = { state with
      queue := next.queue
      sender := match next.queue.producer sender with
        | some _ => state.sender
        | none => Function.update state.sender sender (afterPush command) }) :
    ∃ owing', Covers next owing' := by
  obtain ⟨pc, hpc, hqueue⟩ := Option.map_eq_some_iff.mp hpush
  rw [hnext, ← hqueue]
  simp only [Function.update_self]
  refine hinv.moveSender sender (fun other hne => ?_) ?_ rfl rfl ?_
  · cases pc <;> simp [hne, pushStep]
  · cases pc <;> cases command <;>
      simp [Within, hplace, pushStep, afterPush]
  · cases pc <;> cases command <;>
      simp [State.owes, owes, hplace, hpc, pushStep, recordPush, afterPush,
        Nat.add_right_comm]

theorem Covers.send (hinv : Covers state owing) {sender : Sender}
    (hstep : senderStep state sender = some next) :
    ∃ owing', Covers next owing' := by
  rcases senderStep_cases hstep with ⟨command, hplace, hpush, hnext⟩ |
    ⟨hplace, rfl⟩
  · exact hinv.push hplace hpush hnext
  · have hproducer : state.queue.producer sender = none := by
      have hwithin := hinv.within sender
      rw [hplace] at hwithin
      cases hproducer : state.queue.producer sender with
      | none => rfl
      | some pc =>
          rw [hproducer] at hwithin
          exact hwithin.elim
    rw [signal]
    split
    · refine hinv.moveSender sender (fun other hne => ?_) ?_ rfl rfl ?_
      · simp [hne]
      · simp [Within, hproducer]
      · simp [State.owes, owes, hplace, hproducer, Nat.add_assoc]
    · refine hinv.moveSender sender (fun other hne => ?_) ?_ rfl rfl ?_
      · simp [hne]
      · simp [Within, hproducer]
      · simp [State.owes, owes, hplace, hproducer]

end Senders

/-! ## The consumer -/

omit [DecidableEq Node] in
/-- A step of the consumer leaves the threads that enqueue alone. -/
theorem Covers.moveReceiver (hinv : Covers state owing)
    (hsender : next.sender = state.sender)
    (hproducer : next.queue.producer = state.queue.producer)
    (hpushed : next.queue.pushed = state.queue.pushed)
    (hround : ∀ i times, next.receiver = some (.pop i times) → i < times)
    (haccount : next.queue.returned.length + next.counter +
        remaining next.receiver ≤
      state.queue.returned.length + state.counter +
        remaining state.receiver) : Covers next owing where
  mem_owing := fun sender => by
    rw [hinv.mem_owing, State.owes, State.owes, hsender, hproducer]
  within := fun sender => by
    rw [hsender, hproducer]
    exact hinv.within sender
  round := hround
  account := by
    rw [hpushed]
    exact (Nat.add_le_add_right haccount _).trans hinv.account

omit [DecidableEq Node] in
/-- `receive` takes over at most what the counter says. -/
theorem Covers.callReceive (hinv : Covers state owing)
    (hstep : callReceive state = some next) : Covers next owing := by
  obtain ⟨-, heq⟩ := Option.ite_none_right_eq_some.mp hstep
  obtain ⟨receiver, results, rfl, hremaining, hround⟩ :=
    loopTest_eq (Option.some.inj heq)
  refine hinv.moveReceiver rfl rfl rfl hround ?_
  have htimes := SizeT.toInt_le state.counter
  simp only [hremaining]
  omega

theorem Covers.receive (hinv : Covers state owing)
    (hstep : receiverStep state = some next) : Covers next owing := by
  have htakes := takes_of_receiverStep hinv.round hstep
  refine hinv.moveReceiver htakes.sender htakes.producer htakes.pushed
    htakes.round ?_
  have htaken := htakes.taken
  rw [htakes.counter]
  omega

/-! ## The main result -/

variable [DecidableEq Sender]

theorem Covers.step (hinv : Covers state owing)
    {label : Label Node Sender Command}
    (hstep : step state label = some next) :
    ∃ owing', Covers next owing' := by
  cases label with
  | call sender node command => exact hinv.call hstep
  | send sender => exact hinv.send hstep
  | callReceive => exact ⟨owing, hinv.callReceive hstep⟩
  | receive => exact ⟨owing, hinv.receive hstep⟩

theorem reachable_covers
    (hreach : (system Node Sender Command).Reachable state) :
    ∃ owing, Covers state owing := by
  apply hreach.invariant
  · rintro start ⟨heap, self, rfl⟩
    exact ⟨∅, Covers.initial heap self⟩
  · rintro start label final ⟨owing, hinv⟩ hstep
    exact hinv.step hstep

/-- In a round of `receive` there is a message that was not popped. -/
theorem returned_ne_pushed {i times : ℤ}
    (hreach : (system Node Sender Command).Reachable state)
    (hplace : state.receiver = some (.pop i times)) :
    state.queue.returned ≠ state.queue.pushed := by
  obtain ⟨owing, hinv⟩ := reachable_covers hreach
  have hround := hinv.round i times hplace
  have haccount := hinv.account
  rw [hplace, remaining] at haccount
  intro hall
  rw [hall] at haccount
  omega

/-- Steps of the queue with the counter between whole lists keep what a `pop`
in it knows. -/
theorem wholePop_of_step {label : Label Node Sender Command}
    (hpop : WholePop state.queue) (hcut : ¬ Cut state.queue)
    (hcut' : ¬ Cut next.queue) (hstep : step state label = some next) :
    WholePop next.queue := by
  rcases queue_of_step hstep with hsame | ⟨label', hqueue⟩
  · rwa [hsame]
  · exact hpop.step hcut hcut' hqueue

/-- A call of `pop` in the inner loop of `receive`. -/
theorem wholePop_of_call {i times : ℤ}
    (hreach : (system Node Sender Command).Reachable state)
    (hplace : state.receiver = some (.pop i times))
    (hidle : state.queue.consumer = none)
    (hstep : receiverStep state = some next) : WholePop next.queue := by
  simp only [receiverStep, hplace, hidle] at hstep
  obtain ⟨queue, hcall, rfl⟩ := Option.map_eq_some_iff.mp hstep
  exact WholePop.of_callPop (reachable_queue hreach) hcall

/-- In every run the messages `receive` still has to take and the ones the
counter shows are at most the messages in the queue; and where a call of `pop`
in a round of `receive` gives up, some producer was between its exchange and its
link since that call. -/
theorem receive_waits_for_pushed
    (hreach : (system Node Sender Command).Reachable state) :
    (∃ waiting, state.queue.pushed = state.queue.returned ++ waiting ∧
      remaining state.receiver + state.counter ≤ waiting.length) ∧
    ∀ i times start labels last j bound,
      state.receiver = some (.pop i times) → state.queue.consumer = none →
      receiverStep state = some start →
      (system Node Sender Command).Run start labels last →
      last.receiver = some (.pop j bound) → Returns last.queue none →
      ∃ first second middle, labels = first ++ second ∧
        (system Node Sender Command).Run start first middle ∧
          (system Node Sender Command).Run middle second last ∧
            Cut middle.queue := by
  constructor
  · obtain ⟨chain, hqueue⟩ :=
      IntMpscQueue.reachable_invariant (reachable_queue hreach)
    obtain ⟨owing, hinv⟩ := reachable_covers hreach
    refine ⟨_, hqueue.fifo, ?_⟩
    have haccount := hinv.account
    rw [hqueue.fifo, List.length_append] at haccount
    omega
  · intro i times start labels last j bound hplace hidle hcall hrun hlast
      hreturns
    have hlastReach : (system Node Sender Command).Reachable last :=
      (hreach.step (show step state .receive = some start from hcall)).run hrun
    have hstart := wholePop_of_call hreach hplace hidle hcall
    rcases hrun.preserves_or_leaves (fun state => ¬ Cut state.queue)
      (fun state => WholePop state.queue)
      (fun _ _ _ hcut hcut' hpop hstep => wholePop_of_step hpop hcut hcut' hstep)
      hstart with
      ⟨hcut, hwhole⟩ | ⟨first, second, middle, hlabels, hbefore, hafter, hcut⟩
    · obtain ⟨chain, hinv⟩ := hwhole.invariant
      exact absurd (hinv.returned_eq_pushed hcut hwhole.whole hreturns)
        (returned_ne_pushed hlastReach hlast)
    · exact ⟨first, second, middle, hlabels, hbefore, hafter, not_not.mp hcut⟩

/-- One thread is between its exchange and its link when another has pushed and
counted its message, and `receive` is called. -/
def sendBehindGap : List (Label ℕ ℕ ℕ) :=
  [.call 1 8 (some 1), .send 1, .send 1, .call 0 7 (some 2), .send 0, .send 0,
    .send 0, .send 0, .callReceive]

theorem receive_waits_for_pushed_behindGap : ∃ state start : State ℕ ℕ ℕ,
    state.receiver = some (.pop 0 1) ∧
      (∃ waiting, state.queue.pushed = state.queue.returned ++ waiting ∧
        remaining state.receiver + state.counter ≤ waiting.length) ∧
      ∃ first middle, first <+: [.receive] ∧
        (system ℕ ℕ ℕ).Run start first middle ∧ Cut middle.queue := by
  let initial : State ℕ ℕ ℕ := .initial (fun _ => none) fun _ => none
  let state := (execute step initial sendBehindGap).get rfl
  let start := (execute step state [.receive]).get rfl
  let last := (execute step start [.receive]).get rfl
  have hexecute : execute step initial sendBehindGap = some state := rfl
  have hreach : (system ℕ ℕ ℕ).Reachable state :=
    reachable_of_execute ⟨_, _, rfl⟩ hexecute
  have hrun : (system ℕ ℕ ℕ).Run start [.receive] last := run_of_execute rfl
  have hplace : state.receiver = some (.pop 0 1) := rfl
  have hidle : state.queue.consumer = none := rfl
  have hcall : receiverStep state = some start := rfl
  have hlast : last.receiver = some (.pop 0 1) := rfl
  have hreturns : Returns last.queue none := ⟨.loadNext .stub, rfl, rfl⟩
  obtain ⟨hwaiting, hpop⟩ := receive_waits_for_pushed hreach
  obtain ⟨first, second, middle, hlabels, hbefore, -, hcut⟩ :=
    hpop 0 1 start [.receive] last 0 1 hplace hidle hcall hrun hlast hreturns
  exact ⟨state, start, hplace, hwaiting, first, middle, ⟨second, hlabels.symm⟩,
    hbefore, hcut⟩

end Sensor.SignaledQueue
