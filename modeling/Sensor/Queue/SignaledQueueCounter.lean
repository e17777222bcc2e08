import Sensor.Queue.IntMpscInvariant
import Sensor.Queue.SignaledQueue
import Sensor.Service.AsyncQueueDelivery

/-!
# The event counter and the messages in the queue

Every message in the queue is counted, is going to be counted by the thread
that pushed it, or is going to be taken by the running `receive`, as long as
no null message is pushed uncounted, the counter is not full when a thread
counts, and `receive` reads a number that an `int` holds.
-/

namespace Sensor.SignaledQueue

open AsyncQueue IntMpscQueue TransitionSystem

variable {Node Sender Command : Type*} [DecidableEq Node]

/-- With no call in progress the counter is the number of messages in the
queue. -/
def State.CounterMatches (state : State Node Sender Command) : Prop :=
  (∀ sender, state.sender sender = none) → state.receiver = none →
    ∃ waiting, state.queue.pushed = state.queue.returned ++ waiting ∧
      state.counter = waiting.length

/-- A call that is not a `nullmsg`, a signal below the largest value of the
counter, and a call of `receive` that reads a number below `2 ^ 31`. -/
def allowed (state : State Node Sender Command) :
    Label Node Sender Command → Bool
  | .call _ _ command => command.isSome
  | .send sender =>
      match state.sender sender with
      | some .signal => state.counter < eventfdMax
      | _ => true
  | .callReceive => state.counter < 2 ^ 31
  | .receive => true

/-! ## The invariant -/

def State.owes (state : State Node Sender Command) (sender : Sender) : Bool :=
  AsyncQueue.owes (state.sender sender) (state.queue.producer sender)

/-- The messages a place of `receive` is still going to take. -/
def remaining : Option (ReceiverPc Node) → ℕ
  | none => 0
  | some (.pop i times) => (times - i).toNat
  | some (.receive _ i times) => (times - (i + 1)).toNat

/-- The accounts of the queue: a message in it is counted, owed by a thread, or
going to be taken. -/
structure Invariant (state : State Node Sender Command)
    (owing : Finset Sender) : Prop where
  mem_owing : ∀ sender, sender ∈ owing ↔ state.owes sender = true
  matched : ∀ sender,
    Matches (state.sender sender) (state.queue.producer sender)
  round : ∀ i times, state.receiver = some (.pop i times) → i < times
  account : state.queue.pushed.length = state.queue.returned.length +
    state.counter + remaining state.receiver + owing.card

variable {state next final : State Node Sender Command}
variable {owing : Finset Sender}

theorem Invariant.initial (heap : NodePtr Node → Option (NodePtr Node))
    (self : NodePtr Node → Option Command) :
    Invariant (State.initial heap self : State Node Sender Command) ∅ where
  mem_owing := fun _ => by
    simp [State.owes, owes, State.initial, IntMpscQueue.State.initial]
  matched := fun _ => trivial
  round := by simp [State.initial]
  account := by
    simp [State.initial, IntMpscQueue.State.initial, remaining]

/-! ### The threads that enqueue -/

section Senders

variable [DecidableEq Sender]

omit [DecidableEq Node] in
/-- A step of one thread that keeps its accounts: what it pushes it owes, and
what it no longer owes it counted. -/
theorem Invariant.moveSender (hinv : Invariant state owing) (sender : Sender)
    (hother : ∀ other, other ≠ sender →
      next.sender other = state.sender other ∧
        next.queue.producer other = state.queue.producer other)
    (hmatched : Matches (next.sender sender) (next.queue.producer sender))
    (hreceiver : next.receiver = state.receiver)
    (hreturned : next.queue.returned = state.queue.returned)
    (haccount : next.queue.pushed.length + state.counter +
        (state.owes sender).toNat =
      state.queue.pushed.length + next.counter + (next.owes sender).toNat) :
    ∃ owing', Invariant next owing' := by
  obtain ⟨owing', hmem, hplace, hcard⟩ :=
    exists_owing hinv.mem_owing hinv.matched sender hother hmatched
  refine ⟨owing', hmem, hplace, ?_, ?_⟩
  · rw [hreceiver]
    exact hinv.round
  · rw [hreceiver, hreturned]
    have hbefore := hinv.account
    simp only [State.owes] at haccount
    omega

theorem Invariant.call (hinv : Invariant state owing) {sender : Sender}
    {node : Node} {command : Option Command} (hcommand : command.isSome)
    (hstep : callSend state sender node command = some next) :
    ∃ owing', Invariant next owing' := by
  obtain ⟨hidle, hpush⟩ := Option.ite_none_right_eq_some.mp hstep
  obtain ⟨queue, hcall, rfl⟩ := Option.map_eq_some_iff.mp hpush
  obtain ⟨hfree, ⟨⟩⟩ := Option.ite_none_right_eq_some.mp hcall
  obtain ⟨command, rfl⟩ := Option.isSome_iff_exists.mp hcommand
  refine hinv.moveSender sender (fun other hne => ?_) ?_ rfl rfl ?_
  · simp [hne]
  · simp [Matches]
  · simp [State.owes, owes, hidle.1, hfree.1]

/-- A thread inside `push`: the exchange makes it owe a signal, and the store
behind it brings it to the signal. -/
theorem Invariant.push (hinv : Invariant state owing) {sender : Sender}
    {command : Option Command}
    (hplace : state.sender sender = some (.push command))
    (hpush : producerStep state.queue sender = some next.queue)
    (hnext : next = { state with
      queue := next.queue
      sender := match next.queue.producer sender with
        | some _ => state.sender
        | none => Function.update state.sender sender (afterPush command) }) :
    ∃ owing', Invariant next owing' := by
  obtain ⟨pc, hpc, hqueue⟩ := Option.map_eq_some_iff.mp hpush
  have hmatched := hinv.matched sender
  rw [hplace, hpc] at hmatched
  rw [hnext, ← hqueue]
  cases command with
  | none => exact hmatched.elim
  | some command =>
      simp only [Function.update_self]
      refine hinv.moveSender sender (fun other hne => ?_) ?_ rfl rfl ?_
      · cases pc <;> simp [hne, pushStep]
      · cases pc <;> simp [Matches, hplace, pushStep, afterPush]
      · cases pc <;> simp [State.owes, owes, hplace, hpc, pushStep, recordPush,
          afterPush, Nat.add_right_comm]

theorem Invariant.send (hinv : Invariant state owing) {sender : Sender}
    (hallowed : allowed state (.send sender))
    (hstep : senderStep state sender = some next) :
    ∃ owing', Invariant next owing' := by
  rcases senderStep_cases hstep with ⟨command, hplace, hpush, hnext⟩ |
    ⟨hplace, rfl⟩
  · exact hinv.push hplace hpush hnext
  · have hproducer : state.queue.producer sender = none := by
      have hmatched := hinv.matched sender
      rw [hplace] at hmatched
      exact Option.eq_none_iff_forall_ne_some.mpr fun pc hpc => by
        rw [hpc] at hmatched
        exact hmatched
    have hroom : state.counter < eventfdMax := by
      simpa [allowed, hplace] using hallowed
    rw [signal, if_pos hroom]
    refine hinv.moveSender sender (fun other hne => ?_) ?_ rfl rfl ?_
    · simp [hne]
    · simp [Matches, hproducer]
    · simp [State.owes, owes, hplace, hproducer, Nat.add_assoc]

end Senders

/-! ### The consumer -/

omit [DecidableEq Node] in
theorem loopTest_eq {i times : ℤ} (hloop : loopTest state i times = next) :
    ∃ receiver results, next = { state with receiver, results } ∧
      remaining receiver = (times - i).toNat ∧
      ∀ j bound, receiver = some (.pop j bound) → j < bound := by
  subst hloop
  by_cases hround : i < times
  · refine ⟨some (.pop i times), state.results, if_pos hround, rfl, ?_⟩
    rintro j bound ⟨⟩
    exact hround
  · refine ⟨none, state.results ++ [times], if_neg hround, ?_, nofun⟩
    simp only [remaining]
    omega

/-- What a step of `receive` does: it takes a message for the round it is in or
waits for one. -/
structure Takes (state next : State Node Sender Command) : Prop where
  sender : next.sender = state.sender
  producer : next.queue.producer = state.queue.producer
  pushed : next.queue.pushed = state.queue.pushed
  counter : next.counter = state.counter
  taken : next.queue.returned.length + remaining next.receiver =
    state.queue.returned.length + remaining state.receiver
  round : ∀ i times, next.receiver = some (.pop i times) → i < times

theorem takes_of_pop {i times : ℤ} {pc : PopPc Node}
    (hplace : state.receiver = some (.pop i times)) (hround : i < times)
    (hpc : state.queue.consumer = some pc)
    (hstep : receiverStep state = some next) : Takes state next := by
  simp only [receiverStep, hplace, hpc, consumerStep, Option.map_some,
    Option.some.injEq] at hstep
  have hkeep : ∀ j bound, some (ReceiverPc.pop i times : ReceiverPc Node) =
      some (.pop j bound) → j < bound := by
    rintro j bound ⟨⟩
    exact hround
  cases hpop : popStep state.queue.memory pc with
  | mk memory result =>
      simp only [hpop] at hstep
      subst hstep
      rcases result with pc' | _ | node
      · exact ⟨rfl, rfl, rfl, rfl, by rw [hplace], hkeep⟩
      · exact ⟨rfl, rfl, rfl, rfl, by simp [hplace], hkeep⟩
      · refine ⟨rfl, rfl, rfl, rfl, ?_, by rintro j bound ⟨⟩⟩
        simp only [hplace, remaining, Option.toList_some, List.length_append,
          List.length_singleton]
        omega

theorem takes_of_receiverStep
    (hround : ∀ i times, state.receiver = some (.pop i times) → i < times)
    (hstep : receiverStep state = some next) : Takes state next := by
  cases hplace : state.receiver with
  | none => simp [receiverStep, hplace] at hstep
  | some place =>
      cases place with
      | pop i times =>
          cases hpc : state.queue.consumer with
          | some pc => exact takes_of_pop hplace (hround i times hplace) hpc hstep
          | none =>
              simp only [receiverStep, hplace, hpc] at hstep
              obtain ⟨queue, hcall, rfl⟩ := Option.map_eq_some_iff.mp hstep
              obtain ⟨-, ⟨⟩⟩ := Option.ite_none_right_eq_some.mp hcall
              rw [hplace] at hround
              exact ⟨rfl, rfl, rfl, rfl, by rw [hplace], hround⟩
      | receive node i times =>
          simp only [receiverStep, hplace, Option.some.injEq] at hstep
          obtain ⟨receiver, results, rfl, hremaining, hnext⟩ :=
            loopTest_eq hstep
          have hbefore : remaining state.receiver =
              (times - (i + 1)).toNat := by
            rw [hplace]
            rfl
          refine ⟨rfl, rfl, rfl, rfl, ?_, hnext⟩
          rw [hbefore, ← hremaining]

omit [DecidableEq Node] in
/-- A step of the consumer leaves the threads that enqueue alone. -/
theorem Invariant.moveReceiver (hinv : Invariant state owing)
    (hsender : next.sender = state.sender)
    (hproducer : next.queue.producer = state.queue.producer)
    (hpushed : next.queue.pushed = state.queue.pushed)
    (hround : ∀ i times, next.receiver = some (.pop i times) → i < times)
    (haccount : next.queue.returned.length + next.counter +
        remaining next.receiver =
      state.queue.returned.length + state.counter +
        remaining state.receiver) :
    Invariant next owing where
  mem_owing := fun sender => by
    rw [hinv.mem_owing, State.owes, State.owes, hsender, hproducer]
  matched := fun sender => by
    rw [hsender, hproducer]
    exact hinv.matched sender
  round := hround
  account := by
    rw [hpushed, hinv.account, haccount]

omit [DecidableEq Node] in
/-- `receive` takes over what the counter says. -/
theorem Invariant.callReceive (hinv : Invariant state owing)
    (hallowed : allowed state .callReceive)
    (hstep : callReceive state = some next) :
    Invariant next owing ∧ next.queue = state.queue ∧
      remaining next.receiver = state.counter := by
  obtain ⟨⟨hidle, -⟩, heq⟩ := Option.ite_none_right_eq_some.mp hstep
  have hnone : state.receiver = none := by simpa using hidle
  have hsmall : state.counter < 2 ^ 31 := by simpa [allowed] using hallowed
  have htimes : SizeT.toInt state.counter = state.counter :=
    SizeT.toInt_eq_iff.mpr hsmall
  obtain ⟨receiver, results, rfl, hremaining, hround⟩ :=
    loopTest_eq (Option.some.inj heq)
  have htaken : remaining receiver = state.counter := by
    rw [hremaining, htimes]
    omega
  have hbefore : remaining state.receiver = 0 := by
    rw [hnone]
    rfl
  refine ⟨hinv.moveReceiver rfl rfl rfl hround ?_, rfl, htaken⟩
  simp only [htaken, hbefore]
  omega

theorem Invariant.receive (hinv : Invariant state owing)
    (hstep : receiverStep state = some next) : Invariant next owing := by
  have htakes := takes_of_receiverStep hinv.round hstep
  refine hinv.moveReceiver htakes.sender htakes.producer htakes.pushed
    htakes.round ?_
  have htaken := htakes.taken
  rw [htakes.counter]
  omega

/-! ## The main result -/

variable [DecidableEq Sender]

/-- A step of a sender is one of the queue inside or leaves it alone. -/
theorem queue_of_senderStep {sender : Sender}
    (hstep : senderStep state sender = some next) :
    next.queue = state.queue ∨
      (IntMpscQueue.system Node Sender).Step state.queue (.push sender)
        next.queue := by
  rcases senderStep_cases hstep with ⟨_, -, hpush, -⟩ | ⟨-, rfl⟩
  · exact .inr hpush
  · exact .inl queue_signal

/-- A step of the consumer is one of the queue inside or leaves it alone. -/
theorem queue_of_receiverStep (hstep : receiverStep state = some next) :
    next.queue = state.queue ∨ ∃ label,
      (IntMpscQueue.system Node Sender).Step state.queue label next.queue := by
  cases hplace : state.receiver with
  | none => simp [receiverStep, hplace] at hstep
  | some place =>
      cases place with
      | pop i times =>
          simp only [receiverStep, hplace] at hstep
          split at hstep
          · obtain ⟨queue, hcall, rfl⟩ := Option.map_eq_some_iff.mp hstep
            exact .inr ⟨.callPop, hcall⟩
          · obtain ⟨queue, hpop, rfl⟩ := Option.map_eq_some_iff.mp hstep
            exact .inr ⟨.pop, hpop⟩
      | receive node i times =>
          simp only [receiverStep, hplace, Option.some.injEq] at hstep
          obtain ⟨receiver, results, rfl, -⟩ := loopTest_eq hstep
          exact .inl rfl

/-- A step is one of the queue inside or leaves it alone. -/
theorem queue_of_step {label : Label Node Sender Command}
    (hstep : step state label = some next) :
    next.queue = state.queue ∨ ∃ label,
      (IntMpscQueue.system Node Sender).Step state.queue label next.queue := by
  cases label with
  | call sender node command =>
      obtain ⟨-, hcall⟩ := Option.ite_none_right_eq_some.mp hstep
      obtain ⟨queue, hpush, rfl⟩ := Option.map_eq_some_iff.mp hcall
      exact .inr ⟨.callPush sender node, hpush⟩
  | send sender =>
      exact (queue_of_senderStep hstep).imp_right fun hpush => ⟨_, hpush⟩
  | callReceive =>
      obtain ⟨-, heq⟩ := Option.ite_none_right_eq_some.mp hstep
      obtain ⟨receiver, results, rfl, -⟩ := loopTest_eq (Option.some.inj heq)
      exact .inl rfl
  | receive => exact queue_of_receiverStep hstep

/-- The queue inside takes the steps of an `IntMpscQueue`. -/
theorem reachable_queue
    (hreach : (system Node Sender Command).Reachable state) :
    (IntMpscQueue.system Node Sender).Reachable state.queue := by
  apply hreach.project State.queue
  · rintro start ⟨heap, self, rfl⟩
    exact ⟨heap, rfl⟩
  · intro start label final hstep
    exact queue_of_step hstep

theorem Invariant.step (hinv : Invariant state owing)
    {label : Label Node Sender Command} (hallowed : allowed state label)
    (hstep : step state label = some next) :
    ∃ owing', Invariant next owing' := by
  cases label with
  | call sender node command => exact hinv.call hallowed hstep
  | send sender => exact hinv.send hallowed hstep
  | callReceive => exact ⟨owing, (hinv.callReceive hallowed hstep).1⟩
  | receive => exact ⟨owing, hinv.receive hstep⟩

theorem reachable_invariant
    (hreach : ((system Node Sender Command).restrict
      fun state label => allowed state label = true).Reachable state) :
    ∃ owing, Invariant state owing := by
  apply hreach.invariant
  · rintro start ⟨heap, self, rfl⟩
    exact ⟨∅, Invariant.initial heap self⟩
  · rintro start label final ⟨owing, hinv⟩ ⟨hallowed, hstep⟩
    exact hinv.step hallowed hstep

/-- A step other than a call of `receive` pushes more or takes what `receive`
still has to take. -/
structure Goes (state next : State Node Sender Command) : Prop where
  pushed : state.queue.pushed <+: next.queue.pushed
  taken : next.queue.returned.length + remaining next.receiver =
    state.queue.returned.length + remaining state.receiver

theorem goes_of_senderStep {sender : Sender}
    (hstep : senderStep state sender = some next) : Goes state next := by
  rcases senderStep_cases hstep with ⟨_, -, hpush, hnext⟩ | ⟨-, rfl⟩
  · obtain ⟨pc, -, hqueue⟩ := Option.map_eq_some_iff.mp hpush
    rw [hnext, ← hqueue]
    refine ⟨?_, rfl⟩
    cases pc with
    | exchange node => exact List.prefix_append _ _
    | _ => exact List.prefix_refl _
  · rw [signal]
    split
    · exact ⟨List.prefix_refl _, rfl⟩
    · exact ⟨List.prefix_refl _, rfl⟩

theorem Invariant.goes (hinv : Invariant state owing)
    {label : Label Node Sender Command} (hlabel : label ≠ .callReceive)
    (hstep : SignaledQueue.step state label = some next) : Goes state next := by
  cases label with
  | call sender node command =>
      obtain ⟨-, hcall⟩ := Option.ite_none_right_eq_some.mp hstep
      obtain ⟨queue, hpush, rfl⟩ := Option.map_eq_some_iff.mp hcall
      obtain ⟨-, ⟨⟩⟩ := Option.ite_none_right_eq_some.mp hpush
      exact ⟨List.prefix_refl _, rfl⟩
  | send sender => exact goes_of_senderStep hstep
  | callReceive => exact absurd rfl hlabel
  | receive =>
      have htakes := takes_of_receiverStep hinv.round hstep
      refine ⟨?_, htakes.taken⟩
      rw [htakes.pushed]

omit [DecidableEq Node] [DecidableEq Sender] in
/-- With no call in progress nothing is owed or being taken. -/
theorem Invariant.account_idle (hinv : Invariant state owing)
    (hidle : ∀ sender, state.sender sender = none)
    (hreceiver : state.receiver = none) :
    state.queue.pushed.length =
      state.queue.returned.length + state.counter := by
  have howing : owing = ∅ := by
    rw [Finset.eq_empty_iff_forall_notMem]
    intro sender hmem
    have howes := (hinv.mem_owing sender).mp hmem
    have hmatched := hinv.matched sender
    rw [State.owes, hidle sender] at howes
    rw [hidle sender] at hmatched
    cases hproducer : state.queue.producer sender with
    | none => simp [hproducer, owes] at howes
    | some pc => simp [hproducer, Matches] at hmatched
  have haccount := hinv.account
  rw [howing, hreceiver, Finset.card_empty] at haccount
  exact haccount

/-- A run of `receive` takes all messages that were in the queue when no other
call was in progress. -/
theorem Invariant.receives (hinv : Invariant state owing)
    (hidle : ∀ sender, state.sender sender = none)
    (hreceiver : state.receiver = none)
    {labels : List (Label Node Sender Command)}
    (hallowed : allowed state .callReceive)
    (hcall : SignaledQueue.callReceive state = some next)
    (hrun : ((system Node Sender Command).restrict
      fun state label => allowed state label = true).Run next labels final)
    (hlabels : .callReceive ∉ labels) (hdone : final.receiver = none) :
    state.queue.pushed <+: final.queue.pushed ∧
      final.queue.returned.length = state.queue.pushed.length := by
  obtain ⟨hnext, hqueue, hremaining⟩ := hinv.callReceive hallowed hcall
  have haccount := hinv.account_idle hidle hreceiver
  have hfinal : (∃ owing, Invariant final owing) ∧
      state.queue.pushed <+: final.queue.pushed ∧
      final.queue.returned.length + remaining final.receiver =
        state.queue.pushed.length := by
    refine hrun.preserves (fun label => label ≠ .callReceive)
      (fun middle => (∃ owing, Invariant middle owing) ∧
        state.queue.pushed <+: middle.queue.pushed ∧
        middle.queue.returned.length + remaining middle.receiver =
          state.queue.pushed.length) ?_ ?_ ?_
    · rintro before label after hlabel ⟨⟨owing, hbefore⟩, hpushed, htaken⟩
        ⟨hallowed, hstep⟩
      have hgoes := hbefore.goes hlabel hstep
      exact ⟨hbefore.step hallowed hstep, hpushed.trans hgoes.pushed,
        hgoes.taken.trans htaken⟩
    · rintro label hmem rfl
      exact hlabels hmem
    · refine ⟨⟨owing, hnext⟩, ?_, ?_⟩
      · rw [hqueue]
      · rw [hqueue, hremaining, haccount]
  obtain ⟨-, hpushed, htaken⟩ := hfinal
  rw [hdone] at htaken
  exact ⟨hpushed, htaken⟩

/-- In every state a run of allowed steps reaches the counter is the number of
messages in the queue when no call is in progress; and a call of `receive` made
there has taken all messages enqueued before it when it returns. -/
theorem counterMatches_of_allowed
    (hreach : ((system Node Sender Command).restrict
      fun state label => allowed state label = true).Reachable state) :
    state.CounterMatches ∧
      ∀ labels final, (∀ sender, state.sender sender = none) →
        ((system Node Sender Command).restrict
          fun state label => allowed state label = true).Run state
            (.callReceive :: labels) final →
        .callReceive ∉ labels → final.receiver = none →
        state.queue.pushed <+: final.queue.returned := by
  obtain ⟨owing, hinv⟩ := reachable_invariant hreach
  constructor
  · intro hidle hreceiver
    obtain ⟨chain, hqueue⟩ :=
      IntMpscQueue.reachable_invariant (reachable_queue hreach.of_restrict)
    have haccount := hinv.account_idle hidle hreceiver
    refine ⟨_, hqueue.fifo, ?_⟩
    rw [hqueue.fifo, List.length_append] at haccount
    omega
  · intro labels final hidle hrun hlabels hdone
    obtain ⟨chain, hqueue⟩ := IntMpscQueue.reachable_invariant
      (reachable_queue (hreach.run hrun).of_restrict)
    cases hrun with
    | cons hfirst hrest =>
        obtain ⟨hallowed, hcall⟩ := hfirst
        have hreceive : callReceive state = some _ := hcall
        have hreceiver : state.receiver = none := by
          obtain ⟨⟨hnone, -⟩, -⟩ := Option.ite_none_right_eq_some.mp hreceive
          simpa using hnone
        obtain ⟨hpushed, hlength⟩ := hinv.receives hidle hreceiver hallowed
          hreceive hrest hlabels hdone
        exact List.prefix_of_prefix_length_le hpushed ⟨_, hqueue.fifo.symm⟩
          hlength.ge

/-- A thread calls `send` before the consumer receives its message. -/
def sendOnce : List (Label ℕ Unit ℕ) :=
  .call () 7 (some 1) :: List.replicate 4 (.send ())

def receiveOnce : List (Label ℕ Unit ℕ) :=
  List.replicate 12 .receive

theorem counterMatches_of_allowed_sendOnce : ∃ state final : State ℕ Unit ℕ,
    state.counter = 1 ∧ state.CounterMatches ∧ final.executed = [1] ∧
      state.queue.pushed <+: final.queue.returned := by
  let start : State ℕ Unit ℕ := .initial (fun _ => none) fun _ => none
  have hsend : (execute (guardStep allowed step) start sendOnce).map
      (fun state => (state.counter, state.sender ())) = some (1, none) := by
    decide +kernel
  have hboth : (execute (guardStep allowed step) start
      (sendOnce ++ .callReceive :: receiveOnce)).map
      (fun state => (state.executed, state.receiver)) = some ([1], none) := by
    decide +kernel
  obtain ⟨state, hstate, hcounter⟩ := Option.map_eq_some_iff.mp hsend
  rw [execute_append, hstate, Option.bind_some] at hboth
  obtain ⟨final, hfinal, hexecuted⟩ := Option.map_eq_some_iff.mp hboth
  obtain ⟨hone, hidle⟩ := Prod.mk.inj hcounter
  obtain ⟨hcalled, hdone⟩ := Prod.mk.inj hexecuted
  have hreach : ((system ℕ Unit ℕ).restrict
      fun state label => allowed state label = true).Reachable state :=
    reachable_restrict_of_execute ⟨_, _, rfl⟩ hstate
  obtain ⟨hmatches, htakes⟩ := counterMatches_of_allowed hreach
  refine ⟨state, final, hone, hmatches, hcalled, ?_⟩
  exact htakes receiveOnce final (fun _ => hidle)
    (run_restrict_of_execute hfinal) (by decide) hdone

/-- A null message is in the queue, and the counter is zero. -/
theorem not_counterMatches : ¬ ∀ state : State ℕ ℕ ℕ,
    (system ℕ ℕ ℕ).Reachable state → state.CounterMatches := by
  intro hmatches
  let start : State ℕ ℕ ℕ := .initial (fun _ => none) fun _ => none
  let labels : List (Label ℕ ℕ ℕ) :=
    .call 0 7 none :: List.replicate 3 (.send 0)
  let state := (execute step start labels).get rfl
  have hexecute : execute step start labels = some state := rfl
  have hreach : (system ℕ ℕ ℕ).Reachable state :=
    reachable_of_execute ⟨_, _, rfl⟩ hexecute
  have hidle : ∀ sender, state.sender sender = none
    | 0 => rfl
    | _ + 1 => rfl
  obtain ⟨waiting, hpushed, hcounter⟩ := hmatches state hreach hidle rfl
  have hone : state.queue.pushed = [.client 7] := rfl
  have hnone : state.queue.returned = [] := rfl
  have hzero : state.counter = 0 := rfl
  rw [hone, hnone, List.nil_append] at hpushed
  rw [hzero, ← hpushed] at hcounter
  cases hcounter

end Sensor.SignaledQueue
