import Sensor.Queue.IntMpscPop
import Sensor.Service.AsyncQueue

/-!
# Which messages an event loop delivers

One callback receives one message, so a queue whose signals coalesce, whose
null message came without a signal, or whose callback finds the front of the
queue not linked yet keeps messages that no callback is going to receive.
Where no step is of these kinds, every signal is answered by a message.
-/

namespace Sensor.AsyncQueue

open IntMpscQueue TransitionSystem

variable {Node Sender Command : Type*} [DecidableEq Node]

/-- With no call in progress, no signal pending, no callback running and the
watcher not stopped by a null message, every message was delivered. -/
def State.StrandsNone (state : State Node Sender Command) : Prop :=
  (∀ sender, state.sender sender = none) → state.pending = false →
    state.callback = none → state.stoppedByNull = false →
      state.queue.returned = state.queue.pushed

/-! ## The steps that strand nothing -/

/-- The places of `pop` at which the queue looks empty: nothing is linked
behind the stub, or a node behind the only linked one was exchanged in and not
linked yet. -/
def frontOpen (memory : Memory Node) : PopPc Node → Bool
  | .loadNext h => h = .stub ∧ memory.next h = none
  | .loadTail h => memory.tail ≠ h
  | .lastNext h => memory.next h = none
  | _ => false

/-- A call that is not a `nullmsg`, a signal while none is pending, and a step
of the callback at which the front of the queue is linked. -/
def allowed (state : State Node Sender Command) :
    Label Node Sender Command → Bool
  | .call _ _ command => command.isSome
  | .send sender =>
      match state.sender sender with
      | some .signal => !state.pending
      | _ => true
  | .dispatch => true
  | .callback =>
      match state.queue.consumer with
      | some pc => !frontOpen state.queue.memory pc
      | none => true

theorem popStep_ne_none {memory : Memory Node} {pc : PopPc Node}
    (hfront : frontOpen memory pc = false) :
    (popStep memory pc).2 ≠ .done none := by
  intro hpop
  rcases popStep_done_none hpop with ⟨rfl, hnext⟩ | ⟨h, rfl, htail⟩ |
    ⟨h, rfl, hnext⟩
  · simp [frontOpen, hnext] at hfront
  · simp [frontOpen, htail] at hfront
  · simp [frontOpen, hnext] at hfront

/-! ## The invariant -/

/-- A thread inside `push` has a command to signal for, and no thread is inside
`push` anywhere else. -/
def Matches : Option (SenderPc Command) → Option (PushPc Node) → Prop
  | none, none => True
  | some (.push (some _)), some _ => True
  | some .signal, none => True
  | _, _ => False

/-- The thread has put its node in the queue and has not signalled yet. -/
def owes : Option (SenderPc Command) → Option (PushPc Node) → Bool
  | _, some (.linkPrev _ _) => true
  | some .signal, _ => true
  | _, _ => false

def State.owes (state : State Node Sender Command) (sender : Sender) : Bool :=
  AsyncQueue.owes (state.sender sender) (state.queue.producer sender)

/-- The accounts of the queue: a message in it has a signal or a thread that
owes one, and a signal has a message received for it, is pending, or has the
callback running. -/
structure Invariant (state : State Node Sender Command)
    (owing : Finset Sender) : Prop where
  mem_owing : ∀ sender, sender ∈ owing ↔ state.owes sender = true
  matched : ∀ sender,
    Matches (state.sender sender) (state.queue.producer sender)
  callback_pop : state.queue.consumer.isSome → state.callback = some .pop
  stop_null : state.callback ≠ some (.stop false)
  active : state.active = true ∨ state.stoppedByNull = true
  pushed_le : state.queue.pushed.length ≤ state.signals + owing.card
  signals_le : state.stoppedByNull = true ∨
    state.signals ≤ state.queue.returned.length + state.pending.toNat +
      state.queue.consumer.isSome.toNat

variable {state next : State Node Sender Command} {owing : Finset Sender}

theorem Invariant.initial (heap : NodePtr Node → Option (NodePtr Node))
    (self : NodePtr Node → Option Command) :
    Invariant (State.initial heap self : State Node Sender Command) ∅ where
  mem_owing := fun _ => by
    simp [State.owes, owes, State.initial, IntMpscQueue.State.initial]
  matched := fun _ => trivial
  callback_pop := by simp [State.initial, IntMpscQueue.State.initial]
  stop_null := by simp [State.initial]
  active := .inl rfl
  pushed_le := by simp [State.initial, IntMpscQueue.State.initial]
  signals_le := .inr (by simp [State.initial])

omit [DecidableEq Node] in
/-- Outside a callback's `pop` nobody is inside `pop`. -/
theorem Invariant.consumer_idle (hinv : Invariant state owing)
    (hcallback : state.callback ≠ some .pop) :
    state.queue.consumer.isSome = false := by
  rw [← Bool.not_eq_true]
  intro hsome
  exact hcallback (hinv.callback_pop hsome)

/-! ### The threads that send -/

section Senders

variable [DecidableEq Sender]

omit [DecidableEq Node] in
/-- When one thread moves, what the threads owe changes by what it owes, and all
threads are at the places their calls allow if that one is. -/
theorem exists_owing
    {Place : Option (SenderPc Command) → Option (PushPc Node) → Prop}
    {before after : Sender → Option (SenderPc Command)}
    {pushing pushing' : Sender → Option (PushPc Node)}
    (hmem : ∀ sender,
      sender ∈ owing ↔ owes (before sender) (pushing sender) = true)
    (hplace : ∀ sender, Place (before sender) (pushing sender))
    (sender : Sender)
    (hother : ∀ other, other ≠ sender →
      after other = before other ∧ pushing' other = pushing other)
    (hnext : Place (after sender) (pushing' sender)) :
    ∃ owing' : Finset Sender,
      (∀ other, other ∈ owing' ↔
        owes (after other) (pushing' other) = true) ∧
      (∀ other, Place (after other) (pushing' other)) ∧
      owing'.card + (owes (before sender) (pushing sender)).toNat =
        owing.card + (owes (after sender) (pushing' sender)).toNat := by
  have howes : ∀ other, other ≠ sender →
      owes (after other) (pushing' other) =
        owes (before other) (pushing other) := by
    intro other hne
    rw [(hother other hne).1, (hother other hne).2]
  obtain ⟨owing', hmem', hcard⟩ := exists_tally hmem sender howes
  refine ⟨owing', hmem', fun other => ?_, hcard⟩
  by_cases heq : other = sender
  · rw [heq]
    exact hnext
  · rw [(hother other heq).1, (hother other heq).2]
    exact hplace other

omit [DecidableEq Node] in
/-- A step of one thread that keeps its accounts: what it puts in the queue it
owes a signal for, and a signal it gives is pending. -/
theorem Invariant.moveSender (hinv : Invariant state owing) (sender : Sender)
    (hother : ∀ other, other ≠ sender →
      next.sender other = state.sender other ∧
        next.queue.producer other = state.queue.producer other)
    (hmatched : Matches (next.sender sender) (next.queue.producer sender))
    (hcallback : next.callback = state.callback)
    (hconsumer : next.queue.consumer = state.queue.consumer)
    (hreturned : next.queue.returned = state.queue.returned)
    (hactive : next.active = state.active)
    (hstopped : next.stoppedByNull = state.stoppedByNull)
    (hpushed : next.queue.pushed.length + state.signals +
        (state.owes sender).toNat ≤
      state.queue.pushed.length + next.signals + (next.owes sender).toNat)
    (hsignals : state.stoppedByNull = true ∨
      next.signals + state.pending.toNat ≤
        state.signals + next.pending.toNat) :
    ∃ owing', Invariant next owing' := by
  obtain ⟨owing', hmem, hplace, hcard⟩ :=
    exists_owing hinv.mem_owing hinv.matched sender hother hmatched
  refine ⟨owing', {
    mem_owing := hmem
    matched := hplace
    callback_pop := ?_
    stop_null := ?_
    active := ?_
    pushed_le := ?_
    signals_le := ?_ }⟩
  · rw [hconsumer, hcallback]
    exact hinv.callback_pop
  · rw [hcallback]
    exact hinv.stop_null
  · rw [hactive, hstopped]
    exact hinv.active
  · have hbefore := hinv.pushed_le
    simp only [State.owes] at hpushed
    omega
  · rw [hstopped, hreturned, hconsumer]
    rcases hinv.signals_le with hnull | hbefore
    · exact .inl hnull
    · rcases hsignals with hnull | hafter
      · exact .inl hnull
      · right
        omega

theorem Invariant.call (hinv : Invariant state owing) {sender : Sender}
    {node : Node} {command : Option Command} (hcommand : command.isSome)
    (hstep : callSend state sender node command = some next) :
    ∃ owing', Invariant next owing' := by
  obtain ⟨hidle, -, hpush, hnext⟩ := callSend_cases hstep
  obtain ⟨hfree, hqueue⟩ := Option.ite_none_right_eq_some.mp hpush
  rw [hnext, ← Option.some.inj hqueue]
  obtain ⟨command, rfl⟩ := Option.isSome_iff_exists.mp hcommand
  refine hinv.moveSender sender (fun other hne => ?_) ?_ rfl rfl rfl rfl
    rfl ?_ ?_
  · simp [hne]
  · simp [Matches]
  · simp [State.owes, owes, hidle, hfree.1]
  · exact .inr le_rfl

/-- A thread inside `push`: the exchange makes it owe a signal, and the store
behind it brings it to the signal. -/
theorem Invariant.push (hinv : Invariant state owing) {sender : Sender}
    {command : Option Command}
    (hplace : state.sender sender = some (.push command))
    (hpush : producerStep state.queue sender = some next.queue)
    (hnext : next = { state with
      queue := next.queue
      sender := match next.queue.producer sender with
        | some _ => state.sender
        | none => Function.update state.sender sender (afterPush command) }) :
    ∃ owing', Invariant next owing' := by
  obtain ⟨pc, hpc, hqueue⟩ := Option.map_eq_some_iff.mp hpush
  have hmatched := hinv.matched sender
  rw [hplace, hpc] at hmatched
  rw [hnext, ← hqueue]
  cases command with
  | none => exact hmatched.elim
  | some command =>
      simp only [Function.update_self]
      refine hinv.moveSender sender (fun other hne => ?_) ?_ rfl rfl rfl rfl
        rfl ?_ ?_
      · cases pc <;> simp [hne, pushStep]
      · cases pc <;> simp [Matches, hplace, pushStep, afterPush]
      · cases pc <;> simp [State.owes, owes, hplace, hpc, pushStep, recordPush,
          afterPush, Nat.add_right_comm]
      · exact .inr le_rfl

theorem Invariant.send (hinv : Invariant state owing) {sender : Sender}
    (hallowed : allowed state (.send sender))
    (hstep : senderStep state sender = some next) :
    ∃ owing', Invariant next owing' := by
  rcases senderStep_cases hstep with ⟨command, hplace, hpush, hnext⟩ |
    ⟨hplace, rfl⟩
  · exact hinv.push hplace hpush hnext
  · have hproducer : state.queue.producer sender = none := by
      have hmatched := hinv.matched sender
      rw [hplace] at hmatched
      exact Option.eq_none_iff_forall_ne_some.mpr fun pc hpc => by
        rw [hpc] at hmatched
        exact hmatched
    have hpending : state.pending = false := by
      simpa [allowed, hplace] using hallowed
    refine hinv.moveSender sender (fun other hne => ?_) ?_ rfl rfl rfl
      rfl rfl ?_ ?_
    · simp [hne, asyncSend]
    · simp [Matches, asyncSend, hproducer]
    · simp [State.owes, owes, hplace, hproducer, asyncSend, Nat.add_assoc]
    · rcases hinv.active with hactive | hnull
      · right
        simp [asyncSend, hpending, hactive]
      · exact .inl hnull

end Senders

/-! ### The loop -/

omit [DecidableEq Node] in
/-- A step of the loop leaves the threads that send alone. -/
theorem Invariant.moveLoop (hinv : Invariant state owing)
    (hsender : next.sender = state.sender)
    (hproducer : next.queue.producer = state.queue.producer)
    (hpushed : next.queue.pushed = state.queue.pushed)
    (hsignals : next.signals = state.signals)
    (hcallback : next.queue.consumer.isSome → next.callback = some .pop)
    (hstop : next.callback ≠ some (.stop false))
    (hactive : next.active = true ∨ next.stoppedByNull = true)
    (hle : next.stoppedByNull = true ∨
      next.signals ≤ next.queue.returned.length + next.pending.toNat +
        next.queue.consumer.isSome.toNat) :
    Invariant next owing where
  mem_owing := fun sender => by
    rw [hinv.mem_owing, State.owes, State.owes, hsender, hproducer]
  matched := fun sender => by
    rw [hsender, hproducer]
    exact hinv.matched sender
  callback_pop := hcallback
  stop_null := hstop
  active := hactive
  pushed_le := by
    rw [hpushed, hsignals]
    exact hinv.pushed_le
  signals_le := hle

omit [DecidableEq Node] in
theorem Invariant.dispatch (hinv : Invariant state owing)
    (hstep : dispatch state = some next) : Invariant next owing := by
  obtain ⟨-, -, hpop, hnext⟩ := dispatch_cases hstep
  obtain ⟨hfree, hqueue⟩ := Option.ite_none_right_eq_some.mp hpop
  rw [hnext, ← Option.some.inj hqueue]
  refine hinv.moveLoop rfl rfl rfl rfl ?_ ?_ ?_ ?_
  · simp
  · simp
  · exact hinv.active
  · rcases hinv.signals_le with hnull | hle
    · exact .inl hnull
    · right
      have hpending := state.pending.toNat_le
      simp only [hfree, Option.isSome_none, Bool.toNat_false] at hle
      simp only [Bool.toNat_false, Option.isSome_some, Bool.toNat_true]
      omega

/-- The return of a `pop` with a message for the signal it answers. -/
theorem Invariant.popped (hinv : Invariant state owing) {pc : PopPc Node}
    (hpc : state.queue.consumer = some pc) (memory : Memory Node)
    (node : NodePtr Node) :
    Invariant { state with
      queue := { state.queue with
        memory
        consumer := none
        returned := state.queue.returned ++ [node]
        inUse := release state.queue.inUse (some node) }
      callback := some (.receive node) } owing := by
  refine hinv.moveLoop rfl rfl rfl rfl ?_ ?_ hinv.active ?_
  · simp
  · simp
  · rcases hinv.signals_le with hnull | hle
    · exact .inl hnull
    · right
      rw [hpc, Option.isSome_some, Bool.toNat_true] at hle
      simp only [List.length_append, List.length_singleton, Option.isSome_none,
        Bool.toNat_false]
      omega

theorem Invariant.callback (hinv : Invariant state owing)
    (hallowed : allowed state .callback)
    (hstep : callbackStep state = some next) : Invariant next owing := by
  rcases callbackStep_cases hstep with
    ⟨pc, memory, pc', hplace, hpc, -, rfl⟩ |
    ⟨pc, memory, result, -, hpc, hpop, rfl⟩ |
    ⟨node, command, hplace, -, rfl⟩ | ⟨node, hplace, -, rfl⟩ |
    ⟨null, hplace, rfl⟩
  · refine hinv.moveLoop rfl rfl rfl rfl ?_ ?_ hinv.active ?_
    · simp [hplace]
    · simp [hplace]
    · simpa [hpc] using hinv.signals_le
  · have hfront : frontOpen state.queue.memory pc = false := by
      simpa [allowed, hpc] using hallowed
    have hpopped := popStep_ne_none hfront
    rw [hpop] at hpopped
    cases result with
    | none => exact absurd rfl hpopped
    | some node => exact hinv.popped hpc memory node
  · have hconsumer := hinv.consumer_idle (by simp [hplace])
    refine hinv.moveLoop rfl rfl rfl rfl ?_ ?_ hinv.active hinv.signals_le
    · simp [hconsumer]
    · simp
  · have hconsumer := hinv.consumer_idle (by simp [hplace])
    refine hinv.moveLoop rfl rfl rfl rfl ?_ ?_ hinv.active hinv.signals_le
    · simp [hconsumer]
    · simp
  · have hconsumer := hinv.consumer_idle (by simp [hplace])
    have hnull : null = true := by
      cases null with
      | true => rfl
      | false => exact absurd hplace hinv.stop_null
    subst hnull
    refine hinv.moveLoop rfl rfl rfl rfl ?_ ?_ ?_ ?_
    · simp [asyncStop, hconsumer]
    · simp [asyncStop]
    · simp [asyncStop]
    · simp [asyncStop]

/-! ## The main result -/

variable [DecidableEq Sender]

/-- A step of a sender is one of the queue inside or leaves it alone. -/
theorem queue_of_senderStep {sender : Sender}
    (hstep : senderStep state sender = some next) :
    next.queue = state.queue ∨
      (IntMpscQueue.system Node Sender).Step state.queue (.push sender)
        next.queue := by
  rcases senderStep_cases hstep with ⟨_, -, hpush, -⟩ | ⟨-, rfl⟩
  · exact .inr hpush
  · exact .inl rfl

/-- A step of the callback is one of the queue inside or leaves it alone. -/
theorem queue_of_callbackStep (hstep : callbackStep state = some next) :
    next.queue = state.queue ∨
      (IntMpscQueue.system Node Sender).Step state.queue .pop next.queue := by
  cases hplace : state.callback with
  | none => simp [callbackStep, hplace] at hstep
  | some place =>
      cases place with
      | pop =>
          simp only [callbackStep, hplace] at hstep
          obtain ⟨pc, -, hmap⟩ := Option.bind_eq_some_iff.mp hstep
          obtain ⟨queue, hpop, rfl⟩ := Option.map_eq_some_iff.mp hmap
          exact .inr hpop
      | receive node =>
          left
          simp only [callbackStep, hplace] at hstep
          split at hstep <;> cases hstep <;> rfl
      | stop null =>
          left
          simp only [callbackStep, hplace, Option.some.injEq] at hstep
          subst hstep
          rfl

/-- The queue inside takes the steps of an `IntMpscQueue`. -/
theorem reachable_queue
    (hreach : (system Node Sender Command).Reachable state) :
    (IntMpscQueue.system Node Sender).Reachable state.queue := by
  apply hreach.project State.queue
  · rintro start ⟨heap, self, rfl⟩
    exact ⟨heap, rfl⟩
  · intro start label final hstep
    cases label with
    | call sender node command =>
        obtain ⟨-, -, hpush, -⟩ := callSend_cases hstep
        exact .inr ⟨.callPush sender node, hpush⟩
    | send sender =>
        exact (queue_of_senderStep hstep).imp_right fun hpush => ⟨_, hpush⟩
    | dispatch =>
        obtain ⟨-, -, hpop, -⟩ := dispatch_cases hstep
        exact .inr ⟨.callPop, hpop⟩
    | callback =>
        exact (queue_of_callbackStep hstep).imp_right fun hpop => ⟨_, hpop⟩

theorem reachable_invariant
    (hreach : ((system Node Sender Command).restrict
      fun state label => allowed state label = true).Reachable state) :
    ∃ owing, Invariant state owing := by
  apply hreach.invariant
  · rintro start ⟨heap, self, rfl⟩
    exact ⟨∅, Invariant.initial heap self⟩
  · rintro start label final ⟨owing, hinv⟩ ⟨hallowed, hstep⟩
    cases label with
    | call sender node command => exact hinv.call hallowed hstep
    | send sender => exact hinv.send hallowed hstep
    | dispatch => exact ⟨owing, hinv.dispatch hstep⟩
    | callback => exact ⟨owing, hinv.callback hallowed hstep⟩

/-- A run of allowed steps strands no message in any state it reaches. -/
theorem strandsNone_of_allowed
    (hreach : ((system Node Sender Command).restrict
      fun state label => allowed state label = true).Reachable state) :
    state.StrandsNone := by
  intro hidle hpending hcallback hnull
  obtain ⟨owing, hinv⟩ := reachable_invariant hreach
  obtain ⟨chain, hqueue⟩ :=
    IntMpscQueue.reachable_invariant (reachable_queue hreach.of_restrict)
  have hconsumer := hinv.consumer_idle (by simp [hcallback])
  have howing : owing = ∅ := by
    rw [Finset.eq_empty_iff_forall_notMem]
    intro sender hmem
    have howes := (hinv.mem_owing sender).mp hmem
    have hmatched := hinv.matched sender
    rw [State.owes, hidle sender] at howes
    rw [hidle sender] at hmatched
    cases hproducer : state.queue.producer sender with
    | none => simp [hproducer, owes] at howes
    | some pc => simp [hproducer, Matches] at hmatched
  have hpushed := hinv.pushed_le
  have hsignals := hinv.signals_le
  simp only [howing, Finset.card_empty, hnull, Bool.false_eq_true, false_or,
    hpending, hconsumer, Bool.toNat_false] at hpushed hsignals
  have hreturned : state.queue.returned <+: state.queue.pushed :=
    ⟨_, hqueue.fifo.symm⟩
  apply hreturned.eq_of_length_le
  omega

/-- One thread calls `send` and one callback receives its message. -/
def sendAndReceive : List (Label ℕ ℕ ℕ) :=
  .call 0 7 (some 1) :: List.replicate 4 (.send 0) ++
    .dispatch :: List.replicate 11 .callback

theorem strandsNone_of_allowed_sendAndReceive : ∃ state : State ℕ ℕ ℕ,
    ((system ℕ ℕ ℕ).restrict
      fun state label => allowed state label = true).Reachable state ∧
      state.executed = [1] ∧ state.StrandsNone := by
  let start : State ℕ ℕ ℕ := .initial (fun _ => none) fun _ => none
  let state := (execute (guardStep allowed step) start sendAndReceive).get rfl
  have hexecute : execute (guardStep allowed step) start sendAndReceive =
      some state := rfl
  have hreach : ((system ℕ ℕ ℕ).restrict
      fun state label => allowed state label = true).Reachable state :=
    reachable_restrict_of_execute ⟨_, _, rfl⟩ hexecute
  exact ⟨state, hreach, rfl, strandsNone_of_allowed hreach⟩

/-- Two threads call `send` one after the other before the loop runs: one
callback answers both signals. -/
def twoSendsOneCallback : List (Label ℕ ℕ ℕ) :=
  .call 0 7 (some 1) :: List.replicate 4 (.send 0) ++
    .call 1 8 (some 2) :: List.replicate 4 (.send 1) ++
    .dispatch :: List.replicate 6 .callback

/-- The second message stays in the queue, and nothing is left to deliver it. -/
theorem not_strandsNone : ¬ ∀ state : State ℕ ℕ ℕ,
    (system ℕ ℕ ℕ).Reachable state → state.StrandsNone := by
  intro hstrands
  let start : State ℕ ℕ ℕ := .initial (fun _ => none) fun _ => none
  let state := (execute step start twoSendsOneCallback).get rfl
  have hexecute : execute step start twoSendsOneCallback = some state := rfl
  have hreach : (system ℕ ℕ ℕ).Reachable state :=
    reachable_of_execute ⟨_, _, rfl⟩ hexecute
  have hidle : ∀ sender, state.sender sender = none
    | 0 => rfl
    | 1 => rfl
    | _ + 2 => rfl
  have hdelivered := hstrands state hreach hidle rfl rfl rfl
  have hreturned : state.queue.returned = [.client 7] := rfl
  have hpushed : state.queue.pushed = [.client 7, .client 8] := rfl
  rw [hreturned, hpushed] at hdelivered
  cases hdelivered

end Sensor.AsyncQueue
