import Sensor.Service.AsyncQueueDelivery

/-!
# What stops the watcher of an event loop

`asyncCallback` stops the watcher when `receive` returns false, which it does
for a null message and also where `pop` returned `nullptr`: on an empty queue,
and in front of a node that is exchanged in and not linked yet.  A run in which
no `pop` of a callback comes to such a place stops the watcher for a null
message only.
-/

namespace Sensor.AsyncQueue

open IntMpscQueue TransitionSystem

variable {Node Sender Command : Type*} [DecidableEq Node]

/-- The command a call of this step hands over with the node, `none` for a null
message. -/
def callOf (node : Node) :
    Label Node Sender Command → Option (Option Command)
  | .call _ other command => if other = node then some command else none
  | _ => none

/-- The command of the last call that enqueued `node`. -/
def lastCall (labels : List (Label Node Sender Command)) (node : Node) :
    Option (Option Command) :=
  (labels.filterMap (callOf node)).getLast?

/-- The steps at which no `pop` of a callback gives up. -/
def findsMessage (state : State Node Sender Command) :
    Label Node Sender Command → Bool
  | .callback =>
      match state.queue.consumer with
      | some pc => !frontOpen state.queue.memory pc
      | none => true
  | _ => true

theorem lastCall_concat {labels : List (Label Node Sender Command)}
    {label : Label Node Sender Command} {node : Node} :
    lastCall (labels ++ [label]) node =
      (callOf node label).or (lastCall labels node) := by
  rw [lastCall, List.filterMap_append, List.getLast?_append, lastCall]
  cases hcall : callOf node label <;> simp [hcall]

theorem lastCall_concat_isSome {labels : List (Label Node Sender Command)}
    {node : Node} (label : Label Node Sender Command)
    (hcalled : (lastCall labels node).isSome) :
    (lastCall (labels ++ [label]) node).isSome := by
  rw [lastCall_concat, Option.isSome_or, hcalled, Bool.or_true]

variable [DecidableEq Sender]

/-- The last step of the callback received the node its `pop` had returned, and
the last call for that node was a `nullmsg`. -/
def AnswersNull (start : State Node Sender Command)
    (labels : List (Label Node Sender Command)) : Prop :=
  ∃ first second node middle, labels = first ++ .callback :: second ∧
    .callback ∉ second ∧ (system Node Sender Command).Run start first middle ∧
    middle.callback = some (.receive (.client node)) ∧
    lastCall first node = some none

/-- What the labels so far say about a state. -/
structure History (start : State Node Sender Command)
    (labels : List (Label Node Sender Command))
    (state : State Node Sender Command) : Prop where
  self_eq : ∀ node command, lastCall labels node = some command →
    state.self (.client node) = command
  pushed : ∀ node, .client node ∈ state.queue.pushed →
    (lastCall labels node).isSome
  pushing : ∀ sender pc node, state.queue.producer sender = some pc →
    pc.node = .client node → (lastCall labels node).isSome
  received : ∀ node, state.callback = some (.receive node) →
    node ∈ state.queue.returned
  stopping : state.callback = some (.stop true) → AnswersNull start labels

variable {start state next : State Node Sender Command}
variable {labels : List (Label Node Sender Command)}

theorem AnswersNull.concat {label : Label Node Sender Command}
    (hanswers : AnswersNull start labels) (hlabel : label ≠ .callback) :
    AnswersNull start (labels ++ [label]) := by
  obtain ⟨first, second, node, middle, rfl, hsecond, hrun, hreceive, hcall⟩ :=
    hanswers
  refine ⟨first, second ++ [label], node, middle, by simp, ?_, hrun, hreceive,
    hcall⟩
  simp [hsecond, hlabel.symm]

theorem History.initial (heap : NodePtr Node → Option (NodePtr Node))
    (self : NodePtr Node → Option Command)
    (start : State Node Sender Command) :
    History start [] (State.initial heap self) where
  self_eq := by simp [lastCall]
  pushed := by simp [State.initial, IntMpscQueue.State.initial]
  pushing := by simp [State.initial, IntMpscQueue.State.initial]
  received := by simp [State.initial]
  stopping := by simp [State.initial]

/-! ## One step -/

theorem History.call (hhistory : History start labels state) {sender : Sender}
    {node : Node} {command : Option Command}
    (hstep : callSend state sender node command = some next) :
    History start (labels ++ [.call sender node command]) next := by
  obtain ⟨-, -, hpush, hnext⟩ := callSend_cases hstep
  obtain ⟨-, hqueue⟩ := Option.ite_none_right_eq_some.mp hpush
  rw [hnext, ← Option.some.inj hqueue]
  refine ⟨?_, ?_, ?_, hhistory.received, ?_⟩
  · intro other found hfound
    rw [lastCall_concat] at hfound
    by_cases heq : node = other
    · subst heq
      simpa [callOf] using hfound
    · have hself := hhistory.self_eq other found
        (by simpa [callOf, heq] using hfound)
      simpa [Ne.symm heq] using hself
  · exact fun other hother =>
      lastCall_concat_isSome _ (hhistory.pushed other hother)
  · intro other pc pushed hpc hnode
    rcases update_eq_some_iff.mp hpc with ⟨-, hvalue⟩ | ⟨-, hold⟩
    · cases hvalue
      cases hnode
      simp [lastCall_concat, callOf]
    · exact lastCall_concat_isSome _ (hhistory.pushing other pc pushed hold hnode)
  · exact fun hstop => (hhistory.stopping hstop).concat (by simp)

omit [DecidableEq Sender] in
theorem lastCall_concat_of_not_call {label : Label Node Sender Command}
    (hlabel : ∀ sender node command, label ≠ .call sender node command)
    (node : Node) : lastCall (labels ++ [label]) node = lastCall labels node := by
  rw [lastCall_concat]
  cases label with
  | call sender other command => exact absurd rfl (hlabel _ _ _)
  | _ => rfl

/-- A step that calls nothing and pushes only what is being pushed. -/
theorem History.keep (hhistory : History start labels state)
    {label : Label Node Sender Command}
    (hlabel : ∀ sender node command, label ≠ .call sender node command)
    (hself : next.self = state.self)
    (hpushed : ∀ node, node ∈ next.queue.pushed →
      node ∈ state.queue.pushed ∨ ∃ sender pc,
        state.queue.producer sender = some pc ∧ pc.node = node)
    (hproducer : ∀ sender pc, next.queue.producer sender = some pc →
      ∃ pc', state.queue.producer sender = some pc' ∧ pc.node = pc'.node)
    (hreceived : ∀ node, next.callback = some (.receive node) →
      node ∈ next.queue.returned)
    (hstopping : next.callback = some (.stop true) →
      AnswersNull start (labels ++ [label])) :
    History start (labels ++ [label]) next where
  self_eq := fun node command => by
    rw [lastCall_concat_of_not_call hlabel, hself]
    exact hhistory.self_eq node command
  pushed := fun node hnode => by
    rw [lastCall_concat_of_not_call hlabel]
    rcases hpushed _ hnode with hold | ⟨sender, pc, hpc, hpushing⟩
    · exact hhistory.pushed node hold
    · exact hhistory.pushing sender pc node hpc hpushing
  pushing := fun sender pc node hpc hnode => by
    rw [lastCall_concat_of_not_call hlabel]
    obtain ⟨pc', hold, hsame⟩ := hproducer sender pc hpc
    exact hhistory.pushing sender pc' node hold (hsame.symm.trans hnode)
  received := hreceived
  stopping := hstopping

theorem History.send (hhistory : History start labels state) {sender : Sender}
    (hstep : senderStep state sender = some next) :
    History start (labels ++ [.send sender]) next := by
  have hstopping : state.callback = some (.stop true) →
      AnswersNull start (labels ++ [.send sender]) :=
    fun hstop => (hhistory.stopping hstop).concat (by simp)
  rcases senderStep_cases hstep with ⟨command, -, hpush, hnext⟩ | ⟨-, rfl⟩
  · obtain ⟨pc, hpc, hqueue⟩ := Option.map_eq_some_iff.mp hpush
    rw [hnext, ← hqueue]
    refine hhistory.keep (by simp) rfl ?_ ?_ hhistory.received hstopping
    · intro node hnode
      rcases mem_recordPush hnode with hold | hnew
      · exact .inl hold
      · exact .inr ⟨sender, pc, hpc, hnew.symm⟩
    · intro other pc' hpc'
      rcases update_eq_some_iff.mp hpc' with ⟨rfl, hvalue⟩ | ⟨-, hold⟩
      · exact ⟨pc, hpc, pushStep_node hvalue⟩
      · exact ⟨pc', hold, rfl⟩
  · exact hhistory.keep (by simp) rfl (fun _ => .inl)
      (fun _ pc hpc => ⟨pc, hpc, rfl⟩) hhistory.received hstopping

theorem History.dispatch (hhistory : History start labels state)
    (hstep : AsyncQueue.dispatch state = some next) :
    History start (labels ++ [.dispatch]) next := by
  obtain ⟨-, -, hpop, hnext⟩ := dispatch_cases hstep
  obtain ⟨-, hqueue⟩ := Option.ite_none_right_eq_some.mp hpop
  rw [hnext, ← Option.some.inj hqueue]
  exact hhistory.keep (by simp) rfl (fun _ => .inl)
    (fun _ pc hpc => ⟨pc, hpc, rfl⟩) (by simp) (by simp)

/-- The callback stops the watcher behind the receipt of a null message only if
it stops it for one. -/
theorem History.callback (hhistory : History start labels state)
    (hinit : (system Node Sender Command).Init start)
    (hrun : (system Node Sender Command).Run start labels state)
    (hstep : callbackStep state = some next) :
    History start (labels ++ [.callback]) next := by
  have hpushing : ∀ sender pc, state.queue.producer sender = some pc →
      ∃ pc', state.queue.producer sender = some pc' ∧ pc.node = pc'.node :=
    fun _ pc hpc => ⟨pc, hpc, rfl⟩
  rcases callbackStep_cases hstep with
    ⟨pc, memory, pc', hplace, -, -, rfl⟩ |
    ⟨pc, memory, result, -, -, -, rfl⟩ | ⟨node, command, -, -, rfl⟩ |
    ⟨node, hplace, hself, rfl⟩ | ⟨null, -, rfl⟩
  · exact hhistory.keep (by simp) rfl (fun _ => .inl) hpushing
      (by simp [hplace]) (by simp [hplace])
  · refine hhistory.keep (by simp) rfl (fun _ => .inl) hpushing ?_ ?_
    · cases result <;> simp [afterPop]
    · cases result <;> simp [afterPop]
  · exact hhistory.keep (by simp) rfl (fun _ => .inl) hpushing (by simp)
      (by simp)
  · refine hhistory.keep (by simp) rfl (fun _ => .inl) hpushing (by simp)
      fun _ => ?_
    have hreceived := hhistory.received node hplace
    obtain ⟨chain, hqueue⟩ := IntMpscQueue.reachable_invariant
      (reachable_queue ((Reachable.init hinit).run hrun))
    cases node with
    | stub => exact absurd hreceived hqueue.returned_client
    | client node =>
        have hpushed : .client node ∈ state.queue.pushed := by
          rw [hqueue.fifo]
          exact List.mem_append_left _ hreceived
        obtain ⟨command, hcommand⟩ :=
          Option.isSome_iff_exists.mp (hhistory.pushed node hpushed)
        obtain rfl : none = command :=
          hself.symm.trans (hhistory.self_eq node command hcommand)
        exact ⟨labels, [], node, state, rfl, by simp, hrun, hplace, hcommand⟩
  · exact hhistory.keep (by simp) rfl (fun _ => .inl) hpushing
      (by simp [asyncStop]) (by simp [asyncStop])

theorem history_of_run (hinit : (system Node Sender Command).Init start)
    (hrun : (system Node Sender Command).Run start labels state) :
    History start labels state := by
  apply hrun.history
  · obtain ⟨heap, self, rfl⟩ := hinit
    exact History.initial heap self _
  · intro past before label after hpast hhistory hstep
    cases label with
    | call sender node command => exact hhistory.call hstep
    | send sender => exact hhistory.send hstep
    | dispatch => exact hhistory.dispatch hstep
    | callback => exact hhistory.callback hinit hpast hstep

/-! ## Runs in which every callback finds a message -/

/-- A step that finds a message does not lead to a stop without one. -/
theorem callback_ne_stop {label : Label Node Sender Command}
    (hfinds : findsMessage state label = true)
    (hstop : state.callback ≠ some (.stop false))
    (hstep : step state label = some next) :
    next.callback ≠ some (.stop false) := by
  cases label with
  | call sender node command =>
      obtain ⟨-, -, -, hnext⟩ := callSend_cases hstep
      rw [hnext]
      exact hstop
  | send sender =>
      rcases senderStep_cases hstep with ⟨command, -, -, hnext⟩ | ⟨-, rfl⟩
      · rw [hnext]
        exact hstop
      · exact hstop
  | dispatch =>
      obtain ⟨-, -, -, hnext⟩ := dispatch_cases hstep
      rw [hnext]
      simp
  | callback =>
      rcases callbackStep_cases hstep with
        ⟨pc, memory, pc', -, -, -, rfl⟩ |
        ⟨pc, memory, result, -, hpc, hpop, rfl⟩ | ⟨node, command, -, -, rfl⟩ |
        ⟨node, -, -, rfl⟩ | ⟨null, -, rfl⟩
      · exact hstop
      · have hfront : frontOpen state.queue.memory pc = false := by
          simpa [findsMessage, hpc] using hfinds
        have hpopped := popStep_ne_none hfront
        rw [hpop] at hpopped
        cases result with
        | none => exact absurd rfl hpopped
        | some node => simp [afterPop]
      · simp
      · simp
      · simp [asyncStop]

/-- A step that stops the watcher is the last of a callback. -/
theorem stop_of_active {label : Label Node Sender Command}
    (hactive : state.active = true) (hstopped : next.active = false)
    (hstep : step state label = some next) :
    ∃ null, state.callback = some (.stop null) := by
  have hchanged : next.active ≠ state.active := by
    rw [hactive, hstopped]
    simp
  cases label with
  | call sender node command =>
      obtain ⟨-, -, -, hnext⟩ := callSend_cases hstep
      rw [hnext] at hchanged
      exact absurd rfl hchanged
  | send sender =>
      rcases senderStep_cases hstep with ⟨command, -, -, hnext⟩ | ⟨-, rfl⟩
      · rw [hnext] at hchanged
        exact absurd rfl hchanged
      · exact absurd rfl hchanged
  | dispatch =>
      obtain ⟨-, -, -, hnext⟩ := dispatch_cases hstep
      rw [hnext] at hchanged
      exact absurd rfl hchanged
  | callback =>
      rcases callbackStep_cases hstep with
        ⟨pc, memory, pc', -, -, -, rfl⟩ | ⟨pc, memory, result, -, -, -, rfl⟩ |
        ⟨node, command, -, -, rfl⟩ | ⟨node, -, -, rfl⟩ | ⟨null, hplace, -⟩
      · exact absurd rfl hchanged
      · exact absurd rfl hchanged
      · exact absurd rfl hchanged
      · exact absurd rfl hchanged
      · exact ⟨null, hplace⟩

omit [DecidableEq Sender] in
/-- A `pop` of a callback that gives up stops the watcher at the callback's next
step. -/
theorem stops_of_frontOpen {pc : PopPc Node}
    (hplace : state.callback = some .pop)
    (hpc : state.queue.consumer = some pc)
    (hgives : (popStep state.queue.memory pc).2 = .done none) :
    ∃ middle next, callbackStep state = some middle ∧
      middle.callback = some (.stop false) ∧
      callbackStep middle = some next ∧ next.active = false := by
  obtain ⟨middle, hmiddle⟩ : ∃ middle, callbackStep state = some middle := by
    simp [callbackStep, hplace, hpc, consumerStep]
  have hstop : middle.callback = some (.stop false) := by
    simp only [callbackStep, hplace, hpc, hgives, Option.bind_some] at hmiddle
    obtain ⟨queue, -, rfl⟩ := Option.map_eq_some_iff.mp hmiddle
    rfl
  refine ⟨middle, asyncStop { middle with
    callback := none, stoppedByNull := middle.stoppedByNull || false },
    hmiddle, hstop, ?_, rfl⟩
  simp only [callbackStep, hstop]

/-! ## The main result -/

/-- In a run in which no `pop` of a callback finds the front of the queue open,
a step that stops the watcher is the end of a callback whose `pop` returned a
node last enqueued by `nullmsg`. -/
theorem stops_for_null_of_findsMessage
    (hinit : (system Node Sender Command).Init start)
    (hrun : ((system Node Sender Command).restrict
      fun state label => findsMessage state label = true).Run start labels state)
    {label : Label Node Sender Command} (hactive : state.active = true)
    (hstep : step state label = some next) (hstopped : next.active = false) :
    AnswersNull start labels := by
  obtain ⟨null, hplace⟩ := stop_of_active hactive hstopped hstep
  have hnever : state.callback ≠ some (.stop false) := by
    apply hrun.preserves (fun _ => True)
      (fun state => state.callback ≠ some (.stop false))
    · exact fun _ _ _ _ hstop hnext => callback_ne_stop hnext.1 hstop hnext.2
    · exact fun _ _ => trivial
    · obtain ⟨heap, self, rfl⟩ := hinit
      simp [State.initial]
  cases null with
  | false => exact absurd hplace hnever
  | true => exact (history_of_run hinit hrun.of_restrict).stopping hplace

/-- A thread calls `nullmsg`, and the loop runs the callback up to its stop. -/
def nullmsgThenCallback : List (Label ℕ ℕ ℕ) :=
  .call 0 7 none :: List.replicate 3 (.send 0) ++
    .dispatch :: List.replicate 11 .callback

theorem stops_for_null_of_findsMessage_nullmsg :
    ∃ state next : State ℕ ℕ ℕ, step state .callback = some next ∧
      next.active = false ∧
      AnswersNull (.initial (fun _ => none) fun _ => none)
        nullmsgThenCallback := by
  let start : State ℕ ℕ ℕ := .initial (fun _ => none) fun _ => none
  let state := (execute (guardStep findsMessage step) start
    nullmsgThenCallback).get rfl
  let next := (step state .callback).get rfl
  have hexecute : execute (guardStep findsMessage step) start
      nullmsgThenCallback = some state := rfl
  have hrun : ((system ℕ ℕ ℕ).restrict
      fun state label => findsMessage state label = true).Run start
        nullmsgThenCallback state := run_restrict_of_execute hexecute
  have hstep : step state .callback = some next := rfl
  have hstopped : next.active = false := rfl
  exact ⟨state, next, hstep, hstopped,
    stops_for_null_of_findsMessage ⟨_, _, rfl⟩ hrun rfl hstep hstopped⟩

/-- A callback on a queue no message was ever put in stops the watcher. -/
theorem not_stops_for_null : ¬ ∀ (start state next : State ℕ ℕ ℕ)
    (labels : List (Label ℕ ℕ ℕ)) (label : Label ℕ ℕ ℕ),
    (system ℕ ℕ ℕ).Init start → (system ℕ ℕ ℕ).Run start labels state →
      state.active = true → step state label = some next →
        next.active = false → AnswersNull start labels := by
  intro hstops
  let start : State ℕ ℕ ℕ := .initial (fun _ => none) fun _ => none
  let labels : List (Label ℕ ℕ ℕ) := [.dispatch, .callback, .callback]
  let state := (execute step start labels).get rfl
  let next := (step state .callback).get rfl
  have hrun : (system ℕ ℕ ℕ).Run start labels state := run_of_execute rfl
  obtain ⟨first, second, node, middle, hlabels, -, -, -, hcall⟩ :=
    hstops start state next labels .callback ⟨_, _, rfl⟩ hrun rfl rfl rfl
  have hnone : labels.filterMap (callOf node) = [] := rfl
  rw [hlabels, List.filterMap_append, List.append_eq_nil_iff] at hnone
  rw [lastCall, hnone.1] at hcall
  cases hcall

end Sensor.AsyncQueue
