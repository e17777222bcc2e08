import Mathlib
import Sensor.Queue.IntMpscFifo
import Sensor.Service.AsyncQueueDelivery

/-!
# The order of the messages of an event loop

Every message has the node that carries it.  The loop receives the messages in
the order of their exchanges, each once, whatever it executes and however often
the watcher was stopped, and no thread touches a node that was deleted.
-/

namespace Sensor.AsyncQueue

open IntMpscQueue TransitionSystem

variable {Node Sender Command : Type*} [DecidableEq Node] [DecidableEq Sender]

/-- The message a step puts into the queue: the exchange of `push` does, and
the message is the command of the node. -/
def sent (state : State Node Sender Command) :
    Label Node Sender Command → List (Option Command)
  | .send sender =>
      match state.sender sender, state.queue.producer sender with
      | some (.push _), some (.exchange node) => [state.self node]
      | _, _ => []
  | _ => []

/-- The nodes put into the queue that `pop` has not returned. -/
def State.waiting (state : State Node Sender Command) : List (NodePtr Node) :=
  state.queue.pushed.drop state.queue.returned.length

/-- The message of the node the callback has at hand. -/
def State.atHand (state : State Node Sender Command) : List (Option Command) :=
  match state.callback with
  | some (.receive node) => [state.self node]
  | _ => []

/-- The messages sent are those received, one for each node `pop` returned, and
those of the nodes that wait; the commands among those received are executed up
to the one at hand; and every node the queue uses is allocated and carries its
message. -/
structure Ordered (state : State Node Sender Command)
    (messages received : List (Option Command)) : Prop where
  sent_eq : messages = received ++ state.waiting.map state.self
  length_eq : received.length = state.queue.returned.length
  executed_eq : ∃ done, state.executed = done.reduceOption ∧
    received = done ++ state.atHand
  live : ∀ node, state.queue.inUse node = true → state.live node = true
  received_live : ∀ node, state.callback = some (.receive node) →
    ∃ own, node = .client own ∧ state.live own = true ∧
      state.queue.inUse own = false

variable {state next : State Node Sender Command}
variable {messages received : List (Option Command)}

omit [DecidableEq Sender] in
theorem Ordered.initial (heap : NodePtr Node → Option (NodePtr Node))
    (self : NodePtr Node → Option Command) :
    Ordered (State.initial heap self : State Node Sender Command) [] [] where
  sent_eq := rfl
  length_eq := rfl
  executed_eq := ⟨[], rfl, rfl⟩
  live := by simp [State.initial, IntMpscQueue.State.initial]
  received_live := by simp [State.initial]

omit [DecidableEq Node] [DecidableEq Sender] in
theorem atHand_of_not_receive
    (hcallback : ∀ node, state.callback ≠ some (.receive node)) :
    state.atHand = [] := by
  rw [State.atHand]
  split
  case h_1 node hnode => exact absurd hnode (hcallback node)
  case h_2 => rfl

omit [DecidableEq Node] [DecidableEq Sender] in
theorem atHand_congr (hcallback : next.callback = state.callback)
    (hself : ∀ node, state.callback = some (.receive node) →
      next.self node = state.self node) : next.atHand = state.atHand := by
  rw [State.atHand, State.atHand, hcallback]
  split
  case h_1 node hnode => rw [hself node hnode]
  case h_2 => rfl

/-- What waits has been put in and not been returned. -/
theorem pushed_eq (hreach : (system Node Sender Command).Reachable state) :
    state.queue.pushed = state.queue.returned ++ state.waiting := by
  obtain ⟨chain, hqueue⟩ :=
    IntMpscQueue.reachable_invariant (reachable_queue hreach)
  rw [State.waiting, hqueue.fifo, List.drop_left]

/-- The nodes that wait are client nodes in use. -/
theorem inUse_of_waiting (hreach : (system Node Sender Command).Reachable state)
    {node : NodePtr Node} (hmem : node ∈ state.waiting) :
    ∃ own, node = .client own ∧ state.queue.inUse own = true := by
  obtain ⟨chain, hqueue⟩ :=
    IntMpscQueue.reachable_invariant (reachable_queue hreach)
  rw [State.waiting, hqueue.fifo, List.drop_left, List.mem_filter] at hmem
  cases node with
  | stub => simp at hmem
  | client own => exact ⟨own, rfl, hqueue.chain_inUse own hmem.1⟩

omit [DecidableEq Node] [DecidableEq Sender] in
/-- A step that moves no message. -/
theorem Ordered.keep (hordered : Ordered state messages received)
    (hpushed : next.queue.pushed = state.queue.pushed)
    (hreturned : next.queue.returned = state.queue.returned)
    (hinUse : next.queue.inUse = state.queue.inUse)
    (hself : next.self = state.self) (hlive : next.live = state.live)
    (hexecuted : next.executed = state.executed)
    (hcallback : ∀ node, next.callback = some (.receive node) ↔
      state.callback = some (.receive node)) :
    Ordered next messages received where
  sent_eq := by
    rw [hordered.sent_eq, State.waiting, State.waiting, hpushed, hreturned,
      hself]
  length_eq := by rw [hreturned, hordered.length_eq]
  executed_eq := by
    have hatHand : next.atHand = state.atHand := by
      by_cases hreceive : ∃ node, state.callback = some (.receive node)
      · obtain ⟨node, hnode⟩ := hreceive
        rw [State.atHand, State.atHand, hnode, (hcallback node).mpr hnode,
          hself]
      · rw [not_exists] at hreceive
        rw [atHand_of_not_receive hreceive, atHand_of_not_receive]
        exact fun node hnode => hreceive node ((hcallback node).mp hnode)
    rw [hatHand, hexecuted]
    exact hordered.executed_eq
  live := by
    rw [hinUse, hlive]
    exact hordered.live
  received_live := by
    intro node hnode
    rw [hinUse, hlive]
    exact hordered.received_live node ((hcallback node).mp hnode)

/-! ## One step -/

/-- A call takes a node that is not allocated, so no message changes. -/
theorem Ordered.call (hreach : (system Node Sender Command).Reachable state)
    (hordered : Ordered state messages received) {sender : Sender}
    {node : Node} {command : Option Command}
    (hstep : callSend state sender node command = some next) :
    Ordered next messages received := by
  obtain ⟨-, hdead, hpush, hnext⟩ := callSend_cases hstep
  obtain ⟨-, hqueue⟩ := Option.ite_none_right_eq_some.mp hpush
  have hself : ∀ own, state.live own = true →
      Function.update state.self (.client node) command (.client own) =
        state.self (.client own) := by
    intro own hlive
    apply Function.update_of_ne
    rintro heq
    cases heq
    rw [hdead] at hlive
    cases hlive
  have hwaiting : next.waiting = state.waiting := by
    rw [hnext, ← Option.some.inj hqueue]
    rfl
  rw [← Option.some.inj hqueue] at hnext
  constructor
  · rw [hordered.sent_eq, hwaiting, hnext]
    congr 1
    apply List.map_congr_left
    intro other hother
    obtain ⟨own, rfl, hinUse⟩ := inUse_of_waiting hreach hother
    exact (hself own (hordered.live own hinUse)).symm
  · rw [hnext]
    exact hordered.length_eq
  · have hatHand : next.atHand = state.atHand := by
      apply atHand_congr (by rw [hnext])
      intro received hreceived
      obtain ⟨own, rfl, hlive, -⟩ := hordered.received_live _ hreceived
      rw [hnext]
      exact hself own hlive
    rw [hatHand, hnext]
    exact hordered.executed_eq
  · intro own hinUse
    rw [hnext] at hinUse ⊢
    dsimp only at hinUse ⊢
    by_cases heq : own = node
    · rw [heq, Function.update_self]
    · rw [Function.update_of_ne heq] at hinUse ⊢
      exact hordered.live own hinUse
  · intro received hreceived
    rw [hnext] at hreceived ⊢
    obtain ⟨own, rfl, hlive, hinUse⟩ := hordered.received_live _ hreceived
    have hne : own ≠ node := by
      rintro rfl
      rw [hdead] at hlive
      cases hlive
    exact ⟨own, rfl, by simpa [hne] using hlive, by simpa [hne] using hinUse⟩

/-- The exchange of `push` sends the message of its node. -/
theorem Ordered.send (hreach : (system Node Sender Command).Reachable state)
    (hordered : Ordered state messages received) {sender : Sender}
    (hstep : senderStep state sender = some next) :
    Ordered next (messages ++ sent state (.send sender)) received := by
  rcases senderStep_cases hstep with
    ⟨command, hplace, hpush, hnext⟩ | ⟨hplace, rfl⟩
  · obtain ⟨pc, hpc, hqueue⟩ := Option.map_eq_some_iff.mp hpush
    rw [← hqueue] at hnext
    cases pc with
    | exchange node =>
        have hwaiting : next.waiting = state.waiting ++ [node] := by
          have hpushed : next.queue.pushed =
              state.queue.returned ++ (state.waiting ++ [node]) := by
            rw [hnext, ← List.append_assoc, ← pushed_eq hreach]
            rfl
          have hreturned : next.queue.returned = state.queue.returned := by
            rw [hnext]
          rw [State.waiting, hpushed, hreturned, List.drop_left]
        constructor
        · rw [hordered.sent_eq, hwaiting, hnext, sent, hplace, hpc, List.map_append,
            List.append_assoc]
          rfl
        · rw [hnext]
          exact hordered.length_eq
        · rw [hnext]
          exact hordered.executed_eq
        · rw [hnext]
          exact hordered.live
        · rw [hnext]
          exact hordered.received_live
    | clearNext node =>
        rw [sent, hplace, hpc, List.append_nil, hnext]
        exact hordered.keep rfl rfl rfl rfl rfl rfl fun _ => Iff.rfl
    | linkPrev node prev =>
        rw [sent, hplace, hpc, List.append_nil, hnext]
        exact hordered.keep rfl rfl rfl rfl rfl rfl fun _ => Iff.rfl
  · rw [sent, hplace, List.append_nil]
    exact hordered.keep rfl rfl rfl rfl rfl rfl fun _ => Iff.rfl

/-- `pop` returned a node: its message is received. -/
theorem Ordered.pop (hreach : (system Node Sender Command).Reachable state)
    (hnext : (system Node Sender Command).Reachable next)
    (hordered : Ordered state messages received)
    {node : NodePtr Node} (hplace : state.callback = some .pop)
    (hpushed : next.queue.pushed = state.queue.pushed)
    (hreturned : next.queue.returned = state.queue.returned ++ [node])
    (hrelease : next.queue.inUse =
      IntMpscQueue.release state.queue.inUse (some node))
    (hself : next.self = state.self) (hlive : next.live = state.live)
    (hexecuted : next.executed = state.executed)
    (hcallback : next.callback = some (.receive node)) :
    Ordered next messages (received ++ [state.self node]) := by
  have hwaiting : state.waiting = node :: next.waiting := by
    have hbefore := pushed_eq hreach
    have hafter := pushed_eq hnext
    rw [hpushed, hreturned, hbefore, List.append_assoc] at hafter
    exact List.append_cancel_left hafter
  have hmem : node ∈ state.waiting := by
    rw [hwaiting]
    exact List.mem_cons_self
  obtain ⟨own, rfl, hinUse⟩ := inUse_of_waiting hreach hmem
  have hatHand : state.atHand = [] := by
    apply atHand_of_not_receive
    simp [hplace]
  obtain ⟨done, hdone, hreceived⟩ := hordered.executed_eq
  rw [hatHand, List.append_nil] at hreceived
  subst hreceived
  constructor
  · rw [hordered.sent_eq, hwaiting, hself, List.map_cons, List.append_assoc,
      List.singleton_append]
  · rw [hreturned, List.length_append, List.length_append, hordered.length_eq,
      List.length_singleton, List.length_singleton]
  · refine ⟨received, hexecuted.trans hdone, ?_⟩
    rw [State.atHand, hcallback, hself]
  · intro other hother
    rw [hrelease] at hother
    rw [hlive]
    apply hordered.live
    by_cases hne : other = own
    · rw [hne]
      exact hinUse
    · rwa [IntMpscQueue.release, Function.update_of_ne hne] at hother
  · intro other hother
    rw [hcallback] at hother
    cases hother
    refine ⟨own, rfl, ?_, ?_⟩
    · rw [hlive]
      exact hordered.live own hinUse
    · rw [hrelease]
      exact Function.update_self ..

omit [DecidableEq Sender] in
/-- The message at hand is executed, or it is a null message, and its node is
deleted. -/
theorem Ordered.receive (hordered : Ordered state messages received)
    {node : NodePtr Node} (hplace : state.callback = some (.receive node))
    (hqueue : next.queue = state.queue) (hself : next.self = state.self)
    (hlive : next.live = IntMpscQueue.release state.live (some node))
    (hexecuted : next.executed =
      state.executed ++ (state.self node).toList)
    (hcallback : ∀ node, next.callback ≠ some (.receive node)) :
    Ordered next messages received := by
  obtain ⟨own, rfl, -, hfree⟩ := hordered.received_live node hplace
  obtain ⟨done, hdone, hreceived⟩ := hordered.executed_eq
  have hatHand : state.atHand = [state.self (.client own)] := by
    rw [State.atHand, hplace]
  rw [hatHand] at hreceived
  constructor
  · rw [hordered.sent_eq, State.waiting, State.waiting, hqueue, hself]
  · rw [hordered.length_eq, hqueue]
  · refine ⟨received, ?_, ?_⟩
    · rw [hexecuted, hdone, hreceived, List.reduceOption_append,
        List.reduceOption_singleton]
    · rw [atHand_of_not_receive hcallback, List.append_nil]
  · intro other hother
    rw [hqueue] at hother
    have hne : other ≠ own := by
      rintro rfl
      rw [hfree] at hother
      cases hother
    rw [hlive, IntMpscQueue.release, Function.update_of_ne hne]
    exact hordered.live other hother
  · exact fun other hother => absurd hother (hcallback other)

theorem Ordered.callback
    (hreach : (system Node Sender Command).Reachable state)
    (hnext : (system Node Sender Command).Reachable next)
    (hordered : Ordered state messages received)
    (hstep : callbackStep state = some next) :
    ∃ received', Ordered next messages received' := by
  rcases callbackStep_cases hstep with
    ⟨pc, memory, pc', hplace, -, -, rfl⟩ |
    ⟨pc, memory, result, hplace, -, -, heq⟩ |
    ⟨node, command, hplace, hself, rfl⟩ | ⟨node, hplace, hself, rfl⟩ |
    ⟨null, hplace, rfl⟩
  · exact ⟨received, hordered.keep rfl rfl rfl rfl rfl rfl fun _ => Iff.rfl⟩
  · cases result with
    | none =>
        have hreturned : next.queue.returned = state.queue.returned := by
          rw [heq]
          exact List.append_nil _
        refine ⟨received, hordered.keep ?_ hreturned ?_ ?_ ?_ ?_ ?_⟩
        · rw [heq]
        · rw [heq]
          rfl
        · rw [heq]
        · rw [heq]
        · rw [heq]
        · rw [heq]
          simp [hplace, afterPop]
    | some node =>
        have hcallback : next.callback = some (.receive node) := by
          rw [heq]
          rfl
        have hreturned : next.queue.returned =
            state.queue.returned ++ [node] := by
          rw [heq]
          rfl
        refine ⟨_, hordered.pop hreach hnext hplace ?_ hreturned ?_ ?_ ?_ ?_
          hcallback⟩
        · rw [heq]
        · rw [heq]
        · rw [heq]
        · rw [heq]
        · rw [heq]
  · refine ⟨received, hordered.receive hplace rfl rfl rfl ?_ ?_⟩
    · rw [hself, Option.toList_some]
    · simp
  · refine ⟨received, hordered.receive hplace rfl rfl rfl ?_ ?_⟩
    · rw [hself, Option.toList_none, List.append_nil]
    · simp
  · refine ⟨received, hordered.keep rfl rfl rfl rfl rfl rfl ?_⟩
    simp [hplace, asyncStop]

/-! ## The main results -/

/-- The system beside the messages sent, in the order of their exchanges. -/
def sending (Node Sender Command : Type*) [DecidableEq Node]
    [DecidableEq Sender] :
    TransitionSystem (State Node Sender Command × List (Option Command))
      (Label Node Sender Command) :=
  (system Node Sender Command).recording sent

theorem exists_ordered
    (hreach : (sending Node Sender Command).Reachable (state, messages)) :
    ∃ received, Ordered state messages received := by
  generalize hrecorded : (state, messages) = recorded at hreach
  suffices hordered : ∃ received, Ordered recorded.1 recorded.2 received by
    rw [← hrecorded] at hordered
    exact hordered
  clear hrecorded
  induction hreach with
  | init hinit =>
      obtain ⟨⟨heap, self, hstate⟩, hmessages⟩ := hinit
      rw [hstate, hmessages]
      exact ⟨[], Ordered.initial heap self⟩
  | @step before after label hbefore hstep ih =>
      obtain ⟨received, hordered⟩ := ih
      obtain ⟨hnext, hmessages⟩ := hstep
      have hreach := hbefore.of_recording
      rw [hmessages]
      cases label with
      | call sender node command =>
          change ∃ received, Ordered _ (before.2 ++ []) received
          rw [List.append_nil]
          exact ⟨received, hordered.call hreach hnext⟩
      | send sender => exact ⟨received, hordered.send hreach hnext⟩
      | dispatch =>
          obtain ⟨-, hidle, hpop, heq⟩ := dispatch_cases hnext
          obtain ⟨-, hqueue⟩ := Option.ite_none_right_eq_some.mp hpop
          rw [← Option.some.inj hqueue] at heq
          change ∃ received, Ordered _ (before.2 ++ []) received
          rw [List.append_nil, heq]
          refine ⟨received, hordered.keep rfl rfl rfl rfl rfl rfl ?_⟩
          simp [hidle]
      | callback =>
          change ∃ received, Ordered _ (before.2 ++ []) received
          rw [List.append_nil]
          exact hordered.callback hreach (hreach.step hnext) hnext

/-- The node at hand is a client node that is allocated. -/
theorem received_live (hreach : (system Node Sender Command).Reachable state)
    {node : NodePtr Node} (hnode : state.callback = some (.receive node)) :
    ∃ own, node = .client own ∧ state.live own = true := by
  obtain ⟨messages, hrecorded⟩ := hreach.exists_recording sent
  obtain ⟨received, hordered⟩ := exists_ordered hrecorded
  obtain ⟨own, hown, hlive, -⟩ := hordered.received_live node hnode
  exact ⟨own, hown, hlive⟩

/-- The messages sent, in the order of the exchanges, are those of the nodes
`pop` returned and those of the nodes that wait; and of the former all but the
one at hand are executed, each once and in this order, where null messages are
passed over. -/
theorem executes_in_order
    (hreach : (sending Node Sender Command).Reachable (state, messages)) :
    ∃ received done,
      received.length = state.queue.returned.length ∧
        messages = received ++ state.waiting.map state.self ∧
        received = done ++ state.atHand ∧
        state.executed = done.reduceOption := by
  obtain ⟨received, hordered⟩ := exists_ordered hreach
  obtain ⟨done, hexecuted, hreceived⟩ := hordered.executed_eq
  exact ⟨received, done, hordered.length_eq, hordered.sent_eq, hreceived,
    hexecuted⟩

/-- The node whose `next` field the next step of `pop` reads or writes. -/
def touches : PopPc Node → Option (NodePtr Node)
  | .loadNext h => some h
  | .reloadNext h => some h
  | .pushStub _ pc => pc.touches
  | .lastNext h => some h
  | _ => none

omit [DecidableEq Sender] in
/-- A client node `pop` touches is in use. -/
theorem inUse_of_touches {queue : IntMpscQueue.State Node Sender}
    {chain : List (NodePtr Node)} (hqueue : IntMpscQueue.Invariant queue chain)
    {pc : PopPc Node} (hpc : queue.consumer = some pc) {node : Node}
    (htouches : touches pc = some (.client node)) :
    queue.inUse node = true := by
  apply hqueue.chain_inUse
  have hvalid := hqueue.consumer_valid pc hpc
  have hhead := hqueue.head_mem
  cases pc with
  | loadNext h =>
      cases htouches
      rwa [← show .client node = queue.memory.head from hvalid] at hhead
  | reloadNext h =>
      cases htouches
      rwa [← hvalid.1] at hhead
  | lastNext h =>
      cases htouches
      rwa [← hvalid.1] at hhead
  | pushStub h pc =>
      obtain ⟨-, -, hstub, -⟩ := hvalid
      cases pc with
      | clearNext next =>
          obtain rfl : next = .stub := hstub
          cases htouches
      | exchange next => cases htouches
      | linkPrev next prev =>
          cases htouches
          exact (hqueue.linked.gap _ next (.inr ⟨h, hpc⟩)).1.left_mem
  | loadHead => cases htouches
  | skipStub n => cases htouches
  | takeHead h n => cases htouches
  | loadTail h => cases htouches

/-- No node is touched after its deletion: the nodes that `push` and `pop` read
and write and the node that `receive` reads and deletes are allocated. -/
theorem live_of_touched
    (hreach : (system Node Sender Command).Reachable state) :
    (∀ sender pc node, state.queue.producer sender = some pc →
      pc.touches = some (.client node) → state.live node = true) ∧
    (∀ pc node, state.queue.consumer = some pc →
      touches pc = some (.client node) → state.live node = true) ∧
    ∀ node, state.callback = some (.receive node) →
      ∃ own, node = .client own ∧ state.live own = true := by
  obtain ⟨messages, hrecorded⟩ := hreach.exists_recording sent
  obtain ⟨received, hordered⟩ := exists_ordered hrecorded
  obtain ⟨chain, hqueue⟩ :=
    IntMpscQueue.reachable_invariant (reachable_queue hreach)
  refine ⟨?_, ?_, ?_⟩
  · intro sender pc node hpc htouches
    by_contra hdead
    have hfree : state.queue.inUse node = false := by
      rw [← Bool.not_eq_true]
      exact fun hinUse => hdead (hordered.live node hinUse)
    exact hqueue.not_touched hfree hpc htouches
  · intro pc node hpc htouches
    exact hordered.live node (inUse_of_touches hqueue hpc htouches)
  · exact fun node hnode => received_live hreach hnode

/-- A thread sends two commands around a null message, and two callbacks receive
the first two; the null message stops the watcher. -/
def commandAndNull : List (Label ℕ ℕ ℕ) :=
  .call 0 7 (some 1) :: List.replicate 4 (.send 0) ++
    .call 0 8 none :: List.replicate 3 (.send 0) ++
    .call 0 9 (some 2) :: List.replicate 4 (.send 0) ++
    .dispatch :: List.replicate 6 .callback ++
    .dispatch :: List.replicate 5 .callback

theorem executes_in_order_commandAndNull :
    ∃ received done : List (Option ℕ), received.length = 2 ∧
      [some 1, none, some 2] = received ++ [some 2] ∧ received = done ++ [] ∧
      [1] = done.reduceOption := by
  let start : State ℕ ℕ ℕ := .initial (fun _ => none) fun _ => none
  have hrun : (execute (executeRecording step sent) (start, [])
      commandAndNull).map (fun final =>
        ([final.2, final.1.waiting.map final.1.self, final.1.atHand],
          final.1.queue.returned.length, final.1.executed)) =
      some ([[some 1, none, some 2], [some 2], []], 2, [1]) := by
    decide +kernel
  obtain ⟨⟨state, messages⟩, hexecute, heq⟩ := Option.map_eq_some_iff.mp hrun
  simp only [Prod.mk.injEq, List.cons.injEq, and_true] at heq
  obtain ⟨⟨hmessages, hwaiting, hatHand⟩, hreturned, hexecuted⟩ := heq
  have hinit : (sending ℕ ℕ ℕ).Init (start, []) := ⟨⟨_, _, rfl⟩, rfl⟩
  have hreach := (Reachable.init hinit).execute_recording hexecute
  have horder := executes_in_order hreach
  rwa [hmessages, hreturned, hwaiting, hatHand, hexecuted] at horder

theorem live_of_touched_commandAndNull : ∃ state : State ℕ ℕ ℕ,
    state.callback = some (.receive (.client 7)) ∧ state.live 7 = true := by
  let start : State ℕ ℕ ℕ := .initial (fun _ => none) fun _ => none
  let state := (execute step start (commandAndNull.take 20)).get rfl
  have hexecute : execute step start (commandAndNull.take 20) =
      some state := rfl
  have hreach : (system ℕ ℕ ℕ).Reachable state :=
    reachable_of_execute ⟨_, _, rfl⟩ hexecute
  have hreceive : state.callback = some (.receive (.client 7)) := rfl
  obtain ⟨own, hown, hlive⟩ := (live_of_touched hreach).2.2 _ hreceive
  cases hown
  exact ⟨state, hreceive, hlive⟩

end Sensor.AsyncQueue
