import Mathlib
import Sensor.Service.AsyncRequest

/-!
# The answers of an event loop

A request is carried by one node until the loop has called its function, stored
the result in its promise, and deleted it.  So the function of a request is
called at most once, in the order of the exchanges, every thread that waits on
its future gets its result, and none of them gets one behind a stopped watcher.
-/

namespace Sensor.AsyncRequest

open IntMpscQueue TransitionSystem

variable {Node Sender Waiter Task Request Value : Type*}

/-- The places of the setter behind the call of `set_value`. -/
def isCalled : Future.SetterPc Value → Bool
  | .idle => false
  | _ => true

/-- A node that is allocated and carries a request. -/
def Carries (queue : AsyncQueue.State Node Sender (Message Task Request))
    (node : Node) (request : Request) : Prop :=
  queue.live node = true ∧
    queue.self (.client node) = some (.request request)

/-- The requests the loop is through with. -/
def State.answered (state : State Node Sender Waiter Task Request Value) :
    List Request :=
  state.queue.executed.filterMap Message.request?

/-- The request at hand, once its function returned. -/
def State.answering (state : State Node Sender Waiter Task Request Value) :
    List Request :=
  state.atHand.toList.filter fun request =>
    isCalled (state.future request).setter

/-- The steps of a thread that waits leave the setter alone. -/
def IsWait : Future.Label Waiter Value → Prop
  | .callWait _ _ => True
  | .wait _ => True
  | .wake _ => True
  | _ => False

/-- A request is carried by one node until the loop is through with it, its
future is new until its function returned, and its promise is set behind it. -/
structure Invariant (state : State Node Sender Waiter Task Request Value) :
    Prop where
  unissued : ∀ request, state.issued request = false →
    state.future request = .initial
  argument_iff : ∀ request value, (request, value) ∈ state.applied ↔
    (state.future request).argument = some value
  carried_issued : ∀ node request, Carries state.queue node request →
    state.issued request = true
  carried_unique : ∀ node other request, Carries state.queue node request →
    Carries state.queue other request → node = other
  carried_new : ∀ node request, Carries state.queue node request →
    request ∉ state.answered
  answered_issued : ∀ request ∈ state.answered, state.issued request = true
  answered_nodup : state.answered.Nodup
  answered_finished : ∀ request ∈ state.answered,
    (state.future request).setter = .finished
  applied_eq : state.applied.map Prod.fst = state.answered ++ state.answering

variable [DecidableEq Node] [DecidableEq Sender] [DecidableEq Waiter]
variable [DecidableEq Request]
variable {state next : State Node Sender Waiter Task Request Value}

/-! ## What the futures know of the loop -/

/-- A thread that waits leaves the setter alone. -/
theorem setter_of_wait {before after : Future.State Waiter Value}
    {label : Future.Label Waiter Value} (hwait : IsWait label)
    (hstep : Future.step before label = some after) :
    after.setter = before.setter ∧ after.argument = before.argument := by
  cases label with
  | callWait waiter call =>
      rw [Future.step, Future.callWait] at hstep
      split at hstep
      · cases hstep
      · cases hstep
        exact ⟨rfl, rfl⟩
  | wait waiter =>
      obtain ⟨pc, -, hfrom⟩ := Option.bind_eq_some_iff.mp hstep
      unfold Future.waitFrom at hfrom
      split at hfrom
      case h_1 | h_6 =>
        obtain ⟨locked, hlock, rfl⟩ := Option.map_eq_some_iff.mp hfrom
        obtain ⟨-, hlocked⟩ := Option.ite_none_right_eq_some.mp hlock
        cases hlocked
        exact ⟨rfl, rfl⟩
      case h_5 => cases hfrom
      all_goals
        cases hfrom
        exact ⟨rfl, rfl⟩
  | wake waiter =>
      rw [Future.step, Future.wakeStep] at hstep
      split at hstep
      · cases hstep
        exact ⟨rfl, rfl⟩
      · cases hstep
  | callSetValue value => exact hwait.elim
  | setValue => exact hwait.elim

omit [DecidableEq Waiter] in
/-- A step of `set_value` stays in it and keeps its argument. -/
theorem setter_of_setValue {before after : Future.State Waiter Value}
    (hstep : Future.setValueStep before = some after) :
    after.argument = before.argument ∧
      isCalled after.setter = isCalled before.setter ∧
      before.setter ≠ .finished := by
  rw [Future.setValueStep] at hstep
  split at hstep
  case h_1 | h_7 => cases hstep
  case h_3 hsetter =>
    obtain ⟨locked, hlock, rfl⟩ := Option.map_eq_some_iff.mp hstep
    obtain ⟨-, hlocked⟩ := Option.ite_none_right_eq_some.mp hlock
    cases hlocked
    simp [hsetter, isCalled]
  all_goals
    rename_i hsetter
    cases hstep
    simp [hsetter, isCalled, Future.unlock]

omit [DecidableEq Node] [DecidableEq Sender] [DecidableEq Request] in
/-- The result of a request is known once its function returned. -/
theorem exists_argument {future : Future.State Waiter Value}
    (hreach : (Future.system Waiter Value).Reachable future)
    (hcalled : isCalled future.setter = true) :
    ∃ value, future.argument = some value := by
  have hinv := Future.reachable_invariant hreach
  cases hsetter : future.setter with
  | idle =>
      rw [hsetter] at hcalled
      cases hcalled
  | storeValue value => exact ⟨value, hinv.storing value hsetter⟩
  | _ =>
      obtain ⟨value, hvalue, -⟩ := hinv.object (by rw [hsetter]; rfl)
      exact ⟨value, hvalue⟩

/-! ## One step -/

omit [DecidableEq Sender] [DecidableEq Waiter] [DecidableEq Request] in
theorem Invariant.initial (heap : NodePtr Node → Option (NodePtr Node))
    (self : NodePtr Node → Option (Message Task Request)) :
    Invariant (State.initial heap self :
      State Node Sender Waiter Task Request Value) where
  unissued := fun _ _ => rfl
  argument_iff := by simp [State.initial, Future.State.initial]
  carried_issued := by
    simp [Carries, State.initial, AsyncQueue.State.initial]
  carried_unique := by
    simp [Carries, State.initial, AsyncQueue.State.initial]
  carried_new := by
    simp [State.answered, State.initial, AsyncQueue.State.initial]
  answered_issued := by
    simp [State.answered, State.initial, AsyncQueue.State.initial]
  answered_nodup := List.nodup_nil
  answered_finished := by
    simp [State.answered, State.initial, AsyncQueue.State.initial]
  applied_eq := rfl

section Steps

omit [DecidableEq Node] [DecidableEq Sender] [DecidableEq Waiter]
  [DecidableEq Request]

theorem answering_congr (hatHand : next.atHand = state.atHand)
    (hfuture : ∀ request, state.atHand = some request →
      isCalled (next.future request).setter =
        isCalled (state.future request).setter) :
    next.answering = state.answering := by
  rw [State.answering, State.answering, hatHand]
  apply List.filter_congr
  intro request hrequest
  exact hfuture request (Option.mem_toList.mp hrequest)

theorem atHand_of_not_receive
    (hcallback : ∀ node, state.queue.callback ≠ some (.receive node)) :
    state.atHand = none := by
  rw [State.atHand]
  split
  case h_1 node hnode => exact absurd hnode (hcallback node)
  case h_2 => rfl

theorem answering_of_atHand_none (hatHand : state.atHand = none) :
    state.answering = [] := by
  rw [State.answering, hatHand]
  rfl

/-- A step of the queue that changes no command and executes none. -/
theorem Invariant.keep (hinv : Invariant state)
    (hself : next.queue.self = state.queue.self)
    (hlive : next.queue.live = state.queue.live)
    (hexecuted : next.queue.executed = state.queue.executed)
    (hanswering : next.answering = state.answering)
    (hfuture : next.future = state.future)
    (hissued : next.issued = state.issued)
    (happlied : next.applied = state.applied) : Invariant next := by
  have hcarries : ∀ node request, Carries next.queue node request ↔
      Carries state.queue node request := by
    intro node request
    rw [Carries, Carries, hself, hlive]
  have hanswered : next.answered = state.answered := by
    rw [State.answered, State.answered, hexecuted]
  constructor
  · rw [hissued, hfuture]
    exact hinv.unissued
  · rw [happlied, hfuture]
    exact hinv.argument_iff
  · simp only [hcarries, hissued]
    exact hinv.carried_issued
  · simp only [hcarries]
    exact hinv.carried_unique
  · simp only [hcarries, hanswered]
    exact hinv.carried_new
  · rw [hanswered, hissued]
    exact hinv.answered_issued
  · rw [hanswered]
    exact hinv.answered_nodup
  · rw [hanswered, hfuture]
    exact hinv.answered_finished
  · rw [happlied, hanswered, hanswering]
    exact hinv.applied_eq

end Steps

omit [DecidableEq Node] [DecidableEq Sender] [DecidableEq Waiter] in
/-- A step of a future behind which its argument is the same. -/
theorem Invariant.update (hinv : Invariant state) {request : Request}
    {future : Future.State Waiter Value}
    (hissued : state.issued request = true)
    (hargument : future.argument = (state.future request).argument)
    (hcalled : isCalled future.setter =
      isCalled (state.future request).setter)
    (hfinished : (state.future request).setter = .finished →
      future.setter = .finished)
    (heq : next = { state with
      future := Function.update state.future request future }) :
    Invariant next := by
  have hfuture : ∀ own, next.future own = if own = request then future
      else state.future own := by
    intro own
    rw [heq]
    exact Function.update_apply ..
  have hanswering : next.answering = state.answering := by
    apply answering_congr (by rw [heq]; rfl)
    intro own _
    rw [hfuture]
    split
    case isTrue hown =>
      rw [hown]
      exact hcalled
    case isFalse => rfl
  have hanswered : next.answered = state.answered := by
    rw [heq]
    rfl
  constructor
  · intro own hown
    rw [heq] at hown
    have hne : own ≠ request := by
      rintro rfl
      rw [hissued] at hown
      cases hown
    rw [hfuture, if_neg hne]
    exact hinv.unissued own hown
  · intro own value
    rw [hfuture]
    split
    case isTrue hown =>
      subst hown
      rw [hargument, heq]
      exact hinv.argument_iff own value
    case isFalse =>
      rw [heq]
      exact hinv.argument_iff own value
  · rw [heq]
    exact hinv.carried_issued
  · rw [heq]
    exact hinv.carried_unique
  · rw [hanswered, heq]
    exact hinv.carried_new
  · rw [hanswered, heq]
    exact hinv.answered_issued
  · rw [hanswered]
    exact hinv.answered_nodup
  · intro own hown
    rw [hanswered] at hown
    have hold := hinv.answered_finished own hown
    rw [hfuture]
    split
    case isTrue heq =>
      subst heq
      exact hfinished hold
    case isFalse => exact hold
  · rw [hanswered, hanswering, heq]
    exact hinv.applied_eq

omit [DecidableEq Waiter] [DecidableEq Request] in
/-- The request at hand is carried by the node at hand. -/
theorem carries_of_atHand
    (hqueue : (AsyncQueue.system Node Sender (Message Task Request)).Reachable
      state.queue) {request : Request}
    (hatHand : state.atHand = some request) :
    ∃ node, state.queue.callback = some (.receive (.client node)) ∧
      Carries state.queue node request := by
  rw [State.atHand] at hatHand
  split at hatHand
  case h_1 node hnode =>
    obtain ⟨own, rfl, hlive⟩ := AsyncQueue.received_live hqueue hnode
    obtain ⟨message, hmessage, hown⟩ := Option.bind_eq_some_iff.mp hatHand
    cases message with
    | task task => cases hown
    | request carried =>
        cases hown
        exact ⟨own, hnode, hlive, hmessage⟩
  case h_2 => cases hatHand

omit [DecidableEq Waiter] in
/-- A call puts its message into a node that was not allocated. -/
theorem Invariant.call
    (hqueue : (AsyncQueue.system Node Sender (Message Task Request)).Reachable
      state.queue)
    (hinv : Invariant state) {sender : Sender} {node : Node}
    {message : Option (Message Task Request)}
    (hstep : AsyncRequest.call state sender node message = some next) :
    Invariant next := by
  obtain ⟨hcall, hcases⟩ := call_cases hstep
  obtain ⟨-, hdead, -, hnext⟩ := AsyncQueue.callSend_cases hcall
  have hself : next.queue.self =
      Function.update state.queue.self (.client node) message := by
    rw [hnext]
  have hlive : next.queue.live =
      Function.update state.queue.live node true := by
    rw [hnext]
  have hexecuted : next.queue.executed = state.queue.executed := by
    rw [hnext]
  have hcallback : next.queue.callback = state.queue.callback := by
    rw [hnext]
  have hfuture : next.future = state.future := by
    rcases hcases with ⟨-, heq⟩ | ⟨request, -, -, heq⟩
    · rw [heq]
    · rw [heq]
  have happlied : next.applied = state.applied := by
    rcases hcases with ⟨-, heq⟩ | ⟨request, -, -, heq⟩
    · rw [heq]
    · rw [heq]
  have hissued : ∀ request, state.issued request = true →
      next.issued request = true := by
    intro request hrequest
    rcases hcases with ⟨-, heq⟩ | ⟨own, -, -, heq⟩
    · rw [heq]
      exact hrequest
    · rw [heq]
      by_cases hown : request = own
      · rw [hown]
        exact Function.update_self ..
      · exact (Function.update_of_ne hown ..).trans hrequest
  have hnew : ∀ request, message = some (.request request) →
      state.issued request = false ∧ next.issued request = true := by
    rintro request rfl
    rcases hcases with ⟨hnone, -⟩ | ⟨own, hown, hfresh, heq⟩
    · cases hnone
    · cases hown
      rw [heq]
      exact ⟨hfresh, Function.update_self ..⟩
  have hcarries : ∀ other request, Carries next.queue other request →
      (other = node ∧ message = some (.request request)) ∨
        (other ≠ node ∧ Carries state.queue other request) := by
    intro other request hcarry
    rw [Carries, hself, hlive] at hcarry
    by_cases heq : other = node
    · subst heq
      rw [Function.update_self, Function.update_self] at hcarry
      exact .inl ⟨rfl, hcarry.2⟩
    · have hne : NodePtr.client other ≠ .client node := by simpa using heq
      rw [Function.update_of_ne heq, Function.update_of_ne hne] at hcarry
      exact .inr ⟨heq, hcarry⟩
  have hatHand : next.atHand = state.atHand := by
    rw [State.atHand, State.atHand, hcallback]
    split
    case h_1 received hreceived =>
      obtain ⟨own, rfl, hown⟩ := AsyncQueue.received_live hqueue hreceived
      have hne : NodePtr.client own ≠ .client node := by
        rintro heq
        cases heq
        rw [hdead] at hown
        cases hown
      rw [hself, Function.update_of_ne hne]
    case h_2 => rfl
  have hanswered : next.answered = state.answered := by
    rw [State.answered, State.answered, hexecuted]
  have hanswering : next.answering = state.answering := by
    apply answering_congr hatHand
    intro request _
    rw [hfuture]
  constructor
  · intro request hrequest
    rw [hfuture]
    apply hinv.unissued
    rw [← Bool.not_eq_true] at hrequest ⊢
    exact fun hold => hrequest (hissued request hold)
  · rw [happlied, hfuture]
    exact hinv.argument_iff
  · intro other request hcarry
    rcases hcarries other request hcarry with ⟨-, hmessage⟩ | ⟨-, hold⟩
    · exact (hnew request hmessage).2
    · exact hissued request (hinv.carried_issued other request hold)
  · intro left right request hleft hright
    rcases hcarries left request hleft with ⟨rfl, hl⟩ | ⟨-, hl⟩ <;>
      rcases hcarries right request hright with ⟨rfl, hr⟩ | ⟨-, hr⟩
    · rfl
    · have hfresh := (hnew request hl).1
      rw [hinv.carried_issued right request hr] at hfresh
      cases hfresh
    · have hfresh := (hnew request hr).1
      rw [hinv.carried_issued left request hl] at hfresh
      cases hfresh
    · exact hinv.carried_unique left right request hl hr
  · intro other request hcarry hmem
    rw [hanswered] at hmem
    rcases hcarries other request hcarry with ⟨-, hmessage⟩ | ⟨-, hold⟩
    · have hfresh := (hnew request hmessage).1
      rw [hinv.answered_issued request hmem] at hfresh
      cases hfresh
    · exact hinv.carried_new other request hold hmem
  · intro request hmem
    rw [hanswered] at hmem
    exact hissued request (hinv.answered_issued request hmem)
  · rw [hanswered]
    exact hinv.answered_nodup
  · rw [hanswered, hfuture]
    exact hinv.answered_finished
  · rw [happlied, hanswered, hanswering]
    exact hinv.applied_eq

omit [DecidableEq Waiter] [DecidableEq Request] in
theorem Invariant.send (hinv : Invariant state) {sender : Sender}
    (hstep : AsyncQueue.senderStep state.queue sender = some next.queue)
    (hnext : next = { state with queue := next.queue }) : Invariant next := by
  have hsame : next.queue.self = state.queue.self ∧
      next.queue.live = state.queue.live ∧
      next.queue.executed = state.queue.executed ∧
      next.queue.callback = state.queue.callback := by
    rcases AsyncQueue.senderStep_cases hstep with
      ⟨command, -, -, heq⟩ | ⟨-, heq⟩
    · rw [heq]
      exact ⟨rfl, rfl, rfl, rfl⟩
    · rw [heq]
      exact ⟨rfl, rfl, rfl, rfl⟩
  obtain ⟨hself, hlive, hexecuted, hcallback⟩ := hsame
  apply hinv.keep hself hlive hexecuted
  · apply answering_congr
    · rw [State.atHand, State.atHand, hcallback, hself]
    · rw [hnext]
      exact fun _ _ => rfl
  · rw [hnext]
  · rw [hnext]
  · rw [hnext]

omit [DecidableEq Node] [DecidableEq Sender] [DecidableEq Waiter]
  [DecidableEq Request] in
theorem Invariant.dispatch (hinv : Invariant state)
    (hstep : AsyncQueue.dispatch state.queue = some next.queue)
    (hnext : next = { state with queue := next.queue }) : Invariant next := by
  obtain ⟨-, hidle, -, heq⟩ := AsyncQueue.dispatch_cases hstep
  have hcallback : next.queue.callback = some .pop := by rw [heq]
  apply hinv.keep
  · rw [heq]
  · rw [heq]
  · rw [heq]
  · rw [answering_of_atHand_none, answering_of_atHand_none]
    · exact atHand_of_not_receive (by simp [hidle])
    · exact atHand_of_not_receive (by simp [hcallback])
  · rw [hnext]
  · rw [hnext]
  · rw [hnext]

omit [DecidableEq Node] [DecidableEq Sender] in
/-- A thread waits on the future of a request. -/
theorem Invariant.waitOn (hinv : Invariant state) {request : Request}
    {label : Future.Label Waiter Value} (hwait : IsWait label)
    (hstep : AsyncRequest.waitOn state request label = some next) :
    Invariant next := by
  obtain ⟨future, hissued, hfuture, heq⟩ := waitOn_cases hstep
  obtain ⟨hsetter, hargument⟩ := setter_of_wait hwait hfuture
  exact hinv.update hissued hargument (by rw [hsetter])
    (fun hdone => hsetter.trans hdone) heq

omit [DecidableEq Waiter] [DecidableEq Request] in
/-- The loop receives a node: the future of its request is new. -/
theorem Invariant.pop
    (hqueue : (AsyncQueue.system Node Sender (Message Task Request)).Reachable
      next.queue)
    (hinv : Invariant state)
    (hargument : ∀ request, isCalled (state.future request).setter = true →
      ∃ value, (state.future request).argument = some value)
    (hplace : state.queue.callback = some .pop)
    (hself : next.queue.self = state.queue.self)
    (hlive : next.queue.live = state.queue.live)
    (hexecuted : next.queue.executed = state.queue.executed)
    (hfuture : next.future = state.future)
    (hissued : next.issued = state.issued)
    (happlied : next.applied = state.applied) : Invariant next := by
  have hold : state.answering = [] := by
    apply answering_of_atHand_none
    apply atHand_of_not_receive
    simp [hplace]
  apply hinv.keep hself hlive hexecuted ?_ hfuture hissued happlied
  rw [hold, State.answering, List.filter_eq_nil_iff]
  intro request hrequest hcalled
  obtain ⟨node, -, hcarry⟩ :=
    carries_of_atHand hqueue (Option.mem_toList.mp hrequest)
  have hcarry : Carries state.queue node request := by
    rwa [Carries, hself, hlive] at hcarry
  rw [hfuture] at hcalled
  obtain ⟨value, hvalue⟩ := hargument request hcalled
  have hmem : request ∈ state.applied.map Prod.fst :=
    List.mem_map.mpr ⟨_, (hinv.argument_iff request value).mpr hvalue, rfl⟩
  rw [hinv.applied_eq, hold, List.append_nil] at hmem
  exact hinv.carried_new node request hcarry hmem

omit [DecidableEq Sender] [DecidableEq Waiter] [DecidableEq Request] in
/-- The loop is through with the node at hand. -/
theorem Invariant.receive (hinv : Invariant state) {node : Node}
    (hplace : state.queue.callback = some (.receive (.client node)))
    (hlive : state.queue.live node = true)
    (hfinished : ∀ request, state.atHand = some request →
      (state.future request).setter = .finished)
    (hself : next.queue.self = state.queue.self)
    (hdeleted : next.queue.live =
      release state.queue.live (some (.client node)))
    (hexecuted : next.queue.executed =
      state.queue.executed ++ (state.queue.self (.client node)).toList)
    (hcallback : ∀ node, next.queue.callback ≠ some (.receive node))
    (hfuture : next.future = state.future)
    (hissued : next.issued = state.issued)
    (happlied : next.applied = state.applied) : Invariant next := by
  have hatHand : state.atHand =
      (state.queue.self (.client node)).bind Message.request? := by
    rw [State.atHand, hplace]
  have hcarries : ∀ other request, Carries next.queue other request →
      other ≠ node ∧ Carries state.queue other request := by
    intro other request hcarry
    rw [Carries, hself, hdeleted, release] at hcarry
    have hne : other ≠ node := by
      rintro rfl
      rw [Function.update_self] at hcarry
      cases hcarry.1
    rw [Function.update_of_ne hne] at hcarry
    exact ⟨hne, hcarry⟩
  have hanswered : next.answered = state.answered ++ state.atHand.toList := by
    rw [State.answered, hexecuted, List.filterMap_append, hatHand,
      State.answered]
    congr 1
    cases state.queue.self (.client node) with
    | none => rfl
    | some message => cases message <;> rfl
  have hcarried : ∀ request, state.atHand = some request →
      Carries state.queue node request := by
    intro request hrequest
    rw [hatHand] at hrequest
    obtain ⟨message, hmessage, hown⟩ := Option.bind_eq_some_iff.mp hrequest
    cases message with
    | task task => cases hown
    | request carried =>
        cases hown
        exact ⟨hlive, hmessage⟩
  have hmem : ∀ request, request ∈ next.answered ↔
      request ∈ state.answered ∨ state.atHand = some request := by
    intro request
    rw [hanswered, List.mem_append, Option.mem_toList]
  constructor
  · rw [hissued, hfuture]
    exact hinv.unissued
  · rw [happlied, hfuture]
    exact hinv.argument_iff
  · intro other request hcarry
    rw [hissued]
    exact hinv.carried_issued other request (hcarries other request hcarry).2
  · intro left right request hleft hright
    exact hinv.carried_unique left right request
      (hcarries left request hleft).2 (hcarries right request hright).2
  · intro other request hcarry hanswer
    obtain ⟨hne, hold⟩ := hcarries other request hcarry
    rcases (hmem request).mp hanswer with hbefore | hnow
    · exact hinv.carried_new other request hold hbefore
    · exact hne (hinv.carried_unique other node request hold
        (hcarried request hnow))
  · intro request hanswer
    rw [hissued]
    rcases (hmem request).mp hanswer with hbefore | hnow
    · exact hinv.answered_issued request hbefore
    · exact hinv.carried_issued node request (hcarried request hnow)
  · rw [hanswered, List.nodup_append']
    refine ⟨hinv.answered_nodup, Option.toList_nodup _, ?_⟩
    intro request hbefore hnow
    exact hinv.carried_new node request
      (hcarried request (Option.mem_toList.mp hnow)) hbefore
  · intro request hanswer
    rw [hfuture]
    rcases (hmem request).mp hanswer with hbefore | hnow
    · exact hinv.answered_finished request hbefore
    · exact hfinished request hnow
  · have hanswering : state.answering = state.atHand.toList := by
      rw [State.answering, List.filter_eq_self]
      intro request hrequest
      rw [hfinished request (Option.mem_toList.mp hrequest)]
      rfl
    have hnone : next.answering = [] :=
      answering_of_atHand_none (atHand_of_not_receive hcallback)
    rw [happlied, hinv.applied_eq, hanswered, hanswering, hnone,
      List.append_nil]

theorem Invariant.callback
    (hreach : (system Node Sender Waiter Task Request Value).Reachable state)
    (hinv : Invariant state) (hstep : callbackStep state = some next) :
    Invariant next := by
  obtain ⟨hfinished, hqueue, heq⟩ := callbackStep_cases hstep
  have hfuture : next.future = state.future := by rw [heq]
  have hissued : next.issued = state.issued := by rw [heq]
  have happlied : next.applied = state.applied := by rw [heq]
  have hpart := reachable_queue hreach
  rcases AsyncQueue.callbackStep_cases hqueue with
    ⟨pc, memory, pc', hplace, -, -, hnext⟩ |
    ⟨pc, memory, result, hplace, -, -, hnext⟩ |
    ⟨node, command, hplace, hself, hnext⟩ |
    ⟨node, hplace, hself, hnext⟩ | ⟨null, hplace, hnext⟩
  · apply hinv.keep ?_ ?_ ?_ ?_ hfuture hissued happlied
    · rw [hnext]
    · rw [hnext]
    · rw [hnext]
    · rw [answering_of_atHand_none, answering_of_atHand_none]
      · exact atHand_of_not_receive (by simp [hplace])
      · exact atHand_of_not_receive (by simp [hnext, hplace])
  · have hcalled : (AsyncQueue.system Node Sender (Message Task Request)).Step
        state.queue .callback next.queue := hqueue
    apply hinv.pop (hpart.step hcalled) ?_ hplace ?_ ?_ ?_ hfuture hissued
      happlied
    · exact fun request => exists_argument (reachable_future hreach request)
    · rw [hnext]
    · rw [hnext]
    · rw [hnext]
  · obtain ⟨own, rfl, hlive⟩ := AsyncQueue.received_live hpart hplace
    apply hinv.receive hplace hlive hfinished ?_ ?_ ?_ ?_
      hfuture hissued happlied
    · rw [hnext]
    · rw [hnext]
    · rw [hnext, hself, Option.toList_some]
    · simp [hnext]
  · obtain ⟨own, rfl, hlive⟩ := AsyncQueue.received_live hpart hplace
    apply hinv.receive hplace hlive hfinished ?_ ?_ ?_ ?_
      hfuture hissued happlied
    · rw [hnext]
    · rw [hnext]
    · rw [hnext, hself, Option.toList_none, List.append_nil]
    · simp [hnext]
  · apply hinv.keep ?_ ?_ ?_ ?_ hfuture hissued happlied
    · rw [hnext]
      rfl
    · rw [hnext]
      rfl
    · rw [hnext]
      rfl
    · rw [answering_of_atHand_none, answering_of_atHand_none]
      · exact atHand_of_not_receive (by simp [hplace])
      · exact atHand_of_not_receive (by simp [hnext, AsyncQueue.asyncStop])

omit [DecidableEq Waiter] in
/-- The function of the request at hand returns its result. -/
theorem Invariant.apply
    (hqueue : (AsyncQueue.system Node Sender (Message Task Request)).Reachable
      state.queue)
    (hinv : Invariant state) {value : Value}
    (hstep : AsyncRequest.apply state value = some next) :
    Invariant next := by
  obtain ⟨request, future, hatHand, hcall, heq⟩ := apply_cases hstep
  obtain ⟨node, -, hcarry⟩ := carries_of_atHand hqueue hatHand
  have hidle : (state.future request).setter = .idle := by
    rw [Future.callSetValue] at hcall
    split at hcall
    case h_1 hsetter => exact hsetter
    case h_2 => cases hcall
  have hset : future = { state.future request with
      setter := .storeValue value, argument := some value } := by
    rw [Future.callSetValue, hidle] at hcall
    exact (Option.some.inj hcall).symm
  have hfuture : ∀ own, next.future own = if own = request then future
      else state.future own := by
    intro own
    rw [heq]
    exact Function.update_apply ..
  have hanswered : next.answered = state.answered := by
    rw [heq]
    rfl
  have hbefore : state.answering = [] := by
    rw [State.answering, hatHand, Option.toList_some, List.filter_cons, hidle]
    rfl
  have hafter : next.answering = [request] := by
    have hsame : next.atHand = state.atHand := by
      rw [heq]
      rfl
    rw [State.answering, hsame, hatHand, Option.toList_some, List.filter_cons,
      hfuture, if_pos rfl, hset]
    rfl
  have hnew : request ∉ state.applied.map Prod.fst := by
    rw [hinv.applied_eq, hbefore, List.append_nil]
    exact hinv.carried_new node request hcarry
  have happlied : next.applied = state.applied ++ [(request, value)] := by
    rw [heq]
  constructor
  · intro own hown
    rw [heq] at hown
    have hne : own ≠ request := by
      rintro rfl
      rw [hinv.carried_issued node own hcarry] at hown
      cases hown
    rw [hfuture, if_neg hne]
    exact hinv.unissued own hown
  · intro own other
    rw [happlied, List.mem_append, List.mem_singleton, hfuture,
      Prod.mk.injEq]
    split
    case isTrue hown =>
      subst hown
      have hnone : ¬ (own, other) ∈ state.applied := by
        intro hmem
        exact hnew (List.mem_map.mpr ⟨_, hmem, rfl⟩)
      rw [hset]
      simp [hnone, eq_comm]
    case isFalse hown =>
      simp [hown, hinv.argument_iff]
  · rw [heq]
    exact hinv.carried_issued
  · rw [heq]
    exact hinv.carried_unique
  · rw [hanswered, heq]
    exact hinv.carried_new
  · rw [hanswered, heq]
    exact hinv.answered_issued
  · rw [hanswered]
    exact hinv.answered_nodup
  · intro own hown
    rw [hanswered] at hown
    have hne : own ≠ request := by
      rintro rfl
      exact hinv.carried_new node own hcarry hown
    rw [hfuture, if_neg hne]
    exact hinv.answered_finished own hown
  · rw [happlied, List.map_append, hinv.applied_eq, hbefore, hanswered, hafter,
      List.append_nil]
    rfl

omit [DecidableEq Waiter] in
theorem Invariant.setValue
    (hqueue : (AsyncQueue.system Node Sender (Message Task Request)).Reachable
      state.queue)
    (hinv : Invariant state) (hstep : setValueStep state = some next) :
    Invariant next := by
  obtain ⟨request, future, hatHand, hset, heq⟩ := setValueStep_cases hstep
  obtain ⟨node, -, hcarry⟩ := carries_of_atHand hqueue hatHand
  obtain ⟨hargument, hcalled, hfinished⟩ := setter_of_setValue hset
  exact hinv.update (hinv.carried_issued node request hcarry) hargument hcalled
    (fun hdone => absurd hdone hfinished) heq

theorem reachable_invariant
    (hreach : (system Node Sender Waiter Task Request Value).Reachable state) :
    Invariant state := by
  induction hreach with
  | init hinit =>
      obtain ⟨heap, self, rfl⟩ := hinit
      exact Invariant.initial heap self
  | @step before after label hbefore hstep hinv =>
      have hqueue := reachable_queue hbefore
      cases label with
      | call sender node message => exact hinv.call hqueue hstep
      | send sender =>
          obtain ⟨queue, hsend, rfl⟩ := Option.map_eq_some_iff.mp hstep
          exact hinv.send hsend rfl
      | dispatch =>
          obtain ⟨queue, hdispatch, rfl⟩ := Option.map_eq_some_iff.mp hstep
          exact hinv.dispatch hdispatch rfl
      | callback => exact hinv.callback hbefore hstep
      | apply value => exact hinv.apply hqueue hstep
      | setValue => exact hinv.setValue hqueue hstep
      | callWait request waiter call =>
          have hwait : IsWait (.callWait waiter call : Future.Label Waiter Value) := trivial
          exact hinv.waitOn hwait hstep
      | wait request waiter =>
          have hwait : IsWait (.wait waiter : Future.Label Waiter Value) := trivial
          exact hinv.waitOn hwait hstep
      | wake request waiter =>
          have hwait : IsWait (.wake waiter : Future.Label Waiter Value) := trivial
          exact hinv.waitOn hwait hstep

/-! ## The main results -/

/-- The message a step puts into the queue. -/
def sent (state : State Node Sender Waiter Task Request Value)
    (label : Label Node Sender Waiter Task Request Value) :
    List (Option (Message Task Request)) :=
  match queueLabel label with
  | some part => AsyncQueue.sent state.queue part
  | none => []

/-- The system beside the messages sent, in the order of their exchanges. -/
def sending (Node Sender Waiter Task Request Value : Type*) [DecidableEq Node]
    [DecidableEq Sender] [DecidableEq Waiter] [DecidableEq Request] :
    TransitionSystem
      (State Node Sender Waiter Task Request Value ×
        List (Option (Message Task Request)))
      (Label Node Sender Waiter Task Request Value) :=
  (system Node Sender Waiter Task Request Value).recording sent

variable {messages : List (Option (Message Task Request))}

theorem reachable_sending
    (hreach : (sending Node Sender Waiter Task Request Value).Reachable
      (state, messages)) :
    (AsyncQueue.sending Node Sender (Message Task Request)).Reachable
      (state.queue, messages) := by
  apply hreach.project fun recorded => (recorded.1.queue, recorded.2)
  · rintro ⟨start, entries⟩ ⟨⟨heap, self, rfl⟩, rfl⟩
    exact ⟨⟨heap, self, rfl⟩, rfl⟩
  · rintro ⟨before, entries⟩ label ⟨after, entries'⟩ ⟨hstep, rfl⟩
    rcases step_cases hstep with
      ⟨part, hpart, hqueue, -, -⟩ | ⟨hnone, hqueue, -⟩
    · refine .inr ⟨part, hqueue, ?_⟩
      rw [sent, hpart]
    · left
      rw [sent, hnone, List.append_nil, hqueue]

/-- The result a thread got from the future of a request is the one its
function returned. -/
theorem applied_of_returned
    (hreach : (system Node Sender Waiter Task Request Value).Reachable state)
    {request : Request} {waiter : Waiter} {value : Option Value}
    (hmem : (waiter, .result value) ∈ (state.future request).returned) :
    ∃ passed, value = some passed ∧ (request, passed) ∈ state.applied := by
  have hfuture :=
    Future.reachable_invariant (reachable_future hreach request)
  obtain ⟨-, passed, hpassed, hvalue⟩ := hfuture.returned _ hmem
  exact ⟨passed, hvalue,
    ((reachable_invariant hreach).argument_iff request passed).mpr hpassed⟩

/-- A thread that found the result of a request found one its function
returned. -/
theorem applied_of_success
    (hreach : (system Node Sender Waiter Task Request Value).Reachable state)
    {request : Request} {waiter : Waiter}
    (hmem : (waiter, .success true) ∈ (state.future request).returned) :
    ∃ passed, (request, passed) ∈ state.applied := by
  have hfuture :=
    Future.reachable_invariant (reachable_future hreach request)
  obtain ⟨passed, hpassed, -⟩ :=
    hfuture.dereference (hfuture.returned _ hmem rfl)
  exact ⟨passed,
    ((reachable_invariant hreach).argument_iff request passed).mpr hpassed⟩

omit [DecidableEq Node] [DecidableEq Sender] [DecidableEq Waiter]
  [DecidableEq Request] in
theorem answering_cases
    (state : State Node Sender Waiter Task Request Value) :
    state.answering = [] ∨
      ∃ request, state.atHand = some request ∧ state.answering = [request] := by
  cases hatHand : state.atHand with
  | none => exact .inl (answering_of_atHand_none hatHand)
  | some request =>
      rw [State.answering, hatHand, Option.toList_some, List.filter_cons]
      split
      · exact .inr ⟨request, rfl, rfl⟩
      · exact .inl rfl

omit [DecidableEq Node] [DecidableEq Sender] [DecidableEq Waiter]
  [DecidableEq Request] in
/-- The request at hand is the one of the message at hand. -/
theorem atHand_requests {request : Request}
    (hatHand : state.atHand = some request) :
    (state.queue.atHand.filterMap fun message =>
      message.bind Message.request?) = [request] := by
  rw [State.atHand] at hatHand
  split at hatHand
  case h_1 node hnode =>
    rw [AsyncQueue.State.atHand, hnode]
    exact List.filterMap_cons_some hatHand
  case h_2 => cases hatHand

/-- The functions called are those of the requests among the messages sent
first, each called once and in the order of the exchanges. -/
theorem applied_in_order
    (hreach : (sending Node Sender Waiter Task Request Value).Reachable
      (state, messages)) :
    ∃ done, done <+: messages ∧ state.applied.map Prod.fst =
      done.filterMap fun message => message.bind Message.request? := by
  have hinv := reachable_invariant hreach.of_recording
  obtain ⟨received, hordered⟩ :=
    AsyncQueue.exists_ordered (reachable_sending hreach)
  obtain ⟨done, hexecuted, hreceived⟩ := hordered.executed_eq
  have hanswered : state.answered =
      done.filterMap fun message => message.bind Message.request? := by
    rw [State.answered, hexecuted, List.reduceOption, List.filterMap_filterMap]
    rfl
  have hprefix : received <+: messages := by
    rw [hordered.sent_eq]
    exact List.prefix_append _ _
  rcases answering_cases state with hnone | ⟨request, hrequest, heq⟩
  · refine ⟨done, ?_, ?_⟩
    · rw [hreceived] at hprefix
      exact (List.prefix_append _ _).trans hprefix
    · rw [hinv.applied_eq, hnone, List.append_nil, hanswered]
  · refine ⟨received, hprefix, ?_⟩
    rw [hinv.applied_eq, heq, hreceived, List.filterMap_append, hanswered]
    congr 1
    exact (atHand_requests hrequest).symm

/-- No function is called twice. -/
theorem applied_nodup
    (hreach : (system Node Sender Waiter Task Request Value).Reachable state) :
    (state.applied.map Prod.fst).Nodup := by
  have hinv := reachable_invariant hreach
  rw [hinv.applied_eq]
  rcases answering_cases state with hnone | ⟨request, hrequest, heq⟩
  · rw [hnone, List.append_nil]
    exact hinv.answered_nodup
  · obtain ⟨node, -, hcarry⟩ :=
      carries_of_atHand (reachable_queue hreach) hrequest
    rw [heq, List.nodup_append']
    refine ⟨hinv.answered_nodup, List.nodup_singleton request, ?_⟩
    rw [List.disjoint_singleton]
    exact hinv.carried_new node request hcarry

/-- The functions of requests are called in the order of the exchanges and each
at most once, every result a thread gets is the one its function returned, and
behind the deletion of a request no thread sleeps on its future. -/
theorem answers_in_order
    (hreach : (sending Node Sender Waiter Task Request Value).Reachable
      (state, messages)) :
    (∃ done, done <+: messages ∧ state.applied.map Prod.fst =
      done.filterMap fun message => message.bind Message.request?) ∧
    (state.applied.map Prod.fst).Nodup ∧
    (∀ request waiter value,
      (waiter, .result value) ∈ (state.future request).returned →
        ∃ passed, value = some passed ∧ (request, passed) ∈ state.applied) ∧
    ∀ request, .request request ∈ state.queue.executed →
      (∃ value, (request, value) ∈ state.applied) ∧
        ∀ waiter call,
          (state.future request).waiter waiter ≠ some (.blocked call) := by
  have hstate := hreach.of_recording
  have hinv := reachable_invariant hstate
  refine ⟨applied_in_order hreach, applied_nodup hstate, ?_, ?_⟩
  · exact fun request waiter value hmem => applied_of_returned hstate hmem
  · intro request hexecuted
    have hanswered : request ∈ state.answered :=
      List.mem_filterMap.mpr ⟨_, hexecuted, rfl⟩
    have hfinished := hinv.answered_finished request hanswered
    have hfuture := reachable_future hstate request
    obtain ⟨value, hvalue⟩ := exists_argument hfuture (by rw [hfinished]; rfl)
    refine ⟨⟨value, (hinv.argument_iff request value).mpr hvalue⟩, ?_⟩
    intro waiter call hblocked
    exact (Future.reachable_invariant hfuture).place waiter _ hblocked hfinished

/-- A thread sleeps on the future of a request, which the loop answers. -/
def answerOne : List (Label ℕ ℕ ℕ ℕ ℕ ℕ) :=
  .call 0 7 (some (.request 5)) :: List.replicate 4 (.send 0) ++
    .callWait 5 1 .wait :: List.replicate 3 (.wait 5 1) ++
    .dispatch :: List.replicate 10 .callback ++
    .apply 42 :: List.replicate 5 .setValue ++
    .callback :: List.replicate 4 (.wait 5 1)

theorem answers_in_order_answerOne :
    ∃ state : State ℕ ℕ ℕ ℕ ℕ ℕ, state.applied = [(5, 42)] ∧
      (state.applied.map Prod.fst).Nodup ∧
      ∃ passed, some 42 = some passed ∧ (5, passed) ∈ state.applied := by
  let start : State ℕ ℕ ℕ ℕ ℕ ℕ := .initial (fun _ => none) fun _ => none
  have hrun : (execute (executeRecording step sent) (start, [])
      answerOne).map (fun final =>
        (final.1.applied, (final.1.future 5).returned)) =
          some ([(5, 42)], [(1, .result (some 42))]) := by
    decide +kernel
  obtain ⟨⟨state, messages⟩, hexecute, heq⟩ := Option.map_eq_some_iff.mp hrun
  obtain ⟨happlied, hreturned⟩ := Prod.mk.inj heq
  have hinit : (sending ℕ ℕ ℕ ℕ ℕ ℕ).Init (start, []) := ⟨⟨_, _, rfl⟩, rfl⟩
  have hreach := (Reachable.init hinit).execute_recording hexecute
  obtain ⟨-, hnodup, hresult, -⟩ := answers_in_order hreach
  refine ⟨state, happlied, hnodup, hresult 5 1 (some 42) ?_⟩
  rw [hreturned]
  exact List.mem_singleton_self _

omit [DecidableEq Waiter] [DecidableEq Request] in
/-- The watcher is stopped by the callback, which then returns. -/
theorem idle_of_stopped
    {queue : AsyncQueue.State Node Sender (Message Task Request)}
    (hreach : (AsyncQueue.system Node Sender (Message Task Request)).Reachable
      queue) : queue.active = false → queue.callback = none := by
  induction hreach with
  | init hinit =>
    obtain ⟨heap, self, rfl⟩ := hinit
    exact fun _ => rfl
  | @step before after label _ hstep hidle =>
    intro hstopped
    cases label with
    | call sender node message =>
        obtain ⟨-, -, -, heq⟩ := AsyncQueue.callSend_cases hstep
        rw [heq] at hstopped ⊢
        exact hidle hstopped
    | send sender =>
        rcases AsyncQueue.senderStep_cases hstep with
          ⟨message, -, -, heq⟩ | ⟨-, heq⟩
        · rw [heq] at hstopped ⊢
          exact hidle hstopped
        · rw [heq] at hstopped ⊢
          exact hidle hstopped
    | dispatch =>
        obtain ⟨hactive, -, -, heq⟩ := AsyncQueue.dispatch_cases hstep
        rw [heq] at hstopped
        exact absurd (hactive.symm.trans hstopped) (by simp)
    | callback =>
        have hactive : before.active = true := by
          by_contra hinactive
          rw [Bool.not_eq_true] at hinactive
          change AsyncQueue.callbackStep before = some after at hstep
          rw [AsyncQueue.callbackStep, hidle hinactive] at hstep
          cases hstep
        rcases AsyncQueue.callbackStep_cases hstep with
          ⟨pc, memory, pc', -, -, -, heq⟩ |
          ⟨pc, memory, result, -, -, -, heq⟩ | ⟨node, command, -, -, heq⟩ |
          ⟨node, -, -, heq⟩ | ⟨null, -, heq⟩
        case inr.inr.inr.inr => rw [heq]; rfl
        all_goals
          rw [heq] at hstopped
          exact absurd (hactive.symm.trans hstopped) (by simp)

omit [DecidableEq Waiter] [DecidableEq Request] in
/-- A stopped watcher stays stopped. -/
theorem stopped_queue
    {before after : AsyncQueue.State Node Sender (Message Task Request)}
    {label : AsyncQueue.Label Node Sender (Message Task Request)}
    (hstopped : before.active = false) (hidle : before.callback = none)
    (hstep : AsyncQueue.step before label = some after) :
    after.active = false := by
  cases label with
  | call sender node message =>
      obtain ⟨-, -, -, heq⟩ := AsyncQueue.callSend_cases hstep
      rw [heq]
      exact hstopped
  | send sender =>
      rcases AsyncQueue.senderStep_cases hstep with
        ⟨message, -, -, heq⟩ | ⟨-, heq⟩
      · rw [heq]
        exact hstopped
      · rw [heq]
        exact hstopped
  | dispatch =>
      obtain ⟨hactive, -⟩ := AsyncQueue.dispatch_cases hstep
      rw [hstopped] at hactive
      cases hactive
  | callback =>
      change AsyncQueue.callbackStep before = some after at hstep
      rw [AsyncQueue.callbackStep, hidle] at hstep
      cases hstep

/-- Behind a stopped watcher no function is called. -/
theorem stopped_run
    (hreach : (system Node Sender Waiter Task Request Value).Reachable state)
    (hstopped : state.queue.active = false)
    {labels : List (Label Node Sender Waiter Task Request Value)}
    {final : State Node Sender Waiter Task Request Value}
    (hrun : (system Node Sender Waiter Task Request Value).Run state labels
      final) : final.applied = state.applied := by
  induction hrun with
  | nil _ => rfl
  | @cons state middle final label labels hstep _ ih =>
      have hidle := idle_of_stopped (reachable_queue hreach) hstopped
      have hatHand : state.atHand = none := by
        apply atHand_of_not_receive
        simp [hidle]
      rcases step_cases hstep with
        ⟨part, -, hqueue, -, happlied⟩ | ⟨-, hqueue, happlied, -⟩
      · have hnext := stopped_queue hstopped hidle hqueue
        exact (ih (hreach.step hstep) hnext).trans happlied
      · have hnext : middle.queue.active = false := by
          rw [hqueue]
          exact hstopped
        exact (ih (hreach.step hstep) hnext).trans (happlied hatHand)

/-- Behind a stopped watcher no function is called in any run, and a call on the
future of a request whose function was not called returns only when its time is
over: every other one waits forever. -/
theorem unanswered
    (hreach : (system Node Sender Waiter Task Request Value).Reachable state)
    (hstopped : state.queue.active = false)
    {labels : List (Label Node Sender Waiter Task Request Value)}
    {final : State Node Sender Waiter Task Request Value}
    (hrun : (system Node Sender Waiter Task Request Value).Run state labels
      final) :
    final.applied = state.applied ∧
    ∀ request, (∀ value, (request, value) ∉ state.applied) →
      ∀ entry ∈ (final.future request).returned,
        entry.2 = .success false := by
  have happlied := stopped_run hreach hstopped hrun
  have hfinal := hreach.run hrun
  refine ⟨happlied, ?_⟩
  intro request hnone entry hentry
  obtain ⟨waiter, returned⟩ := entry
  cases returned with
  | result value =>
      obtain ⟨passed, -, hpassed⟩ := applied_of_returned hfinal hentry
      rw [happlied] at hpassed
      exact absurd hpassed (hnone passed)
  | success success =>
      cases success with
      | false => rfl
      | true =>
          obtain ⟨passed, hpassed⟩ := applied_of_success hfinal hentry
          rw [happlied] at hpassed
          exact absurd hpassed (hnone passed)

/-- A null message stops the watcher in front of a request. -/
def stopBefore : List (Label ℕ ℕ ℕ ℕ ℕ ℕ) :=
  .call 0 7 none :: List.replicate 3 (.send 0) ++
    .call 0 8 (some (.request 5)) :: List.replicate 4 (.send 0) ++
    .dispatch :: List.replicate 7 .callback

/-- A thread waits on its future until its time is over. -/
def waitBehind : List (Label ℕ ℕ ℕ ℕ ℕ ℕ) :=
  .callWait 5 1 .waitFor :: List.replicate 3 (.wait 5 1) ++
    .wake 5 1 :: List.replicate 3 (.wait 5 1)

theorem unanswered_stopBefore : ∃ state final : State ℕ ℕ ℕ ℕ ℕ ℕ,
    state.queue.active = false ∧ final.applied = [] ∧
      ((1, .success false) : ℕ × Future.Returned ℕ) ∈
        (final.future 5).returned ∧
      ∀ entry ∈ (final.future 5).returned, entry.2 = .success false := by
  let start : State ℕ ℕ ℕ ℕ ℕ ℕ := .initial (fun _ => none) fun _ => none
  let state := (execute step start stopBefore).get rfl
  have hexecute : execute step start stopBefore = some state := rfl
  have hreach : (system ℕ ℕ ℕ ℕ ℕ ℕ).Reachable state :=
    reachable_of_execute ⟨_, _, rfl⟩ hexecute
  let final := (execute step state waitBehind).get rfl
  have hbehind : execute step state waitBehind = some final := rfl
  have hrun : (system ℕ ℕ ℕ ℕ ℕ ℕ).Run state waitBehind final :=
    run_of_execute hbehind
  have hstopped : state.queue.active = false := rfl
  have hnone : state.applied = [] := rfl
  obtain ⟨happlied, hfutures⟩ := unanswered hreach hstopped hrun
  refine ⟨state, final, hstopped, happlied.trans hnone, ?_, hfutures 5 ?_⟩
  · exact List.mem_singleton_self _
  · simp [hnone]

end Sensor.AsyncRequest
