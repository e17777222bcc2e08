import Sensor.Reactor.LinkLog
import Sensor.Reactor.WatchedLink

/-!
# The end of a stream link

No function of a link assigns `OK` to `m_state`, so a link that left that state
does not come back.  An event whose processing ends in `DISCONNECT` or
`READ_ERROR` stops the watcher, closes the socket and invokes the dispose
callback; nothing starts such a watcher again, so this happens once.
-/

namespace Sensor.LinkEnding

open StreamLink Logged WatchedLink

/-- The link after a call of a client or an event; the loop hands events to an
active watcher of a started link. -/
def step (link : StreamLink) : Label → Option StreamLink
  | .act action => link.perform action
  | .event event =>
      if link.m_reactor && link.m_handler.active then link.onEvent event
      else none

/-- A step with its log. -/
def tracedStep (link : StreamLink) : Label → Logged Entry StreamLink
  | .act action => Traced.perform link action
  | .event event =>
      if link.m_reactor && link.m_handler.active then
        Traced.onEvent link event
      else ofOption none

variable {link next : StreamLink}

theorem value_tracedStep {label : Label} :
    (tracedStep link label).value = step link label := by
  cases label with
  | act action => exact Traced.value_perform
  | event event =>
      rw [tracedStep, step, apply_ite value, Traced.value_onEvent]
      rfl

/-- The log of a run is one of a run of the link. -/
theorem value_run (labels : List Label) :
    (run tracedStep link labels).value =
      TransitionSystem.execute step link labels := by
  have hstep : (fun link label => (tracedStep link label).value) = step :=
    funext fun _ => funext fun _ => value_tracedStep
  rw [Logged.value_run, hstep]

/-! ## Leaving the state `OK` -/

/-- A link that has left `OK` stays out of it. -/
def StaysOut (earlier later : LinkState) : Prop :=
  earlier ≠ .ok → later ≠ .ok

instance : Std.Refl StaysOut where
  refl := fun _ => id

instance : IsTrans LinkState StaysOut where
  trans := fun _ _ _ hfirst hsecond => hsecond ∘ hfirst

/-- The states the log shows. -/
def stateOf : Entry → Option LinkState
  | .state m_state => some m_state
  | .processed m_state => some m_state
  | _ => none

/-- A computation on a link in whose log the states stay out of `OK`. -/
def Leaves (link : StreamLink) (computation : Logged Entry StreamLink) : Prop :=
  computation.Ascends StaysOut stateOf m_state link.m_state

theorem Leaves.bind {first : Logged Entry StreamLink}
    {rest : StreamLink → Logged Entry StreamLink} (hfirst : Leaves link first)
    (hrest : ∀ middle, Leaves middle (rest middle)) :
    Leaves link (first.bind rest) :=
  Ascends.bind hfirst fun middle _ => hrest middle

theorem Leaves.pure (link : StreamLink) : Leaves link (Logged.pure link) :=
  Ascends.pure (refl _)

/-- An entry without a state, and a link in the same state. -/
theorem Leaves.tell {entry : Entry} {value : Option StreamLink}
    (hentry : stateOf entry = none)
    (hstate : ∀ next, value = some next → next.m_state = link.m_state) :
    Leaves link (Logged.tell entry value) :=
  Ascends.tell hentry fun next hnext => by
    rw [hstate next hnext]
    exact refl _

theorem staysOut_of_eq {earlier later : LinkState} (heq : later = earlier) :
    StaysOut earlier later := by
  rw [heq]
  exact refl earlier

theorem prepareEvents_state (link : StreamLink) :
    link.prepareEvents.1.m_state = link.m_state := by
  rw [prepareEvents]
  split <;> rfl

theorem start_state (link : StreamLink) :
    link.start.m_state = link.m_state := by
  rcases link.live_or_ended with hlive | hended
  · rw [start_of_live hlive]
  · rw [start_of_ended hended]

theorem staysOut_perform {action : Action}
    (hperform : link.perform action = some next) :
    StaysOut link.m_state next.m_state := by
  cases action with
  | advance l =>
      cases hperform
      exact staysOut_of_eq rfl
  | write data =>
      obtain ⟨m_out, -, rfl⟩ := Option.map_eq_some_iff.mp hperform
      exact staysOut_of_eq rfl
  | setReceiving val =>
      cases hperform
      rw [setReceiving]
      split <;> exact staysOut_of_eq rfl
  | makeDisconnect =>
      cases hperform
      rw [makeDisconnect]
      split
      · rintro - ⟨⟩
      · exact staysOut_of_eq rfl
  | start =>
      cases hperform
      exact staysOut_of_eq (start_state link)

theorem staysOut_afterCall {failure : LinkState} (hfailure : failure ≠ .ok)
    (errno : Option Errno) :
    StaysOut link.m_state (link.afterCall failure errno).m_state := by
  cases errno with
  | none => exact staysOut_of_eq rfl
  | some errno =>
      rw [afterCall]
      split
      · exact staysOut_of_eq rfl
      · exact fun _ => hfailure

theorem staysOut_afterRecv (errno : Option Errno) (got : ℕ) :
    StaysOut link.m_state (link.afterRecv errno got).m_state := by
  rw [afterRecv]
  split
  · rintro - ⟨⟩
  · exact staysOut_afterCall (by decide) errno

theorem leaves_showing (hstate : StaysOut link.m_state next.m_state) :
    Leaves link (Traced.showing next) :=
  Ascends.tell_level rfl hstate

theorem leaves_perform (link : StreamLink) (action : Action) :
    Leaves link (Traced.perform link action) := by
  have hperform : Leaves link (ofOption (link.perform action)) :=
    Ascends.ofOption fun _ => staysOut_perform
  exact hperform.bind fun _ => leaves_showing (refl _)

theorem leaves_invoke (link : StreamLink) (callback : Callback) (isSet : Bool)
    (actions : List Action) :
    Leaves link (Traced.invoke link callback isSet actions) := by
  refine Leaves.bind (.tell rfl ?_) fun _ => Ascends.run leaves_perform actions
  intro next hnext
  obtain ⟨-, heq⟩ := Option.ite_none_right_eq_some.mp hnext
  cases heq
  rfl

theorem leaves_processRead (link : StreamLink) (result : RecvResult)
    (actions : List Action) :
    Leaves link (Traced.processRead link result actions) := by
  have hrecv : (tell (.recv (RecvResult.got link.m_in result))
      (Sock.bufferedRecv link.m_in result)).Ascends StaysOut stateOf
        (fun _ => link.m_state) link.m_state :=
    .tell rfl fun _ _ => refl _
  refine hrecv.bind ?_
  rintro ⟨m_in, got⟩ -
  let received := { link with
    m_in
    received := link.received ++ RecvResult.bytes link.m_in result }
  have hstate : Leaves received
      (Traced.showing (received.afterRecv (RecvResult.errno result) got)) :=
    leaves_showing (staysOut_afterRecv _ _)
  refine hstate.bind fun after => ?_
  split
  · apply (leaves_invoke after .onRead after.onRead actions).map
    intro value
    split <;> rfl
  · exact .pure after

theorem leaves_processWrite (link : StreamLink) (result : SendResult)
    (actions : List Action) :
    Leaves link (Traced.processWrite link result actions) := by
  rw [Traced.processWrite]
  obtain ⟨m_out, got⟩ := Sock.bufferedSend link.m_out result
  refine Leaves.bind (.tell rfl ?_) fun sent => ?_
  · rintro after ⟨⟩
    rfl
  · have hstate : Leaves sent (Traced.showing
        (sent.afterCall .writeError (SendResult.errno result))) :=
      leaves_showing (staysOut_afterCall (by decide) _)
    refine hstate.bind fun after => ?_
    split
    · exact leaves_invoke { after with m_out := after.m_out.reset } _ _ actions
    · exact .pure after

theorem leaves_process (link : StreamLink) (event : Event) :
    Leaves link (Traced.process link event) := by
  refine Leaves.bind ?_ fun after => ?_
  · split
    · exact leaves_processRead link event.recv event.readActions
    · exact .pure link
  · split
    · exact leaves_processWrite after event.send event.writeActions
    · exact .pure after

theorem leaves_settle (link : StreamLink) (event : Event) :
    Leaves link (Traced.settle link event) := by
  have hprepared : (tell (.processed link.m_state)
      (some link.prepareEvents)).Ascends StaysOut stateOf
        (fun prepared => prepared.1.m_state) link.m_state :=
    .tell_level (congrArg some (prepareEvents_state link).symm)
      (staysOut_of_eq (prepareEvents_state link))
  refine hprepared.bind ?_
  rintro ⟨prepared, result⟩ -
  cases result with
  | true => exact Leaves.pure prepared
  | false =>
      have hdestroy : Leaves prepared (Traced.destroy prepared.stop) := by
        rw [Traced.destroy]
        split
        · apply Leaves.tell rfl
          rintro closed ⟨⟩
          rfl
        · exact .pure prepared.stop
      exact hdestroy.bind fun closed =>
        leaves_invoke { closed with disposed := closed.disposed + 1 } _ _ _

theorem leaves_step (link : StreamLink) (label : Label) :
    Leaves link (tracedStep link label) := by
  cases label with
  | act action => exact leaves_perform link action
  | event event =>
      rw [tracedStep]
      split
      · exact (leaves_process link event).bind fun after =>
          leaves_settle after event
      · exact .ofOption fun _ hnone => nomatch hnone

/-! ## The end of the link -/

/-- The states in which the processing of an event ends the link. -/
def Ended (m_state : LinkState) : Prop :=
  m_state = .disconnect ∨ m_state = .readError

/-- The entries about the end of an event or of the link. -/
def isEnding : Entry → Bool
  | .processed _ => true
  | .close => true
  | .callback .onDispose _ => true
  | _ => false

/-- The socket is closed and the dispose callback invoked by the first event
whose processing ends the link, and by no other. -/
inductive EndsOnce : List Entry → Prop
  | nil : EndsOnce []
  | event {m_state : LinkState} {rest : List Entry} (hlive : ¬ Ended m_state)
      (hrest : EndsOnce rest) : EndsOnce (.processed m_state :: rest)
  | over {m_state : LinkState} {isSet : Bool} (hended : Ended m_state) :
      EndsOnce [.processed m_state, .close, .callback .onDispose isSet]

/-- The link has neither been closed nor disposed of. -/
structure Working (link : StreamLink) : Prop where
  sock : link.m_sock ≠ 0
  closed : link.closed = 0
  disposed : link.disposed = 0

/-- The link has been closed and disposed of, and its watcher stands still. -/
structure Over (link : StreamLink) : Prop where
  ended : Ended link.m_state
  stopped : link.m_handler.active = false
  closed : link.closed = 1
  disposed : link.disposed = 1

theorem Working.keep (hworking : Working link) (hkeeps : link.Keeps next) :
    Working next where
  sock := by
    rw [hkeeps.sock]
    exact hworking.sock
  closed := hkeeps.closed.trans hworking.closed
  disposed := hkeeps.disposed.trans hworking.disposed

theorem setReceiving_of_ne (hstate : link.m_state ≠ .ok) (val : Bool) :
    link.setReceiving val = link :=
  if_neg hstate

theorem makeDisconnect_of_ne (hstate : link.m_state ≠ .ok) :
    link.makeDisconnect = link :=
  if_neg hstate

theorem Ended.ne_ok (hended : Ended link.m_state) : link.m_state ≠ .ok := by
  rcases hended with hstate | hstate <;> simp [hstate]

theorem Over.perform (hover : Over link) {action : Action}
    (hperform : link.perform action = some next) : Over next := by
  cases action with
  | advance l =>
      cases hperform
      exact ⟨hover.ended, hover.stopped, hover.closed, hover.disposed⟩
  | write data =>
      obtain ⟨m_out, -, rfl⟩ := Option.map_eq_some_iff.mp hperform
      exact ⟨hover.ended, hover.stopped, hover.closed, hover.disposed⟩
  | setReceiving val =>
      cases hperform
      rwa [setReceiving_of_ne hover.ended.ne_ok]
  | makeDisconnect =>
      cases hperform
      rwa [makeDisconnect_of_ne hover.ended.ne_ok]
  | start =>
      cases hperform
      rw [start_of_ended hover.ended]
      exact ⟨hover.ended, hover.stopped, hover.closed, hover.disposed⟩

/-- An event that ends the link leaves it closed and disposed of. -/
theorem Working.settle (hworking : Working link) (hended : Ended link.m_state)
    {event : Event} (hsettle : link.settle event = some next) : Over next := by
  rw [settle_of_ended hended] at hsettle
  refine invoke_preserves (fun _ _ _ hover => hover.perform) ?_ hsettle
  refine ⟨hended, rfl, ?_, ?_⟩
  · simp [hworking.closed, hworking.sock]
  · simp [hworking.disposed]

/-! ### The log of a step -/

/-- A computation that says nothing about the end of an event or the link. -/
def Silent (computation : Logged Entry StreamLink) : Prop :=
  computation.Safe (fun entry => isEnding entry = false) fun _ => True

theorem Silent.filter_eq {computation : Logged Entry StreamLink}
    (hsilent : Silent computation) : computation.log.filter isEnding = [] :=
  List.filter_eq_nil_iff.mpr fun entry hentry => by
    rw [hsilent.1 entry hentry]
    exact Bool.false_ne_true

theorem silent_perform (link : StreamLink) (action : Action) :
    Silent (Traced.perform link action) := by
  simp [Silent, Traced.perform, Traced.showing, isEnding]

theorem silent_performAll (link : StreamLink) (actions : List Action) :
    Silent (Traced.performAll link actions) :=
  Safe.run (fun link action _ => silent_perform link action) trivial actions

theorem silent_invoke (link : StreamLink) {callback : Callback}
    (hcallback : callback ≠ .onDispose) (isSet : Bool)
    (actions : List Action) :
    Silent (Traced.invoke link callback isSet actions) := by
  rw [Silent, Traced.invoke, safe_bind, safe_tell]
  refine ⟨?_, fun after _ => silent_performAll after actions⟩
  cases callback with
  | onDispose => exact absurd rfl hcallback
  | _ => rfl

theorem silent_processRead (link : StreamLink) (result : RecvResult)
    (actions : List Action) :
    Silent (Traced.processRead link result actions) := by
  rw [Silent, Traced.processRead, safe_bind, safe_tell]
  refine ⟨rfl, ?_⟩
  rintro ⟨m_in, got⟩ -
  rw [safe_bind, Traced.showing, safe_tell]
  refine ⟨rfl, fun after _ => ?_⟩
  split
  · rw [safe_map]
    exact silent_invoke after (by decide) _ _
  · exact safe_pure.mpr trivial

theorem silent_processWrite (link : StreamLink) (result : SendResult)
    (actions : List Action) :
    Silent (Traced.processWrite link result actions) := by
  rw [Traced.processWrite]
  obtain ⟨m_out, got⟩ := Sock.bufferedSend link.m_out result
  rw [Silent, safe_bind, safe_tell]
  refine ⟨rfl, fun sent _ => ?_⟩
  rw [safe_bind, Traced.showing, safe_tell]
  refine ⟨rfl, fun after _ => ?_⟩
  split
  · exact silent_invoke _ (by decide) _ _
  · exact safe_pure.mpr trivial

theorem silent_process (link : StreamLink) (event : Event) :
    Silent (Traced.process link event) := by
  rw [Silent, Traced.process, safe_bind]
  have hread : Silent (if event.revents ≠ 0 ∨ evRead ≠ 0 then
      Traced.processRead link event.recv event.readActions
    else pure link) := by
    split
    · exact silent_processRead _ _ _
    · exact safe_pure.mpr trivial
  refine hread.mono fun after _ => ?_
  split
  · exact silent_processWrite _ _ _
  · exact safe_pure.mpr trivial

theorem endings_onDispose (link : StreamLink) (isSet : Bool)
    (actions : List Action) :
    (Traced.invoke link .onDispose isSet actions).log.filter isEnding =
      [.callback .onDispose isSet] := by
  rw [Traced.invoke]
  cases isSet with
  | false => rfl
  | true =>
      rw [log_bind_of_some (by rfl), List.filter_append,
        (silent_performAll link actions).filter_eq]
      rfl

theorem endings_settle_of_live (event : Event)
    (hlive : link.m_state = .ok ∨ link.m_state = .writeError) :
    (Traced.settle link event).log.filter isEnding =
      [.processed link.m_state] := by
  rw [Traced.settle, prepareEvents_of_live hlive]
  rfl

theorem endings_settle_of_ended (event : Event) (hended : Ended link.m_state)
    (hsock : link.m_sock ≠ 0) :
    (Traced.settle link event).log.filter isEnding =
      [.processed link.m_state, .close, .callback .onDispose link.onDispose] := by
  have hdestroy : Traced.destroy link.stop =
      tell .close (some { link.stop with closed := link.closed + 1 }) :=
    if_pos hsock
  rw [Traced.settle, prepareEvents_of_ended hended,
    log_bind_of_some (by rfl)]
  simp only [Bool.false_eq_true, if_false]
  rw [hdestroy, log_bind_of_some (by rfl), List.filter_append,
    List.filter_append, endings_onDispose]
  rfl

/-- An event says nothing about its end because it does not come to it, or that
the link works on, or that it is over. -/
theorem Working.endings_onEvent (hworking : Working link) (event : Event) :
    ((Traced.onEvent link event).log.filter isEnding = [] ∧
        link.onEvent event = none) ∨
      (∃ m_state next, ¬ Ended m_state ∧
        (Traced.onEvent link event).log.filter isEnding =
          [.processed m_state] ∧
        link.onEvent event = some next ∧ Working next) ∨
      (∃ m_state isSet, Ended m_state ∧
        (Traced.onEvent link event).log.filter isEnding =
          [.processed m_state, .close, .callback .onDispose isSet] ∧
        ∀ next, link.onEvent event = some next → Over next) := by
  have hsilent := (silent_process link event).filter_eq
  rw [Traced.onEvent, StreamLink.onEvent]
  cases hprocess : link.process event with
  | none =>
      rw [log_bind_of_none (Traced.value_process.trans hprocess)]
      exact .inl ⟨hsilent, rfl⟩
  | some after =>
      have hafter := hworking.keep (Keeps.process hprocess)
      rw [log_bind_of_some (Traced.value_process.trans hprocess),
        List.filter_append, hsilent, List.nil_append, Option.bind_some]
      rcases after.live_or_ended with hlive | hended
      · refine .inr (.inl ⟨after.m_state, _, ?_,
          endings_settle_of_live event hlive, settle_of_live hlive,
          hafter.sock, hafter.closed, hafter.disposed⟩)
        rcases hlive with hstate | hstate <;> simp [Ended, hstate]
      · exact .inr (.inr ⟨after.m_state, after.onDispose, hended,
          endings_settle_of_ended event hended hafter.sock,
          fun next => hafter.settle hended⟩)

/-! ### The log of a run -/

theorem Over.step (hover : Over link) (label : Label) :
    (tracedStep link label).Safe (fun entry => isEnding entry = false)
      Over := by
  cases label with
  | act action =>
      refine ⟨(silent_perform link action).1, fun next hnext => ?_⟩
      rw [tracedStep, Traced.value_perform] at hnext
      exact hover.perform hnext
  | event event => simp [tracedStep, hover.stopped]

theorem Over.run (hover : Over link) (labels : List Label) :
    (run tracedStep link labels).Safe (fun entry => isEnding entry = false)
      Over :=
  Safe.run (fun _ label hover => hover.step label) hover labels

/-- The log of a run says once that the link is over, and it is over or works on
at the end of the run. -/
def FailsOnce (link : StreamLink) (labels : List Label) : Prop :=
  EndsOnce ((run tracedStep link labels).log.filter isEnding) ∧
    ∀ last, (run tracedStep link labels).value = some last →
      Working last ∨ Over last

/-- A step that does not get anywhere. -/
theorem FailsOnce.stuck {label : Label} {labels : List Label}
    (hvalue : (tracedStep link label).value = none)
    (hsilent : (tracedStep link label).log.filter isEnding = []) :
    FailsOnce link (label :: labels) := by
  rw [FailsOnce, Logged.run, log_bind_of_none hvalue, hsilent, value_bind,
    hvalue]
  refine ⟨.nil, ?_⟩
  rintro last ⟨⟩

/-- A step to a link that works on. -/
theorem FailsOnce.cons {label : Label} {labels : List Label}
    (hvalue : (tracedStep link label).value = some next)
    (hrest : FailsOnce next labels)
    (hends : ∀ rest, EndsOnce rest → EndsOnce
      ((tracedStep link label).log.filter isEnding ++ rest)) :
    FailsOnce link (label :: labels) := by
  rw [FailsOnce, Logged.run, log_bind_of_some hvalue, List.filter_append,
    value_bind, hvalue]
  exact ⟨hends _ hrest.1, hrest.2⟩

/-- A step in which the link ends. -/
theorem FailsOnce.over {label : Label} {labels : List Label}
    (hover : ∀ next, (tracedStep link label).value = some next → Over next)
    (hends : EndsOnce ((tracedStep link label).log.filter isEnding)) :
    FailsOnce link (label :: labels) := by
  rw [FailsOnce, Logged.run]
  cases hvalue : (tracedStep link label).value with
  | none =>
      rw [log_bind_of_none hvalue, value_bind, hvalue]
      refine ⟨hends, ?_⟩
      rintro last ⟨⟩
  | some next =>
      have hrun := (hover next hvalue).run labels
      have hsilent : Silent (run tracedStep next labels) :=
        hrun.mono fun _ _ => trivial
      rw [log_bind_of_some hvalue, List.filter_append, hsilent.filter_eq,
        List.append_nil, value_bind, hvalue]
      exact ⟨hends, fun last hlast => .inr (hrun.2 last hlast)⟩

theorem Working.failsOnce (hworking : Working link) (labels : List Label) :
    FailsOnce link labels := by
  induction labels generalizing link with
  | nil =>
      refine ⟨.nil, ?_⟩
      rintro last ⟨⟩
      exact .inl hworking
  | cons label labels ih =>
      cases label with
      | act action =>
          have hsilent := (silent_perform link action).filter_eq
          cases hvalue : (tracedStep link (.act action)).value with
          | none => exact .stuck hvalue hsilent
          | some next =>
              have hperform : link.perform action = some next := by
                rw [← Traced.value_perform]
                exact hvalue
              refine .cons hvalue (ih (hworking.keep (.perform hperform))) ?_
              intro rest hrest
              rw [tracedStep, hsilent]
              exact hrest
      | event event =>
          by_cases hready : (link.m_reactor && link.m_handler.active) = true
          · have hstep : tracedStep link (.event event) =
                Traced.onEvent link event := if_pos hready
            have hvalue : (tracedStep link (.event event)).value =
                link.onEvent event := by
              rw [hstep, Traced.value_onEvent]
            rcases hworking.endings_onEvent event with ⟨hsilent, hnone⟩ |
              ⟨m_state, next, hlive, hlog, hevent, hnext⟩ |
              ⟨m_state, isSet, hended, hlog, hnext⟩
            · exact .stuck (hvalue.trans hnone) (by rw [hstep, hsilent])
            · refine .cons (hvalue.trans hevent) (ih hnext) ?_
              intro rest hrest
              rw [hstep, hlog]
              exact .event hlive hrest
            · refine .over (fun next hsome => hnext next ?_) ?_
              · rw [← hvalue]
                exact hsome
              · rw [hstep, hlog]
                exact .over hended
          · have hstep : tracedStep link (.event event) = ofOption none :=
              if_neg hready
            exact .stuck (by rw [hstep]; rfl) (by rw [hstep]; rfl)

/-! ## The main result -/

/-- The descriptor `init` takes over. -/
def descriptor : Opening → ℤ
  | .sock sock => sock
  | .handler handler => handler.fd

/-- A link with any callbacks, initialised once. -/
def initial (handler : Watcher) (onRead onWriteCompleted onDispose : Bool)
    (opening : Opening) : StreamLink :=
  initBy { StreamLink.new handler with onRead, onWriteCompleted, onDispose }
    opening

/-- What a run promises about the failure of a link. -/
structure FailsForGood (link : StreamLink) (labels : List Label) : Prop where
  leaves_ok : ((run tracedStep link labels).log.filterMap stateOf).Pairwise
    fun earlier later => earlier ≠ .ok → later ≠ .ok
  ends_once : EndsOnce ((run tracedStep link labels).log.filter isEnding)
  no_effect : ∀ other : StreamLink, other.m_state ≠ .ok →
    (∀ val, other.setReceiving val = other) ∧ other.makeDisconnect = other
  not_started : ∀ other : StreamLink, Ended other.m_state →
    other.start.m_handler = other.m_handler
  at_end : ∀ last, TransitionSystem.execute step link labels = some last →
    last.closed = last.disposed ∧ last.disposed ≤ 1 ∧
      (last.disposed = 1 →
        Ended last.m_state ∧ last.start.m_handler.active = false)

/-- A link that was initialised with a descriptor fails once and for good, in
every run of calls and events and whatever its callbacks do. -/
theorem initial_failsForGood (handler : Watcher)
    (onRead onWriteCompleted onDispose : Bool) {opening : Opening}
    (hsock : descriptor opening ≠ 0) (labels : List Label) :
    FailsForGood (initial handler onRead onWriteCompleted onDispose opening)
      labels := by
  have hworking :
      Working (initial handler onRead onWriteCompleted onDispose opening) := by
    cases opening with
    | sock sock => exact ⟨hsock, rfl, rfl⟩
    | handler other => exact ⟨hsock, rfl, rfl⟩
  obtain ⟨hends, hlast⟩ := hworking.failsOnce labels
  have hstart : ∀ other : StreamLink, Ended other.m_state →
      other.start.m_handler = other.m_handler := by
    intro other hended
    rw [start_of_ended hended]
  refine ⟨(Ascends.run leaves_step labels).pairwise, hends, ?_, hstart, ?_⟩
  · exact fun other hstate =>
      ⟨setReceiving_of_ne hstate, makeDisconnect_of_ne hstate⟩
  · intro last hexecute
    rw [← value_run] at hexecute
    rcases hlast last hexecute with hworks | hover
    · simp [hworks.closed, hworks.disposed]
    · refine ⟨hover.closed.trans hover.disposed.symm, hover.disposed.le,
        fun _ => ⟨hover.ended, ?_⟩⟩
      rw [hstart last hover.ended]
      exact hover.stopped

/-- The peer closes a link whose dispose callback starts it again. -/
theorem initial_failsForGood_closedByPeer :
    FailsForGood
      (initial ⟨0, ⟨false, false⟩, false⟩ true true true (.sock 5))
      [.act .start,
        .event { revents := 1, recv := .received [], send := .failed .eagain,
                 readActions := [], writeActions := [],
                 disposeActions := [.start, .setReceiving true] },
        .act (.write [1]), .act .start] :=
  initial_failsForGood _ true true true (by decide) _

end Sensor.LinkEnding
