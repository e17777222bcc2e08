import Sensor.Queue.Eventcount
import Sensor.Queue.MpscQueue

/-!
# The pipe over the allocating queue loses no wakeup

`MpscPipe::send` pushes and then notifies; `MpscPipe::recv` polls the queue
through the eventcount.  The queue's link, the flag and the semaphore are three
separate locations, and a producer may act on a flag it read many rounds ago.
-/

namespace Sensor.MpscPipe

open MpscQueue Eventcount TransitionSystem

/-- Where a thread is inside `send`. -/
inductive SendPc (Addr Data : Type*) where
  | push (pc : PushPc Addr Data)
  | notify (pc : NotifyPc)

/-- The pipe, the threads that send and the thread that receives. -/
structure State (Addr Data Sender : Type*) where
  memory : Memory Addr Data
  eventcount : Eventcount
  sender : Sender → Option (SendPc Addr Data)
  receiver : Option (OutPc (PopPc Addr Data) Data)

/-- A step: a thread calls `send` and allocates the node of `push`, or takes
its next step; the consumer calls `recv` or takes its next step. -/
inductive Label (Addr Data Sender : Type*) where
  | callSend (sender : Sender) (node : Addr) (data : Data)
  | send (sender : Sender)
  | callRecv
  | recv

variable {Addr Data Sender : Type*} [DecidableEq Addr] [DecidableEq Sender]

def callSend [Inhabited Data] (state : State Addr Data Sender)
    (sender : Sender) (node : Addr) (data : Data) :
    Option (State Addr Data Sender) :=
  match state.sender sender with
  | some _ => none
  | none =>
      if state.memory.live node = false then
        some { state with
          memory := state.memory.allocate node
          sender := Function.update state.sender sender
            (some (.push (.writeData node data))) }
      else none

/-- The place after a step of `push`: further inside it or at `notify`. -/
def afterPush : Option (PushPc Addr Data) → SendPc Addr Data
  | some pc => .push pc
  | none => .notify .loadWaiting

def senderStep (state : State Addr Data Sender) (sender : Sender) :
    Option (State Addr Data Sender) :=
  (state.sender sender).map fun
    | .push pc =>
        { state with
          memory := (pushStep state.memory pc).1
          sender := Function.update state.sender sender
            (some (afterPush (pushStep state.memory pc).2)) }
    | .notify pc =>
        { state with
          eventcount := (notifyStep state.eventcount pc).1
          sender := Function.update state.sender sender
            ((notifyStep state.eventcount pc).2.map .notify) }

def callRecv (state : State Addr Data Sender) :
    Option (State Addr Data Sender) :=
  match state.receiver with
  | some _ => none
  | none => some { state with receiver := some (.poll .loadHead) }

def receiverStep (state : State Addr Data Sender) :
    Option (State Addr Data Sender) :=
  state.receiver.bind fun pc =>
    (outStep popStep .loadHead state.memory state.eventcount pc).map
      fun (memory, eventcount, result) =>
        { state with
          memory, eventcount
          receiver := match result with
            | .running pc => some pc
            | .done _ => none }

def step [Inhabited Data] (state : State Addr Data Sender) :
    Label Addr Data Sender → Option (State Addr Data Sender)
  | .callSend sender node data => callSend state sender node data
  | .send sender => senderStep state sender
  | .callRecv => callRecv state
  | .recv => receiverStep state

/-- A pipe just constructed, with no thread inside it. -/
def State.initial [Inhabited Data] (dummy : Addr) (next : Addr → Option Addr)
    (data : Addr → Data) : State Addr Data Sender where
  memory := .new dummy next data
  eventcount := .new
  sender := fun _ => none
  receiver := none

def system (Addr Data Sender : Type*) [DecidableEq Addr] [Inhabited Data]
    [DecidableEq Sender] :
    TransitionSystem (State Addr Data Sender) (Label Addr Data Sender) :=
  .ofStep (fun state => ∃ dummy next data, state = .initial dummy next data)
    step

/-! ## The invariant of the sleeping consumer -/

/-- The consumer has raised the flag and has not been woken yet. -/
def InWindow (pc : OutPc (PopPc Addr Data) Data) : Prop :=
  (∃ popPc, pc = .recheck popPc) ∨ pc = .commitWait

/-- Some producer has lowered the flag and will post. -/
def Posting (sender : Sender → Option (SendPc Addr Data)) : Prop :=
  ∃ thread, sender thread = some (.notify .post)

/-- Some producer has linked its node and is inside `notify`. -/
def Notifying (sender : Sender → Option (SendPc Addr Data)) : Prop :=
  ∃ thread pc, sender thread = some (.notify pc)

/-- While the consumer is about to sleep, the flag is up or a post is stored or
on its way; and if it sleeps although a node is linked, a post is stored or
some producer is inside `notify`. -/
structure Invariant (state : State Addr Data Sender) : Prop where
  head : ∀ pc h, state.receiver = some pc →
    pc = .poll (.loadNext h) ∨ pc = .recheck (.loadNext h) →
      h = state.memory.head
  flag : ∀ pc, state.receiver = some pc → InWindow pc →
    state.eventcount.waiting = true ∨ 0 < state.eventcount.semaphore ∨
      Posting state.sender
  linked : state.receiver = some .commitWait →
    state.memory.next state.memory.head ≠ none →
      0 < state.eventcount.semaphore ∨ Notifying state.sender

variable {state next : State Addr Data Sender}

theorem semaphore_semPost (eventcount : Eventcount) :
    0 < eventcount.semPost.semaphore := by
  by_cases hmax : eventcount.semaphore < semValueMax
  · simp [semPost, hmax]
  · have hlarge : 0 < semValueMax := by decide
    simp only [semPost, hmax, if_false]
    omega

omit [DecidableEq Addr] in
/-- A producer posting keeps posting while another producer moves. -/
theorem Posting.update {thread : Sender} {value : Option (SendPc Addr Data)}
    (hposting : Posting state.sender)
    (hthread : state.sender thread ≠ some (.notify .post)) :
    Posting (Function.update state.sender thread value) := by
  obtain ⟨other, hother⟩ := hposting
  refine ⟨other, ?_⟩
  have hne : other ≠ thread := by
    rintro rfl
    exact hthread hother
  rw [Function.update_of_ne hne]
  exact hother

omit [DecidableEq Addr] in
theorem Notifying.update {thread : Sender} {value : Option (SendPc Addr Data)}
    (hnotifying : Notifying state.sender)
    (hthread : ∀ pc, state.sender thread ≠ some (.notify pc)) :
    Notifying (Function.update state.sender thread value) := by
  obtain ⟨other, pc, hother⟩ := hnotifying
  refine ⟨other, pc, ?_⟩
  have hne : other ≠ thread := by
    rintro rfl
    exact hthread pc hother
  rw [Function.update_of_ne hne]
  exact hother

omit [DecidableEq Addr] in
/-- A producer that is not about to post moves, and the consumer that is about
to sleep can still count on the flag or a post. -/
theorem Invariant.flag_update (hinv : Invariant state) {thread : Sender}
    (value : Option (SendPc Addr Data))
    (hthread : state.sender thread ≠ some (.notify .post))
    {pc : OutPc (PopPc Addr Data) Data} (hpc : state.receiver = some pc)
    (hwindow : InWindow pc) :
    state.eventcount.waiting = true ∨ 0 < state.eventcount.semaphore ∨
      Posting (Function.update state.sender thread value) := by
  rcases hinv.flag pc hpc hwindow with hflag | hsem | hposting
  · exact .inl hflag
  · exact .inr (.inl hsem)
  · exact .inr (.inr (hposting.update hthread))

omit [DecidableEq Addr] in
/-- The same for a consumer that sleeps although a node is linked, where the
producer is outside `notify`. -/
theorem Invariant.linked_update (hinv : Invariant state) {thread : Sender}
    (value : Option (SendPc Addr Data))
    (hthread : ∀ pc, state.sender thread ≠ some (.notify pc))
    (hpc : state.receiver = some .commitWait)
    (hnext : state.memory.next state.memory.head ≠ none) :
    0 < state.eventcount.semaphore ∨
      Notifying (Function.update state.sender thread value) := by
  rcases hinv.linked hpc hnext with hsem | hnotifying
  · exact .inl hsem
  · exact .inr (hnotifying.update hthread)

theorem Invariant.callSend [Inhabited Data] (hinv : Invariant state)
    {thread : Sender} {node : Addr} {data : Data}
    (hstep : callSend state thread node data = some next) :
    Invariant next := by
  cases hthread : state.sender thread with
  | some pc => simp [MpscPipe.callSend, hthread] at hstep
  | none =>
      simp only [MpscPipe.callSend, hthread] at hstep
      split at hstep
      case isFalse => cases hstep
      case isTrue =>
      cases hstep
      exact {
        head := hinv.head
        flag := fun pc hpc hwindow =>
          hinv.flag_update _ (by simp [hthread]) hpc hwindow
        linked := fun hpc hnext => by
          have hold : state.memory.next state.memory.head ≠ none := by
            intro hnone
            apply hnext
            by_cases heq : state.memory.head = node
            · simp [Memory.allocate, heq]
            · simpa [Memory.allocate, heq] using hnone
          exact hinv.linked_update _ (by simp [hthread]) hpc hold }

/-- The link of the head appears only by the store that precedes `notify`. -/
theorem pushStep_next_head {memory : Memory Addr Data} {pc : PushPc Addr Data}
    (hnext : (pushStep memory pc).1.next (pushStep memory pc).1.head ≠ none) :
    memory.next memory.head ≠ none ∨ (pushStep memory pc).2 = none := by
  cases pc with
  | writeData node data => exact .inl hnext
  | clearNext node =>
      left
      intro hnone
      apply hnext
      by_cases heq : memory.head = node
      · simp [pushStep, heq]
      · simpa [pushStep, heq] using hnone
  | exchange node => exact .inl hnext
  | linkPrev node prev => exact .inr rfl

theorem Invariant.push (hinv : Invariant state) {thread : Sender}
    {pc : PushPc Addr Data} (hthread : state.sender thread = some (.push pc)) :
    Invariant { state with
      memory := (pushStep state.memory pc).1
      sender := Function.update state.sender thread
        (some (afterPush (pushStep state.memory pc).2)) } where
  head := fun out h hout hplace => by
    rw [hinv.head out h hout hplace]
    cases pc <;> rfl
  flag := fun out hout hwindow =>
    hinv.flag_update _ (by simp [hthread]) hout hwindow
  linked := fun hout hnext => by
    rcases pushStep_next_head hnext with hold | hreturn
    · exact hinv.linked_update _ (by simp [hthread]) hout hold
    · right
      refine ⟨thread, .loadWaiting, ?_⟩
      simp [hreturn, afterPush]

omit [DecidableEq Addr] in
theorem Invariant.notify (hinv : Invariant state) {thread : Sender}
    {pc : NotifyPc} (hthread : state.sender thread = some (.notify pc)) :
    Invariant { state with
      eventcount := (notifyStep state.eventcount pc).1
      sender := Function.update state.sender thread
        ((notifyStep state.eventcount pc).2.map .notify) } := by
  cases pc with
  | loadWaiting =>
      have hidle : state.sender thread ≠ some (.notify .post) := by
        simp [hthread]
      refine ⟨hinv.head, fun out hout hwindow => ?_, fun hout hnext => ?_⟩
      · exact hinv.flag_update _ hidle hout hwindow
      · cases hwaiting : state.eventcount.waiting with
        | true =>
            right
            exact ⟨thread, .clearWaiting, by simp [notifyStep, hwaiting]⟩
        | false =>
            rcases hinv.flag_update none hidle hout (.inr rfl) with
              hflag | hsem | ⟨other, hother⟩
            · rw [hwaiting] at hflag
              cases hflag
            · exact .inl hsem
            · refine .inr ⟨other, .post, ?_⟩
              simpa [notifyStep, hwaiting] using hother
  | clearWaiting =>
      refine ⟨hinv.head, fun out hout hwindow => ?_, fun hout hnext => ?_⟩
      · exact .inr (.inr ⟨thread, by simp [notifyStep]⟩)
      · exact .inr ⟨thread, .post, by simp [notifyStep]⟩
  | post =>
      have hsem := semaphore_semPost state.eventcount
      exact ⟨hinv.head, fun _ _ _ => .inr (.inl hsem), fun _ _ => .inl hsem⟩

/-! ### The consumer -/

omit [DecidableEq Sender]

omit [DecidableEq Addr] in
/-- A place at which the consumer reads no link and is not about to sleep. -/
theorem Invariant.settle (hinv : Invariant state)
    {memory : Memory Addr Data} (eventcount : Eventcount)
    (receiver : Option (OutPc (PopPc Addr Data) Data))
    (hhead : ∀ pc h, receiver = some pc →
      pc = .poll (.loadNext h) ∨ pc = .recheck (.loadNext h) →
        h = memory.head)
    (hwindow : ∀ pc, receiver = some pc → InWindow pc →
      eventcount.waiting = true ∨
        (eventcount = state.eventcount ∧
          ∃ old, state.receiver = some old ∧ InWindow old))
    (hlinked : receiver = some .commitWait →
      memory.next memory.head = none) :
    Invariant { state with memory, eventcount, receiver } where
  head := hhead
  flag := fun pc hpc hin => by
    rcases hwindow pc hpc hin with hflag | ⟨heq, old, hold, holdIn⟩
    · exact .inl hflag
    · rw [heq]
      exact hinv.flag old hold holdIn
  linked := fun hpc hnext => absurd (hlinked hpc) hnext

/-- `pop` reads the link of a node it has just found in `head`. -/
theorem popStep_loadNext {memory after : Memory Addr Data}
    {pc : PopPc Addr Data} {h : Addr}
    (hstep : popStep memory pc = (after, .running (.loadNext h))) :
    h = after.head := by
  cases pc with
  | loadHead =>
      simp only [popStep, Prod.mk.injEq, StepResult.running.injEq,
        PopPc.loadNext.injEq] at hstep
      rw [← hstep.1, ← hstep.2]
  | loadNext old =>
      cases hnext : memory.next old <;> simp [popStep, hnext] at hstep
  | _ => simp [popStep] at hstep

/-- `pop` returns false only when it read an empty link, with the shared words
as they are. -/
theorem popStep_done_none {memory after : Memory Addr Data}
    {pc : PopPc Addr Data}
    (hstep : popStep memory pc = (after, .done none)) :
    after = memory ∧ ∃ h, pc = .loadNext h ∧ memory.next h = none := by
  cases pc with
  | loadNext h =>
      cases hnext : memory.next h with
      | none =>
          simp only [popStep, hnext, Prod.mk.injEq] at hstep
          exact ⟨hstep.1.symm, h, rfl, hnext⟩
      | some second => simp [popStep, hnext] at hstep
  | _ => simp [popStep] at hstep

theorem Invariant.receive (hinv : Invariant state)
    (hstep : receiverStep state = some next) : Invariant next := by
  obtain ⟨pc, hpc, hmap⟩ := Option.bind_eq_some_iff.mp hstep
  rw [Option.map_eq_some_iff] at hmap
  obtain ⟨⟨memory, eventcount, result⟩, hout, rfl⟩ := hmap
  cases pc with
  | poll popPc =>
      cases hpop : popStep state.memory popPc with
      | mk after outcome =>
          rcases outcome with popPc' | _ | data
          all_goals
            simp only [outStep, hpop, Option.some.injEq, Prod.mk.injEq] at hout
            obtain ⟨rfl, rfl, rfl⟩ := hout
            apply hinv.settle
          · rintro pc h ⟨⟩ (heq | heq) <;> cases heq
            exact popStep_loadNext hpop
          · simp [InWindow]
          · simp
          · rintro pc h ⟨⟩ (heq | heq) <;> cases heq
          · simp [InWindow]
          · simp
          · simp
          · simp
          · simp
  | prepareWait =>
      simp only [outStep, Option.some.injEq, Prod.mk.injEq] at hout
      obtain ⟨rfl, rfl, rfl⟩ := hout
      apply hinv.settle
      · rintro pc h ⟨⟩ (heq | heq) <;> cases heq
      · exact fun _ _ _ => .inl rfl
      · simp
  | recheck popPc =>
      have hin : ∃ old, state.receiver = some old ∧ InWindow old :=
        ⟨_, hpc, .inl ⟨popPc, rfl⟩⟩
      cases hpop : popStep state.memory popPc with
      | mk after outcome =>
          rcases outcome with popPc' | _ | data
          all_goals
            simp only [outStep, hpop, Option.some.injEq, Prod.mk.injEq] at hout
            obtain ⟨rfl, rfl, rfl⟩ := hout
            apply hinv.settle
          · rintro pc h ⟨⟩ (heq | heq) <;> cases heq
            exact popStep_loadNext hpop
          · exact fun _ _ _ => .inr ⟨rfl, hin⟩
          · simp
          · rintro pc h ⟨⟩ (heq | heq) <;> cases heq
          · exact fun _ _ _ => .inr ⟨rfl, hin⟩
          · intro _
            obtain ⟨rfl, h, rfl, hnext⟩ := popStep_done_none hpop
            rw [← hinv.head _ h hpc (.inr rfl)]
            exact hnext
          · rintro pc h ⟨⟩ (heq | heq) <;> cases heq
          · simp [InWindow]
          · simp
  | cancelWait data =>
      simp only [outStep, Option.some.injEq, Prod.mk.injEq] at hout
      obtain ⟨rfl, rfl, rfl⟩ := hout
      apply hinv.settle <;> simp
  | commitWait =>
      simp only [outStep, Option.map_eq_some_iff, Prod.mk.injEq] at hout
      obtain ⟨after, -, rfl, rfl, rfl⟩ := hout
      apply hinv.settle
      · rintro pc h ⟨⟩ (heq | heq) <;> cases heq
      · simp [InWindow]
      · simp

/-! ## The main result -/

theorem Invariant.initial [Inhabited Data] (dummy : Addr)
    (next : Addr → Option Addr) (data : Addr → Data) :
    Invariant (State.initial dummy next data : State Addr Data Sender) where
  head := by simp [State.initial]
  flag := by simp [State.initial]
  linked := by simp [State.initial]

theorem reachable_invariant [Inhabited Data] [DecidableEq Sender]
    (hreach : (system Addr Data Sender).Reachable state) :
    Invariant state := by
  apply hreach.invariant
  · rintro start ⟨dummy, next, data, rfl⟩
    exact Invariant.initial dummy next data
  · intro start label final hinv hstep
    cases label with
    | callSend thread node data => exact hinv.callSend hstep
    | send thread =>
        obtain ⟨pc, hthread, rfl⟩ := Option.map_eq_some_iff.mp hstep
        cases pc with
        | push pc => exact hinv.push hthread
        | notify pc => exact hinv.notify hthread
    | callRecv =>
        have hcall : callRecv start = some final := hstep
        cases hpc : start.receiver with
        | some pc => simp [callRecv, hpc] at hcall
        | none =>
            simp only [callRecv, hpc, Option.some.injEq] at hcall
            subst hcall
            apply hinv.settle
            · rintro pc h ⟨⟩ (heq | heq) <;> cases heq
            · simp [InWindow]
            · simp
    | recv => exact hinv.receive hstep

/-- No reachable state has the consumer blocked in `sem_wait` while a message
is linked behind the head and no producer is inside `send`. -/
theorem no_lost_wakeup [Inhabited Data] [DecidableEq Sender]
    (hreach : (system Addr Data Sender).Reachable state) :
    ¬ (state.receiver = some .commitWait ∧ state.eventcount.semaphore = 0 ∧
      state.memory.next state.memory.head ≠ none ∧
        ∀ thread, state.sender thread = none) := by
  rintro ⟨hwait, hsem, hnext, hidle⟩
  rcases (reachable_invariant hreach).linked hwait hnext with
    hpositive | ⟨thread, pc, hthread⟩
  · omega
  · rw [hidle thread] at hthread
    cases hthread

/-- The consumer goes to sleep on the empty queue and a producer then sends:
the post it leaves wakes the consumer. -/
def sleepThenSend : List (Label ℕ ℕ ℕ) :=
  .callRecv :: List.replicate 5 .recv ++
    .callSend 0 1 5 :: List.replicate 7 (.send 0)

theorem no_lost_wakeup_sleepThenSend : ∃ state : State ℕ ℕ ℕ,
    (system ℕ ℕ ℕ).Reachable state ∧
      state.memory.next state.memory.head = some 1 ∧
      ¬ (state.receiver = some .commitWait ∧ state.eventcount.semaphore = 0 ∧
        state.memory.next state.memory.head ≠ none ∧
          ∀ thread, state.sender thread = none) := by
  let start : State ℕ ℕ ℕ := .initial 0 (fun _ => none) fun _ => 0
  let state := (execute step start sleepThenSend).get rfl
  have hexecute : execute step start sleepThenSend = some state := rfl
  have hreach : (system ℕ ℕ ℕ).Reachable state :=
    reachable_of_execute ⟨_, _, _, rfl⟩ hexecute
  exact ⟨state, hreach, rfl, no_lost_wakeup hreach⟩

end Sensor.MpscPipe
