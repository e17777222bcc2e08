import Sensor.Queue.Eventcount
import Mathlib

/-!
# The tokens of an eventcount

Producers call `notify` and a consumer calls `out`, whose function answers
whatever it likes.  `notify` tests the flag and clears it in two steps, and
`cancel_wait` does not look at it: two producers can post for one wait, and a
producer can post for a wait that was called off.  Where neither happens each
wait has one token, and none is left when nobody is inside a call.
-/

namespace Sensor.EventcountTokens

open Eventcount TransitionSystem

/-- The eventcount, the threads inside `notify`, and the thread inside `out`. -/
structure State (Producer Result : Type*) where
  eventcount : Eventcount
  producer : Producer → Option NotifyPc
  consumer : Option (OutPc Unit Result)

/-- A step: a producer calls `notify` or takes its next step, the consumer calls
`out` or takes its next step, for which the function has an answer. -/
inductive Label (Producer Result : Type*) where
  | callNotify (producer : Producer)
  | notify (producer : Producer)
  | callOut
  | out (answer : Option Result)

variable {Producer Result : Type*}

/-- One step of `out`; a call of the function is one step and answers
`answer`. -/
def consumerStep (state : State Producer Result) (answer : Option Result) :
    Option (State Producer Result) :=
  state.consumer.bind fun pc =>
    (outStep (fun memory _ => (memory, .done answer)) () () state.eventcount
      pc).map fun (_, eventcount, result) =>
        { state with
          eventcount
          consumer := match result with
            | .running pc => some pc
            | .done _ => none }

def callOut (state : State Producer Result) :
    Option (State Producer Result) :=
  if state.consumer.isNone then some { state with consumer := some (.poll ()) }
  else none

variable [DecidableEq Producer]

def callNotify (state : State Producer Result) (producer : Producer) :
    Option (State Producer Result) :=
  if state.producer producer = none then
    some { state with
      producer := Function.update state.producer producer (some .loadWaiting) }
  else none

def producerStep (state : State Producer Result) (producer : Producer) :
    Option (State Producer Result) :=
  (state.producer producer).map fun pc =>
    { state with
      eventcount := (notifyStep state.eventcount pc).1
      producer := Function.update state.producer producer
        (notifyStep state.eventcount pc).2 }

def step (state : State Producer Result) :
    Label Producer Result → Option (State Producer Result)
  | .callNotify producer => callNotify state producer
  | .notify producer => producerStep state producer
  | .callOut => callOut state
  | .out answer => consumerStep state answer

/-- An eventcount just constructed. -/
def State.initial : State Producer Result where
  eventcount := .new
  producer := fun _ => none
  consumer := none

def system (Producer Result : Type*) [DecidableEq Producer] :
    TransitionSystem (State Producer Result) (Label Producer Result) :=
  .ofStep (fun state => state = .initial) step

/-- With nobody inside a call, no token is stored and the flag is down. -/
def State.KeepsNone (state : State Producer Result) : Prop :=
  state.consumer = none → (∀ producer, state.producer producer = none) →
    state.eventcount.semaphore = 0 ∧ state.eventcount.waiting = false

/-- The flag is up and no producer has seen it. -/
def State.Unseen (state : State Producer Result) : Prop :=
  state.eventcount.waiting = true ∧
    ∀ producer, state.producer producer ≠ some .clearWaiting

/-- The consumer is about to call its wait off. -/
def cancels : Option (OutPc Unit Result) → Bool
  | some (.cancelWait _) => true
  | _ => false

/-- A producer sees the flag only if no other one has, and the consumer calls
off a wait that no producer has seen. -/
def Allowed (state : State Producer Result) : Label Producer Result → Prop
  | .notify producer =>
      state.producer producer = some .loadWaiting →
        state.eventcount.waiting = true → state.Unseen
  | .out _ => cancels state.consumer = true → state.Unseen
  | _ => True

instance [Fintype Producer] (state : State Producer Result) :
    Decidable state.Unseen :=
  inferInstanceAs (Decidable (_ ∧ ∀ _producer, _ ≠ _))

instance [Fintype Producer] (state : State Producer Result)
    (label : Label Producer Result) : Decidable (Allowed state label) :=
  match label with
  | .notify _ => inferInstanceAs (Decidable (_ = _ → _ = _ → state.Unseen))
  | .out _ => inferInstanceAs (Decidable (_ = _ → state.Unseen))
  | .callNotify _ => inferInstanceAs (Decidable True)
  | .callOut => inferInstanceAs (Decidable True)

/-! ## One wakeup for each wait -/

/-- How far the wakeup of the consumer has come: there is no wait, the flag is
up, a producer has seen it, has cleared it, or has posted. -/
inductive Wakeup (Producer : Type*) where
  | none
  | raised
  | seen (producer : Producer)
  | cleared (producer : Producer)
  | posted

def Wakeup.tokens : Wakeup Producer → ℕ
  | .posted => 1
  | _ => 0

/-- The flag while the wakeup has come that far. -/
def Wakeup.waiting : Wakeup Producer → Bool
  | .raised => true
  | .seen _ => true
  | _ => false

/-- The consumer has raised the flag and neither called the wait off nor been
woken. -/
def waits : Option (OutPc Unit Result) → Bool
  | some (.recheck _) => true
  | some (.cancelWait _) => true
  | some .commitWait => true
  | _ => false

/-- The words of the eventcount and the places of the producers are those of
the one wakeup of the wait. -/
structure Invariant (state : State Producer Result)
    (wakeup : Wakeup Producer) : Prop where
  waiting : state.eventcount.waiting = wakeup.waiting
  semaphore : state.eventcount.semaphore = wakeup.tokens
  clearing : ∀ producer, state.producer producer = some .clearWaiting ↔
    wakeup = .seen producer
  posting : ∀ producer, state.producer producer = some .post ↔
    wakeup = .cleared producer
  waits : waits state.consumer = true ↔ wakeup ≠ .none

variable {state next : State Producer Result} {wakeup : Wakeup Producer}

omit [DecidableEq Producer] in
theorem Invariant.initial :
    Invariant (State.initial : State Producer Result) .none where
  waiting := rfl
  semaphore := rfl
  clearing := by simp [State.initial]
  posting := by simp [State.initial]
  waits := by simp [State.initial, EventcountTokens.waits]

omit [DecidableEq Producer] in
/-- A flag that is up and unseen belongs to a wakeup that has just begun. -/
theorem Invariant.raised_of_unseen (hinv : Invariant state wakeup)
    (hunseen : state.Unseen) : wakeup = .raised := by
  have hwaiting := hinv.waiting
  rw [hunseen.1] at hwaiting
  cases wakeup with
  | raised => rfl
  | seen producer =>
      exact absurd ((hinv.clearing producer).mpr rfl) (hunseen.2 producer)
  | none => cases hwaiting
  | cleared producer => cases hwaiting
  | posted => cases hwaiting

/-! ### The producers -/

/-- A producer that is neither about to clear the flag nor about to post moves
to such a place or returns. -/
theorem Invariant.move (hinv : Invariant state wakeup) {producer : Producer}
    {value : Option NotifyPc}
    (hclear : state.producer producer ≠ some .clearWaiting)
    (hpost : state.producer producer ≠ some .post)
    (hclear' : value ≠ some .clearWaiting) (hpost' : value ≠ some .post) :
    Invariant { state with
      producer := Function.update state.producer producer value } wakeup where
  waiting := hinv.waiting
  semaphore := hinv.semaphore
  clearing := fun other => by
    by_cases heq : other = producer
    · subst heq
      rw [← hinv.clearing]
      simp [hclear, hclear']
    · simpa [heq] using hinv.clearing other
  posting := fun other => by
    by_cases heq : other = producer
    · subst heq
      rw [← hinv.posting]
      simp [hpost, hpost']
    · simpa [heq] using hinv.posting other
  waits := hinv.waits

/-- The test of the flag: only the first producer sees it up. -/
theorem Invariant.loadWaiting (hinv : Invariant state wakeup)
    {producer : Producer} (hpc : state.producer producer = some .loadWaiting)
    (hallowed : Allowed state (.notify producer))
    (hstep : producerStep state producer = some next) :
    ∃ wakeup', Invariant next wakeup' := by
  simp only [producerStep, hpc, Option.map_some, Option.some.injEq,
    notifyStep] at hstep
  subst hstep
  cases hflag : state.eventcount.waiting with
  | false =>
      exact ⟨wakeup, hinv.move (by simp [hpc]) (by simp [hpc]) (by simp)
        (by simp)⟩
  | true =>
      obtain rfl := hinv.raised_of_unseen (hallowed hpc hflag)
      refine ⟨.seen producer, hflag, hinv.semaphore, ?_, ?_, ?_⟩
      · intro other
        by_cases heq : other = producer
        · simp [heq]
        · have hother := hinv.clearing other
          simp [heq, Ne.symm heq, hother]
      · intro other
        by_cases heq : other = producer
        · simp [heq]
        · have hother := hinv.posting other
          simp [heq, hother]
      · simpa using hinv.waits

/-- The producer that saw the flag clears it. -/
theorem Invariant.clearWaiting (hinv : Invariant state wakeup)
    {producer : Producer} (hpc : state.producer producer = some .clearWaiting)
    (hstep : producerStep state producer = some next) :
    ∃ wakeup', Invariant next wakeup' := by
  obtain rfl := (hinv.clearing producer).mp hpc
  simp only [producerStep, hpc, Option.map_some, Option.some.injEq,
    notifyStep] at hstep
  subst hstep
  refine ⟨.cleared producer, rfl, hinv.semaphore, ?_, ?_, ?_⟩
  · intro other
    by_cases heq : other = producer
    · simp [heq]
    · have hother := hinv.clearing other
      simp [heq, hother, Ne.symm heq]
  · intro other
    by_cases heq : other = producer
    · simp [heq]
    · have hother := hinv.posting other
      simp [heq, hother, Ne.symm heq]
  · simpa using hinv.waits

/-- The producer that cleared the flag posts. -/
theorem Invariant.post (hinv : Invariant state wakeup)
    {producer : Producer} (hpc : state.producer producer = some .post)
    (hstep : producerStep state producer = some next) :
    ∃ wakeup', Invariant next wakeup' := by
  obtain rfl := (hinv.posting producer).mp hpc
  have hzero : state.eventcount.semaphore = 0 := hinv.semaphore
  have hlt : 0 < semValueMax := by decide
  simp only [producerStep, hpc, Option.map_some, Option.some.injEq,
    notifyStep, semPost, hzero, hlt, if_true] at hstep
  subst hstep
  refine ⟨.posted, hinv.waiting, rfl, ?_, ?_, ?_⟩
  · intro other
    by_cases heq : other = producer
    · simp [heq]
    · have hother := hinv.clearing other
      simp [heq, hother]
  · intro other
    by_cases heq : other = producer
    · simp [heq]
    · have hother := hinv.posting other
      simp [heq, hother, Ne.symm heq]
  · simpa using hinv.waits

theorem Invariant.producerStep (hinv : Invariant state wakeup)
    {producer : Producer} (hallowed : Allowed state (.notify producer))
    (hstep : producerStep state producer = some next) :
    ∃ wakeup', Invariant next wakeup' := by
  cases hpc : state.producer producer with
  | none => simp [EventcountTokens.producerStep, hpc] at hstep
  | some pc =>
      cases pc with
      | loadWaiting => exact hinv.loadWaiting hpc hallowed hstep
      | clearWaiting => exact hinv.clearWaiting hpc hstep
      | post => exact hinv.post hpc hstep

/-! ### The consumer -/

omit [DecidableEq Producer] in
/-- The consumer moves without touching the words. -/
theorem Invariant.moveConsumer (hinv : Invariant state wakeup)
    {consumer : Option (OutPc Unit Result)}
    (hwaits : EventcountTokens.waits consumer =
      EventcountTokens.waits state.consumer) :
    Invariant { state with consumer } wakeup where
  waiting := hinv.waiting
  semaphore := hinv.semaphore
  clearing := hinv.clearing
  posting := hinv.posting
  waits := by
    rw [← hinv.waits]
    simp [hwaits]

omit [DecidableEq Producer] in
/-- With no producer seeing or clearing the flag, the words alone say how far
the wakeup has come. -/
theorem Invariant.restart (hinv : Invariant state wakeup)
    {wakeup' : Wakeup Producer} {eventcount : Eventcount}
    {consumer : Option (OutPc Unit Result)}
    (hseen : ∀ producer, wakeup ≠ .seen producer)
    (hcleared : ∀ producer, wakeup ≠ .cleared producer)
    (hseen' : ∀ producer, wakeup' ≠ .seen producer)
    (hcleared' : ∀ producer, wakeup' ≠ .cleared producer)
    (hwaiting : eventcount.waiting = wakeup'.waiting)
    (hsemaphore : eventcount.semaphore = wakeup'.tokens)
    (hwaits : EventcountTokens.waits consumer = true ↔ wakeup' ≠ .none) :
    Invariant { state with eventcount, consumer } wakeup' where
  waiting := hwaiting
  semaphore := hsemaphore
  clearing := fun producer =>
    (hinv.clearing producer).trans (iff_of_false (hseen _) (hseen' _))
  posting := fun producer =>
    (hinv.posting producer).trans (iff_of_false (hcleared _) (hcleared' _))
  waits := hwaits

omit [DecidableEq Producer] in
theorem Invariant.not_waits (hinv : Invariant state wakeup)
    (hwaits : EventcountTokens.waits state.consumer = false) :
    wakeup = .none := by
  by_contra hne
  have htrue := hinv.waits.mpr hne
  rw [hwaits] at htrue
  cases htrue

omit [DecidableEq Producer] in
theorem Invariant.consumerStep (hinv : Invariant state wakeup)
    {answer : Option Result} (hallowed : Allowed state (.out answer))
    (hstep : consumerStep state answer = some next) :
    ∃ wakeup', Invariant next wakeup' := by
  cases hpc : state.consumer with
  | none => simp [EventcountTokens.consumerStep, hpc] at hstep
  | some pc =>
      simp only [EventcountTokens.consumerStep, hpc, Option.bind_some] at hstep
      cases pc with
      | poll place =>
          refine ⟨wakeup, ?_⟩
          cases answer with
          | none =>
              cases hstep
              exact hinv.moveConsumer (by rw [hpc]; rfl)
          | some result =>
              cases hstep
              exact hinv.moveConsumer (by rw [hpc]; rfl)
      | prepareWait =>
          obtain rfl := hinv.not_waits (by rw [hpc]; rfl)
          cases hstep
          exact ⟨.raised, hinv.restart (by simp) (by simp) (by simp) (by simp)
            rfl hinv.semaphore (by simp [EventcountTokens.waits])⟩
      | recheck place =>
          refine ⟨wakeup, ?_⟩
          cases answer with
          | none =>
              cases hstep
              exact hinv.moveConsumer (by rw [hpc]; rfl)
          | some result =>
              cases hstep
              exact hinv.moveConsumer (by rw [hpc]; rfl)
      | cancelWait result =>
          obtain rfl := hinv.raised_of_unseen (hallowed (by rw [hpc]; rfl))
          cases hstep
          exact ⟨.none, hinv.restart (by simp) (by simp) (by simp) (by simp)
            rfl hinv.semaphore (by simp [EventcountTokens.waits])⟩
      | commitWait =>
          simp only [outStep, Option.map_map] at hstep
          obtain ⟨eventcount, hcommit, rfl⟩ := Option.map_eq_some_iff.mp hstep
          have hcommit' := hcommit
          simp only [commitWait] at hcommit'
          split at hcommit'
          case isTrue => cases hcommit'
          case isFalse htoken =>
          cases hcommit'
          obtain rfl : wakeup = .posted := by
            have hsemaphore := hinv.semaphore
            cases wakeup with
            | posted => rfl
            | _ => exact absurd hsemaphore htoken
          refine ⟨.none, hinv.restart (by simp) (by simp) (by simp) (by simp)
            hinv.waiting ?_ (by simp [EventcountTokens.waits])⟩
          rw [hinv.semaphore]
          rfl

/-! ## The main result -/

theorem Invariant.step (hinv : Invariant state wakeup)
    {label : Label Producer Result} (hallowed : Allowed state label)
    (hstep : EventcountTokens.step state label = some next) :
    ∃ wakeup', Invariant next wakeup' := by
  cases label with
  | callNotify producer =>
      obtain ⟨hidle, hnext⟩ := Option.ite_none_right_eq_some.mp hstep
      cases hnext
      exact ⟨wakeup, hinv.move (by simp [hidle]) (by simp [hidle]) (by simp)
        (by simp)⟩
  | notify producer => exact hinv.producerStep hallowed hstep
  | callOut =>
      obtain ⟨hidle, hnext⟩ := Option.ite_none_right_eq_some.mp hstep
      cases hnext
      have hnone : state.consumer = none := Option.isNone_iff_eq_none.mp hidle
      exact ⟨wakeup, hinv.moveConsumer (by rw [hnone]; rfl)⟩
  | out answer => exact hinv.consumerStep hallowed hstep

/-- In every state reached by allowed steps in which nobody is inside a call, no
token is stored and the flag is down. -/
theorem keepsNone_of_allowed
    (hreach : ((system Producer Result).restrict Allowed).Reachable state) :
    state.KeepsNone := by
  intro hconsumer _
  obtain ⟨wakeup, hinv⟩ : ∃ wakeup, Invariant state wakeup := by
    apply hreach.invariant
    · rintro start rfl
      exact ⟨.none, Invariant.initial⟩
    · rintro start label final ⟨wakeup, hinv⟩ ⟨hallowed, hstep⟩
      exact hinv.step hallowed hstep
  obtain rfl := hinv.not_waits (by rw [hconsumer]; rfl)
  exact ⟨hinv.semaphore, hinv.waiting⟩

/-- The consumer waits, one producer wakes it, and `out` returns. -/
def wokenOnce : List (Label (Fin 1) ℕ) :=
  let producer := Fin.last 0
  [.callOut, .out none, .out none, .out none, .callNotify producer,
    .notify producer, .notify producer, .notify producer, .out none,
    .out (some 1)]

theorem keepsNone_of_allowed_wokenOnce : ∃ state : State (Fin 1) ℕ,
    ((system (Fin 1) ℕ).restrict Allowed).Reachable state ∧
      state.consumer = none ∧ state.KeepsNone := by
  let condition (state : State (Fin 1) ℕ) (label : Label (Fin 1) ℕ) : Bool :=
    decide (Allowed state label)
  let state := (execute (guardStep condition step) .initial wokenOnce).get rfl
  have hexecute : execute (guardStep condition step) .initial wokenOnce =
      some state := rfl
  have hchecked : ((system (Fin 1) ℕ).restrict fun state label =>
      condition state label = true).Reachable state :=
    reachable_restrict_of_execute rfl hexecute
  have hreach : ((system (Fin 1) ℕ).restrict Allowed).Reachable state :=
    hchecked.restrict_mono fun _ _ => of_decide_eq_true
  exact ⟨state, hreach, rfl, keepsNone_of_allowed hreach⟩

/-- A producer sees the flag, the consumer calls its wait off and returns, and
the producer posts. -/
def postedTooLate : List (Label ℕ ℕ) :=
  [.callOut, .out none, .out none, .callNotify 0, .notify 0, .out (some 1),
    .out none, .notify 0, .notify 0]

/-- The token stays. -/
theorem not_keepsNone : ¬ ∀ state : State ℕ ℕ,
    (system ℕ ℕ).Reachable state → state.KeepsNone := by
  intro hkeeps
  let state := (execute step .initial postedTooLate).get rfl
  have hexecute : execute step .initial postedTooLate = some state := rfl
  have hreach : (system ℕ ℕ).Reachable state :=
    reachable_of_execute rfl hexecute
  have hidle : ∀ producer, state.producer producer = none
    | 0 => rfl
    | _ + 1 => rfl
  obtain ⟨hsemaphore, -⟩ := hkeeps state hreach rfl hidle
  have htoken : state.eventcount.semaphore = 1 := rfl
  rw [htoken] at hsemaphore
  cases hsemaphore

end Sensor.EventcountTokens
