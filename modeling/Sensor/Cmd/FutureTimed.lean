import Mathlib
import Sensor.Cmd.FutureHandover

/-!
# How long a timed wait waits

`wait_for` sleeps once on the condition variable and answers with a second test
of the result.  `CondVar::wait_for` passes its two numbers on as the point in
time at which `pthread_cond_timedwait` gives up, so that the sleep ends as soon
as the clock stands behind them.
-/

namespace Sensor.Future

open TransitionSystem

/-- `struct timespec`. -/
structure Timespec where
  tv_sec : ℕ
  tv_nsec : ℕ

/-- `pthread_cond_timedwait` refuses a second and more in `tv_nsec`. -/
def Timespec.isValid (time : Timespec) : Bool :=
  decide (time.tv_nsec < 10 ^ 9)

/-- The point in time, in nanoseconds of the clock. -/
def Timespec.toClock (time : Timespec) : ℕ :=
  time.tv_sec * 10 ^ 9 + time.tv_nsec

/-- A call of `wait_for`: what the clock of the condition variable showed, in
nanoseconds, and the arguments. -/
structure TimedCall where
  start : ℕ
  sec : ℕ
  nanosec : ℕ

/-- The `time` of `CondVar::wait_for`. -/
def TimedCall.time (call : TimedCall) : Timespec where
  tv_sec := call.sec
  tv_nsec := call.nanosec

/-- What the caller asks for: `sec` seconds and `nanosec` nanoseconds behind the
call. -/
def TimedCall.ending (call : TimedCall) : ℕ :=
  call.start + (call.sec * 10 ^ 9 + call.nanosec)

/-- When the result is set, if it ever is, and when a thread that sleeps in a
timed wait may wake for no reason. -/
structure Moments where
  setResult : Option ℕ
  spurious : ℕ → Bool

def Moments.SetBefore (moments : Moments) (time : ℕ) : Prop :=
  ∃ moment, moments.setResult = some moment ∧ moment < time

/-- The end of a call of `wait_for`. -/
structure Answered (Waiter : Type*) where
  waiter : Waiter
  call : TimedCall
  success : Bool
  moment : ℕ

/-- The futures with a clock, the last timed call of each thread and the answers
of `wait_for`. -/
structure TimedState (Waiter Value : Type*) where
  state : State Waiter Value
  clock : ℕ
  call : Waiter → TimedCall
  answered : List (Answered Waiter)

/-- A step: the clock goes on, a thread calls one of the waits, takes its next
step, wakes because its time is over or for no reason; the setter calls
`set_value` or takes its next step. -/
inductive TimedLabel (Waiter Value : Type*) where
  | tick
  | callWait (waiter : Waiter)
  | callWaitFor (waiter : Waiter) (sec nanosec : ℕ)
  | wait (waiter : Waiter)
  | timeOut (waiter : Waiter)
  | wake (waiter : Waiter)
  | callSetValue (value : Value)
  | setValue

variable {Waiter Value : Type*}

/-- The clock waits for a result that is due. -/
def tick (moments : Moments) (timed : TimedState Waiter Value) :
    Option (TimedState Waiter Value) :=
  if timed.state.result = false ∧ moments.setResult = some timed.clock then none
  else some { timed with clock := timed.clock + 1 }

section Steps

variable [DecidableEq Waiter]

def callWaitFor (timed : TimedState Waiter Value) (waiter : Waiter)
    (sec nanosec : ℕ) : Option (TimedState Waiter Value) :=
  (callWait timed.state waiter .waitFor).map fun state =>
    { timed with
      state
      call := Function.update timed.call waiter ⟨timed.clock, sec, nanosec⟩ }

/-- The next step of a thread.  A `timespec` that is refused ends the condition
wait at once, with the mutex still locked. -/
def timedWaitStep (timed : TimedState Waiter Value) (waiter : Waiter) :
    Option (TimedState Waiter Value) :=
  match timed.state.waiter waiter with
  | some (.condWait .waitFor) =>
      if (timed.call waiter).time.isValid then
        (waitStep timed.state waiter).map fun state => { timed with state }
      else some { timed with state := timed.state.move waiter (some .retest) }
  | some (.unlock (.success success)) =>
      (waitStep timed.state waiter).map fun state =>
        { timed with
          state
          answered := timed.answered ++
            [⟨waiter, timed.call waiter, success, timed.clock⟩] }
  | _ => (waitStep timed.state waiter).map fun state => { timed with state }

/-- The end of the time of a timed wait. -/
def timeOut (timed : TimedState Waiter Value) (waiter : Waiter) :
    Option (TimedState Waiter Value) :=
  if timed.state.waiter waiter = some (.blocked .waitFor) ∧
      (timed.call waiter).time.toClock ≤ timed.clock then
    (wakeStep timed.state waiter).map fun state => { timed with state }
  else none

/-- A wakeup for no reason, in a timed wait only at the moments given. -/
def timedWakeStep (moments : Moments) (timed : TimedState Waiter Value)
    (waiter : Waiter) : Option (TimedState Waiter Value) :=
  if timed.state.waiter waiter = some (.blocked .waitFor) ∧
      moments.spurious timed.clock = false then none
  else (wakeStep timed.state waiter).map fun state => { timed with state }

end Steps

/-- The next step of `set_value`, whose swap is the moment of the result. -/
def timedSetValueStep (moments : Moments) (timed : TimedState Waiter Value) :
    Option (TimedState Waiter Value) :=
  match timed.state.setter with
  | .swap =>
      if moments.setResult = some timed.clock then
        (setValueStep timed.state).map fun state => { timed with state }
      else none
  | _ => (setValueStep timed.state).map fun state => { timed with state }

variable [DecidableEq Waiter]

def timedStep (moments : Moments) (timed : TimedState Waiter Value) :
    TimedLabel Waiter Value → Option (TimedState Waiter Value)
  | .tick => tick moments timed
  | .callWait waiter =>
      (callWait timed.state waiter .wait).map fun state => { timed with state }
  | .callWaitFor waiter sec nanosec => callWaitFor timed waiter sec nanosec
  | .wait waiter => timedWaitStep timed waiter
  | .timeOut waiter => timeOut timed waiter
  | .wake waiter => timedWakeStep moments timed waiter
  | .callSetValue value =>
      (callSetValue timed.state value).map fun state => { timed with state }
  | .setValue => timedSetValueStep moments timed

/-- A new promise while the clock shows `clock`. -/
def TimedState.initial (clock : ℕ) : TimedState Waiter Value where
  state := .initial
  clock := clock
  call := fun _ => ⟨clock, 0, 0⟩
  answered := []

/-- The futures of a promise whose result is set at its moment: a run starts
before it, at any time. -/
def timedSystem (Waiter Value : Type*) [DecidableEq Waiter]
    (moments : Moments) :
    TransitionSystem (TimedState Waiter Value) (TimedLabel Waiter Value) :=
  .ofStep
    (fun timed => ∃ clock, ¬ moments.SetBefore clock ∧
      timed = .initial clock)
    (timedStep moments)

/-! ## What a timed wait should do -/

/-- It answers `true` if the result is set before the time is over, and `false`
only after the time is over without a result. -/
def Answered.FullWait (moments : Moments) (answer : Answered Waiter) : Prop :=
  (moments.SetBefore answer.call.ending → answer.success = true) ∧
    (answer.success = false → answer.call.ending ≤ answer.moment ∧
      ¬ moments.SetBefore answer.call.ending)

/-- A call of a thread waits its full time in every run. -/
def WaitsFully (Value : Type*) (moments : Moments) (waiter : Waiter)
    (call : TimedCall) : Prop :=
  ∀ timed, (timedSystem Waiter Value moments).Reachable timed →
    ∀ answer ∈ timed.answered, answer.waiter = waiter → answer.call = call →
      answer.FullWait moments

/-- Where it does: the result is set before the call; or the call asks for no
time; or its `timespec` is valid, no wakeup comes between the call and the
result in its time, and the clock starts with the call or shows the result
before both the call and the `timespec`. -/
def MeetsTime (moments : Moments) (call : TimedCall) : Prop :=
  moments.SetBefore call.start ∨ call.ending = call.start ∨
    (call.time.isValid = true ∧
      (∀ moment, moments.spurious moment = true → call.start ≤ moment →
        moment < call.ending → moments.SetBefore moment) ∧
      (call.start = 0 ∨
        moments.SetBefore (max call.start call.time.toClock)))

/-! ## The clock and the moments -/

section Moments

variable {moments : Moments} {call : TimedCall} {early late clock : ℕ}

theorem Moments.SetBefore.mono (hset : moments.SetBefore early)
    (hle : early ≤ late) : moments.SetBefore late := by
  obtain ⟨moment, hmoment, hlt⟩ := hset
  exact ⟨moment, hmoment, lt_of_lt_of_le hlt hle⟩

theorem TimedCall.start_le_ending : call.start ≤ call.ending :=
  Nat.le_add_right _ _

/-- A `timespec` and the interval are the same number, counted from zero and
from the call. -/
theorem TimedCall.ending_eq : call.ending = call.start + call.time.toClock :=
  rfl

/-- Whatever ends the sleep of such a call while there is no result, its time is
over. -/
theorem MeetsTime.ending_le (hmeets : MeetsTime moments call)
    (hstart : call.start ≤ clock) (hunset : ¬ moments.SetBefore clock)
    (hends : call.time.isValid = false ∨ moments.spurious clock = true ∨
      call.time.toClock ≤ clock) : call.ending ≤ clock := by
  rcases hmeets with hbefore | hnone | ⟨hvalid, hspurious, hclock⟩
  · exact absurd (hbefore.mono hstart) hunset
  · rwa [hnone]
  · rcases hends with hinvalid | hwake | hover
    · rw [hvalid] at hinvalid
      cases hinvalid
    · by_contra hlt
      exact hunset (hspurious clock hwake hstart (not_le.mp hlt))
    · rcases hclock with hzero | hset
      · rwa [TimedCall.ending_eq, hzero, Nat.zero_add]
      · exact absurd (hset.mono (max_le hstart hover)) hunset

end Moments

/-! ## Calls that wait their time -/

/-- What a place says about the time of a call: behind its sleep the time is
over or the result is set, and it answers `false` only in the first case. -/
def TimeOk (moments : Moments) (call : TimedCall) (result : Bool)
    (clock : ℕ) : WaiterPc → Prop
  | .woken .waitFor => result = false → call.ending ≤ clock
  | .retest => result = false → call.ending ≤ clock
  | .unlock (.success false) =>
      call.ending ≤ clock ∧ ¬ moments.SetBefore call.ending
  | _ => True

/-- The result is set where the setter is behind its swap and not before its
moment; calls that meet the condition are at places, and gave answers, that
agree with the time. -/
structure TimedInvariant (moments : Moments)
    (timed : TimedState Waiter Value) : Prop where
  result_eq : timed.state.result = timed.state.setter.stored
  unset : timed.state.result = false → ¬ moments.SetBefore timed.clock
  started : ∀ waiter, (timed.call waiter).start ≤ timed.clock
  place : ∀ waiter pc, timed.state.waiter waiter = some pc →
    MeetsTime moments (timed.call waiter) →
      TimeOk moments (timed.call waiter) timed.state.result timed.clock pc
  answered : ∀ answer ∈ timed.answered, MeetsTime moments answer.call →
    answer.FullWait moments

variable {moments : Moments} {timed next : TimedState Waiter Value}

omit [DecidableEq Waiter] in
theorem TimedInvariant.initial {clock : ℕ}
    (hunset : ¬ moments.SetBefore clock) :
    TimedInvariant moments (.initial clock : TimedState Waiter Value) where
  result_eq := rfl
  unset := fun _ => hunset
  started := fun _ => le_refl clock
  place := by simp [TimedState.initial, State.initial]
  answered := by simp [TimedState.initial]

omit [DecidableEq Waiter] in
/-- Such a call whose sleep ends. -/
theorem TimedInvariant.awake (hinv : TimedInvariant moments timed)
    {waiter : Waiter} (hmeets : MeetsTime moments (timed.call waiter))
    (hends : (timed.call waiter).time.isValid = false ∨
      moments.spurious timed.clock = true ∨
        (timed.call waiter).time.toClock ≤ timed.clock)
    (hresult : timed.state.result = false) :
    (timed.call waiter).ending ≤ timed.clock :=
  hmeets.ending_le (hinv.started waiter) (hinv.unset hresult) hends

omit [DecidableEq Waiter] in
theorem TimeOk.later {call : TimedCall} {result : Bool} {early late : ℕ}
    {pc : WaiterPc} (hplace : TimeOk moments call result early pc)
    (hle : early ≤ late) : TimeOk moments call result late pc := by
  cases pc with
  | woken call =>
      cases call with
      | wait => trivial
      | waitFor => exact fun hresult => (hplace hresult).trans hle
  | retest => exact fun hresult => (hplace hresult).trans hle
  | unlock answer =>
      cases answer with
      | result => trivial
      | success success =>
          cases success with
          | true => trivial
          | false => exact ⟨hplace.1.trans hle, hplace.2⟩
  | _ => trivial

/-- Once the result is set, only an answer that is already given depends on the
time. -/
theorem TimeOk.set {call : TimedCall} {result : Bool} {clock : ℕ}
    {pc : WaiterPc} (hplace : TimeOk moments call result clock pc) :
    TimeOk moments call true clock pc := by
  cases pc with
  | woken call =>
      cases call with
      | wait => trivial
      | waitFor => exact fun hresult => absurd hresult.symm Bool.false_ne_true
  | retest => exact fun hresult => absurd hresult.symm Bool.false_ne_true
  | unlock answer =>
      cases answer with
      | result => trivial
      | success success =>
          cases success with
          | true => trivial
          | false => exact hplace
  | _ => trivial

/-- One thread moves and gives at most one answer. -/
theorem TimedInvariant.move (hinv : TimedInvariant moments timed)
    {waiter : Waiter} {pc : Option WaiterPc} {mutex : Option (Holder Waiter)}
    {returned : List (Waiter × Returned Value)}
    {answered : List (Answered Waiter)}
    (hplace : ∀ place, pc = some place →
      MeetsTime moments (timed.call waiter) →
        TimeOk moments (timed.call waiter) timed.state.result timed.clock place)
    (hanswered : ∀ answer ∈ answered, answer ∈ timed.answered ∨
      (MeetsTime moments answer.call → answer.FullWait moments)) :
    TimedInvariant moments { timed with
      state := { timed.state with
        mutex, returned
        waiter := Function.update timed.state.waiter waiter pc }
      answered } where
  result_eq := hinv.result_eq
  unset := hinv.unset
  started := hinv.started
  place := by
    intro other place hother
    rcases update_eq_some_iff.mp hother with ⟨rfl, hpc⟩ | ⟨-, hold⟩
    · exact hplace place hpc
    · exact hinv.place other place hold
  answered := by
    intro answer hanswer
    rcases hanswered answer hanswer with hold | hnew
    · exact hinv.answered answer hold
    · exact hnew

/-- The place a thread gets to by a step of its own: it comes to the second test
only after its sleep, and answers `false` only after that found no result. -/
def Follows (result : Bool) (old : WaiterPc) : WaiterPc → Prop
  | .woken _ => False
  | .retest => old = .woken .waitFor
  | .unlock (.success false) => old = .retest ∧ result = false
  | _ => True

/-- A thread that takes its next step changes its own place, the mutex and what
was returned. -/
theorem waitFrom_eq {state next : State Waiter Value} {waiter : Waiter}
    {old : WaiterPc} (hstep : waitFrom state waiter old = some next) :
    ∃ mutex returned pc,
      next = { state with
        mutex, returned, waiter := Function.update state.waiter waiter pc } ∧
      ∀ place, pc = some place → Follows state.result old place := by
  cases old with
  | lock call =>
      obtain ⟨locked, hlock, rfl⟩ := Option.map_eq_some_iff.mp hstep
      obtain ⟨-, ⟨⟩⟩ := Option.ite_none_right_eq_some.mp hlock
      refine ⟨_, _, _, rfl, ?_⟩
      rintro place ⟨⟩
      trivial
  | test call =>
      cases call with
      | wait =>
          cases hstep
          refine ⟨_, _, _, rfl, ?_⟩
          rintro place ⟨⟩
          cases isReady state <;> trivial
      | waitFor =>
          cases hstep
          refine ⟨_, _, _, rfl, ?_⟩
          rintro place ⟨⟩
          cases isReady state <;> trivial
  | condWait call =>
      cases hstep
      refine ⟨_, _, _, rfl, ?_⟩
      rintro place ⟨⟩
      trivial
  | blocked call => cases hstep
  | woken call =>
      obtain ⟨locked, hlock, rfl⟩ := Option.map_eq_some_iff.mp hstep
      obtain ⟨-, ⟨⟩⟩ := Option.ite_none_right_eq_some.mp hlock
      refine ⟨_, _, _, rfl, ?_⟩
      rintro place ⟨⟩
      cases call with
      | wait => trivial
      | waitFor => rfl
  | retest =>
      cases hstep
      refine ⟨_, _, _, rfl, ?_⟩
      rintro place ⟨⟩
      cases hready : isReady state with
      | true => trivial
      | false => exact ⟨rfl, hready⟩
  | unlock answer =>
      cases answer with
      | result =>
          cases hstep
          refine ⟨_, _, _, rfl, ?_⟩
          rintro place ⟨⟩
          trivial
      | success success =>
          cases hstep
          refine ⟨_, _, none, rfl, ?_⟩
          rintro place ⟨⟩
  | returnResult =>
      cases hstep
      refine ⟨_, _, none, rfl, ?_⟩
      rintro place ⟨⟩

omit [DecidableEq Waiter] in
/-- Such a call at the place its own step leads to. -/
theorem TimedInvariant.follows (hinv : TimedInvariant moments timed)
    {waiter : Waiter} {old pc : WaiterPc}
    (hold : timed.state.waiter waiter = some old)
    (hfollows : Follows timed.state.result old pc)
    (hmeets : MeetsTime moments (timed.call waiter)) :
    TimeOk moments (timed.call waiter) timed.state.result timed.clock pc := by
  cases pc with
  | woken call => exact hfollows.elim
  | retest =>
      rw [Follows] at hfollows
      subst hfollows
      have hwoken := hinv.place waiter _ hold hmeets
      exact fun hresult => hwoken hresult
  | unlock answer =>
      cases answer with
      | result => trivial
      | success success =>
          cases success with
          | true => trivial
          | false =>
              obtain ⟨rfl, hresult⟩ := hfollows
              have hover := hinv.place waiter _ hold hmeets hresult
              refine ⟨hover, fun hset => ?_⟩
              exact hinv.unset hresult (hset.mono hover)
  | _ => trivial

theorem TimedInvariant.timedWaitStep (hinv : TimedInvariant moments timed)
    {waiter : Waiter} (hstep : timedWaitStep timed waiter = some next) :
    TimedInvariant moments next := by
  -- a step that gives no answer
  have hmoves : ((waitStep timed.state waiter).map fun state =>
      { timed with state }) = some next → TimedInvariant moments next := by
    intro hmoved
    obtain ⟨state, hwait, rfl⟩ := Option.map_eq_some_iff.mp hmoved
    obtain ⟨old, hold, hfrom⟩ := Option.bind_eq_some_iff.mp hwait
    obtain ⟨mutex, returned, pc, rfl, hfollows⟩ := waitFrom_eq hfrom
    refine hinv.move ?_ (fun _ => Or.inl)
    intro place hplace hmeets
    exact hinv.follows hold (hfollows place hplace) hmeets
  rw [Future.timedWaitStep] at hstep
  split at hstep
  · split at hstep
    · exact hmoves hstep
    · rename_i hinvalid
      cases hstep
      refine hinv.move ?_ (fun _ => Or.inl)
      rintro place ⟨⟩ hmeets hresult
      exact hinv.awake hmeets (.inl (Bool.not_eq_true _ ▸ hinvalid)) hresult
  · rename_i success hpc
    rw [waitStep, hpc] at hstep
    cases hstep
    refine hinv.move (fun _ => nofun) ?_
    intro answer hanswer
    rcases List.mem_append.mp hanswer with hold | hnew
    · exact .inl hold
    · rw [List.mem_singleton.mp hnew]
      refine .inr fun hmeets => ?_
      have hplace := hinv.place waiter _ hpc hmeets
      cases success with
      | true => exact ⟨fun _ => rfl, fun hfalse => absurd hfalse nofun⟩
      | false => exact ⟨fun hset => absurd hset hplace.2, fun _ => hplace⟩
  · exact hmoves hstep

/-- A thread that sleeps in one of the waits wakes. -/
theorem wakeStep_eq {state next : State Waiter Value} {waiter : Waiter}
    (hstep : wakeStep state waiter = some next) :
    ∃ call, state.waiter waiter = some (.blocked call) ∧
      next = state.move waiter (some (.woken call)) := by
  cases hpc : state.waiter waiter with
  | none => simp [wakeStep, hpc] at hstep
  | some pc =>
      cases pc with
      | blocked call =>
          simp only [wakeStep, hpc, Option.some.injEq] at hstep
          exact ⟨call, rfl, hstep.symm⟩
      | _ => simp [wakeStep, hpc] at hstep

/-- A thread wakes, in a timed wait because its time is over or for no
reason. -/
theorem TimedInvariant.wake (hinv : TimedInvariant moments timed)
    {waiter : Waiter}
    (hends : timed.state.waiter waiter = some (.blocked .waitFor) →
      moments.spurious timed.clock = true ∨
        (timed.call waiter).time.toClock ≤ timed.clock)
    (hstep : ((wakeStep timed.state waiter).map fun state =>
      { timed with state }) = some next) : TimedInvariant moments next := by
  obtain ⟨state, hwake, rfl⟩ := Option.map_eq_some_iff.mp hstep
  obtain ⟨call, hpc, rfl⟩ := wakeStep_eq hwake
  refine hinv.move ?_ (fun _ => Or.inl)
  rintro place ⟨⟩ hmeets
  cases call with
  | wait => trivial
  | waitFor =>
      exact fun hresult => hinv.awake hmeets (.inr (hends hpc)) hresult

theorem TimedInvariant.callWait (hinv : TimedInvariant moments timed)
    {waiter : Waiter} {call : WaitCall}
    (hstep : ((callWait timed.state waiter call).map fun state =>
      { timed with state }) = some next) : TimedInvariant moments next := by
  obtain ⟨state, hcall, rfl⟩ := Option.map_eq_some_iff.mp hstep
  rw [Future.callWait] at hcall
  split at hcall
  · cases hcall
  · cases hcall
    refine hinv.move ?_ (fun _ => Or.inl)
    rintro place ⟨⟩ -
    trivial

/-- A thread starts a timed call. -/
theorem TimedInvariant.callWaitFor (hinv : TimedInvariant moments timed)
    {waiter : Waiter} {sec nanosec : ℕ}
    (hstep : callWaitFor timed waiter sec nanosec = some next) :
    TimedInvariant moments next := by
  obtain ⟨state, hcall, rfl⟩ := Option.map_eq_some_iff.mp hstep
  rw [Future.callWait] at hcall
  split at hcall
  · cases hcall
  · cases hcall
    exact {
      result_eq := hinv.result_eq
      unset := hinv.unset
      started := by
        intro other
        by_cases heq : other = waiter
        · subst heq
          simp
        · simpa [heq] using hinv.started other
      place := by
        intro other place hother
        rcases update_eq_some_iff.mp hother with ⟨-, ⟨⟩⟩ | ⟨hne, hold⟩
        · exact fun _ => trivial
        · have hcall : Function.update timed.call waiter
              ⟨timed.clock, sec, nanosec⟩ other = timed.call other :=
            Function.update_of_ne hne _ _
          dsimp only
          rw [hcall]
          exact hinv.place other place hold
      answered := hinv.answered }

omit [DecidableEq Waiter] in
theorem TimedInvariant.tick (hinv : TimedInvariant moments timed)
    (hstep : tick moments timed = some next) : TimedInvariant moments next := by
  obtain ⟨hdue, ⟨⟩⟩ := Option.ite_none_left_eq_some.mp hstep
  have hlater : timed.clock ≤ timed.clock + 1 := Nat.le_succ _
  exact {
    result_eq := hinv.result_eq
    unset := by
      rintro hresult ⟨moment, hmoment, hlt⟩
      have heq : moment = timed.clock := by
        by_contra hne
        refine hinv.unset hresult ⟨moment, hmoment, ?_⟩
        exact lt_of_le_of_ne (Nat.lt_succ_iff.mp hlt) hne
      exact hdue ⟨hresult, heq ▸ hmoment⟩
    started := fun waiter => (hinv.started waiter).trans hlater
    place := fun waiter pc hpc hmeets =>
      (hinv.place waiter pc hpc hmeets).later hlater
    answered := hinv.answered }

omit [DecidableEq Waiter] in
/-- The setter moves on without touching the pointer. -/
theorem TimedInvariant.moveSetter (hinv : TimedInvariant moments timed)
    {mutex : Option (Holder Waiter)} {object argument : Option Value}
    {setter : SetterPc Value}
    (hstored : setter.stored = timed.state.setter.stored) :
    TimedInvariant moments { timed with
      state := { timed.state with mutex, object, argument, setter } } where
  result_eq := hinv.result_eq.trans hstored.symm
  unset := hinv.unset
  started := hinv.started
  place := hinv.place
  answered := hinv.answered

omit [DecidableEq Waiter] in
theorem TimedInvariant.callSetValue (hinv : TimedInvariant moments timed)
    {value : Value}
    (hstep : ((callSetValue timed.state value).map fun state =>
      { timed with state }) = some next) : TimedInvariant moments next := by
  obtain ⟨state, hcall, rfl⟩ := Option.map_eq_some_iff.mp hstep
  rw [Future.callSetValue] at hcall
  split at hcall
  · rename_i hidle
    cases hcall
    apply hinv.moveSetter
    rw [hidle]
    rfl
  · cases hcall

omit [DecidableEq Waiter] in
/-- The broadcast comes when the result is set. -/
theorem TimedInvariant.notifyAll (hinv : TimedInvariant moments timed)
    (hnotify : timed.state.setter = .notifyAll) :
    TimedInvariant moments { timed with
      state := { timed.state with
        waiter := fun waiter => (timed.state.waiter waiter).map wakePc
        setter := .finished } } := by
  have hresult : timed.state.result = true := by
    rw [hinv.result_eq, hnotify]
    rfl
  exact {
    result_eq := hresult
    unset := hinv.unset
    started := hinv.started
    place := by
      intro waiter pc hpc hmeets
      obtain ⟨old, hold, rfl⟩ := Option.map_eq_some_iff.mp hpc
      have hplace := (hinv.place waiter old hold hmeets).set
      rw [hresult]
      cases old with
      | blocked call =>
          cases call with
          | wait => trivial
          | waitFor =>
              exact fun hunset => absurd hunset.symm Bool.false_ne_true
      | _ => exact hplace
    answered := hinv.answered }

omit [DecidableEq Waiter] in
theorem TimedInvariant.timedSetValueStep (hinv : TimedInvariant moments timed)
    (hstep : timedSetValueStep moments timed = some next) :
    TimedInvariant moments next := by
  rw [Future.timedSetValueStep] at hstep
  cases hsetter : timed.state.setter with
  | idle => simp [hsetter, setValueStep] at hstep
  | storeValue value =>
      simp only [hsetter, setValueStep, Option.map_some,
        Option.some.injEq] at hstep
      subst hstep
      apply hinv.moveSetter
      rw [hsetter]
      rfl
  | lock =>
      simp only [hsetter, setValueStep, Option.map_map] at hstep
      obtain ⟨locked, hlock, rfl⟩ := Option.map_eq_some_iff.mp hstep
      obtain ⟨-, ⟨⟩⟩ := Option.ite_none_right_eq_some.mp hlock
      apply hinv.moveSetter
      rw [hsetter]
      rfl
  | swap =>
      simp only [hsetter, setValueStep] at hstep
      obtain ⟨-, ⟨⟩⟩ := Option.ite_none_right_eq_some.mp hstep
      exact {
        result_eq := rfl
        unset := fun hunset => absurd hunset.symm Bool.false_ne_true
        started := hinv.started
        place := fun waiter pc hpc hmeets =>
          (hinv.place waiter pc hpc hmeets).set
        answered := hinv.answered }
  | unlock =>
      simp only [hsetter, setValueStep, Option.map_some,
        Option.some.injEq] at hstep
      subst hstep
      apply hinv.moveSetter
      rw [hsetter]
      rfl
  | notifyAll =>
      simp only [hsetter, setValueStep, Option.map_some,
        Option.some.injEq] at hstep
      subst hstep
      exact hinv.notifyAll hsetter
  | finished => simp [hsetter, setValueStep] at hstep

theorem reachable_timedInvariant
    (hreach : (timedSystem Waiter Value moments).Reachable timed) :
    TimedInvariant moments timed := by
  apply hreach.invariant
  · rintro start ⟨clock, hunset, rfl⟩
    exact .initial hunset
  · intro start label final hinv hstep
    cases label with
    | tick => exact hinv.tick hstep
    | callWait waiter => exact hinv.callWait hstep
    | callWaitFor waiter sec nanosec => exact hinv.callWaitFor hstep
    | wait waiter => exact hinv.timedWaitStep hstep
    | timeOut waiter =>
        obtain ⟨hover, hwake⟩ := Option.ite_none_right_eq_some.mp hstep
        exact hinv.wake (fun _ => .inr hover.2) hwake
    | wake waiter =>
        obtain ⟨hmoment, hwake⟩ := Option.ite_none_left_eq_some.mp hstep
        refine hinv.wake (fun hblocked => .inl ?_) hwake
        by_contra hnone
        exact hmoment ⟨hblocked, Bool.eq_false_of_not_eq_true hnone⟩
    | callSetValue value => exact hinv.callSetValue hstep
    | setValue => exact hinv.timedSetValueStep hstep

/-! ## Calls that answer too early -/

/-- The thread is in its call at a place at a time without a result, and no
other thread holds the mutex. -/
def Stands (waiter : Waiter) (call : TimedCall) (clock : ℕ) (pc : WaiterPc)
    (timed : TimedState Waiter Value) : Prop :=
  timed.state.waiter waiter = some pc ∧
    timed.state.mutex =
      (if pc.holds then some (.waiter waiter) else none) ∧
    timed.state.result = false ∧ timed.call waiter = call ∧
    timed.clock = clock

/-- Some run brings the thread there. -/
def Reaches (Value : Type*) (moments : Moments) (waiter : Waiter)
    (call : TimedCall) (clock : ℕ) (pc : WaiterPc) : Prop :=
  ∃ timed, (timedSystem Waiter Value moments).Reachable timed ∧
    Stands waiter call clock pc timed

variable {waiter : Waiter} {call : TimedCall} {clock : ℕ}

/-- A step of the thread that keeps its call and the result. -/
theorem Reaches.step {pc place : WaiterPc}
    (hreaches : Reaches Value moments waiter call clock pc)
    (label : TimedLabel Waiter Value) {time : ℕ}
    (hstep : ∀ timed : TimedState Waiter Value,
      Stands waiter call clock pc timed →
      ∃ next, timedStep moments timed label = some next ∧
        Stands waiter call time place next) :
    Reaches Value moments waiter call time place := by
  obtain ⟨timed, hreach, hstands⟩ := hreaches
  obtain ⟨next, hnext, hplace⟩ := hstep timed hstands
  exact ⟨next, hreach.step hnext, hplace⟩

theorem reaches_lock (hunset : ¬ moments.SetBefore call.start) :
    Reaches Value moments waiter call call.start (.lock .waitFor) := by
  have hstart : (timedSystem Waiter Value moments).Reachable
      (.initial call.start) := .init ⟨call.start, hunset, rfl⟩
  obtain ⟨next, hnext⟩ : ∃ next : TimedState Waiter Value,
      timedStep moments (.initial call.start)
        (.callWaitFor waiter call.sec call.nanosec) = some next := ⟨_, rfl⟩
  refine ⟨next, hstart.step hnext, ?_⟩
  cases hnext
  simp [Stands, State.move, State.initial, TimedState.initial, WaiterPc.holds]

/-- The thread that found no result is about to sleep. -/
theorem reaches_condWait (hunset : ¬ moments.SetBefore call.start) :
    Reaches Value moments waiter call call.start (.condWait .waitFor) := by
  have htest : Reaches Value moments waiter call call.start
      (.test .waitFor) := by
    apply (reaches_lock hunset).step (.wait waiter)
    rintro timed ⟨hpc, hmutex, hresult, hcall, hclock⟩
    simp [Stands, timedStep, timedWaitStep, waitStep, hpc, waitFrom, lock,
      hmutex, WaiterPc.holds, State.move, hresult, hcall, hclock]
  apply htest.step (.wait waiter)
  rintro timed ⟨hpc, hmutex, hresult, hcall, hclock⟩
  simp [Stands, timedStep, timedWaitStep, waitStep, hpc, waitFrom, hmutex,
    isReady, WaiterPc.holds, State.move, hresult, hcall, hclock]

theorem reaches_blocked (hvalid : call.time.isValid = true)
    (hunset : ¬ moments.SetBefore call.start) :
    Reaches Value moments waiter call call.start (.blocked .waitFor) := by
  apply (reaches_condWait hunset).step (.wait waiter)
  rintro timed ⟨hpc, hmutex, hresult, hcall, hclock⟩
  simp [Stands, timedStep, timedWaitStep, waitStep, hpc, waitFrom, unlock,
    hvalid, WaiterPc.holds, State.move, hresult, hcall, hclock]

/-- The thread sleeps until the result is due. -/
theorem Reaches.sleep {late : ℕ}
    (hreaches : Reaches Value moments waiter call clock (.blocked .waitFor))
    (hle : clock ≤ late) (hunset : ¬ moments.SetBefore late) :
    Reaches Value moments waiter call late (.blocked .waitFor) := by
  induction late, hle using Nat.le_induction with
  | base => exact hreaches
  | succ late hle ih =>
      have hearlier : ¬ moments.SetBefore late := fun hset =>
        hunset (hset.mono (Nat.le_succ late))
      have hdue : moments.setResult ≠ some late := fun hset =>
        hunset ⟨late, hset, Nat.lt_succ_self late⟩
      apply (ih hearlier).step .tick
      rintro timed ⟨hpc, hmutex, hresult, hcall, hclock⟩
      simp [Stands, timedStep, tick, hpc, hmutex, hresult, hcall, hclock, hdue]

theorem reaches_asleep (hvalid : call.time.isValid = true)
    (hle : call.start ≤ clock) (hunset : ¬ moments.SetBefore clock) :
    Reaches Value moments waiter call clock (.blocked .waitFor) := by
  have hstart : ¬ moments.SetBefore call.start := fun hset =>
    hunset (hset.mono hle)
  exact (reaches_blocked hvalid hstart).sleep hle hunset

/-- The second test finds no result. -/
theorem Reaches.answer_of_retest
    (hreaches : Reaches Value moments waiter call clock .retest) :
    ∃ timed, (timedSystem Waiter Value moments).Reachable timed ∧
      ⟨waiter, call, false, clock⟩ ∈ timed.answered := by
  have hunlock : Reaches Value moments waiter call clock
      (.unlock (.success false)) := by
    apply hreaches.step (.wait waiter)
    rintro timed ⟨hpc, hmutex, hresult, hcall, hclock⟩
    simp [Stands, timedStep, timedWaitStep, waitStep, hpc, waitFrom, hmutex,
      isReady, WaiterPc.holds, State.move, hresult, hcall, hclock]
  obtain ⟨timed, hreach, hpc, hmutex, hresult, hcall, hclock⟩ := hunlock
  obtain ⟨next, hnext, hanswer⟩ : ∃ next,
      timedStep moments timed (.wait waiter) = some next ∧
        next.answered = timed.answered ++ [⟨waiter, call, false, clock⟩] := by
    simp [timedStep, timedWaitStep, waitStep, hpc, waitFrom, hcall, hclock]
  refine ⟨next, hreach.step hnext, ?_⟩
  rw [hanswer]
  exact List.mem_append_right _ (List.mem_singleton_self _)

theorem Reaches.answer_of_woken
    (hreaches : Reaches Value moments waiter call clock (.woken .waitFor)) :
    ∃ timed, (timedSystem Waiter Value moments).Reachable timed ∧
      ⟨waiter, call, false, clock⟩ ∈ timed.answered := by
  apply Reaches.answer_of_retest
  apply hreaches.step (.wait waiter)
  rintro timed ⟨hpc, hmutex, hresult, hcall, hclock⟩
  simp [Stands, timedStep, timedWaitStep, waitStep, hpc, waitFrom, lock,
    hmutex, WaiterPc.holds, State.move, hresult, hcall, hclock]

/-- A `timespec` that is refused answers `false` at the time of the call. -/
theorem answer_of_invalid (hvalid : call.time.isValid = false)
    (hunset : ¬ moments.SetBefore call.start) :
    ∃ timed, (timedSystem Waiter Value moments).Reachable timed ∧
      ⟨waiter, call, false, call.start⟩ ∈ timed.answered := by
  apply Reaches.answer_of_retest
  apply (reaches_condWait hunset).step (.wait waiter)
  rintro timed ⟨hpc, hmutex, hresult, hcall, hclock⟩
  simp [Stands, timedStep, timedWaitStep, hpc, hvalid, WaiterPc.holds,
    State.move, hmutex, hresult, hcall, hclock]

/-- A wakeup for no reason answers `false` at its moment. -/
theorem answer_of_spurious (hvalid : call.time.isValid = true)
    (hspurious : moments.spurious clock = true) (hle : call.start ≤ clock)
    (hunset : ¬ moments.SetBefore clock) :
    ∃ timed, (timedSystem Waiter Value moments).Reachable timed ∧
      ⟨waiter, call, false, clock⟩ ∈ timed.answered := by
  apply Reaches.answer_of_woken
  apply (reaches_asleep hvalid hle hunset).step (.wake waiter)
  rintro timed ⟨hpc, hmutex, hresult, hcall, hclock⟩
  simp [Stands, timedStep, timedWakeStep, wakeStep, hpc, hspurious,
    WaiterPc.holds, State.move, hmutex, hresult, hcall, hclock]

/-- The sleep is over as soon as the clock stands behind the `timespec`. -/
theorem answer_of_timeOut (hvalid : call.time.isValid = true)
    (hle : call.start ≤ clock) (hover : call.time.toClock ≤ clock)
    (hunset : ¬ moments.SetBefore clock) :
    ∃ timed, (timedSystem Waiter Value moments).Reachable timed ∧
      ⟨waiter, call, false, clock⟩ ∈ timed.answered := by
  apply Reaches.answer_of_woken
  apply (reaches_asleep hvalid hle hunset).step (.timeOut waiter)
  rintro timed ⟨hpc, hmutex, hresult, hcall, hclock⟩
  simp [Stands, timedStep, timeOut, wakeStep, hpc, hover, WaiterPc.holds,
    State.move, hmutex, hresult, hcall, hclock]

/-! ## The main result -/

/-- A call that does not meet the condition answers `false` in some run before
its time is over. -/
theorem meetsTime_of_waitsFully
    (hfully : WaitsFully Value moments waiter call) :
    MeetsTime moments call := by
  have hanswer : ∀ time,
      (∃ timed, (timedSystem Waiter Value moments).Reachable timed ∧
        ⟨waiter, call, false, time⟩ ∈ timed.answered) →
      call.ending ≤ time := by
    rintro time ⟨timed, hreach, hanswer⟩
    exact ((hfully timed hreach _ hanswer rfl rfl).2 rfl).1
  by_cases hbefore : moments.SetBefore call.start
  · exact .inl hbefore
  by_cases hnone : call.ending = call.start
  · exact .inr (.inl hnone)
  have hlong : call.start < call.ending :=
    lt_of_le_of_ne TimedCall.start_le_ending (Ne.symm hnone)
  cases hvalid : call.time.isValid with
  | false =>
      have hover := hanswer call.start (answer_of_invalid hvalid hbefore)
      exact absurd hover (not_le.mpr hlong)
  | true =>
      refine .inr (.inr ⟨hvalid, ?_, ?_⟩)
      · intro moment hspurious hle hlt
        by_contra hunset
        have hover := hanswer moment
          (answer_of_spurious hvalid hspurious hle hunset)
        exact absurd hover (not_le.mpr hlt)
      · by_contra hclock
        obtain ⟨hzero, hunset⟩ := not_or.mp hclock
        have hover := hanswer _ (answer_of_timeOut hvalid (le_max_left _ _)
          (le_max_right _ _) hunset)
        rw [TimedCall.ending_eq] at hover hlong
        omega

/-- A call waits its full time in every run exactly if it meets the
condition. -/
theorem waitsFully_iff (moments : Moments) (waiter : Waiter)
    (call : TimedCall) :
    WaitsFully Value moments waiter call ↔ MeetsTime moments call := by
  constructor
  · exact meetsTime_of_waitsFully
  · rintro hmeets timed hreach answer hanswer - rfl
    exact (reachable_timedInvariant hreach).answered answer hanswer hmeets

/-- A wait of one second at the time 10^18, without a result and without a
wakeup. -/
theorem not_waitsFully : ¬ ∀ (moments : Moments) (call : TimedCall),
    WaitsFully ℕ moments () call := by
  intro hfully
  have hmeets := meetsTime_of_waitsFully
    (hfully ⟨none, fun _ => false⟩ ⟨10 ^ 18, 1, 0⟩)
  simp [MeetsTime, Moments.SetBefore, TimedCall.ending] at hmeets

end Sensor.Future
