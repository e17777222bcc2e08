import Sensor.Cmd.Future

/-!
# The hand-over from a promise to its futures

A thread that found no result holds the mutex until it sleeps, so that the
setter swaps the pointer before its test or wakes it after.  No wait returns
before the result is stored, and none sleeps on once `set_value` returned.
-/

namespace Sensor.Future

open TransitionSystem

/-- The places at which a thread holds the mutex. -/
def WaiterPc.holds : WaiterPc → Bool
  | .test _ => true
  | .condWait _ => true
  | .retest => true
  | .unlock _ => true
  | _ => false

/-- The places at which the setter holds the mutex. -/
def SetterPc.holds {Value : Type*} : SetterPc Value → Bool
  | .swap => true
  | .unlock => true
  | _ => false

/-- The places behind the store of the value. -/
def SetterPc.written {Value : Type*} : SetterPc Value → Bool
  | .idle => false
  | .storeValue _ => false
  | _ => true

/-- The places behind the swap of the pointer. -/
def SetterPc.stored {Value : Type*} : SetterPc Value → Bool
  | .unlock => true
  | .notifyAll => true
  | .finished => true
  | _ => false

theorem SetterPc.written_of_stored {Value : Type*} {pc : SetterPc Value}
    (hstored : pc.stored = true) : pc.written = true := by
  cases pc with
  | idle => cases hstored
  | storeValue value => cases hstored
  | _ => rfl

/-- What a place of a thread says about the result: one about to sleep has seen
none, one that sleeps will be woken, one that returns it has seen it. -/
def PlaceOk {Value : Type*} (result : Bool) (setter : SetterPc Value) :
    WaiterPc → Prop
  | .condWait _ => result = false
  | .blocked _ => setter ≠ .finished
  | .unlock .result => result = true
  | .unlock (.success success) => success = true → result = true
  | .returnResult => result = true
  | _ => True

/-- What a call may have returned once `result` is set for `argument`. -/
def ReturnOk {Value : Type*} (result : Bool) (argument : Option Value) :
    Returned Value → Prop
  | .result value => result = true ∧ ∃ passed, argument = some passed ∧
      value = some passed
  | .success success => success = true → result = true

variable {Waiter Value : Type*}

/-- The holders of the mutex hold it, the result is set behind the swap, the
value is stored before it, and every place and every answer agrees with it. -/
structure Invariant (state : State Waiter Value) : Prop where
  waiter_holds : ∀ waiter pc, state.waiter waiter = some pc →
    pc.holds = true → state.mutex = some (.waiter waiter)
  setter_holds : state.setter.holds = true → state.mutex = some .setter
  result_eq : state.result = state.setter.stored
  storing : ∀ value, state.setter = .storeValue value →
    state.argument = some value
  object : state.setter.written = true → ∃ value,
    state.argument = some value ∧ state.object = some value
  place : ∀ waiter pc, state.waiter waiter = some pc →
    PlaceOk state.result state.setter pc
  returned : ∀ entry, entry ∈ state.returned →
    ReturnOk state.result state.argument entry.2

variable {state next : State Waiter Value}

theorem Invariant.initial : Invariant (State.initial : State Waiter Value) where
  waiter_holds := by simp [State.initial]
  setter_holds := by simp [State.initial, SetterPc.holds]
  result_eq := rfl
  storing := by simp [State.initial]
  object := by simp [State.initial, SetterPc.written]
  place := by simp [State.initial]
  returned := by simp [State.initial]

/-- A stored result is the value passed to `set_value`. -/
theorem Invariant.dereference (hinv : Invariant state)
    (hresult : state.result = true) :
    ∃ value, state.argument = some value ∧
      Future.dereference state = some value := by
  have hwritten : state.setter.written = true := by
    apply SetterPc.written_of_stored
    rw [← hinv.result_eq, hresult]
  obtain ⟨value, hargument, hobject⟩ := hinv.object hwritten
  refine ⟨value, hargument, ?_⟩
  rw [Future.dereference, if_pos hresult, hobject]

/-! ## Steps of the waiting threads -/

section Waiters

variable [DecidableEq Waiter]

/-- One thread moves.  The mutex may pass from or to it; it returns at most
one answer. -/
theorem Invariant.move (hinv : Invariant state) {waiter : Waiter}
    {mutex : Option (Holder Waiter)} {pc : Option WaiterPc}
    {returned : List (Waiter × Returned Value)}
    (hothers : ∀ holder, holder ≠ .waiter waiter → state.mutex = some holder →
      mutex = some holder)
    (hholds : ∀ place, pc = some place → place.holds = true →
      mutex = some (.waiter waiter))
    (hplace : ∀ place, pc = some place →
      PlaceOk state.result state.setter place)
    (hreturned : ∀ entry, entry ∈ returned →
      entry ∈ state.returned ∨
        ReturnOk state.result state.argument entry.2) :
    Invariant { state with
      mutex, returned, waiter := Function.update state.waiter waiter pc } where
  waiter_holds := by
    intro other place hother hheld
    rcases update_eq_some_iff.mp hother with ⟨rfl, hpc⟩ | ⟨hne, hold⟩
    · exact hholds place hpc hheld
    · refine hothers _ ?_ (hinv.waiter_holds other place hold hheld)
      simpa using hne
  setter_holds := fun hheld =>
    hothers _ (by simp) (hinv.setter_holds hheld)
  result_eq := hinv.result_eq
  storing := hinv.storing
  object := hinv.object
  place := by
    intro other place hother
    rcases update_eq_some_iff.mp hother with ⟨-, hpc⟩ | ⟨-, hold⟩
    · exact hplace place hpc
    · exact hinv.place other place hold
  returned := by
    intro entry hentry
    rcases hreturned entry hentry with hold | hnew
    · exact hinv.returned entry hold
    · exact hnew

/-- A thread that keeps what it holds moves on without returning. -/
theorem Invariant.moveOn (hinv : Invariant state) {waiter : Waiter}
    {old pc : WaiterPc} (hold : state.waiter waiter = some old)
    (hholds : pc.holds = true → old.holds = true)
    (hplace : PlaceOk state.result state.setter pc) :
    Invariant (state.move waiter (some pc)) := by
  refine hinv.move (fun _ _ => id) ?_ ?_ (fun _ => Or.inl)
  · rintro place ⟨⟩ hheld
    exact hinv.waiter_holds waiter old hold (hholds hheld)
  · rintro place ⟨⟩
    exact hplace

/-- A thread locks the free mutex. -/
theorem Invariant.lock (hinv : Invariant state) {waiter : Waiter}
    {pc : WaiterPc} (hplace : PlaceOk state.result state.setter pc)
    (hstep : (Future.lock state (.waiter waiter)).map
      (fun state => state.move waiter (some pc)) = some next) :
    Invariant next := by
  obtain ⟨locked, hlock, rfl⟩ := Option.map_eq_some_iff.mp hstep
  obtain ⟨hfree, ⟨⟩⟩ := Option.ite_none_right_eq_some.mp hlock
  refine hinv.move ?_ (fun _ _ _ => rfl) ?_ (fun _ => Or.inl)
  · intro holder _ hheld
    rw [hheld] at hfree
    cases hfree
  · rintro place ⟨⟩
    exact hplace

/-- A thread that holds the mutex unlocks it, and returns at most one answer. -/
theorem Invariant.unlock (hinv : Invariant state) {waiter : Waiter}
    {old : WaiterPc} (hold : state.waiter waiter = some old)
    (hheld : old.holds = true) {pc : Option WaiterPc}
    {returned : List (Waiter × Returned Value)}
    (hfree : ∀ place, pc = some place → place.holds = false)
    (hplace : ∀ place, pc = some place →
      PlaceOk state.result state.setter place)
    (hreturned : ∀ entry, entry ∈ returned →
      entry ∈ state.returned ∨
        ReturnOk state.result state.argument entry.2) :
    Invariant { state with
      mutex := none, returned
      waiter := Function.update state.waiter waiter pc } := by
  have hmutex := hinv.waiter_holds waiter old hold hheld
  refine hinv.move ?_ ?_ hplace hreturned
  · intro holder hne hother
    rw [hmutex] at hother
    exact absurd (Option.some.inj hother).symm hne
  · intro place hpc hholds
    rw [hfree place hpc] at hholds
    cases hholds

theorem Invariant.waitFrom (hinv : Invariant state) {waiter : Waiter}
    {pc : WaiterPc} (hpc : state.waiter waiter = some pc)
    (hstep : waitFrom state waiter pc = some next) : Invariant next := by
  cases pc with
  | lock call =>
      refine hinv.lock ?_ hstep
      trivial
  | test call =>
      cases call with
      | wait =>
          cases hstep
          cases hready : isReady state with
          | true => exact hinv.moveOn hpc (fun _ => rfl) hready
          | false => exact hinv.moveOn hpc (fun _ => rfl) hready
      | waitFor =>
          cases hstep
          cases hready : isReady state with
          | true => exact hinv.moveOn hpc (fun _ => rfl) fun _ => hready
          | false => exact hinv.moveOn hpc (fun _ => rfl) hready
  | condWait call =>
      cases hstep
      have hnone : state.result = false := hinv.place waiter _ hpc
      refine hinv.unlock hpc rfl ?_ ?_ (fun _ => Or.inl)
      · rintro place ⟨⟩
        rfl
      · rintro place ⟨⟩ hfinished
        have hresult := hinv.result_eq
        rw [hnone, hfinished] at hresult
        cases hresult
  | blocked call => cases hstep
  | woken call =>
      refine hinv.lock ?_ hstep
      cases call with
      | wait => trivial
      | waitFor => trivial
  | retest =>
      cases hstep
      exact hinv.moveOn hpc (fun _ => rfl) id
  | unlock answer =>
      cases answer with
      | result =>
          cases hstep
          have hresult : state.result = true := hinv.place waiter _ hpc
          refine hinv.unlock hpc rfl ?_ ?_ (fun _ => Or.inl)
          · rintro place ⟨⟩
            rfl
          · rintro place ⟨⟩
            exact hresult
      | success success =>
          cases hstep
          refine hinv.unlock hpc rfl (fun _ => nofun) (fun _ => nofun) ?_
          intro entry hentry
          rcases List.mem_append.mp hentry with hold | hnew
          · exact .inl hold
          · rw [List.mem_singleton.mp hnew]
            exact .inr (hinv.place waiter _ hpc)
  | returnResult =>
      cases hstep
      have hresult : state.result = true := hinv.place waiter _ hpc
      refine hinv.move (fun _ _ => id) (fun _ => nofun) (fun _ => nofun) ?_
      intro entry hentry
      rcases List.mem_append.mp hentry with hold | hnew
      · exact .inl hold
      · rw [List.mem_singleton.mp hnew]
        exact .inr ⟨hresult, hinv.dereference hresult⟩

theorem Invariant.callWait (hinv : Invariant state) {waiter : Waiter}
    {call : WaitCall} (hstep : callWait state waiter call = some next) :
    Invariant next := by
  cases hwaiter : state.waiter waiter with
  | some pc => simp [Future.callWait, hwaiter] at hstep
  | none =>
      simp only [Future.callWait, hwaiter, Option.some.injEq] at hstep
      subst hstep
      refine hinv.move (fun _ _ => id) ?_ ?_ (fun _ => Or.inl)
      · rintro place ⟨⟩ hheld
        cases hheld
      · rintro place ⟨⟩
        trivial

theorem Invariant.wakeStep (hinv : Invariant state) {waiter : Waiter}
    (hstep : wakeStep state waiter = some next) : Invariant next := by
  cases hwaiter : state.waiter waiter with
  | none => simp [Future.wakeStep, hwaiter] at hstep
  | some pc =>
      cases pc with
      | blocked call =>
          simp only [Future.wakeStep, hwaiter, Option.some.injEq] at hstep
          subst hstep
          exact hinv.moveOn hwaiter nofun trivial
      | _ => simp [Future.wakeStep, hwaiter] at hstep

end Waiters

/-! ## Steps of the setter -/

/-- A place about the result stays right while the pointer and the end of
`set_value` do. -/
theorem PlaceOk.setter {result : Bool} {old new : SetterPc Value}
    {pc : WaiterPc} (hplace : PlaceOk result old pc) (hnew : new ≠ .finished) :
    PlaceOk result new pc := by
  cases pc with
  | blocked call => exact hnew
  | unlock answer =>
      cases answer with
      | result => exact hplace
      | success success => exact hplace
  | _ => exact hplace

/-- The setter moves on without touching the pointer. -/
theorem Invariant.moveSetter (hinv : Invariant state)
    {mutex : Option (Holder Waiter)} {object : Option Value}
    {setter : SetterPc Value}
    (hothers : ∀ holder, holder ≠ .setter → state.mutex = some holder →
      mutex = some holder)
    (hholds : setter.holds = true → mutex = some .setter)
    (hstored : setter.stored = state.setter.stored)
    (hstoring : ∀ value, setter ≠ .storeValue value)
    (hobject : setter.written = true → ∃ value,
      state.argument = some value ∧ object = some value)
    (hfinished : setter ≠ .finished) :
    Invariant { state with mutex, object, setter } where
  waiter_holds := fun waiter pc hpc hheld =>
    hothers _ (by simp) (hinv.waiter_holds waiter pc hpc hheld)
  setter_holds := hholds
  result_eq := hinv.result_eq.trans hstored.symm
  storing := fun value hvalue => absurd hvalue (hstoring value)
  object := hobject
  place := fun waiter pc hpc => (hinv.place waiter pc hpc).setter hfinished
  returned := hinv.returned

theorem Invariant.callSetValue (hinv : Invariant state) {value : Value}
    (hstep : callSetValue state value = some next) : Invariant next := by
  rw [Future.callSetValue] at hstep
  split at hstep
  case h_2 => cases hstep
  case h_1 hidle =>
  cases hstep
  have hnone : state.result = false := by
    rw [hinv.result_eq, hidle]
    rfl
  exact {
    waiter_holds := hinv.waiter_holds
    setter_holds := nofun
    result_eq := hnone
    storing := by
      rintro _ ⟨⟩
      rfl
    object := nofun
    place := fun waiter pc hpc => (hinv.place waiter pc hpc).setter nofun
    returned := by
      intro entry hentry
      have hold := hinv.returned entry hentry
      cases hreturned : entry.2 with
      | result value =>
          rw [hreturned, ReturnOk, hnone] at hold
          cases hold.1
      | success success =>
          rw [hreturned] at hold
          exact hold }

/-- The swap: the setter holds the mutex, so that no thread is between its test
and its sleep. -/
theorem Invariant.swap (hinv : Invariant state) (hswap : state.setter = .swap) :
    Invariant { state with result := true, setter := .unlock } := by
  have hmutex : state.mutex = some .setter := by
    apply hinv.setter_holds
    rw [hswap]
    rfl
  exact {
    waiter_holds := hinv.waiter_holds
    setter_holds := fun _ => hmutex
    result_eq := rfl
    storing := nofun
    object := fun _ => hinv.object (by rw [hswap]; rfl)
    place := by
      intro waiter pc hpc
      have hplace := hinv.place waiter pc hpc
      cases pc with
      | condWait call =>
          have hother := hinv.waiter_holds waiter _ hpc rfl
          rw [hmutex] at hother
          cases hother
      | blocked call => exact nofun
      | unlock answer =>
          cases answer with
          | result => rfl
          | success success => exact fun _ => rfl
      | returnResult => rfl
      | _ => trivial
    returned := by
      intro entry hentry
      have hold := hinv.returned entry hentry
      cases hreturned : entry.2 with
      | result value =>
          rw [hreturned] at hold
          exact ⟨rfl, hold.2⟩
      | success success => exact fun _ => rfl }

/-- The broadcast leaves no thread asleep. -/
theorem Invariant.notifyAll (hinv : Invariant state)
    (hnotify : state.setter = .notifyAll) :
    Invariant { state with
      waiter := fun waiter => (state.waiter waiter).map wakePc
      setter := .finished } where
  waiter_holds := by
    intro waiter pc hpc hheld
    obtain ⟨old, hold, rfl⟩ := Option.map_eq_some_iff.mp hpc
    apply hinv.waiter_holds waiter old hold
    cases old with
    | blocked call => cases hheld
    | _ => exact hheld
  setter_holds := nofun
  result_eq := by
    rw [hinv.result_eq, hnotify]
    rfl
  storing := nofun
  object := fun _ => hinv.object (by rw [hnotify]; rfl)
  place := by
    intro waiter pc hpc
    obtain ⟨old, hold, rfl⟩ := Option.map_eq_some_iff.mp hpc
    have hplace := hinv.place waiter old hold
    cases old with
    | blocked call => trivial
    | unlock answer =>
        cases answer with
        | result => exact hplace
        | success success => exact hplace
    | _ => exact hplace
  returned := hinv.returned

theorem Invariant.setValueStep (hinv : Invariant state)
    (hstep : setValueStep state = some next) : Invariant next := by
  rw [Future.setValueStep] at hstep
  cases hsetter : state.setter with
  | idle => simp [hsetter] at hstep
  | storeValue value =>
      simp only [hsetter, Option.some.injEq] at hstep
      subst hstep
      refine hinv.moveSetter (fun _ _ => id) nofun ?_ nofun ?_ nofun
      · rw [hsetter]
        rfl
      · exact fun _ => ⟨value, hinv.storing value hsetter, rfl⟩
  | lock =>
      simp only [hsetter] at hstep
      obtain ⟨locked, hlock, rfl⟩ := Option.map_eq_some_iff.mp hstep
      obtain ⟨hfree, ⟨⟩⟩ := Option.ite_none_right_eq_some.mp hlock
      refine hinv.moveSetter ?_ (fun _ => rfl) ?_ nofun ?_ nofun
      · intro holder _ hheld
        rw [hheld] at hfree
        cases hfree
      · rw [hsetter]
        rfl
      · exact fun _ => hinv.object (by rw [hsetter]; rfl)
  | swap =>
      simp only [hsetter, Option.some.injEq] at hstep
      subst hstep
      exact hinv.swap hsetter
  | unlock =>
      simp only [hsetter, Option.some.injEq] at hstep
      subst hstep
      have hmutex : state.mutex = some .setter := by
        apply hinv.setter_holds
        rw [hsetter]
        rfl
      refine hinv.moveSetter ?_ nofun ?_ nofun ?_ nofun
      · intro holder hne hheld
        rw [hmutex] at hheld
        exact absurd (Option.some.inj hheld).symm hne
      · rw [hsetter]
        rfl
      · exact fun _ => hinv.object (by rw [hsetter]; rfl)
  | notifyAll =>
      simp only [hsetter, Option.some.injEq] at hstep
      subst hstep
      exact hinv.notifyAll hsetter
  | finished => simp [hsetter] at hstep

/-! ## The main result -/

variable [DecidableEq Waiter]

theorem reachable_invariant (hreach : (system Waiter Value).Reachable state) :
    Invariant state := by
  apply hreach.invariant
  · rintro start rfl
    exact Invariant.initial
  · intro start label final hinv hstep
    cases label with
    | callWait waiter call => exact hinv.callWait hstep
    | wait waiter =>
        obtain ⟨pc, hpc, hfrom⟩ := Option.bind_eq_some_iff.mp hstep
        exact hinv.waitFrom hpc hfrom
    | wake waiter => exact hinv.wakeStep hstep
    | callSetValue value => exact hinv.callSetValue hstep
    | setValue => exact hinv.setValueStep hstep

/-- No wait returns before the result is stored, every wait returns the value
passed to `set_value`, and no thread sleeps once the result is set and
`set_value` returned. -/
theorem handover (hreach : (system Waiter Value).Reachable state) :
    (∀ waiter value, (waiter, .result value) ∈ state.returned →
      state.result = true ∧ ∃ passed, state.argument = some passed ∧
        value = some passed) ∧
    (∀ waiter, (waiter, .success true) ∈ state.returned →
      state.result = true) ∧
    ¬ (state.result = true ∧ state.setter = .finished ∧
      ∃ waiter call, state.waiter waiter = some (.blocked call)) := by
  have hinv := reachable_invariant hreach
  refine ⟨?_, ?_, ?_⟩
  · intro waiter value hentry
    exact hinv.returned _ hentry
  · intro waiter hentry
    exact hinv.returned _ hentry rfl
  · rintro ⟨-, hfinished, waiter, call, hblocked⟩
    exact hinv.place waiter _ hblocked hfinished

/-- A thread sleeps, wakes for no reason, sleeps again, and returns the value
set after that. -/
def sleepTwice : List (Label ℕ ℕ) :=
  [.callWait 0 .wait, .wait 0, .wait 0, .wait 0, .wake 0, .wait 0, .wait 0,
    .callSetValue 7, .setValue, .wait 0, .setValue, .setValue, .setValue,
    .setValue, .wait 0, .wait 0, .wait 0, .wait 0]

theorem handover_sleepTwice : ∃ state : State ℕ ℕ,
    (system ℕ ℕ).Reachable state ∧ state.setter = .finished ∧
      state.returned = [(0, .result (some 7))] ∧ state.result = true := by
  let state := (execute step (State.initial : State ℕ ℕ) sleepTwice).get rfl
  have hexecute : execute step State.initial sleepTwice = some state := rfl
  have hreach : (system ℕ ℕ).Reachable state :=
    reachable_of_execute rfl hexecute
  have hreturned : state.returned = [(0, .result (some 7))] := rfl
  refine ⟨state, hreach, rfl, hreturned, ?_⟩
  obtain ⟨hresult, -⟩ := (handover hreach).1 0 (some 7) (by
    rw [hreturned]
    exact List.mem_singleton_self _)
  exact hresult

end Sensor.Future
