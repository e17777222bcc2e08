import Sensor.Core.LockedObject

/-!
# Objects behind a lock are linearizable

Operations that hold the lock exclusively and lead from a representation of one
value to a representation of the next, and shared operations that change
nothing, make a concurrent object with the same histories of calls and returns
as the atomic object.  The proof is a forward simulation: the operation of the
atomic object happens at the last step its thread takes inside the lock.
-/

namespace Sensor.LockedObject

variable {Object Op Pc Result Thread Model : Type*}

/-- What a caller can tell of where a thread is. -/
def Place.view : Place Op Pc Result → Call Op Result
  | .called op => .pending op
  | .working op _ => .pending op
  | .releasing _ result => .answered result
  | .returning result => .answered result

section

variable (code : LockedObject Object Op Pc Result)
variable (spec : Op → Model → Model × Result)
variable (Represents Shows : Object → Model → Prop)

/-- How a thread at a place holds the lock. -/
def heldBy : Option (Place Op Pc Result) → Option LockMode
  | some (.working op _) => some (code.mode op)
  | some (.releasing op _) => some (code.mode op)
  | _ => none

/-- An operation under way will end as the specification says. -/
def Finishes (object : Object) (model : Model) (op : Op) (pc : Pc) : Prop :=
  (code.mode op = .shared ∧ ∃ result, spec op model = (model, result) ∧
      code.Executes (· = object) object pc object result) ∨
    (code.mode op = .exclusive ∧ ∃ final,
      Represents final (spec op model).1 ∧
        code.Executes (Shows · model) object pc final (spec op model).2)

/-- The object belongs to the value, up to the operations under way. -/
structure Progress (object : Object) (model : Model)
    (place : Thread → Option (Place Op Pc Result)) : Prop where
  shows : Shows object model
  represents : (∀ thread op pc, place thread = some (.working op pc) →
    code.mode op = .shared) → Represents object model
  working : ∀ thread op pc, place thread = some (.working op pc) →
    code.Finishes spec Represents Shows object model op pc

/-- A state of the concurrent object and the state of the atomic one that looks
the same. -/
structure Related (state : State Object Op Pc Result Thread)
    (atomic : AtomicState Model Op Result Thread) : Prop where
  history : atomic.history = state.history
  call : ∀ thread, atomic.call thread = (state.place thread).map Place.view
  held : state.lock.HeldAs fun thread => code.heldBy (state.place thread)
  progress : code.Progress spec Represents Shows state.object atomic.model
    state.place

end

section

variable {code : LockedObject Object Op Pc Result}
variable {spec : Op → Model → Model × Result}
variable {Represents Shows : Object → Model → Prop}

theorem Executes.body_cases {Keeps : Object → Prop} {object final : Object}
    {pc : Pc} {result : Result}
    (hexecutes : code.Executes Keeps object pc final result) :
    code.body object pc = some (final, .done result) ∨
      ∃ middle pc', code.body object pc = some (middle, .running pc') ∧
        Keeps middle ∧ code.Executes Keeps middle pc' final result := by
  cases hexecutes with
  | done hbody => exact .inl hbody
  | running hbody hkeeps hrest => exact .inr ⟨_, _, hbody, hkeeps, hrest⟩

/-- An operation that enters the lock will end as the specification says. -/
theorem Implements.finishes
    (himplements : code.Implements spec Represents Shows) {object : Object}
    {model : Model} (hrep : Represents object model) {op : Op}
    (hmode : code.mode op ≠ .unlocked) :
    code.Finishes spec Represents Shows object model op (code.enter op) := by
  cases hop : code.mode op with
  | shared =>
      exact .inl ⟨hop, himplements.shared op object model hop hrep⟩
  | exclusive =>
      exact .inr ⟨hop, himplements.exclusive op object model hop hrep⟩
  | unlocked => exact absurd hop hmode

section Update

variable [DecidableEq Thread] {thread : Thread}
variable {place : Thread → Option (Place Op Pc Result)}
variable {object : Object} {model : Model}

theorem view_update {call : Thread → Option (Call Op Result)}
    (hcall : ∀ other, call other = (place other).map Place.view)
    (moved : Option (Place Op Pc Result)) (other : Thread) :
    Function.update call thread (moved.map Place.view) other =
      (Function.update place thread moved other).map Place.view := by
  by_cases hother : other = thread
  · rw [hother, Function.update_self, Function.update_self]
  · rw [Function.update_of_ne hother, Function.update_of_ne hother, hcall]

/-- A step that no caller sees leaves the view of every thread alone. -/
theorem view_update_of_eq {call : Thread → Option (Call Op Result)}
    (hcall : ∀ other, call other = (place other).map Place.view)
    {moved : Option (Place Op Pc Result)}
    (hview : (place thread).map Place.view = moved.map Place.view)
    (other : Thread) :
    call other = (Function.update place thread moved other).map Place.view := by
  by_cases hother : other = thread
  · rw [hother, Function.update_self, hcall, hview]
  · rw [Function.update_of_ne hother, hcall]

theorem heldBy_update (moved : Option (Place Op Pc Result)) :
    (fun other => code.heldBy (Function.update place thread moved other)) =
      Function.update (fun other => code.heldBy (place other)) thread
        (code.heldBy moved) := by
  funext other
  by_cases hother : other = thread
  · rw [hother, Function.update_self, Function.update_self]
  · rw [Function.update_of_ne hother, Function.update_of_ne hother]

theorem held_update_of_eq {lock : ReadersWriterLock}
    (hheld : lock.HeldAs fun other => code.heldBy (place other))
    {moved : Option (Place Op Pc Result)}
    (hsame : code.heldBy (place thread) = code.heldBy moved) :
    lock.HeldAs fun other =>
      code.heldBy (Function.update place thread moved other) := by
  rw [heldBy_update, ← hsame, Function.update_eq_self]
  exact hheld

/-- A thread that does not hold the lock exclusively leaves the object and the
other operations under way as they are. -/
theorem Progress.move
    (hprogress : code.Progress spec Represents Shows object model place)
    {moved : Option (Place Op Pc Result)}
    (hbefore : ∀ op pc, place thread = some (.working op pc) →
      code.mode op = .shared)
    (hafter : ∀ op pc, moved = some (.working op pc) →
      code.Finishes spec Represents Shows object model op pc) :
    code.Progress spec Represents Shows object model
      (Function.update place thread moved) where
  shows := hprogress.shows
  represents := by
    intro hshared
    apply hprogress.represents
    intro other op pc hother
    by_cases heq : other = thread
    · subst heq
      exact hbefore op pc hother
    · apply hshared other op pc
      rw [Function.update_of_ne heq]
      exact hother
  working := by
    intro other op pc hother
    obtain ⟨-, hmoved⟩ | ⟨-, hold⟩ := update_eq_some_iff.mp hother
    · exact hafter op pc hmoved
    · exact hprogress.working other op pc hold

/-- The thread that holds the lock exclusively is the only one at work. -/
theorem Progress.of_alone
    (halone : ∀ other op pc, place other = some (.working op pc) →
      other = thread)
    {moved : Option (Place Op Pc Result)} (hshows : Shows object model)
    (hrepresents : (∀ op pc, moved ≠ some (.working op pc)) →
      Represents object model)
    (hafter : ∀ op pc, moved = some (.working op pc) →
      code.mode op = .exclusive ∧
        code.Finishes spec Represents Shows object model op pc) :
    code.Progress spec Represents Shows object model
      (Function.update place thread moved) where
  shows := hshows
  represents := by
    intro hshared
    apply hrepresents
    intro op pc hmoved
    have hmode := hshared thread op pc (by rw [Function.update_self, hmoved])
    rw [(hafter op pc hmoved).1] at hmode
    cases hmode
  working := by
    intro other op pc hother
    obtain ⟨-, hmoved⟩ | ⟨hne, hold⟩ := update_eq_some_iff.mp hother
    · exact (hafter op pc hmoved).2
    · exact absurd (halone other op pc hold) hne

end Update

/-! ### The steps of the simulation -/

section Simulation

variable [DecidableEq Thread] {thread : Thread} {model : Model}
variable {state next : State Object Op Pc Result Thread}
variable {atomic : AtomicState Model Op Result Thread}

/-- The atomic system reaches a state that looks like `next`. -/
abbrev Matched (code : LockedObject Object Op Pc Result)
    (spec : Op → Model → Model × Result)
    (Represents Shows : Object → Model → Prop) (model : Model)
    (atomic : AtomicState Model Op Result Thread)
    (next : State Object Op Pc Result Thread) : Prop :=
  ∃ labels atomic', (atomicSystem spec model).Run atomic labels atomic' ∧
    code.Related spec Represents Shows next atomic'

theorem Related.matched_call {op : Op}
    (hrelated : code.Related spec Represents Shows state atomic)
    (hstep : code.systemStep state (.call thread op) = some next) :
    code.Matched spec Represents Shows model atomic next := by
  obtain ⟨hplace, rfl⟩ : state.place thread = none ∧
      { state with
        place := Function.update state.place thread (some (.called op))
        history := state.history ++ [.called thread op] } = next := by
    rw [systemStep] at hstep
    split at hstep
    · exact ⟨‹_›, Option.some.inj hstep⟩
    · cases hstep
  have hcall : atomic.call thread = none := by
    rw [hrelated.call, hplace, Option.map_none]
  have hatomic : atomicStep spec atomic (.call thread op) =
      some { atomic with
        call := Function.update atomic.call thread (some (.pending op))
        history := atomic.history ++ [.called thread op] } := by
    rw [atomicStep, hcall]
  refine ⟨_, _, .cons hatomic (.nil _), ?_⟩
  constructor
  · rw [hrelated.history]
  · exact view_update hrelated.call (some (.called op))
  · apply held_update_of_eq hrelated.held
    rw [hplace]
    rfl
  · apply hrelated.progress.move
    · simp [hplace]
    · simp

theorem Related.matched_acquire
    (himplements : code.Implements spec Represents Shows)
    (hrelated : code.Related spec Represents Shows state atomic)
    (hstep : code.systemStep state (.acquire thread) = some next) :
    code.Matched spec Represents Shows model atomic next := by
  obtain ⟨op, lock, hplace, hlock, rfl⟩ : ∃ op lock,
      state.place thread = some (.called op) ∧
        state.lock.take (code.mode op) = some lock ∧
        { state with
          lock := lock
          place := Function.update state.place thread
            (some (.working op (code.enter op))) } = next := by
    rw [systemStep] at hstep
    split at hstep
    · obtain ⟨lock, hlock, hnext⟩ := Option.map_eq_some_iff.mp hstep
      exact ⟨_, lock, ‹_›, hlock, hnext⟩
    · cases hstep
  have hheld : lock.HeldAs fun other => code.heldBy
      (Function.update state.place thread
        (some (.working op (code.enter op))) other) := by
    rw [heldBy_update]
    apply hrelated.held.take _ hlock
    rw [hplace]
    rfl
  have hfree : state.lock.writing = false := by
    cases hmode : code.mode op with
    | shared =>
        rw [hmode] at hlock
        by_contra hwriting
        rw [Bool.not_eq_false] at hwriting
        simp [ReadersWriterLock.take, ReadersWriterLock.lockRead, hwriting]
          at hlock
    | exclusive =>
        rw [hmode] at hlock
        by_contra hwriting
        rw [Bool.not_eq_false] at hwriting
        simp [ReadersWriterLock.take, ReadersWriterLock.lockWrite, hwriting]
          at hlock
    | unlocked =>
        rw [hmode] at hlock
        cases hlock
  -- Nobody writes, so every operation under way is a shared one.
  have hrep : Represents state.object atomic.model := by
    apply hrelated.progress.represents
    intro other otherOp pc hother
    cases hmode : code.mode otherOp with
    | shared => rfl
    | exclusive =>
        refine absurd ?_ (hrelated.held.ne_exclusive hfree other)
        rw [hother, heldBy, hmode]
    | unlocked =>
        refine absurd ?_ (hrelated.held.locked other)
        rw [hother, heldBy, hmode]
  refine ⟨[], atomic, .nil _, ?_⟩
  constructor
  · exact hrelated.history
  · apply view_update_of_eq hrelated.call
    rw [hplace]
    rfl
  · exact hheld
  · apply hrelated.progress.move
    · simp [hplace]
    · intro enteredOp pc hentered
      cases hentered
      apply himplements.finishes hrep
      intro hunlocked
      rw [hunlocked] at hlock
      cases hlock

theorem Related.matched_peek {op : Op}
    (himplements : code.Implements spec Represents Shows)
    (hrelated : code.Related spec Represents Shows state atomic)
    (hplace : state.place thread = some (.called op))
    (hmode : code.mode op = .unlocked) :
    code.Matched spec Represents Shows model atomic { state with
      place := Function.update state.place thread
        (some (.returning (code.peek state.object op))) } := by
  have hspec := himplements.peek op _ _ hmode hrelated.progress.shows
  have hcall : atomic.call thread = some (.pending op) := by
    rw [hrelated.call, hplace]
    rfl
  have hatomic : atomicStep spec atomic (.commit thread) =
      some { atomic with
        call := Function.update atomic.call thread
          (some (.answered (code.peek state.object op))) } := by
    rw [atomicStep, hcall]
    simp only [hspec]
  refine ⟨_, _, .cons hatomic (.nil _), ?_⟩
  constructor
  · exact hrelated.history
  · exact view_update hrelated.call
      (some (.returning (code.peek state.object op)))
  · apply held_update_of_eq hrelated.held
    rw [hplace]
    rfl
  · apply hrelated.progress.move
    · simp [hplace]
    · simp

/-- A step of an operation that shares the lock. -/
theorem Related.matched_shared {op : Op} {pc : Pc} {result : Result}
    (hrelated : code.Related spec Represents Shows state atomic)
    (hplace : state.place thread = some (.working op pc))
    (hmode : code.mode op = .shared)
    (hspec : spec op atomic.model = (atomic.model, result))
    (hexecutes : code.Executes (· = state.object) state.object pc state.object
      result)
    {object : Object} {after : StepResult Pc Result}
    (hbody : code.body state.object pc = some (object, after)) :
    code.Matched spec Represents Shows model atomic { state with
      object := object
      place := Function.update state.place thread (some (.after op after)) } := by
  obtain hdone | ⟨middle, pc', hrunning, rfl, hrest⟩ := hexecutes.body_cases
  · obtain ⟨rfl, rfl⟩ : state.object = object ∧ .done result = after :=
      Prod.ext_iff.mp (Option.some.inj (hdone.symm.trans hbody))
    have hcall : atomic.call thread = some (.pending op) := by
      rw [hrelated.call, hplace]
      rfl
    have hatomic : atomicStep spec atomic (.commit thread) =
        some { atomic with
          call := Function.update atomic.call thread
            (some (.answered result)) } := by
      rw [atomicStep, hcall]
      simp only [hspec]
    refine ⟨_, _, .cons hatomic (.nil _), ?_⟩
    constructor
    · exact hrelated.history
    · exact view_update hrelated.call (some (.releasing op result))
    · apply held_update_of_eq hrelated.held
      rw [hplace]
      rfl
    · apply hrelated.progress.move
      · intro otherOp otherPc hother
        rw [hplace] at hother
        cases hother
        exact hmode
      · simp [Place.after]
  · obtain ⟨rfl, rfl⟩ : state.object = object ∧ .running pc' = after :=
      Prod.ext_iff.mp (Option.some.inj (hrunning.symm.trans hbody))
    refine ⟨[], atomic, .nil _, ?_⟩
    constructor
    · exact hrelated.history
    · apply view_update_of_eq hrelated.call
      rw [hplace]
      rfl
    · apply held_update_of_eq hrelated.held
      rw [hplace]
      rfl
    · apply hrelated.progress.move
      · intro otherOp otherPc hother
        rw [hplace] at hother
        cases hother
        exact hmode
      · intro otherOp otherPc hother
        cases hother
        exact .inl ⟨hmode, result, hspec, hrest⟩

/-- A step of the operation that holds the lock exclusively. -/
theorem Related.matched_exclusive {op : Op} {pc : Pc} {final : Object}
    (himplements : code.Implements spec Represents Shows)
    (hrelated : code.Related spec Represents Shows state atomic)
    (hplace : state.place thread = some (.working op pc))
    (hmode : code.mode op = .exclusive)
    (hfinal : Represents final (spec op atomic.model).1)
    (hexecutes : code.Executes (Shows · atomic.model) state.object pc final
      (spec op atomic.model).2)
    {object : Object} {after : StepResult Pc Result}
    (hbody : code.body state.object pc = some (object, after)) :
    code.Matched spec Represents Shows model atomic { state with
      object := object
      place := Function.update state.place thread (some (.after op after)) } := by
  have hthread : code.heldBy (state.place thread) = some .exclusive := by
    rw [hplace, heldBy, hmode]
  have halone : ∀ other otherOp otherPc,
      state.place other = some (.working otherOp otherPc) →
        other = thread := by
    intro other otherOp otherPc hother
    have hworking : code.heldBy (state.place other) =
        some (code.mode otherOp) := by
      rw [hother]
      rfl
    exact hrelated.held.alone hthread hworking
  obtain hdone | ⟨middle, pc', hrunning, hshows, hrest⟩ :=
    hexecutes.body_cases
  · obtain ⟨rfl, rfl⟩ : final = object ∧
        .done (spec op atomic.model).2 = after :=
      Prod.ext_iff.mp (Option.some.inj (hdone.symm.trans hbody))
    have hcall : atomic.call thread = some (.pending op) := by
      rw [hrelated.call, hplace]
      rfl
    have hatomic : atomicStep spec atomic (.commit thread) =
        some { atomic with
          model := (spec op atomic.model).1
          call := Function.update atomic.call thread
            (some (.answered (spec op atomic.model).2)) } := by
      rw [atomicStep, hcall]
    refine ⟨_, _, .cons hatomic (.nil _), ?_⟩
    constructor
    · exact hrelated.history
    · exact view_update hrelated.call
        (some (.releasing op (spec op atomic.model).2))
    · apply held_update_of_eq hrelated.held
      rw [hplace]
      rfl
    · apply Progress.of_alone halone (himplements.shows _ _ hfinal)
      · exact fun _ => hfinal
      · simp [Place.after]
  · obtain ⟨rfl, rfl⟩ : middle = object ∧ .running pc' = after :=
      Prod.ext_iff.mp (Option.some.inj (hrunning.symm.trans hbody))
    refine ⟨[], atomic, .nil _, ?_⟩
    constructor
    · exact hrelated.history
    · apply view_update_of_eq hrelated.call
      rw [hplace]
      rfl
    · apply held_update_of_eq hrelated.held
      rw [hplace]
      rfl
    · apply Progress.of_alone halone hshows
      · exact fun hnone => absurd rfl (hnone op pc')
      · intro otherOp otherPc hother
        cases hother
        exact ⟨hmode, .inr ⟨hmode, final, hfinal, hrest⟩⟩

theorem Related.matched_work
    (himplements : code.Implements spec Represents Shows)
    (hrelated : code.Related spec Represents Shows state atomic)
    (hstep : code.systemStep state (.work thread) = some next) :
    code.Matched spec Represents Shows model atomic next := by
  rw [systemStep] at hstep
  split at hstep
  · split at hstep
    case isTrue hplace hmode =>
      cases hstep
      exact hrelated.matched_peek himplements hplace hmode
    case isFalse => cases hstep
  · rename_i op pc hplace
    obtain ⟨⟨object, after⟩, hbody, rfl⟩ := Option.map_eq_some_iff.mp hstep
    obtain ⟨hmode, result, hspec, hexecutes⟩ | ⟨hmode, final, hfinal,
      hexecutes⟩ := hrelated.progress.working thread op pc hplace
    · exact hrelated.matched_shared hplace hmode hspec hexecutes hbody
    · exact hrelated.matched_exclusive himplements hplace hmode hfinal
        hexecutes hbody
  · cases hstep

theorem Related.matched_release
    (hrelated : code.Related spec Represents Shows state atomic)
    (hstep : code.systemStep state (.release thread) = some next) :
    code.Matched spec Represents Shows model atomic next := by
  obtain ⟨op, result, hplace, rfl⟩ : ∃ op result,
      state.place thread = some (.releasing op result) ∧
        { state with
          lock := state.lock.release
          place := Function.update state.place thread
            (some (.returning result)) } = next := by
    rw [systemStep] at hstep
    split at hstep
    · exact ⟨_, _, ‹_›, Option.some.inj hstep⟩
    · cases hstep
  refine ⟨[], atomic, .nil _, ?_⟩
  constructor
  · exact hrelated.history
  · apply view_update_of_eq hrelated.call
    rw [hplace]
    rfl
  · rw [heldBy_update]
    have hreleasing : code.heldBy (state.place thread) =
        some (code.mode op) := by
      rw [hplace]
      rfl
    exact hrelated.held.release hreleasing
  · apply hrelated.progress.move
    · simp [hplace]
    · simp

theorem Related.matched_leave
    (hrelated : code.Related spec Represents Shows state atomic)
    (hstep : code.systemStep state (.leave thread) = some next) :
    code.Matched spec Represents Shows model atomic next := by
  obtain ⟨result, hplace, rfl⟩ : ∃ result,
      state.place thread = some (.returning result) ∧
        { state with
          place := Function.update state.place thread none
          history := state.history ++ [.returned thread result] } = next := by
    rw [systemStep] at hstep
    split at hstep
    · exact ⟨_, ‹_›, Option.some.inj hstep⟩
    · cases hstep
  have hcall : atomic.call thread = some (.answered result) := by
    rw [hrelated.call, hplace]
    rfl
  have hatomic : atomicStep spec atomic (.leave thread) =
      some { atomic with
        call := Function.update atomic.call thread none
        history := atomic.history ++ [.returned thread result] } := by
    rw [atomicStep, hcall]
  refine ⟨_, _, .cons hatomic (.nil _), ?_⟩
  constructor
  · rw [hrelated.history]
  · exact view_update hrelated.call none
  · apply held_update_of_eq hrelated.held
    rw [hplace]
    rfl
  · apply hrelated.progress.move
    · simp [hplace]
    · simp

omit [DecidableEq Thread] in
theorem related_initial (himplements : code.Implements spec Represents Shows)
    {object : Object} (hrep : Represents object model) :
    code.Related spec Represents Shows
      (initial object : State Object Op Pc Result Thread)
      (atomicInitial model) where
  history := rfl
  call := fun _ => rfl
  held := .free
  progress := {
    shows := himplements.shows _ _ hrep
    represents := fun _ => hrep
    working := fun _ _ _ hnone => by cases hnone }

/-- Whatever the threads do, the object looks like the atomic one. -/
theorem exists_related (himplements : code.Implements spec Represents Shows)
    {object : Object} (hrep : Represents object model)
    (hreach : (code.system object).Reachable state) :
    ∃ atomic, (atomicSystem spec model).Reachable atomic ∧
      code.Related spec Represents Shows state atomic := by
  apply hreach.simulate
  · rintro _ rfl
    exact ⟨atomicInitial model, rfl, related_initial himplements hrep⟩
  · intro state atomic label next hrelated hstep
    cases label with
    | call thread op => exact hrelated.matched_call hstep
    | acquire thread => exact hrelated.matched_acquire himplements hstep
    | work thread => exact hrelated.matched_work himplements hstep
    | release thread => exact hrelated.matched_release hstep
    | leave thread => exact hrelated.matched_leave hstep

/-- Every history of the concurrent object is one of the atomic object. -/
theorem exists_atomic_history
    (himplements : code.Implements spec Represents Shows)
    {object : Object} (hrep : Represents object model)
    (hreach : (code.system object).Reachable state) :
    ∃ atomic, (atomicSystem spec model).Reachable atomic ∧
      atomic.history = state.history := by
  obtain ⟨atomic, hatomic, hrelated⟩ := exists_related himplements hrep hreach
  exact ⟨atomic, hatomic, hrelated.history⟩

/-! ### Every operation ends -/

/-- What is left of an operation inside the lock can be run to its end. -/
theorem Executes.exists_execute {Keeps : Object → Prop} {final : Object}
    {op : Op} {pc : Pc} {result : Result}
    (hexecutes : code.Executes Keeps state.object pc final result)
    (hplace : state.place thread = some (.working op pc)) :
    ∃ count last, TransitionSystem.execute code.systemStep state
        (List.replicate count (.work thread)) = some last ∧
      last.object = final ∧
      last.place thread = some (.releasing op result) := by
  generalize hobject : state.object = object at hexecutes
  induction hexecutes generalizing state with
  | @done object final pc result hbody =>
      subst hobject
      refine ⟨1, { state with
        object := final
        place := Function.update state.place thread
          (some (.releasing op result)) }, ?_, rfl, Function.update_self ..⟩
      rw [List.replicate_one, TransitionSystem.execute, systemStep, hplace]
      simp only [hbody]
      rfl
  | @running object middle final pc pc' result hbody hkeeps hrest ih =>
      subst hobject
      obtain ⟨count, last, hexecute, hlast, hreleasing⟩ := @ih { state with
        object := middle
        place := Function.update state.place thread
          (some (.working op pc')) } (Function.update_self ..) rfl
      refine ⟨count + 1, last, ?_, hlast, hreleasing⟩
      rw [List.replicate_succ, TransitionSystem.execute, systemStep, hplace]
      simp only [hbody]
      exact hexecute

/-- A thread inside the lock is never stuck there: by its own steps alone it
comes to the release of the lock. -/
theorem exists_execute_releasing
    (himplements : code.Implements spec Represents Shows) {object : Object}
    (hrep : Represents object model)
    (hreach : (code.system object).Reachable state) {op : Op} {pc : Pc}
    (hplace : state.place thread = some (.working op pc)) :
    ∃ count last result, TransitionSystem.execute code.systemStep state
        (List.replicate count (.work thread)) = some last ∧
      last.place thread = some (.releasing op result) := by
  obtain ⟨atomic, -, hrelated⟩ := exists_related himplements hrep hreach
  obtain ⟨-, result, -, hexecutes⟩ | ⟨-, final, -, hexecutes⟩ :=
    hrelated.progress.working thread op pc hplace
  · obtain ⟨count, last, hrun, -, hlast⟩ := hexecutes.exists_execute hplace
    exact ⟨count, last, _, hrun, hlast⟩
  · obtain ⟨count, last, hrun, -, hlast⟩ := hexecutes.exists_execute hplace
    exact ⟨count, last, _, hrun, hlast⟩

end Simulation

end

end Sensor.LockedObject
