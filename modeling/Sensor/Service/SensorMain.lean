import Mathlib.Data.List.Induction
import Sensor.Service.ServiceStart

/-!
# The configuration of a running sensor

`sensor_main` marks a sensor as activated, and the functions that set its
options refuse an activated sensor.  `sensor_breakloop` takes the mark away
while `sensor_main` goes on, and `sensor_main` does not take it away when it
returns.  It gets to the mark only where the constructor of `SensorService` does
not throw.
-/

namespace Sensor.SensorMain

open TransitionSystem

variable {Options Callback : Type*}

/-- The codes of `enum sensor_error_e` the setters return. -/
inductive SensorError where
  | success
  | alreadyActivated
  deriving DecidableEq

/-- A `sensor_persist_f`: the default or a function of the client. -/
inductive PersistFunction (Callback : Type*) where
  | emptyPersist
  | callback (callback : Callback)
  deriving DecidableEq

/-- The fields of `struct sensor` the functions below use. -/
structure SensorConfig (Options Callback : Type*) where
  activated : Bool
  opt : Options
  persist_function : PersistFunction Callback
  deriving DecidableEq

/-! ## The functions of the source -/

/-- `sensor_init`, with whatever the uninitialised options hold. -/
def sensorInit (options : Options) : SensorConfig Options Callback where
  activated := false
  opt := options
  persist_function := .emptyPersist

def sensorSetOptions (config : SensorConfig Options Callback)
    (options : Options) : SensorError × SensorConfig Options Callback :=
  if config.activated then (.alreadyActivated, config)
  else (.success, { config with opt := options })

/-- `sensor_set_persist_callback`; a null pointer stands for the default. -/
def sensorSetPersistCallback (config : SensorConfig Options Callback)
    (callback : Option Callback) :
    SensorError × SensorConfig Options Callback :=
  if config.activated then (.alreadyActivated, config)
  else
    match callback with
    | some callback =>
        (.success, { config with persist_function := .callback callback })
    | none => (.success, { config with persist_function := .emptyPersist })

def sensorBreakloop (config : SensorConfig Options Callback) :
    SensorConfig Options Callback :=
  { config with activated := false }

/-! ## Runs -/

/-- Where `sensor_main` is: not called, in the constructor of `SensorService` or
behind it, or behind the store to `activated`. -/
inductive MainPlace where
  | outside
  | starting (start : ServiceStart.Start)
  | running
  deriving DecidableEq

structure State (Options Callback : Type*) where
  config : SensorConfig Options Callback
  main : MainPlace
  deriving DecidableEq

/-- A call of a client on the sensor, or a step of `sensor_main`: it is called,
the service starts, it sets `activated`, it returns. -/
inductive Label (Options Callback : Type*) where
  | setOptions (options : Options)
  | setPersistCallback (callback : Option Callback)
  | breakloop
  | mainEnter
  | mainStart (label : ServiceStart.Label)
  | mainActivate
  | mainReturn
  deriving DecidableEq

def initial (options : Options) : State Options Callback where
  config := sensorInit options
  main := .outside

def step (state : State Options Callback) :
    Label Options Callback → Option (State Options Callback)
  | .setOptions options =>
      some { state with config := (sensorSetOptions state.config options).2 }
  | .setPersistCallback callback =>
      some { state with
        config := (sensorSetPersistCallback state.config callback).2 }
  | .breakloop => some { state with config := sensorBreakloop state.config }
  | .mainEnter =>
      if state.main = .outside then
        some { state with main := .starting .create }
      else none
  | .mainStart label =>
      match state.main with
      | .starting start =>
          (ServiceStart.step start label).map fun start =>
            -- `sensor_main` has no handler and leaves by the exception
            { state with main :=
                if start = .thrown then .outside else .starting start }
      | _ => none
  | .mainActivate =>
      if state.main = .starting .constructed then
        some { config := { state.config with activated := true }
               main := .running }
      else none
  | .mainReturn =>
      if state.main = .running then some { state with main := .outside }
      else none

/-- What a setter is to answer: between the store to `activated` and the return
of `sensor_main` it refuses and changes nothing, otherwise it sets. -/
def RightAnswer (state : State Options Callback) :
    Label Options Callback → Prop
  | .setOptions options =>
      sensorSetOptions state.config options =
        if state.main = .running then (.alreadyActivated, state.config)
        else (.success, { state.config with opt := options })
  | .setPersistCallback callback =>
      sensorSetPersistCallback state.config callback =
        if state.main = .running then (.alreadyActivated, state.config)
        else (.success, { state.config with
          persist_function := callback.elim .emptyPersist .callback })
  | _ => True

/-- Every setter called in the run answers right. -/
def AnswersRight (options : Options) (labels : List (Label Options Callback)) :
    Prop :=
  ∀ index (hindex : index < labels.length) (state : State Options Callback),
    execute step (initial options) (labels.take index) = some state →
      RightAnswer state labels[index]

/-! ## The calls that go wrong -/

def Label.isSetter : Label Options Callback → Bool
  | .setOptions _ => true
  | .setPersistCallback _ => true
  | _ => false

def Label.isActivate : Label Options Callback → Bool
  | .mainActivate => true
  | _ => false

/-- The labels since `sensor_main` last set `activated`, the last one first. -/
def sinceActivation (history : List (Label Options Callback)) :
    List (Label Options Callback) :=
  history.reverse.takeWhile fun label => !label.isActivate

/-- `sensor_main` set `activated` and did not return since. -/
def InsideMain (history : List (Label Options Callback)) : Prop :=
  .mainActivate ∈ history ∧ .mainReturn ∉ sinceActivation history

/-- The loop was broken since `sensor_main` set `activated`. -/
def BrokenSince (history : List (Label Options Callback)) : Prop :=
  .breakloop ∈ sinceActivation history

/-- A setter is called inside the interval only before the loop is broken, and
after the return of `sensor_main` only once the loop was broken. -/
def InTime (labels : List (Label Options Callback)) : Prop :=
  ∀ index (_ : index < labels.length), labels[index].isSetter = true →
    (InsideMain (labels.take index) → ¬ BrokenSince (labels.take index)) ∧
    (.mainActivate ∈ labels.take index → ¬ InsideMain (labels.take index) →
      BrokenSince (labels.take index))

section Decidable

variable [DecidableEq Options] [DecidableEq Callback]

instance (history : List (Label Options Callback)) :
    Decidable (InsideMain history) :=
  inferInstanceAs (Decidable (_ ∧ _))

instance (history : List (Label Options Callback)) :
    Decidable (BrokenSince history) :=
  inferInstanceAs (Decidable (_ ∈ _))

instance (labels : List (Label Options Callback)) : Decidable (InTime labels) :=
  inferInstanceAs (Decidable (∀ index (_ : index < labels.length), _))

end Decidable

/-! ## What the flag records -/

variable {options : Options} {state next : State Options Callback}
variable {history labels : List (Label Options Callback)}
variable {label : Label Options Callback}

theorem sinceActivation_concat :
    sinceActivation (history ++ [label]) =
      if label.isActivate then [] else label :: sinceActivation history := by
  rw [sinceActivation, List.reverse_concat, List.takeWhile_cons]
  cases label.isActivate
  · rfl
  · rfl

/-- The flag of the sensor and the place of `sensor_main` after a history of
labels. -/
structure Tracks (history : List (Label Options Callback))
    (state : State Options Callback) : Prop where
  activated : state.config.activated = true ↔
    .mainActivate ∈ history ∧ ¬ BrokenSince history
  running : state.main = .running ↔ InsideMain history

/-- A label that neither activates nor breaks nor returns leaves the flag and
the place as the history has them. -/
theorem Tracks.keep (htracks : Tracks history state)
    (hactivated : next.config.activated = state.config.activated)
    (hmain : next.main = .running ↔ state.main = .running)
    (hactivate : label.isActivate = false) (hbreak : label ≠ .breakloop)
    (hreturn : label ≠ .mainReturn) : Tracks (history ++ [label]) next := by
  have hlabel : label ≠ .mainActivate := by
    rintro rfl
    cases hactivate
  constructor
  · rw [hactivated, htracks.activated, BrokenSince, BrokenSince,
      sinceActivation_concat, hactivate]
    simp [hlabel.symm, hbreak.symm]
  · rw [hmain, htracks.running, InsideMain, InsideMain,
      sinceActivation_concat, hactivate]
    simp [hlabel.symm, hreturn.symm]

theorem sensorSetOptions_activated (config : SensorConfig Options Callback)
    (options : Options) :
    (sensorSetOptions config options).2.activated = config.activated := by
  rw [sensorSetOptions]
  split
  · rfl
  · rfl

theorem sensorSetPersistCallback_activated
    (config : SensorConfig Options Callback) (callback : Option Callback) :
    (sensorSetPersistCallback config callback).2.activated =
      config.activated := by
  simp only [sensorSetPersistCallback]
  split
  · rfl
  · cases callback
    · rfl
    · rfl

/-- What a step of the starting service does. -/
theorem mainStart_cases {start : ServiceStart.Label}
    (hstep : step state (.mainStart start) = some next) :
    ∃ before after, state.main = .starting before ∧
      ServiceStart.step before start = some after ∧
      next = { state with main :=
        if after = .thrown then .outside else .starting after } := by
  rw [step] at hstep
  split at hstep
  case h_1 before hmain =>
    obtain ⟨after, hafter, rfl⟩ := Option.map_eq_some_iff.mp hstep
    exact ⟨before, after, hmain, hafter, rfl⟩
  case h_2 => cases hstep

/-- One step keeps the flag and the place in line with the history. -/
theorem Tracks.step (htracks : Tracks history state)
    (hstep : step state label = some next) :
    Tracks (history ++ [label]) next := by
  cases label with
  | setOptions options =>
      cases hstep
      exact htracks.keep (sensorSetOptions_activated _ _) Iff.rfl rfl (by simp)
        (by simp)
  | setPersistCallback callback =>
      cases hstep
      exact htracks.keep (sensorSetPersistCallback_activated _ _) Iff.rfl rfl
        (by simp) (by simp)
  | breakloop =>
      cases hstep
      constructor
      · simp [sensorBreakloop, BrokenSince, sinceActivation_concat,
          Label.isActivate]
      · rw [htracks.running, InsideMain, InsideMain, sinceActivation_concat]
        simp [Label.isActivate]
  | mainEnter =>
      obtain ⟨houtside, ⟨⟩⟩ := Option.ite_none_right_eq_some.mp hstep
      refine htracks.keep rfl ?_ rfl (by simp) (by simp)
      simp [houtside]
  | mainStart start =>
      obtain ⟨before, after, hmain, -, rfl⟩ := mainStart_cases hstep
      refine htracks.keep rfl ?_ rfl (by simp) (by simp)
      dsimp only
      rw [hmain]
      split
      · simp
      · simp
  | mainActivate =>
      obtain ⟨hstarting, ⟨⟩⟩ := Option.ite_none_right_eq_some.mp hstep
      constructor
      · simp [BrokenSince, sinceActivation_concat, Label.isActivate]
      · simp [InsideMain, sinceActivation_concat, Label.isActivate]
  | mainReturn =>
      obtain ⟨hrunning, ⟨⟩⟩ := Option.ite_none_right_eq_some.mp hstep
      constructor
      · rw [htracks.activated, BrokenSince, BrokenSince, sinceActivation_concat]
        simp [Label.isActivate]
      · simp [InsideMain, sinceActivation_concat, Label.isActivate]

theorem tracks_of_execute
    (hexecute : execute step (initial options) history = some state) :
    Tracks history state := by
  have hrun : (ofStep (fun _ => True) step).Run (initial options) history
      state := run_of_execute hexecute
  refine hrun.history ?_ fun _ _ _ _ _ htracks hstep => htracks.step hstep
  exact ⟨by simp [initial, sensorInit], by simp [initial, InsideMain]⟩

/-! ## The answers of the setters -/

/-- A setter answers right exactly if the flag says where `sensor_main` is. -/
theorem rightAnswer_iff :
    RightAnswer state label ↔ (label.isSetter = true →
      (state.config.activated = true ↔ state.main = .running)) := by
  cases label with
  | setOptions options =>
      simp only [RightAnswer, sensorSetOptions, Label.isSetter, forall_true_left]
      by_cases hactivated : state.config.activated = true <;>
        by_cases hrunning : state.main = .running <;>
        simp [hactivated, hrunning]
  | setPersistCallback callback =>
      simp only [RightAnswer, sensorSetPersistCallback, Label.isSetter,
        forall_true_left]
      cases callback <;>
        by_cases hactivated : state.config.activated = true <;>
        by_cases hrunning : state.main = .running <;>
        simp [hactivated, hrunning]
  | breakloop => simp [RightAnswer, Label.isSetter]
  | mainEnter => simp [RightAnswer, Label.isSetter]
  | mainStart start => simp [RightAnswer, Label.isSetter]
  | mainActivate => simp [RightAnswer, Label.isSetter]
  | mainReturn => simp [RightAnswer, Label.isSetter]

/-- What answers right leaves the configuration of a running sensor alone. -/
theorem config_of_running (hright : RightAnswer state label)
    (hrunning : state.main = .running) (hstep : step state label = some next) :
    next.config.opt = state.config.opt ∧
      next.config.persist_function = state.config.persist_function := by
  cases label with
  | setOptions options =>
      cases hstep
      rw [RightAnswer, if_pos hrunning] at hright
      exact ⟨by rw [hright], by rw [hright]⟩
  | setPersistCallback callback =>
      cases hstep
      rw [RightAnswer, if_pos hrunning] at hright
      exact ⟨by rw [hright], by rw [hright]⟩
  | breakloop =>
      cases hstep
      exact ⟨rfl, rfl⟩
  | mainEnter =>
      obtain ⟨-, ⟨⟩⟩ := Option.ite_none_right_eq_some.mp hstep
      exact ⟨rfl, rfl⟩
  | mainStart start =>
      obtain ⟨-, -, -, -, rfl⟩ := mainStart_cases hstep
      exact ⟨rfl, rfl⟩
  | mainActivate =>
      obtain ⟨-, ⟨⟩⟩ := Option.ite_none_right_eq_some.mp hstep
      exact ⟨rfl, rfl⟩
  | mainReturn =>
      obtain ⟨-, ⟨⟩⟩ := Option.ite_none_right_eq_some.mp hstep
      exact ⟨rfl, rfl⟩

/-- The setters called in a run answer right exactly if each of them is called
inside the interval only before the loop is broken and behind it only once it
was. -/
theorem answersRight_iff_inTime {final : State Options Callback}
    (hrun : execute step (initial options) labels = some final) :
    AnswersRight options labels ↔ InTime labels := by
  have hcall : ∀ index (_ : index < labels.length)
      (state : State Options Callback),
      execute step (initial options) (labels.take index) = some state →
      ((state.config.activated = true ↔ state.main = .running) ↔
        (InsideMain (labels.take index) → ¬ BrokenSince (labels.take index)) ∧
        (.mainActivate ∈ labels.take index →
          ¬ InsideMain (labels.take index) →
          BrokenSince (labels.take index))) := by
    intro index _ state hstate
    have htracks := tracks_of_execute hstate
    have hinside : InsideMain (labels.take index) →
        .mainActivate ∈ labels.take index := And.left
    rw [htracks.activated, htracks.running]
    tauto
  constructor
  · intro hanswers index hindex hsetter
    obtain ⟨state, hstate⟩ := exists_execute_take hrun index
    exact (hcall index hindex state hstate).mp
      (rightAnswer_iff.mp (hanswers index hindex state hstate) hsetter)
  · intro htime index hindex state hstate
    exact rightAnswer_iff.mpr fun hsetter =>
      (hcall index hindex state hstate).mpr (htime index hindex hsetter)

/-- The service starts while another thread of the program gets the number of
the acceptor's socket for a socket of its own. -/
def startWithOther : List (Label ℕ ℕ) :=
  [.mainStart (.create .made), .mainStart .otherOpen, .mainStart (.call true),
    .mainStart (.call true), .mainStart (.call true), .mainStart (.call true)]

/-- A sensor that is configured, runs, refuses a change, and is configured again
once its loop was broken and `sensor_main` returned. -/
def ordinaryUse : List (Label ℕ ℕ) :=
  [.setOptions 1, .mainEnter, .setPersistCallback (some 2)] ++
    startWithOther ++ [.mainActivate, .setOptions 3, .mainReturn, .breakloop,
      .setOptions 4]

theorem answersRight_ordinaryUse : AnswersRight 0 ordinaryUse :=
  let hrun : execute step (initial 0) ordinaryUse = some _ := rfl
  (answersRight_iff_inTime hrun).mpr (by decide)

/-- Options that are set after the loop was broken and before `sensor_main`
returned. -/
theorem not_answersRight : ¬ ∀ (options : ℕ) (labels : List (Label ℕ ℕ)),
    AnswersRight options labels := by
  intro hanswers
  have hright := hanswers 0
    ([.mainEnter] ++ startWithOther ++
      [.mainActivate, .breakloop, .setOptions 1]) 9 (by decide) _ rfl
  have hanswer := rightAnswer_iff.mp hright rfl
  exact absurd (hanswer.mpr rfl) (by decide)

/-! ## Without another thread -/

/-- The service is not behind its start, and there is no mark. -/
structure Unstarted (state : State Options Callback) : Prop where
  starting : ∀ start, state.main = .starting start → start.Unopened
  running : state.main ≠ .running
  activated : state.config.activated = false

theorem Unstarted.step (hstate : Unstarted state)
    (hother : label ≠ .mainStart .otherOpen)
    (hstep : SensorMain.step state label = some next) : Unstarted next := by
  cases label with
  | setOptions options =>
      cases hstep
      exact ⟨hstate.starting, hstate.running,
        (sensorSetOptions_activated _ _).trans hstate.activated⟩
  | setPersistCallback callback =>
      cases hstep
      exact ⟨hstate.starting, hstate.running,
        (sensorSetPersistCallback_activated _ _).trans hstate.activated⟩
  | breakloop =>
      cases hstep
      exact ⟨hstate.starting, hstate.running, rfl⟩
  | mainEnter =>
      obtain ⟨-, ⟨⟩⟩ := Option.ite_none_right_eq_some.mp hstep
      refine ⟨?_, by simp, hstate.activated⟩
      rintro start ⟨⟩
      trivial
  | mainStart start =>
      obtain ⟨before, after, hmain, hafter, rfl⟩ := mainStart_cases hstep
      have hunopened : after.Unopened :=
        (hstate.starting before hmain).step (by simpa using hother) hafter
      by_cases hthrown : after = .thrown
      · rw [if_pos hthrown]
        exact ⟨nofun, by simp, hstate.activated⟩
      · rw [if_neg hthrown]
        refine ⟨?_, by simp, hstate.activated⟩
        rintro start ⟨⟩
        exact hunopened
  | mainActivate =>
      obtain ⟨hmain, -⟩ := Option.ite_none_right_eq_some.mp hstep
      exact (hstate.starting _ hmain).elim
  | mainReturn =>
      obtain ⟨hmain, -⟩ := Option.ite_none_right_eq_some.mp hstep
      exact absurd hmain hstate.running

/-- As long as no other part of the program gets the number of the acceptor's
socket, every setter answers right: `sensor_main` leaves by the exception of the
constructor and sets no mark. -/
theorem answersRight_of_alone (halone : .mainStart .otherOpen ∉ labels) :
    AnswersRight options labels := by
  intro index hindex state hstate
  have hrun : (ofStep (fun _ => True) step).Run (initial options)
      (labels.take index) state := run_of_execute hstate
  have hunstarted : Unstarted state := by
    refine hrun.preserves (· ≠ .mainStart .otherOpen) Unstarted ?_ ?_ ?_
    · exact fun before label after hother hbefore hstep =>
        hbefore.step hother hstep
    · rintro label hmem rfl
      exact halone (List.mem_of_mem_take hmem)
    · exact ⟨by simp [initial], by simp [initial], rfl⟩
  refine rightAnswer_iff.mpr fun _ => iff_of_false ?_ hunstarted.running
  rw [hunstarted.activated]
  exact Bool.false_ne_true

end Sensor.SensorMain
