import Sensor.Core.TransitionSystem
import Mathlib.Data.Option.Basic
import Mathlib.Order.Defs.Unbundled

/-!
# Computations that keep a log

A computation writes entries to a log and then has a value, or gets stuck.  For
a condition on entries and a postcondition, it is safe if every entry it writes
meets the condition and its value, if it has one, the postcondition; it succeeds
if it also has a value.  And a quantity the log shows ascends if every value it
shows is above the earlier ones.  The rules take a program apart from its first
part on.
-/

namespace Sensor

structure Logged (Entry Value : Type*) where
  log : List Entry
  value : Option Value

namespace Logged

variable {Entry Value Result : Type*}

def pure (value : Value) : Logged Entry Value where
  log := []
  value := some value

/-- Write `entry`, and then have the value, or get stuck. -/
def tell (entry : Entry) (value : Option Value) : Logged Entry Value where
  log := [entry]
  value := value

def bind (first : Logged Entry Value) (rest : Value → Logged Entry Result) :
    Logged Entry Result :=
  match first.value with
  | some value =>
      { log := first.log ++ (rest value).log, value := (rest value).value }
  | none => { log := first.log, value := none }

def map (function : Value → Result) (first : Logged Entry Value) :
    Logged Entry Result where
  log := first.log
  value := first.value.map function

/-- The value, or a computation that is stuck at once. -/
def ofOption (value : Option Value) : Logged Entry Value where
  log := []
  value := value

@[simp]
theorem value_ofOption {value : Option Value} :
    (ofOption value : Logged Entry Value).value = value := rfl

@[simp]
theorem value_pure {value : Value} :
    (pure value : Logged Entry Value).value = some value := rfl

@[simp]
theorem value_tell {entry : Entry} {value : Option Value} :
    (tell entry value).value = value := rfl

@[simp]
theorem value_map {function : Value → Result} {first : Logged Entry Value} :
    (first.map function).value = first.value.map function := rfl

@[simp]
theorem value_bind {first : Logged Entry Value}
    {rest : Value → Logged Entry Result} :
    (first.bind rest).value = first.value.bind fun value =>
      (rest value).value := by
  rw [bind]
  cases first.value with
  | none => rfl
  | some value => rfl

theorem log_bind_of_some {first : Logged Entry Value}
    {rest : Value → Logged Entry Result} {value : Value}
    (hvalue : first.value = some value) :
    (first.bind rest).log = first.log ++ (rest value).log := by
  rw [bind, hvalue]

theorem log_bind_of_none {first : Logged Entry Value}
    {rest : Value → Logged Entry Result} (hvalue : first.value = none) :
    (first.bind rest).log = first.log := by
  rw [bind, hvalue]

theorem log_tell_bind {entry : Entry} {value : Value}
    {rest : Value → Logged Entry Result} :
    ((tell entry (some value)).bind rest).log = entry :: (rest value).log := rfl

/-! ## Success -/

/-- The computation has a value that meets `Post`, and every entry of its log
meets `Fine`. -/
def Succeeds (Fine : Entry → Prop) (Post : Value → Prop)
    (computation : Logged Entry Value) : Prop :=
  (∀ entry ∈ computation.log, Fine entry) ∧
    ∃ value, computation.value = some value ∧ Post value

variable {Fine : Entry → Prop}

theorem Succeeds.mono {Post Weaker : Value → Prop}
    {computation : Logged Entry Value}
    (hsucceeds : computation.Succeeds Fine Post)
    (hweaker : ∀ value, Post value → Weaker value) :
    computation.Succeeds Fine Weaker := by
  obtain ⟨hfine, value, hvalue, hpost⟩ := hsucceeds
  exact ⟨hfine, value, hvalue, hweaker value hpost⟩

/-- The postcondition holds of the value. -/
theorem Succeeds.post {Post : Value → Prop} {computation : Logged Entry Value}
    (hsucceeds : computation.Succeeds Fine Post) {value : Value}
    (hvalue : computation.value = some value) : Post value := by
  obtain ⟨-, other, hother, hpost⟩ := hsucceeds
  rw [hvalue, Option.some.injEq] at hother
  rwa [hother]

/-- Two postconditions hold of one value. -/
theorem Succeeds.exists_and {Post Post' : Value → Prop}
    {computation : Logged Entry Value}
    (hsucceeds : computation.Succeeds Fine Post)
    (hsucceeds' : computation.Succeeds Fine Post') :
    ∃ value, Post value ∧ Post' value := by
  obtain ⟨-, value, hvalue, hpost⟩ := hsucceeds
  obtain ⟨-, value', hvalue', hpost'⟩ := hsucceeds'
  rw [hvalue, Option.some.injEq] at hvalue'
  subst hvalue'
  exact ⟨value, hpost, hpost'⟩

@[simp]
theorem succeeds_pure {Post : Value → Prop} {value : Value} :
    (pure value : Logged Entry Value).Succeeds Fine Post ↔ Post value := by
  simp [Succeeds, pure]

@[simp]
theorem succeeds_tell {Post : Value → Prop} {entry : Entry}
    {value : Option Value} :
    (tell entry value).Succeeds Fine Post ↔
      Fine entry ∧ ∃ result, value = some result ∧ Post result := by
  simp [Succeeds, tell]

@[simp]
theorem succeeds_map {Post : Result → Prop} {function : Value → Result}
    {first : Logged Entry Value} :
    (first.map function).Succeeds Fine Post ↔
      first.Succeeds Fine fun value => Post (function value) := by
  simp [Succeeds, map]

@[simp]
theorem succeeds_bind {Post : Result → Prop} {first : Logged Entry Value}
    {rest : Value → Logged Entry Result} :
    (first.bind rest).Succeeds Fine Post ↔
      first.Succeeds Fine fun value => (rest value).Succeeds Fine Post := by
  simp only [Succeeds, bind]
  cases first.value with
  | none => simp
  | some value =>
      simp only [List.mem_append, or_imp, forall_and, Option.some.injEq,
        exists_eq_left']
      exact and_assoc

/-! ## Safety -/

/-- Every entry of the log meets `Fine`, and a value meets `Post`. -/
def Safe (Fine : Entry → Prop) (Post : Value → Prop)
    (computation : Logged Entry Value) : Prop :=
  (∀ entry ∈ computation.log, Fine entry) ∧
    ∀ value, computation.value = some value → Post value

theorem Safe.mono {Post Weaker : Value → Prop}
    {computation : Logged Entry Value} (hsafe : computation.Safe Fine Post)
    (hweaker : ∀ value, Post value → Weaker value) :
    computation.Safe Fine Weaker :=
  ⟨hsafe.1, fun value hvalue => hweaker value (hsafe.2 value hvalue)⟩

@[simp]
theorem safe_pure {Post : Value → Prop} {value : Value} :
    (pure value : Logged Entry Value).Safe Fine Post ↔ Post value := by
  simp [Safe, pure]

@[simp]
theorem safe_tell {Post : Value → Prop} {entry : Entry}
    {value : Option Value} :
    (tell entry value).Safe Fine Post ↔
      Fine entry ∧ ∀ result, value = some result → Post result := by
  simp [Safe, tell]

@[simp]
theorem safe_ofOption {Post : Value → Prop} {value : Option Value} :
    (ofOption value : Logged Entry Value).Safe Fine Post ↔
      ∀ result, value = some result → Post result := by
  simp [Safe, ofOption]

@[simp]
theorem safe_map {Post : Result → Prop} {function : Value → Result}
    {first : Logged Entry Value} :
    (first.map function).Safe Fine Post ↔
      first.Safe Fine fun value => Post (function value) := by
  simp [Safe, map]

@[simp]
theorem safe_bind {Post : Result → Prop} {first : Logged Entry Value}
    {rest : Value → Logged Entry Result} :
    (first.bind rest).Safe Fine Post ↔
      first.Safe Fine fun value => (rest value).Safe Fine Post := by
  simp only [Safe, bind]
  cases first.value with
  | none => simp
  | some value =>
      simp only [List.mem_append, or_imp, forall_and, Option.some.injEq,
        forall_eq']
      exact and_assoc

/-! ## Quantities that ascend -/

section Ascends

variable {Level : Type*}

/-- The levels `seen` in the log come in the order of `Above`, each above
`start`, and the level of the value is above all of them. -/
structure Ascends (Above : Level → Level → Prop) (seen : Entry → Option Level)
    (level : Value → Level) (start : Level) (computation : Logged Entry Value) :
    Prop where
  pairwise : (computation.log.filterMap seen).Pairwise Above
  start_above : ∀ shown ∈ computation.log.filterMap seen, Above start shown
  value_above : ∀ value, computation.value = some value →
    Above start (level value) ∧
      ∀ shown ∈ computation.log.filterMap seen, Above shown (level value)

variable {Above : Level → Level → Prop} {seen : Entry → Option Level}
variable {level : Value → Level} {level' : Result → Level} {start : Level}

theorem Ascends.ofOption {value : Option Value}
    (habove : ∀ result, value = some result → Above start (level result)) :
    (ofOption value).Ascends Above seen level start where
  pairwise := .nil
  start_above := fun _ hshown => nomatch hshown
  value_above := fun result hresult =>
    ⟨habove result hresult, fun _ hshown => nomatch hshown⟩

theorem Ascends.pure {value : Value} (habove : Above start (level value)) :
    (pure value).Ascends Above seen level start := by
  apply Ascends.ofOption
  rintro result ⟨⟩
  exact habove

/-- An entry that shows nothing. -/
theorem Ascends.tell {entry : Entry} {value : Option Value}
    (hentry : seen entry = none)
    (habove : ∀ result, value = some result → Above start (level result)) :
    (tell entry value).Ascends Above seen level start := by
  have hnone : (Logged.tell entry value).log.filterMap seen = [] := by
    rw [Logged.tell, List.filterMap_cons_none hentry, List.filterMap_nil]
  refine ⟨?_, ?_, ?_⟩
  · rw [hnone]
    exact .nil
  · simp [hnone]
  · intro result hresult
    simp [hnone, habove result hresult]

/-- An entry that shows the level of the value. -/
theorem Ascends.tell_level [Std.Refl Above] {entry : Entry} {value : Value}
    (hentry : seen entry = some (level value))
    (habove : Above start (level value)) :
    (Logged.tell entry (some value)).Ascends Above seen level start := by
  have hshown : (Logged.tell entry (some value)).log.filterMap seen =
      [level value] := by
    rw [Logged.tell, List.filterMap_cons_some hentry, List.filterMap_nil]
  refine ⟨?_, ?_, ?_⟩
  · rw [hshown]
    exact List.pairwise_singleton _ _
  · simp [hshown, habove]
  · rintro result ⟨⟩
    simp [hshown, habove, refl]

theorem Ascends.map {function : Value → Result} {first : Logged Entry Value}
    (hfirst : first.Ascends Above seen level start)
    (hlevel : ∀ value, level' (function value) = level value) :
    (first.map function).Ascends Above seen level' start where
  pairwise := hfirst.pairwise
  start_above := hfirst.start_above
  value_above := by
    intro result hresult
    obtain ⟨value, hvalue, rfl⟩ := Option.map_eq_some_iff.mp hresult
    rw [hlevel]
    exact hfirst.value_above value hvalue

theorem Ascends.bind [IsTrans Level Above] {first : Logged Entry Value}
    {rest : Value → Logged Entry Result}
    (hfirst : first.Ascends Above seen level start)
    (hrest : ∀ value, first.value = some value →
      (rest value).Ascends Above seen level' (level value)) :
    (first.bind rest).Ascends Above seen level' start := by
  rw [Logged.bind]
  cases hvalue : first.value with
  | none =>
      exact ⟨hfirst.pairwise, hfirst.start_above, fun _ hnone => nomatch hnone⟩
  | some value =>
      obtain ⟨hstart, hshown⟩ := hfirst.value_above value hvalue
      have hsecond := hrest value hvalue
      refine ⟨?_, ?_, ?_⟩
      · rw [List.filterMap_append, List.pairwise_append]
        refine ⟨hfirst.pairwise, hsecond.pairwise, ?_⟩
        intro before hbefore after hafter
        exact IsTrans.trans _ _ _ (hshown before hbefore)
          (hsecond.start_above after hafter)
      · intro shown hmem
        rw [List.filterMap_append, List.mem_append] at hmem
        rcases hmem with hmem | hmem
        · exact hfirst.start_above shown hmem
        · exact IsTrans.trans _ _ _ hstart (hsecond.start_above shown hmem)
      · intro result hresult
        obtain ⟨hlast, hlater⟩ := hsecond.value_above result hresult
        refine ⟨IsTrans.trans _ _ _ hstart hlast, ?_⟩
        intro shown hmem
        rw [List.filterMap_append, List.mem_append] at hmem
        rcases hmem with hmem | hmem
        · exact IsTrans.trans _ _ _ (hshown shown hmem) hlast
        · exact hlater shown hmem

end Ascends

/-! ## Runs -/

section Run

variable {State Label : Type*}

/-- The labels of a list, one after the other. -/
def run (step : State → Label → Logged Entry State) (state : State) :
    List Label → Logged Entry State
  | [] => pure state
  | label :: labels => (step state label).bind fun next => run step next labels

variable {step : State → Label → Logged Entry State} {state : State}

theorem value_run (labels : List Label) :
    (run step state labels).value = TransitionSystem.execute
      (fun state label => (step state label).value) state labels := by
  induction labels generalizing state with
  | nil => rfl
  | cons label labels ih =>
      rw [run, value_bind, TransitionSystem.execute]
      congr 1
      funext next
      exact ih

/-- Steps that are safe and keep an invariant make a run that is. -/
theorem Safe.run {Inv : State → Prop}
    (hstep : ∀ state label, Inv state → (step state label).Safe Fine Inv)
    (hinv : Inv state) (labels : List Label) :
    (run step state labels).Safe Fine Inv := by
  induction labels generalizing state with
  | nil => exact safe_pure.mpr hinv
  | cons label labels ih =>
      rw [Logged.run, safe_bind]
      exact (hstep state label hinv).mono fun next hnext => ih hnext

/-- Steps in which a quantity ascends make a run in which it does. -/
theorem Ascends.run {Level : Type*} {Above : Level → Level → Prop}
    [Std.Refl Above] [IsTrans Level Above] {seen : Entry → Option Level}
    {level : State → Level}
    (hstep : ∀ state label,
      (step state label).Ascends Above seen level (level state))
    (labels : List Label) :
    (run step state labels).Ascends Above seen level (level state) := by
  induction labels generalizing state with
  | nil => exact .pure (refl _)
  | cons label labels ih => exact (hstep state label).bind fun _ _ => ih

end Run

end Logged

end Sensor
