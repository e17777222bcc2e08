import Mathlib.Data.Finset.Card
import Mathlib.Data.List.Basic
import Mathlib.Logic.Function.Basic

/-!
# Labelled transition systems

The concurrent parts of the program are modelled as transition systems: one
label is one atomic step of one thread, and an interleaving is a run.  This
file holds the general rules those models use: an invariant is proved once per
step, a predicate can be carried along a run, a run can be restricted to steps
that meet a condition, and a larger system can be projected onto a part of it.
-/

namespace Sensor

/-- A labelled transition system: its initial states and its steps. -/
structure TransitionSystem (State Label : Type*) where
  Init : State → Prop
  Step : State → Label → State → Prop

namespace TransitionSystem

variable {State Label State' Label' : Type*}

/-- The system of an executable step function, which returns `none` where a
label is not enabled. -/
def ofStep (Init : State → Prop) (step : State → Label → Option State) :
    TransitionSystem State Label where
  Init := Init
  Step := fun state label next => step state label = some next

/-- The states some run from an initial state ends in. -/
inductive Reachable (system : TransitionSystem State Label) : State → Prop
  | init {state : State} (hinit : system.Init state) : Reachable system state
  | step {state next : State} {label : Label}
      (hreach : Reachable system state)
      (hstep : system.Step state label next) : Reachable system next

/-- The finite runs of a system with the labels they take. -/
inductive Run (system : TransitionSystem State Label) :
    State → List Label → State → Prop
  | nil (state : State) : Run system state [] state
  | cons {state middle final : State} {label : Label} {labels : List Label}
      (hstep : system.Step state label middle)
      (hrun : Run system middle labels final) :
      Run system state (label :: labels) final

/-- Executing a list of labels, for systems with an executable step. -/
def execute (step : State → Label → Option State) (state : State) :
    List Label → Option State
  | [] => some state
  | label :: labels => (step state label).bind fun next =>
      execute step next labels

theorem execute_append {step : State → Label → Option State} {state : State}
    (first second : List Label) :
    execute step state (first ++ second) =
      (execute step state first).bind fun middle =>
        execute step middle second := by
  induction first generalizing state with
  | nil => rfl
  | cons label first ih =>
      rw [List.cons_append, execute, execute, Option.bind_assoc]
      congr 1
      funext next
      exact ih

/-- The first labels of an execution can be executed. -/
theorem exists_execute_take {step : State → Label → Option State}
    {state final : State} {labels : List Label}
    (hexecute : execute step state labels = some final) (count : ℕ) :
    ∃ middle, execute step state (labels.take count) = some middle := by
  rw [← List.take_append_drop count labels, execute_append] at hexecute
  obtain ⟨middle, hmiddle, -⟩ := Option.bind_eq_some_iff.mp hexecute
  exact ⟨middle, hmiddle⟩

theorem run_of_execute {Init : State → Prop}
    {step : State → Label → Option State} {state final : State}
    {labels : List Label} (hexecute : execute step state labels = some final) :
    (ofStep Init step).Run state labels final := by
  induction labels generalizing state with
  | nil =>
      cases hexecute
      exact .nil _
  | cons label labels ih =>
      obtain ⟨next, hstep, hrest⟩ := Option.bind_eq_some_iff.mp hexecute
      exact .cons hstep (ih hrest)

/-- A predicate that holds initially and that every step preserves holds in
every reachable state. -/
theorem Reachable.invariant {system : TransitionSystem State Label}
    {Inv : State → Prop} (hinit : ∀ state, system.Init state → Inv state)
    (hstep : ∀ state label next, Inv state → system.Step state label next →
      Inv next)
    {state : State} (hreach : system.Reachable state) : Inv state := by
  induction hreach with
  | init hstart => exact hinit _ hstart
  | step _ hnext ih => exact hstep _ _ _ ih hnext

theorem Reachable.run {system : TransitionSystem State Label}
    {state final : State} {labels : List Label}
    (hreach : system.Reachable state) (hrun : system.Run state labels final) :
    system.Reachable final := by
  induction hrun with
  | nil _ => exact hreach
  | cons hstep _ ih => exact ih (hreach.step hstep)

theorem reachable_of_execute {Init : State → Prop}
    {step : State → Label → Option State} {state final : State}
    {labels : List Label} (hinit : Init state)
    (hexecute : execute step state labels = some final) :
    (ofStep Init step).Reachable final :=
  (Reachable.init hinit).run (run_of_execute hexecute)

/-- A predicate that every step with an allowed label preserves holds at the
end of every run that uses allowed labels only. -/
theorem Run.preserves {system : TransitionSystem State Label}
    (Allowed : Label → Prop) (Inv : State → Prop)
    (hstep : ∀ state label next, Allowed label → Inv state →
      system.Step state label next → Inv next)
    {state final : State} {labels : List Label}
    (hrun : system.Run state labels final)
    (hallowed : ∀ label ∈ labels, Allowed label) (hinv : Inv state) :
    Inv final := by
  induction hrun with
  | nil _ => exact hinv
  | cons hfirst _ ih =>
      have hnext := hstep _ _ _ (hallowed _ List.mem_cons_self) hinv hfirst
      exact ih (fun label hlabel =>
        hallowed label (List.mem_cons_of_mem _ hlabel)) hnext

/-- A predicate that every step between two good states preserves holds at the
end of a run, unless the run passes through a state that is not good. -/
theorem Run.preserves_or_leaves {system : TransitionSystem State Label}
    (Good Inv : State → Prop)
    (hstep : ∀ state label next, Good state → Good next → Inv state →
      system.Step state label next → Inv next)
    {state final : State} {labels : List Label}
    (hrun : system.Run state labels final) (hinv : Inv state) :
    (Good final ∧ Inv final) ∨ ∃ first second middle,
      labels = first ++ second ∧ system.Run state first middle ∧
        system.Run middle second final ∧ ¬ Good middle := by
  induction hrun with
  | nil state =>
      by_cases hgood : Good state
      · exact .inl ⟨hgood, hinv⟩
      · exact .inr ⟨[], [], state, rfl, .nil state, .nil state, hgood⟩
  | cons hfirst hrest ih =>
      rename_i state middle final label labels
      by_cases hgood : Good state
      · by_cases hnext : Good middle
        · rcases ih (hstep _ _ _ hgood hnext hinv hfirst) with hfinal | hleft
          · exact .inl hfinal
          · obtain ⟨first, second, bad, rfl, hbefore, hafter, hbad⟩ := hleft
            exact .inr ⟨label :: first, second, bad, rfl,
              .cons hfirst hbefore, hafter, hbad⟩
        · exact .inr ⟨[label], labels, middle, rfl,
            .cons hfirst (.nil middle), hrest, hnext⟩
      · exact .inr ⟨[], label :: labels, state, rfl, .nil state,
          .cons hfirst hrest, hgood⟩

theorem Run.concat {system : TransitionSystem State Label}
    {state middle final : State} {labels : List Label} {label : Label}
    (hrun : system.Run state labels middle)
    (hstep : system.Step middle label final) :
    system.Run state (labels ++ [label]) final := by
  induction hrun with
  | nil _ => exact .cons hstep (.nil _)
  | cons hfirst _ ih => exact .cons hfirst (ih hstep)

/-- A predicate on a state and the labels that led to it holds along a run if it
holds before the first label and every step preserves it. -/
theorem Run.history {system : TransitionSystem State Label}
    {Inv : List Label → State → Prop} {start final : State}
    {labels : List Label} (hrun : system.Run start labels final)
    (hstart : Inv [] start)
    (hstep : ∀ past state label next, system.Run start past state →
      Inv past state → system.Step state label next →
        Inv (past ++ [label]) next) : Inv labels final := by
  suffices hgeneral : ∀ {past rest state final},
      system.Run start past state → Inv past state →
        system.Run state rest final → Inv (past ++ rest) final from
    hgeneral (.nil start) hstart hrun
  intro past rest state final hpast hinv hrest
  induction hrest generalizing past with
  | nil _ => rwa [List.append_nil]
  | cons hfirst _ ih =>
      have hnext := ih (hpast.concat hfirst)
        (hstep _ _ _ _ hpast hinv hfirst)
      rwa [List.append_assoc] at hnext

/-- The same system with only the steps that meet `condition`. -/
def restrict (system : TransitionSystem State Label)
    (condition : State → Label → Prop) : TransitionSystem State Label where
  Init := system.Init
  Step := fun state label next =>
    condition state label ∧ system.Step state label next

theorem Reachable.of_restrict {system : TransitionSystem State Label}
    {condition : State → Label → Prop} {state : State}
    (hreach : (system.restrict condition).Reachable state) :
    system.Reachable state := by
  induction hreach with
  | init hinit => exact .init hinit
  | step _ hnext ih => exact ih.step hnext.2

theorem Run.of_restrict {system : TransitionSystem State Label}
    {condition : State → Label → Prop} {state final : State}
    {labels : List Label}
    (hrun : (system.restrict condition).Run state labels final) :
    system.Run state labels final := by
  induction hrun with
  | nil _ => exact .nil _
  | cons hfirst _ ih => exact .cons hfirst.2 ih

theorem Reachable.restrict_mono {system : TransitionSystem State Label}
    {condition weaker : State → Label → Prop} {state : State}
    (hweaker : ∀ state label, condition state label → weaker state label)
    (hreach : (system.restrict condition).Reachable state) :
    (system.restrict weaker).Reachable state := by
  induction hreach with
  | init hinit => exact .init hinit
  | step _ hnext ih => exact ih.step ⟨hweaker _ _ hnext.1, hnext.2⟩

/-- The step function that takes only the steps that meet `condition`. -/
def guardStep (condition : State → Label → Bool)
    (step : State → Label → Option State) (state : State) (label : Label) :
    Option State :=
  if condition state label then step state label else none

theorem guardStep_eq_some_iff {condition : State → Label → Bool}
    {step : State → Label → Option State} {state next : State} {label : Label} :
    guardStep condition step state label = some next ↔
      condition state label = true ∧ step state label = some next := by
  rw [guardStep]
  split
  · simp_all
  · simp_all

/-- Executing only steps that meet the condition is a run of the restricted
system. -/
theorem run_restrict_of_execute {Init : State → Prop}
    {condition : State → Label → Bool} {step : State → Label → Option State}
    {state final : State} {labels : List Label}
    (hexecute : execute (guardStep condition step) state labels =
      some final) :
    ((ofStep Init step).restrict fun state label =>
      condition state label = true).Run state labels final := by
  induction labels generalizing state with
  | nil =>
      cases hexecute
      exact .nil _
  | cons label labels ih =>
      obtain ⟨next, hstep, hrest⟩ := Option.bind_eq_some_iff.mp hexecute
      exact .cons (guardStep_eq_some_iff.mp hstep) (ih hrest)

theorem reachable_restrict_of_execute {Init : State → Prop}
    {condition : State → Label → Bool} {step : State → Label → Option State}
    {state final : State} {labels : List Label} (hinit : Init state)
    (hexecute : execute (guardStep condition step) state labels =
      some final) :
    ((ofStep Init step).restrict fun state label =>
      condition state label = true).Reachable final :=
  (Reachable.init hinit).run (run_restrict_of_execute hexecute)

/-- `Good` holds in every state the labels lead through, up to a label that is
not enabled. -/
def Throughout (step : State → Label → Option State) (Good : State → Prop)
    (state : State) : List Label → Prop
  | [] => Good state
  | label :: labels => Good state ∧ ∀ next, step state label = some next →
      Throughout step Good next labels

/-- Every label meets the condition where it is taken, up to one that is not
enabled. -/
def MeetsThroughout (step : State → Label → Option State)
    (condition : State → Label → Prop) (state : State) : List Label → Prop
  | [] => True
  | label :: labels => ∀ next, step state label = some next →
      condition state label ∧ MeetsThroughout step condition next labels

theorem Throughout.start {step : State → Label → Option State}
    {Good : State → Prop} {state : State} {labels : List Label}
    (hthroughout : Throughout step Good state labels) : Good state := by
  cases labels with
  | nil => exact hthroughout
  | cons label labels => exact hthroughout.1

/-- An invariant that the steps with a condition preserve holds wherever labels
that meet the condition lead. -/
theorem MeetsThroughout.throughout {step : State → Label → Option State}
    {Inv Good : State → Prop} {condition : State → Label → Prop}
    (hstep : ∀ state label next, Inv state → condition state label →
      step state label = some next → Inv next)
    (hgood : ∀ state, Inv state → Good state)
    {state : State} {labels : List Label} (hstart : Inv state)
    (hmeets : MeetsThroughout step condition state labels) :
    Throughout step Good state labels := by
  induction labels generalizing state with
  | nil => exact hgood state hstart
  | cons label labels ih =>
      refine ⟨hgood state hstart, fun next hnext => ?_⟩
      obtain ⟨hcondition, hrest⟩ := hmeets next hnext
      exact ih (hstep state label next hstart hcondition hnext) hrest

/-- An invariant that every step preserves holds wherever labels lead. -/
theorem throughout_of_invariant {step : State → Label → Option State}
    {Inv Good : State → Prop}
    (hstep : ∀ state label next, Inv state →
      step state label = some next → Inv next)
    (hgood : ∀ state, Inv state → Good state)
    {state : State} (hstart : Inv state) (labels : List Label) :
    Throughout step Good state labels := by
  induction labels generalizing state with
  | nil => exact hgood state hstart
  | cons label labels ih =>
      exact ⟨hgood state hstart, fun next hnext =>
        ih (hstep state label next hstart hnext)⟩

/-- Where the steps that keep a state good are those that meet a condition, the
labels lead through good states exactly if each meets it. -/
theorem throughout_iff {step : State → Label → Option State}
    {Inv Good : State → Prop} {condition : State → Label → Prop}
    (hinv : ∀ state label next, Inv state → step state label = some next →
      Inv next)
    (hstep : ∀ state label next, Inv state → Good state →
      step state label = some next → (Good next ↔ condition state label))
    {state : State} (hstart : Inv state) (hgood : Good state)
    (labels : List Label) :
    Throughout step Good state labels ↔
      MeetsThroughout step condition state labels := by
  induction labels generalizing state with
  | nil => exact iff_of_true hgood trivial
  | cons label labels ih =>
      rw [Throughout, MeetsThroughout, and_iff_right hgood]
      refine forall₂_congr fun next hnext => ?_
      have hiff := hstep state label next hstart hgood hnext
      have hkept := hinv state label next hstart hnext
      constructor
      · intro hrest
        exact ⟨hiff.mp hrest.start, (ih hkept hrest.start).mp hrest⟩
      · rintro ⟨hmeets, hrest⟩
        exact (ih hkept (hiff.mpr hmeets)).mpr hrest

/-- Projection of a system onto a part of it: where the image of every step is
a step of the part or leaves the part alone, reachable states project to
reachable states. -/
theorem Reachable.project {system : TransitionSystem State Label}
    {part : TransitionSystem State' Label'} (view : State → State')
    (hinit : ∀ state, system.Init state → part.Init (view state))
    (hstep : ∀ state label next, system.Step state label next →
      view next = view state ∨
        ∃ label', part.Step (view state) label' (view next))
    {state : State} (hreach : system.Reachable state) :
    part.Reachable (view state) := by
  induction hreach with
  | init hstart => exact .init (hinit _ hstart)
  | step _ hnext ih =>
      rcases hstep _ _ _ hnext with hsame | ⟨label', hpart⟩
      · rw [hsame]
        exact ih
      · exact ih.step hpart

/-- The same system beside a record of what its steps did. -/
def recording {Entry : Type*} (system : TransitionSystem State Label)
    (record : State → Label → List Entry) :
    TransitionSystem (State × List Entry) Label where
  Init := fun (state, entries) => system.Init state ∧ entries = []
  Step := fun (state, entries) label (next, entries') =>
    system.Step state label next ∧ entries' = entries ++ record state label

theorem Reachable.of_recording {Entry : Type*}
    {system : TransitionSystem State Label}
    {record : State → Label → List Entry} {recorded : State × List Entry}
    (hreach : (system.recording record).Reachable recorded) :
    system.Reachable recorded.1 := by
  induction hreach with
  | init hinit => exact .init hinit.1
  | step _ hnext ih => exact ih.step hnext.1

theorem Reachable.exists_recording {Entry : Type*}
    {system : TransitionSystem State Label}
    (record : State → Label → List Entry) {state : State}
    (hreach : system.Reachable state) :
    ∃ entries, (system.recording record).Reachable (state, entries) := by
  induction hreach with
  | init hinit => exact ⟨[], .init ⟨hinit, rfl⟩⟩
  | @step before after label _ hnext ih =>
      obtain ⟨entries, hentries⟩ := ih
      have hstep : (system.recording record).Step (before, entries) label
          (after, entries ++ record before label) := ⟨hnext, rfl⟩
      exact ⟨_, hentries.step hstep⟩

/-- Executing labels and recording what they did. -/
def executeRecording {Entry : Type*} (step : State → Label → Option State)
    (record : State → Label → List Entry) (recorded : State × List Entry)
    (label : Label) : Option (State × List Entry) :=
  (step recorded.1 label).map fun next =>
    (next, recorded.2 ++ record recorded.1 label)

theorem Reachable.execute_recording {Entry : Type*} {Init : State → Prop}
    {step : State → Label → Option State}
    {record : State → Label → List Entry}
    {recorded final : State × List Entry} {labels : List Label}
    (hreach : ((ofStep Init step).recording record).Reachable recorded)
    (hexecute : execute (executeRecording step record) recorded labels =
      some final) :
    ((ofStep Init step).recording record).Reachable final := by
  induction labels generalizing recorded with
  | nil =>
      cases hexecute
      exact hreach
  | cons label labels ih =>
      obtain ⟨next, hstep, hrest⟩ := Option.bind_eq_some_iff.mp hexecute
      obtain ⟨state, hstate, rfl⟩ := Option.map_eq_some_iff.mp hstep
      have hnext : ((ofStep Init step).recording record).Step recorded label
          (state, recorded.2 ++ record recorded.1 label) := ⟨hstate, rfl⟩
      exact ih (hreach.step hnext) hrest

/-- A forward simulation: where every step is matched by a run of the other
system that keeps the relation, every reachable state is related to a reachable
one. -/
theorem Reachable.simulate {system : TransitionSystem State Label}
    {other : TransitionSystem State' Label'} (Related : State → State' → Prop)
    (hinit : ∀ state, system.Init state →
      ∃ image, other.Init image ∧ Related state image)
    (hstep : ∀ state image label next, Related state image →
      system.Step state label next →
        ∃ labels image', other.Run image labels image' ∧ Related next image')
    {state : State} (hreach : system.Reachable state) :
    ∃ image, other.Reachable image ∧ Related state image := by
  induction hreach with
  | init hstart =>
      obtain ⟨image, himage, hrelated⟩ := hinit _ hstart
      exact ⟨image, .init himage, hrelated⟩
  | step _ hnext ih =>
      obtain ⟨image, himage, hrelated⟩ := ih
      obtain ⟨labels, image', hrun, hrelated'⟩ :=
        hstep _ _ _ _ hrelated hnext
      exact ⟨image', himage.run hrun, hrelated'⟩

end TransitionSystem

/-- What a step inside a function leads to: another place in the function, or
its return. -/
inductive StepResult (Pc Result : Type*) where
  | running (pc : Pc)
  | done (result : Result)

/-! ## The local states of many threads -/

section Threads

variable {Thread Local : Type*} [DecidableEq Thread]

/-- Where a thread is after the local state of one thread was replaced. -/
theorem update_eq_some_iff {place : Thread → Option Local}
    {thread other : Thread} {value : Option Local} {pc : Local} :
    Function.update place thread value other = some pc ↔
      (other = thread ∧ value = some pc) ∨
        (other ≠ thread ∧ place other = some pc) := by
  by_cases heq : other = thread
  · subst heq
    simp
  · simp [heq]

/-- Threads that hold different keys keep doing so when one of them moves to a
key no other thread holds. -/
theorem update_unique {Key : Type*} {key : Local → Key}
    {place : Thread → Option Local} {thread : Thread} {value : Option Local}
    (hunique : ∀ left right leftPc rightPc, place left = some leftPc →
      place right = some rightPc → key leftPc = key rightPc → left = right)
    (hvalue : ∀ pc other otherPc, value = some pc → other ≠ thread →
      place other = some otherPc → key otherPc ≠ key pc)
    (left right : Thread) (leftPc rightPc : Local)
    (hleft : Function.update place thread value left = some leftPc)
    (hright : Function.update place thread value right = some rightPc)
    (hkey : key leftPc = key rightPc) : left = right := by
  rcases update_eq_some_iff.mp hleft with ⟨rfl, hl⟩ | ⟨hl, hleft'⟩ <;>
    rcases update_eq_some_iff.mp hright with ⟨rfl, hr⟩ | ⟨hr, hright'⟩
  · rfl
  · exact absurd hkey.symm (hvalue leftPc right rightPc hl hr hright')
  · exact absurd hkey (hvalue rightPc left leftPc hr hl hleft')
  · exact hunique left right leftPc rightPc hleft' hright' hkey

/-- The number of threads with a property changes by what one of them changes
when only that one moves. -/
theorem exists_tally {tally : Finset Thread} {before after : Thread → Bool}
    (hmem : ∀ other, other ∈ tally ↔ before other = true) (thread : Thread)
    (hother : ∀ other, other ≠ thread → after other = before other) :
    ∃ tally' : Finset Thread,
      (∀ other, other ∈ tally' ↔ after other = true) ∧
        tally'.card + (before thread).toNat =
          tally.card + (after thread).toNat := by
  have hrest : ∀ other, other ≠ thread →
      (other ∈ tally ↔ after other = true) := by
    intro other hne
    rw [hmem, hother other hne]
  have hcard : (tally.erase thread).card + (before thread).toNat =
      tally.card := by
    cases hbefore : before thread with
    | true => exact Finset.card_erase_add_one ((hmem thread).mpr hbefore)
    | false =>
        have hnotMem : thread ∉ tally := by simp [hmem, hbefore]
        simp [Finset.erase_eq_of_notMem hnotMem]
  cases hafter : after thread with
  | true =>
      refine ⟨insert thread (tally.erase thread), fun other => ?_, ?_⟩
      · by_cases heq : other = thread
        · simp [heq, hafter]
        · simp [heq, hrest other heq]
      · rw [Finset.card_insert_of_notMem (Finset.notMem_erase thread tally),
          Bool.toNat_true, ← hcard]
        omega
  | false =>
      refine ⟨tally.erase thread, fun other => ?_, ?_⟩
      · by_cases heq : other = thread
        · simp [heq, hafter]
        · simp [heq, hrest other heq]
      · simpa using hcard

end Threads

end Sensor
