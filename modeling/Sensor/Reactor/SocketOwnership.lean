import Sensor.Core.SharedOwnership
import Sensor.Reactor.SocketMain

/-!
# The descriptors of socket values

The copies of a `SocketMain` share its descriptor, and each closes it.  So the
values own the descriptors of `::socket` as long as the value that goes is the
last one to hold its descriptor, and no value goes or is assigned to otherwise.
The value `TcpAcceptor::init` assigns from goes while the member holds its
descriptor too.
-/

namespace Sensor.SocketMain

open SharedOwnership TransitionSystem

variable {Name : Type*}

/-! ## What the values promise -/

/-- The descriptor a name holds. -/
def State.holds (state : State Name) (name : Name) : Option Descriptor :=
  (state.values name).bind Value.holds

/-- `::socket` returned the descriptor. -/
def State.IsSocket (state : State Name) (descriptor : Descriptor) : Prop :=
  ∃ serial < state.sockets, descriptor = .socket serial

/-- Every descriptor of `::socket` is closed once, when no value holds it any
more, and no other descriptor is. -/
structure Owns (state : State Name) : Prop where
  sockets : Owned state.IsSocket state.holds state.closed
  other : state.closed .other = 0

/-! ## When they keep the promise -/

/-- An assignment drops no last reference to a descriptor, a destructor closes
nothing or a descriptor of `::socket` no other value holds, and `fromText` does
not throw when it has a descriptor. -/
def Meets (state : State Name) : Label Name → Prop
  | .createFromText _ (.resolved sock supported) => sock = -1 ∨ supported = true
  | .assign name source => name = source ∨
      ∀ serial, state.holds name = some (.socket serial) →
        HeldBeside state.holds name (.socket serial)
  | .destroy name => ∀ value descriptor, state.values name = some value →
      state.table value.m_fd = some descriptor →
        descriptor ≠ .other ∧ ¬ HeldBeside state.holds name descriptor
  | _ => True

/-! ## The table and the values -/

/-- A value that holds an open descriptor of `::socket` has its number. -/
def Refers (state : State Name) (value : Value) : Prop :=
  ∀ serial, value.holds = some (.socket serial) → serial < state.sockets ∧
    (state.closed (.socket serial) = 0 →
      state.table value.m_fd = some (.socket serial))

/-- The descriptors of `::socket` that are open have not been closed and have
one number. -/
structure Consistent (state : State Name) : Prop where
  table : ∀ fd serial, state.table fd = some (.socket serial) →
    serial < state.sockets ∧ state.closed (.socket serial) = 0
  unique : ∀ left right serial, state.table left = some (.socket serial) →
    state.table right = some (.socket serial) → left = right
  fresh : ∀ serial, state.sockets ≤ serial →
    state.closed (.socket serial) = 0
  refers : ∀ name value, state.values name = some value → Refers state value

variable {state next : State Name} {name : Name}

theorem Consistent.of_isInitial (hinit : IsInitial state) : Consistent state where
  table := fun fd serial hfd => nomatch (hinit.table fd _ hfd).2
  unique := fun left _ serial hleft => nomatch (hinit.table left _ hleft).2
  fresh := fun serial _ => hinit.closed _
  refers := fun name value hvalue => by
    rw [hinit.values] at hvalue
    cases hvalue

/-- What `::socket` may do. -/
theorem socket_cases {sock : ℤ} {value : Value}
    (hsocket : state.socket sock = some (next, value)) :
    (sock = -1 ∧ next = state ∧ value = ⟨sock, none⟩) ∨
    (sock ≠ -1 ∧ 0 ≤ sock ∧ state.table sock = none ∧
      next = { state with
        table := Function.update state.table sock
          (some (.socket state.sockets))
        sockets := state.sockets + 1 } ∧
      value = ⟨sock, some (.socket state.sockets)⟩) := by
  rw [State.socket] at hsocket
  split at hsocket
  case isTrue hfailed =>
    cases hsocket
    exact .inl ⟨hfailed, rfl, rfl⟩
  case isFalse hfailed =>
    split at hsocket
    case isTrue hfree =>
      cases hsocket
      exact .inr ⟨hfailed, hfree.1, hfree.2, rfl, rfl⟩
    case isFalse => cases hsocket

/-- What `::close` may do. -/
theorem close_cases (state : State Name) (fd : ℤ) :
    (state.table fd = none ∧ state.close fd = state) ∨
    ∃ descriptor, state.table fd = some descriptor ∧
      state.close fd = { state with
        table := Function.update state.table fd none
        closed := Function.update state.closed descriptor
          (state.closed descriptor + 1) } := by
  rw [State.close]
  cases htable : state.table fd with
  | none => exact .inl ⟨rfl, rfl⟩
  | some descriptor => exact .inr ⟨descriptor, rfl, rfl⟩

/-! ### What the operations keep -/

/-- The table changes at a number that stands for no descriptor of `::socket`. -/
theorem Consistent.setTable (hstate : Consistent state) {fd : ℤ}
    (hold : ∀ serial, state.table fd ≠ some (.socket serial))
    {entry : Option Descriptor}
    (hentry : ∀ serial, entry ≠ some (.socket serial)) :
    Consistent { state with
      table := Function.update state.table fd entry } := by
  have hsame : ∀ other serial,
      Function.update state.table fd entry other = some (.socket serial) ↔
        state.table other = some (.socket serial) := by
    intro other serial
    rw [update_eq_some_iff]
    constructor
    · rintro (⟨-, hnew⟩ | ⟨-, hkept⟩)
      · exact absurd hnew (hentry serial)
      · exact hkept
    · intro hkept
      refine .inr ⟨?_, hkept⟩
      rintro rfl
      exact hold serial hkept
  refine ⟨?_, ?_, hstate.fresh, ?_⟩
  · intro other serial hother
    exact hstate.table other serial ((hsame other serial).mp hother)
  · intro left right serial hleft hright
    exact hstate.unique left right serial ((hsame left serial).mp hleft)
      ((hsame right serial).mp hright)
  · intro name value hvalue serial hholds
    obtain ⟨hissued, hopen⟩ := hstate.refers name value hvalue serial hholds
    exact ⟨hissued, fun hclosed => (hsame _ serial).mpr (hopen hclosed)⟩

theorem Consistent.socket (hstate : Consistent state) {sock : ℤ} {value : Value}
    (hsocket : state.socket sock = some (next, value)) :
    Consistent next ∧ Refers next value := by
  rcases socket_cases hsocket with ⟨-, rfl, rfl⟩ | ⟨-, -, hfree, rfl, rfl⟩
  · exact ⟨hstate, fun _ hholds => nomatch hholds⟩
  have hnew := hstate.fresh state.sockets (Nat.le_refl _)
  refine ⟨⟨?_, ?_, ?_, ?_⟩, ?_⟩
  · intro fd serial hfd
    rcases update_eq_some_iff.mp hfd with ⟨-, ⟨⟩⟩ | ⟨-, hfd⟩
    · exact ⟨Nat.lt_succ_self _, hnew⟩
    · obtain ⟨hissued, hopen⟩ := hstate.table fd serial hfd
      exact ⟨Nat.lt_succ_of_lt hissued, hopen⟩
  · intro left right serial hleft hright
    rcases update_eq_some_iff.mp hleft with ⟨rfl, ⟨⟩⟩ | ⟨-, hold⟩ <;>
      rcases update_eq_some_iff.mp hright with ⟨rfl, hserial⟩ | ⟨-, hold'⟩
    · rfl
    · exact absurd (hstate.table right _ hold').1 (Nat.lt_irrefl _)
    · cases hserial
      exact absurd (hstate.table left _ hold).1 (Nat.lt_irrefl _)
    · exact hstate.unique left right serial hold hold'
  · intro serial hserial
    exact hstate.fresh serial (Nat.le_of_succ_le hserial)
  · intro name value hvalue serial hholds
    obtain ⟨hissued, hopen⟩ := hstate.refers name value hvalue serial hholds
    refine ⟨Nat.lt_succ_of_lt hissued, fun hclosed => ?_⟩
    have hfound := hopen hclosed
    refine update_eq_some_iff.mpr (.inr ⟨?_, hfound⟩)
    rintro rfl
    rw [hfree] at hfound
    cases hfound
  · rintro serial ⟨⟩
    exact ⟨Nat.lt_succ_self _, fun _ => Function.update_self _ _ _⟩

theorem Consistent.close (hstate : Consistent state) (fd : ℤ) :
    Consistent (state.close fd) := by
  rcases close_cases state fd with ⟨-, heq⟩ | ⟨descriptor, hfd, heq⟩
  · rw [heq]
    exact hstate
  rw [heq]
  have hother : ∀ other serial, other ≠ fd →
      state.table other = some (.socket serial) →
        descriptor ≠ .socket serial := by
    rintro other serial hne hother rfl
    exact hne (hstate.unique other fd serial hother hfd)
  have hclosed : ∀ serial, descriptor ≠ .socket serial →
      Function.update state.closed descriptor (state.closed descriptor + 1)
        (.socket serial) = state.closed (.socket serial) :=
    fun serial hne => Function.update_of_ne (Ne.symm hne) _ _
  refine ⟨?_, ?_, ?_, ?_⟩
  · intro other serial hfound
    rcases update_eq_some_iff.mp hfound with ⟨-, ⟨⟩⟩ | ⟨hne, hfound⟩
    dsimp only
    rw [hclosed serial (hother other serial hne hfound)]
    exact hstate.table other serial hfound
  · intro left right serial hleft hright
    rcases update_eq_some_iff.mp hleft with ⟨-, ⟨⟩⟩ | ⟨-, hleft⟩
    rcases update_eq_some_iff.mp hright with ⟨-, ⟨⟩⟩ | ⟨-, hright⟩
    exact hstate.unique left right serial hleft hright
  · intro serial hserial
    dsimp only
    rw [hclosed serial]
    · exact hstate.fresh serial hserial
    · rintro rfl
      exact absurd (hstate.table fd serial hfd).1 (Nat.not_lt.mpr hserial)
  · intro name value hvalue serial hholds
    obtain ⟨hissued, hopen⟩ := hstate.refers name value hvalue serial hholds
    refine ⟨hissued, fun hkept => ?_⟩
    dsimp only at hkept ⊢
    by_cases hsame : descriptor = .socket serial
    · rw [hsame, Function.update_self] at hkept
      cases hkept
    · rw [hclosed serial hsame] at hkept
      have hfound := hopen hkept
      refine update_eq_some_iff.mpr (.inr ⟨?_, hfound⟩)
      rintro rfl
      rw [hfd] at hfound
      exact hsame (Option.some.inj hfound)

variable [DecidableEq Name]

/-- A name is bound to nothing or to a value that refers to its descriptor. -/
theorem Consistent.setValue (hstate : Consistent state) {entry : Option Value}
    (hentry : ∀ value, entry = some value → Refers state value) :
    Consistent { state with
      values := Function.update state.values name entry } := by
  refine ⟨hstate.table, hstate.unique, hstate.fresh, ?_⟩
  intro other found hfound
  rcases update_eq_some_iff.mp hfound with ⟨-, hnew⟩ | ⟨-, hfound⟩
  · exact hentry found hnew
  · exact hstate.refers other found hfound

/-- A constructor takes a free name. -/
theorem construct_cases {value : Value}
    (hconstruct : state.construct name value = some next) :
    state.values name = none ∧ next = { state with
      values := Function.update state.values name (some value) } := by
  rw [State.construct] at hconstruct
  split at hconstruct
  case h_1 => cases hconstruct
  case h_2 hfree =>
    cases hconstruct
    exact ⟨hfree, rfl⟩

theorem Consistent.construct (hstate : Consistent state) {value : Value}
    (hvalue : Refers state value)
    (hconstruct : state.construct name value = some next) :
    Consistent next := by
  obtain ⟨-, rfl⟩ := construct_cases hconstruct
  apply hstate.setValue
  rintro found ⟨⟩
  exact hvalue

/-- What `createFromText` may do. -/
theorem createFromText_cases {sock : ℤ} {supported : Bool}
    (hcreate : state.createFromText name (.resolved sock supported) =
      some next) :
    ∃ middle value, state.socket sock = some (middle, value) ∧
      ((supported = true ∧ middle.construct name value = some next) ∨
        (supported = false ∧ next = middle)) := by
  obtain ⟨⟨middle, value⟩, hsocket, hrest⟩ := Option.bind_eq_some_iff.mp hcreate
  refine ⟨middle, value, hsocket, ?_⟩
  cases supported with
  | true => exact .inl ⟨rfl, hrest⟩
  | false =>
      cases hrest
      exact .inr ⟨rfl, rfl⟩

/-- What a destructor may do. -/
theorem destroy_cases (hdestroy : state.destroy name = some next) :
    ∃ value, state.values name = some value ∧
      ((state.table value.m_fd = none ∧ next = { state with
        values := Function.update state.values name none }) ∨
      ∃ descriptor, state.table value.m_fd = some descriptor ∧
        next = { state with
          values := Function.update state.values name none
          table := Function.update state.table value.m_fd none
          closed := Function.update state.closed descriptor
            (state.closed descriptor + 1) }) := by
  obtain ⟨value, hvalue, rfl⟩ := Option.map_eq_some_iff.mp hdestroy
  refine ⟨value, hvalue, ?_⟩
  rcases close_cases state value.m_fd with
    ⟨hnone, heq⟩ | ⟨descriptor, hfound, heq⟩
  · rw [heq]
    exact .inl ⟨hnone, rfl⟩
  · rw [heq]
    exact .inr ⟨descriptor, hfound, rfl⟩

/-- What an assignment does. -/
theorem assign_cases {source : Name}
    (hassign : state.assign name source = some next) :
    ∃ value, state.values source = some value ∧ next = { state with
      values := Function.update state.values name (some value) } := by
  obtain ⟨_, -, hrest⟩ := Option.bind_eq_some_iff.mp hassign
  obtain ⟨value, hvalue, rfl⟩ := Option.map_eq_some_iff.mp hrest
  exact ⟨value, hvalue, rfl⟩

/-- The rest of the program changes the table where it stands for no descriptor
of `::socket`. -/
theorem other_cases {fd : ℤ}
    (hstep : step state (.otherOpen fd) = some next ∨
      step state (.otherClose fd) = some next) :
    ∃ entry, (∀ serial, state.table fd ≠ some (.socket serial)) ∧
      (∀ serial, entry ≠ some (.socket serial)) ∧
      next = { state with table := Function.update state.table fd entry } := by
  rcases hstep with hopen | hclose
  · obtain ⟨hfree, ⟨⟩⟩ := Option.ite_none_right_eq_some.mp hopen
    refine ⟨some .other, fun serial hserial => ?_, nofun, rfl⟩
    rw [hfree.2] at hserial
    cases hserial
  · obtain ⟨hother, ⟨⟩⟩ := Option.ite_none_right_eq_some.mp hclose
    refine ⟨none, fun serial hserial => ?_, nofun, rfl⟩
    rw [hother] at hserial
    cases hserial

theorem Consistent.step (hstate : Consistent state) {label : Label Name}
    (hstep : step state label = some next) : Consistent next := by
  cases label with
  | default name =>
      refine hstate.construct ?_ hstep
      rintro serial ⟨⟩
  | fromDescriptor name sock =>
      refine hstate.construct (fun serial hholds => ?_) hstep
      exact ⟨(hstate.table sock serial hholds).1, fun _ => hholds⟩
  | createFromText name result =>
      cases result with
      | unresolved =>
          cases hstep
          exact hstate
      | resolved sock supported =>
          obtain ⟨middle, value, hsocket, hrest⟩ := createFromText_cases hstep
          rcases hrest with ⟨-, hconstruct⟩ | ⟨-, rfl⟩
          · obtain ⟨hmiddle, hvalue⟩ := hstate.socket hsocket
            exact hmiddle.construct hvalue hconstruct
          · exact (hstate.socket hsocket).1
  | copy name source =>
      obtain ⟨value, hvalue, hconstruct⟩ := Option.bind_eq_some_iff.mp hstep
      exact hstate.construct (hstate.refers source value hvalue) hconstruct
  | assign name source =>
      obtain ⟨value, hvalue, rfl⟩ := assign_cases hstep
      apply hstate.setValue
      rintro found ⟨⟩
      exact hstate.refers source value hvalue
  | destroy name =>
      obtain ⟨value, hvalue, hcases⟩ := destroy_cases hstep
      have hclosed := hstate.close value.m_fd
      rcases hcases with ⟨-, rfl⟩ | ⟨descriptor, hfound, rfl⟩
      · exact hstate.setValue (fun _ hnone => nomatch hnone)
      · rw [State.close, hfound] at hclosed
        exact hclosed.setValue (fun _ hnone => nomatch hnone)
  | otherOpen fd =>
      obtain ⟨entry, hold, hentry, rfl⟩ := other_cases (.inl hstep)
      exact hstate.setTable hold hentry
  | otherClose fd =>
      obtain ⟨entry, hold, hentry, rfl⟩ := other_cases (.inr hstep)
      exact hstate.setTable hold hentry

/-! ## One step -/

theorem holds_setValue {entry : Option Value} {table : ℤ → Option Descriptor}
    {sockets : ℕ} {closed : Descriptor → ℕ} :
    State.holds
        { values := Function.update state.values name entry
          table, sockets, closed } =
      Function.update state.holds name (entry.bind Value.holds) := by
  funext other
  by_cases heq : other = name
  · subst heq
    simp only [State.holds, Function.update_self]
  · simp only [State.holds, Function.update_of_ne heq]

omit [DecidableEq Name] in
theorem holds_eq_some {descriptor : Descriptor} :
    state.holds name = some descriptor ↔ ∃ value,
      state.values name = some value ∧ value.holds = some descriptor :=
  Option.bind_eq_some_iff

omit [DecidableEq Name] in
theorem Consistent.isSocket (hstate : Consistent state) {serial : ℕ}
    (hholds : state.holds name = some (.socket serial)) :
    state.IsSocket (.socket serial) := by
  obtain ⟨value, hvalue, hserial⟩ := holds_eq_some.mp hholds
  exact ⟨serial, (hstate.refers name value hvalue serial hserial).1, rfl⟩

/-- A value made of nothing new. -/
theorem Owns.construct (howns : Owns state) {value : Value}
    (hvalue : ∀ descriptor, state.IsSocket descriptor →
      value.holds = some descriptor → Held state.holds descriptor)
    (hconstruct : state.construct name value = some next) : Owns next := by
  obtain ⟨hfree, rfl⟩ := construct_cases hconstruct
  refine ⟨?_, howns.other⟩
  rw [holds_setValue]
  apply howns.sockets.acquire
  · rw [State.holds, hfree, Option.bind_none]
  · exact hvalue

theorem Owns.fromDescriptor (howns : Owns state) (hstate : Consistent state)
    {sock : ℤ}
    (hconstruct : state.construct name ⟨sock, state.table sock⟩ = some next) :
    Owns next := by
  refine howns.construct ?_ hconstruct
  rintro _ ⟨serial, hissued, rfl⟩ hopen
  exact howns.sockets.held ⟨serial, hissued, rfl⟩
    (hstate.table sock serial hopen).2

theorem Owns.copy (howns : Owns state) {source : Name} {value : Value}
    (hvalue : state.values source = some value)
    (hconstruct : state.construct name value = some next) : Owns next := by
  refine howns.construct ?_ hconstruct
  intro descriptor _ hholds
  exact ⟨source, holds_eq_some.mpr ⟨value, hvalue, hholds⟩⟩

omit [DecidableEq Name] in
theorem isSocket_succ {values : Name → Option Value}
    {table : ℤ → Option Descriptor} {closed : Descriptor → ℕ} :
    State.IsSocket { values, table, sockets := state.sockets + 1, closed } =
      fun descriptor => state.IsSocket descriptor ∨
        descriptor = .socket state.sockets := by
  funext descriptor
  simp only [State.IsSocket, Nat.lt_succ_iff_lt_or_eq, eq_iff_iff]
  constructor
  · rintro ⟨serial, hlt | rfl, rfl⟩
    · exact .inl ⟨serial, hlt, rfl⟩
    · exact .inr rfl
  · rintro (⟨serial, hlt, rfl⟩ | rfl)
    · exact ⟨serial, .inl hlt, rfl⟩
    · exact ⟨_, .inr rfl, rfl⟩

/-- A descriptor of `::socket` is owned exactly if a value is made of it. -/
theorem Owns.createFromText_iff (howns : Owns state) (hstate : Consistent state)
    {sock : ℤ} {supported : Bool}
    (hcreate : state.createFromText name (.resolved sock supported) =
      some next) :
    Owns next ↔ sock = -1 ∨ supported = true := by
  obtain ⟨middle, value, hsocket, hrest⟩ := createFromText_cases hcreate
  rcases socket_cases hsocket with ⟨hfailed, rfl, rfl⟩ |
    ⟨hobtained, -, hunused, hmiddle, rfl⟩
  · refine iff_of_true ?_ (.inl hfailed)
    rcases hrest with ⟨-, hconstruct⟩ | ⟨-, rfl⟩
    · refine howns.construct ?_ hconstruct
      rintro descriptor - ⟨⟩
    · exact howns
  have hclosed := hstate.fresh state.sockets (Nat.le_refl _)
  have hnew : ¬ state.IsSocket (.socket state.sockets) := by
    rintro ⟨serial, hlt, ⟨⟩⟩
    exact Nat.lt_irrefl _ hlt
  have hissued : middle.IsSocket = fun descriptor =>
      state.IsSocket descriptor ∨ descriptor = .socket state.sockets := by
    rw [hmiddle]
    exact isSocket_succ
  rcases hrest with ⟨hsupported, hconstruct⟩ | ⟨hthrown, rfl⟩
  · refine iff_of_true ?_ (.inr hsupported)
    obtain ⟨hfree, rfl⟩ := construct_cases hconstruct
    rw [hmiddle] at hfree
    have hnone : state.holds name = none := by
      rw [State.holds, hfree, Option.bind_none]
    have hcreated := howns.sockets.create hnone hnew hclosed
    refine ⟨?_, by rw [hmiddle]; exact howns.other⟩
    rw [holds_setValue]
    change Owned middle.IsSocket _ _
    rw [hissued, hmiddle]
    exact hcreated
  · refine iff_of_false ?_ ?_
    · intro hnext
      have htracked : next.IsSocket (.socket state.sockets) := by
        rw [hissued]
        exact .inr rfl
      rw [hmiddle] at hnext
      obtain ⟨other, hother⟩ := hnext.sockets.held (hmiddle ▸ htracked) hclosed
      exact hnew (hstate.isSocket hother)
    · rintro (hfailed | hsupported)
      · exact hobtained hfailed
      · rw [hthrown] at hsupported
        cases hsupported

/-- An assignment keeps the descriptors owned exactly if it drops no last
reference. -/
theorem Owns.assign_iff (howns : Owns state) (hstate : Consistent state)
    {source : Name} (hassign : state.assign name source = some next) :
    Owns next ↔ name = source ∨
      ∀ serial, state.holds name = some (.socket serial) →
        HeldBeside state.holds name (.socket serial) := by
  obtain ⟨value, hvalue, rfl⟩ := assign_cases hassign
  have hsource : state.holds source = value.holds := by
    rw [State.holds, hvalue, Option.bind_some]
  have hnext : Owns { state with
      values := Function.update state.values name (some value) } ↔
        Owned state.IsSocket
          (Function.update state.holds name (state.holds source))
          state.closed := by
    rw [hsource]
    constructor
    · intro howned
      have hsockets := howned.sockets
      rwa [holds_setValue] at hsockets
    · intro howned
      refine ⟨?_, howns.other⟩
      rwa [holds_setValue]
  rw [hnext, howns.sockets.rebind_iff fun _ _ hholds => ⟨source, hholds⟩]
  constructor
  · intro hkept
    refine or_iff_not_imp_left.mpr fun hne serial hholds => ?_
    rcases hkept _ (hstate.isSocket hholds) hholds with hshared | hbeside
    · exact ⟨source, Ne.symm hne, hshared⟩
    · exact hbeside
  · rintro (rfl | hbeside) descriptor ⟨serial, -, rfl⟩ hholds
    · exact .inl hholds
    · exact .inr (hbeside serial hholds)

omit [DecidableEq Name] in
/-- A name that holds a descriptor of `::socket` has its number. -/
theorem Owns.number (howns : Owns state) (hstate : Consistent state)
    {value : Value} (hvalue : state.values name = some value) {serial : ℕ}
    (hholds : state.holds name = some (.socket serial)) :
    state.table value.m_fd = some (.socket serial) := by
  have hopen :=
    (howns.sockets _ (hstate.isSocket hholds)).1 ⟨name, hholds⟩
  rw [State.holds, hvalue, Option.bind_some] at hholds
  exact (hstate.refers name value hvalue serial hholds).2 hopen

/-- A destructor that closes a descriptor. -/
theorem Owns.closes_iff (howns : Owns state) (hstate : Consistent state)
    {value : Value} (hvalue : state.values name = some value)
    {descriptor : Descriptor}
    (hfound : state.table value.m_fd = some descriptor) :
    Owns { state with
      values := Function.update state.values name none
      table := Function.update state.table value.m_fd none
      closed := Function.update state.closed descriptor
        (state.closed descriptor + 1) } ↔
      descriptor ≠ .other ∧ ¬ HeldBeside state.holds name descriptor := by
  cases descriptor with
  | other =>
      refine iff_of_false (fun hnext => ?_) fun hmeets => hmeets.1 rfl
      have hclosed := hnext.other
      dsimp only at hclosed
      rw [Function.update_self] at hclosed
      cases hclosed
  | socket serial =>
      have hopen := hstate.table _ _ hfound
      have honly : ∀ descriptor, state.IsSocket descriptor →
          state.holds name = some descriptor →
            descriptor = .socket serial := by
        rintro _ ⟨serial', -, rfl⟩ hholds
        have hsame := howns.number hstate hvalue hholds
        rw [hfound] at hsame
        exact (Option.some.inj hsame).symm
      have hne : Descriptor.other ≠ .socket serial := nofun
      rw [and_iff_right hne.symm,
        ← howns.sockets.release_iff ⟨serial, hopen.1, rfl⟩ hopen.2 honly]
      constructor
      · intro hnext
        have hsockets := hnext.sockets
        rwa [holds_setValue] at hsockets
      · intro howned
        refine ⟨?_, ?_⟩
        · rwa [holds_setValue]
        · dsimp only
          rw [Function.update_of_ne hne]
          exact howns.other

/-- A destructor that closes nothing. -/
theorem Owns.closesNothing (howns : Owns state) (hstate : Consistent state)
    {value : Value} (hvalue : state.values name = some value)
    (hnone : state.table value.m_fd = none) :
    Owns { state with
      values := Function.update state.values name none } := by
  refine ⟨?_, howns.other⟩
  rw [holds_setValue]
  refine (howns.sockets.rebind_iff ?_).mpr ?_
  · rintro descriptor - ⟨⟩
  · rintro descriptor ⟨serial, -, rfl⟩ hholds
    rw [howns.number hstate hvalue hholds] at hnone
    cases hnone

/-- A destructor keeps the descriptors owned exactly if it closes nothing, or a
descriptor of `::socket` no other value holds. -/
theorem Owns.destroy_iff (howns : Owns state) (hstate : Consistent state)
    (hdestroy : state.destroy name = some next) :
    Owns next ↔ ∀ value descriptor, state.values name = some value →
      state.table value.m_fd = some descriptor →
        descriptor ≠ .other ∧ ¬ HeldBeside state.holds name descriptor := by
  obtain ⟨value, hvalue, hcases⟩ := destroy_cases hdestroy
  have hsame : ∀ other, state.values name = some other → other = value := by
    intro other hother
    exact Option.some.inj (hother.symm.trans hvalue)
  rcases hcases with ⟨hnone, rfl⟩ | ⟨descriptor, hfound, rfl⟩
  · refine iff_of_true (howns.closesNothing hstate hvalue hnone) ?_
    intro other descriptor hother hfound
    rw [hsame other hother, hnone] at hfound
    cases hfound
  · rw [howns.closes_iff hstate hvalue hfound]
    constructor
    · intro hmeets other descriptor' hother hfound'
      rw [hsame other hother, hfound, Option.some.injEq] at hfound'
      rwa [← hfound']
    · exact fun hall => hall value descriptor hvalue hfound

/-- A step keeps the descriptors owned exactly if it meets the condition. -/
theorem Owns.step_iff (howns : Owns state) (hstate : Consistent state)
    {label : Label Name} (hstep : step state label = some next) :
    Owns next ↔ Meets state label := by
  cases label with
  | default name =>
      refine iff_of_true (howns.construct ?_ hstep) trivial
      rintro descriptor - ⟨⟩
  | fromDescriptor name sock =>
      exact iff_of_true (howns.fromDescriptor hstate hstep) trivial
  | createFromText name result =>
      cases result with
      | unresolved =>
          cases hstep
          exact iff_of_true howns trivial
      | resolved sock supported =>
          exact howns.createFromText_iff hstate hstep
  | copy name source =>
      obtain ⟨value, hvalue, hconstruct⟩ := Option.bind_eq_some_iff.mp hstep
      exact iff_of_true (howns.copy hvalue hconstruct) trivial
  | assign name source => exact howns.assign_iff hstate hstep
  | destroy name => exact howns.destroy_iff hstate hstep
  | otherOpen fd =>
      obtain ⟨entry, -, -, rfl⟩ := other_cases (.inl hstep)
      exact iff_of_true ⟨howns.sockets, howns.other⟩ trivial
  | otherClose fd =>
      obtain ⟨entry, -, -, rfl⟩ := other_cases (.inr hstep)
      exact iff_of_true ⟨howns.sockets, howns.other⟩ trivial

/-! ## Programs -/

omit [DecidableEq Name] in
theorem Owns.of_isInitial (hinit : IsInitial state) : Owns state where
  sockets := by
    rintro _ ⟨serial, hissued, -⟩
    rw [hinit.sockets] at hissued
    cases hissued
  other := hinit.closed _

theorem reachable_consistent (hreach : (system Name).Reachable state) :
    Consistent state :=
  hreach.invariant (fun _ => Consistent.of_isInitial)
    fun _ _ _ hstate hstep => hstate.step hstep

/-- When `TcpAcceptor::init` has its descriptor, it has closed it. -/
theorem acceptorInit_closes (hstate : Consistent state) {sock returned : Name}
    {fd : ℤ} (hfd : fd ≠ -1)
    (hinit : execute step state (acceptorInit sock returned fd) = some next) :
    next.table fd = none ∧ next.closed (.socket state.sockets) = 1 := by
  obtain ⟨created, hcreate, hrest⟩ := Option.bind_eq_some_iff.mp hinit
  obtain ⟨assigned, hassign, hrest⟩ := Option.bind_eq_some_iff.mp hrest
  obtain ⟨destroyed, hdestroy, hdone⟩ := Option.bind_eq_some_iff.mp hrest
  cases hdone
  obtain ⟨middle, value, hsocket, hcases⟩ := createFromText_cases hcreate
  rcases socket_cases hsocket with ⟨hfailed, -⟩ | ⟨-, -, hunused, rfl, rfl⟩
  · exact absurd hfailed hfd
  rcases hcases with ⟨-, hconstruct⟩ | ⟨⟨⟩, -⟩
  obtain ⟨hfree, rfl⟩ := construct_cases hconstruct
  obtain ⟨copied, hcopied, rfl⟩ := assign_cases hassign
  obtain ⟨gone, hgone, hclose⟩ := destroy_cases hdestroy
  dsimp only at hcopied hgone hclose
  rw [Function.update_self, Option.some.injEq] at hcopied
  subst hcopied
  have hsame : gone = ⟨fd, some (.socket state.sockets)⟩ := by
    rcases update_eq_some_iff.mp hgone with ⟨-, ⟨⟩⟩ | ⟨-, hkept⟩
    · rfl
    · rw [Function.update_self, Option.some.injEq] at hkept
      exact hkept.symm
  subst hsame
  rw [Function.update_self] at hclose
  rcases hclose with ⟨⟨⟩, -⟩ | ⟨descriptor, ⟨⟩, rfl⟩
  dsimp only
  rw [Function.update_self, Function.update_self,
    hstate.fresh _ (Nat.le_refl _)]
  exact ⟨rfl, rfl⟩

/-- In every program the values own the descriptors of `::socket` exactly if
every operation meets the condition; and `TcpAcceptor::init` leaves the
descriptor it listens on closed. -/
theorem ownsThroughout_iff (hinit : IsInitial state)
    (labels : List (Label Name)) :
    (Throughout step Owns state labels ↔
      MeetsThroughout step Meets state labels) ∧
    ∀ (before after : State Name) (sock returned : Name) (fd : ℤ),
      execute step state labels = some before → fd ≠ -1 →
        execute step before (acceptorInit sock returned fd) = some after →
          after.table fd = none ∧
            after.closed (.socket before.sockets) = 1 := by
  constructor
  · exact throughout_iff (fun _ _ _ hstate => hstate.step)
      (fun _ _ _ hstate howns => howns.step_iff hstate) (.of_isInitial hinit)
      (.of_isInitial hinit) labels
  · intro before after sock returned fd hbefore hfd hafter
    have hreach : (system Name).Reachable before :=
      reachable_of_execute hinit hbefore
    exact acceptorInit_closes (reachable_consistent hreach) hfd hafter

/-- The state in which a program starts, with the standard streams open. -/
def start : State ℕ where
  values := fun _ => none
  table := fun fd => if 0 ≤ fd ∧ fd < 3 then some .other else none
  sockets := 0
  closed := fun _ => 0

theorem isInitial_start : IsInitial start where
  values := fun _ => rfl
  table := by
    intro fd descriptor hfd
    simp only [start] at hfd
    split at hfd
    case isTrue hrange => exact ⟨hrange.1, (Option.some.inj hfd).symm⟩
    case isFalse => cases hfd
  sockets := rfl
  closed := fun _ => rfl

/-- Two sockets; the first is copied, its original assigned the second, and the
copy destroyed. -/
theorem ownsThroughout_iff_copied :
    Throughout step Owns start
      [.createFromText 0 (.resolved 3 true), .copy 1 0,
        .createFromText 2 (.resolved 4 true), .assign 0 2, .destroy 1] ∧
    ∃ after, execute step start
        (.default 0 :: acceptorInit 0 1 3) = some after ∧
      after.table 3 = none := by
  constructor
  · refine (ownsThroughout_iff isInitial_start _).1.mpr ?_
    rintro created ⟨⟩
    refine ⟨.inr rfl, ?_⟩
    rintro copied ⟨⟩
    refine ⟨trivial, ?_⟩
    rintro second ⟨⟩
    refine ⟨.inr rfl, ?_⟩
    rintro assigned ⟨⟩
    refine ⟨.inr ?_, ?_⟩
    · rintro serial ⟨⟩
      exact ⟨1, by decide, rfl⟩
    rintro destroyed ⟨⟩
    refine ⟨?_, trivial⟩
    rintro value descriptor ⟨⟩ ⟨⟩
    refine ⟨nofun, ?_⟩
    rintro ⟨name, hne, hname⟩
    match name with
    | 0 | 2 => cases hname
    | 1 => exact hne rfl
    | _ + 3 => cases hname
  · refine ⟨_, rfl, ?_⟩
    exact ((ownsThroughout_iff isInitial_start [.default 0]).2 _ _ 0 1 3 rfl
      (by decide) rfl).1

/-- The program that runs `TcpAcceptor::init` on a new acceptor. -/
theorem not_ownsThroughout : ¬ ∀ (state : State ℕ) (labels : List (Label ℕ)),
    IsInitial state → Throughout step Owns state labels := by
  intro howns
  have hinit := howns start (.default 0 :: acceptorInit 0 1 3) isInitial_start
  have hafter := (((hinit.2 _ rfl).2 _ rfl).2 _ rfl).2 _ rfl
  have hclosed := (hafter.sockets (.socket 0) ⟨0, by decide, rfl⟩).1 ⟨0, rfl⟩
  exact absurd hclosed (by decide)

end Sensor.SocketMain
