import Sensor.Base.InternetAddress
import Sensor.Core.SearchMap
import Sensor.Core.TransitionSystem

/-!
# The sessions of the negotiation model

A map from addresses to sessions.  The map searches for an entry with the hash
of the key that `operator==` accepts; what a rehash does to the order of the
entries is a parameter.  Since `operator==` accepts the addresses that differ,
an address is found only through another one with its family and its hash.
-/

namespace Sensor.NegotiationModel

open InternetAddress SearchMap TransitionSystem

/-- An entry of `sessions`; a session is the number of its allocation, and
`none` is the null pointer. -/
abbrev Session := Entry InternetAddress (Option ℕ)

/-- The entries of `sessions` in the order of the map, and the number of
sessions allocated. -/
structure Model where
  sessions : List Session
  allocated : ℕ
  deriving DecidableEq

/-- The search of `std::unordered_map` for a key stops at a stored one. -/
def accepts (key stored : InternetAddress) : Bool :=
  stored.hash == key.hash && operatorEq stored key

section Map

variable (reorder : List Session → List Session)

/-! ## The functions of the source -/

def getSession (model : Model) (address : InternetAddress) :
    Option ℕ × Model :=
  let result := subscript accepts reorder none address model.sessions
  (result.1, { model with sessions := result.2 })

def checkSession (model : Model) (address : InternetAddress) : Bool × Model :=
  let result := getSession reorder model address
  (result.1 != none, result.2)

def createSession (model : Model) (address : InternetAddress) : ℕ × Model :=
  (model.allocated,
    { sessions := subscriptAssign accepts reorder address
        (some model.allocated) model.sessions
      allocated := model.allocated + 1 })

/-! ## Calls in any order -/

inductive Call where
  | create (address : InternetAddress)
  | get (address : InternetAddress)
  | check (address : InternetAddress)

/-- The model, and the sessions that were created, the newest first. -/
structure State where
  model : Model
  created : List (InternetAddress × ℕ)

def initial : State where
  model := { sessions := [], allocated := 0 }
  created := []

def step (state : State) : Call → Option State
  | .create address =>
      let result := createSession reorder state.model address
      some
        { model := result.2
          created := (address, result.1) :: state.created }
  | .get address =>
      some { state with model := (getSession reorder state.model address).2 }
  | .check address =>
      some { state with model := (checkSession reorder state.model address).2 }

def system : TransitionSystem State Call :=
  ofStep (· = initial) (step reorder)

/-- The session most recently created for an address. -/
def newest (created : List (InternetAddress × ℕ)) (address : InternetAddress) :
    Option (InternetAddress × ℕ) :=
  created.find? fun creation => Same creation.1 address

/-- A call answers as a map from addresses to sessions does, and one that only
looks leaves the model alone. -/
def AnswersRight (state : State) : Call → Prop
  | .create _ => True
  | .get address =>
      getSession reorder state.model address =
        ((newest state.created address).map (·.2), state.model)
  | .check address =>
      checkSession reorder state.model address =
        ((newest state.created address).isSome, state.model)

instance (state : State) : DecidablePred (AnswersRight reorder state)
  | .create _ => inferInstanceAs (Decidable True)
  | .get _ => inferInstanceAs (Decidable (_ = _))
  | .check _ => inferInstanceAs (Decidable (_ = _))

end Map

/-! ## Which calls answer right

The map can take two addresses for one another only when they are of one class:
they have one family and one hash.  Of a class, the map holds entries for the
address created first and for those that have its bytes.
-/

abbrev Code := Family × BitVec 64

def code (address : InternetAddress) : Code := (address.family, address.hash)

/-- The sessions created for addresses of a class, the newest first. -/
def classOf (created : List (InternetAddress × ℕ)) (class_ : Code) :
    List (InternetAddress × ℕ) :=
  created.filter fun creation => code creation.1 = class_

/-- The address of a class that was created first. -/
def first (created : List (InternetAddress × ℕ)) (class_ : Code) :
    Option InternetAddress :=
  (classOf created class_).getLast?.map (·.1)

/-- The map finds an entry for an address: `operator==` accepts the one of its
class that was created first. -/
def isFound (created : List (InternetAddress × ℕ)) (address : InternetAddress) :
    Bool :=
  (first created (code address)).any fun opener => operatorEq opener address

/-- No later address of the class has the bytes of the one created first. -/
def single (created : List (InternetAddress × ℕ)) (class_ : Code) : Bool :=
  (classOf created class_).dropLast.all fun creation =>
    (first created class_).any fun opener => operatorEq opener creation.1

/-- From the newest session of the class on, no creation added an entry. -/
def quiet (class_ : Code) : List (InternetAddress × ℕ) → Bool
  | [] => true
  | creation :: created =>
      isFound created creation.1 &&
        (code creation.1 == class_ || quiet class_ created)

/-- Where a call answers right: the map finds an entry for the address, a check
is for an address with a session, and a lookup is for the address of the class
with the newest session, which the entry that is found holds. -/
def allowed (state : State) : Call → Bool
  | .create _ => true
  | .get address =>
      isFound state.created address &&
        ((classOf state.created (code address)).head? ==
          newest state.created address) &&
        (single state.created (code address) ||
          quiet (code address) state.created)
  | .check address =>
      isFound state.created address && (newest state.created address).isSome

variable {reorder : List Session → List Session} {sessions : List Session}
  {created : List (InternetAddress × ℕ)} {address opener : InternetAddress}
  {session : ℕ} {class_ : Code}

theorem accepts_iff {key stored : InternetAddress} :
    accepts key stored = true ↔
      code stored = code key ∧ stored.compared ≠ key.compared := by
  rw [accepts, Bool.and_eq_true, operatorEq_iff, beq_iff_eq, code, code,
    Prod.mk.injEq]
  tauto

theorem code_of_accepts (key stored : InternetAddress)
    (haccepts : accepts key stored = true) : code stored = code key :=
  (accepts_iff.mp haccepts).1

section Creations

theorem classOf_cons :
    classOf ((address, session) :: created) class_ =
      if code address = class_ then
        (address, session) :: classOf created class_
      else classOf created class_ := by
  simp [classOf, List.filter_cons]

theorem first_cons :
    first ((address, session) :: created) class_ =
      if code address = class_ then
        some ((first created class_).getD address)
      else first created class_ := by
  rw [first, first, classOf_cons]
  split
  · cases hlast : (classOf created class_).getLast? with
    | none => simp [List.getLast?_cons, hlast]
    | some creation => simp [List.getLast?_cons, hlast]
  · rfl

theorem code_of_first (hfirst : first created class_ = some opener) :
    code opener = class_ := by
  obtain ⟨creation, hcreation, rfl⟩ := Option.map_eq_some_iff.mp hfirst
  have hmem := List.mem_filter.mp (List.mem_of_getLast? hcreation)
  exact of_decide_eq_true hmem.2

theorem operatorEq_iff_of_code (hcode : code opener = code address) :
    operatorEq opener address = true ↔
      opener.compared ≠ address.compared := by
  rw [operatorEq_iff, and_iff_right (Prod.mk.inj hcode).1]

theorem isFound_iff :
    isFound created address = true ↔
      ∃ opener, first created (code address) = some opener ∧
        opener.compared ≠ address.compared := by
  rw [isFound, Option.any_eq_true]
  constructor
  · rintro ⟨opener, hfirst, hequal⟩
    exact ⟨opener, hfirst,
      (operatorEq_iff_of_code (code_of_first hfirst)).mp hequal⟩
  · rintro ⟨opener, hfirst, hdiffer⟩
    exact ⟨opener, hfirst,
      (operatorEq_iff_of_code (code_of_first hfirst)).mpr hdiffer⟩

/-- An address that is not found has the bytes of the one created first. -/
theorem compared_of_not_found (hnotFound : isFound created address = false)
    (hfirst : first created (code address) = some opener) :
    opener.compared = address.compared := by
  by_contra hdiffer
  have hfound := isFound_iff.mpr ⟨opener, hfirst, hdiffer⟩
  rw [hnotFound] at hfound
  cases hfound

theorem single_cons_of_ne (hcode : code address ≠ class_) :
    single ((address, session) :: created) class_ =
      single created class_ := by
  simp only [single, first_cons, classOf_cons, if_neg hcode]

/-- A class with an opener has one entry after a creation if it had one before
and the creation found it. -/
theorem single_cons (hcode : code address = class_)
    (hfirst : first created class_ = some opener) :
    single ((address, session) :: created) class_ =
      (isFound created address && single created class_) := by
  have hnonempty : classOf created class_ ≠ [] := by
    intro hnone
    rw [first, hnone] at hfirst
    cases hfirst
  obtain ⟨creation, older, hclass⟩ := List.exists_cons_of_ne_nil hnonempty
  subst hcode
  simp only [single, isFound, first_cons, classOf_cons, if_true, hfirst,
    hclass, List.dropLast_cons_cons, List.all_cons, Option.getD_some,
    Option.any_some]

end Creations

/-! ## The entries of a class -/

theorem eq_of_perm_of_length_le_one {left right : List Session}
    (hperm : left.Perm right) (hlength : right.length ≤ 1) : left = right := by
  match right with
  | [] => exact hperm.eq_nil
  | [_] => exact List.perm_singleton.mp hperm
  | _ :: _ :: _ => simp at hlength

/-- What a run of calls that answer right keeps of a class. -/
structure ClassInvariant (sessions : List Session)
    (created : List (InternetAddress × ℕ)) (class_ : Code) : Prop where
  empty : first created class_ = none → entriesOf code sessions class_ = []
  nonempty : ∀ opener, first created class_ = some opener →
    entriesOf code sessions class_ ≠ []
  compared : ∀ opener, first created class_ = some opener →
    ∀ entry ∈ entriesOf code sessions class_,
      entry.key.compared = opener.compared
  value : ∀ entry ∈ entriesOf code sessions class_, entry.value.isSome = true
  one : single created class_ = true →
    (entriesOf code sessions class_).length ≤ 1
  newest : single created class_ = true ∨ quiet class_ created = true →
    (entriesOf code sessions class_).head?.map (·.value) =
      (classOf created class_).head?.map fun creation => some creation.2

namespace ClassInvariant

/-- The map accepts every entry of a class in which it finds the address. -/
theorem accepts_of_mem (hinv : ClassInvariant sessions created (code address))
    (hfound : isFound created address = true) :
    ∀ entry ∈ entriesOf code sessions (code address),
      accepts address entry.key = true := by
  intro entry hentry
  obtain ⟨opener, hfirst, hdiffer⟩ := isFound_iff.mp hfound
  rw [accepts_iff, hinv.compared opener hfirst entry hentry]
  exact ⟨(mem_entriesOf.mp hentry).2, hdiffer⟩

/-- The map finds the first entry of the class. -/
theorem find?_of_found (hinv : ClassInvariant sessions created (code address))
    (hfound : isFound created address = true) :
    SearchMap.find? accepts address sessions =
      (entriesOf code sessions (code address)).head? :=
  find?_eq_head? code_of_accepts (hinv.accepts_of_mem hfound)

theorem find?_of_not_found
    (hinv : ClassInvariant sessions created (code address))
    (hnotFound : isFound created address = false) :
    SearchMap.find? accepts address sessions = none := by
  refine find?_eq_none code_of_accepts ?_
  intro entry hentry
  rw [← Bool.not_eq_true]
  intro haccepts
  have hdiffer := (accepts_iff.mp haccepts).2
  cases hfirst : first created (code address) with
  | none =>
      rw [hinv.empty hfirst] at hentry
      cases hentry
  | some opener =>
      rw [hinv.compared opener hfirst entry hentry] at hdiffer
      exact hdiffer (compared_of_not_found hnotFound hfirst)

/-- A class the map finds an address in has an entry. -/
theorem exists_entry (hinv : ClassInvariant sessions created (code address))
    (hfound : isFound created address = true) :
    ∃ entry entries,
      entriesOf code sessions (code address) = entry :: entries := by
  obtain ⟨opener, hfirst, -⟩ := isFound_iff.mp hfound
  exact List.exists_cons_of_ne_nil (hinv.nonempty opener hfirst)

/-- A creation for an address the map finds gives the first entry of the class
another session. -/
theorem assign (hinv : ClassInvariant sessions created (code address))
    (hfound : isFound created address = true) :
    ClassInvariant (assignFound accepts address (some session) sessions)
      ((address, session) :: created) (code address) := by
  obtain ⟨opener, hfirst, hdiffer⟩ := isFound_iff.mp hfound
  obtain ⟨entry, entries, hentries⟩ := hinv.exists_entry hfound
  have hfirst' : first ((address, session) :: created) (code address) =
      some opener := by
    rw [first_cons, if_pos rfl, hfirst, Option.getD_some]
  have hassigned : entriesOf code
      (assignFound accepts address (some session) sessions) (code address) =
        { entry with value := some session } :: entries := by
    rw [entriesOf_assignFound code_of_accepts (hinv.accepts_of_mem hfound),
      hentries, List.modifyHead_cons]
  constructor
  · intro hnone
    rw [hfirst'] at hnone
    cases hnone
  · intro _ _
    rw [hassigned]
    exact List.cons_ne_nil _ _
  · intro opener' hopener' other hother
    have hsame : opener = opener' := by simpa [hfirst'] using hopener'
    rw [hassigned, List.mem_cons] at hother
    have hbefore := hinv.compared opener hfirst
    rw [hentries] at hbefore
    rw [← hsame]
    rcases hother with rfl | hother
    · exact hbefore entry List.mem_cons_self
    · exact hbefore other (List.mem_cons_of_mem _ hother)
  · intro other hother
    rw [hassigned, List.mem_cons] at hother
    have hbefore := hinv.value
    rw [hentries] at hbefore
    rcases hother with rfl | hother
    · rfl
    · exact hbefore other (List.mem_cons_of_mem _ hother)
  · intro hsingle
    rw [single_cons rfl hfirst, Bool.and_eq_true] at hsingle
    have hone := hinv.one hsingle.2
    rw [hentries, List.length_cons] at hone
    rw [hassigned, List.length_cons]
    exact hone
  · intro _
    rw [hassigned, classOf_cons, if_pos rfl]
    rfl

/-- A creation for an address the map does not find gives the class another
entry. -/
theorem insert (hinv : ClassInvariant sessions created (code address))
    (hnotFound : isFound created address = false) {sessions' : List Session}
    (hperm : sessions'.Perm (⟨address, some session⟩ :: sessions)) :
    ClassInvariant sessions' ((address, session) :: created)
      (code address) := by
  have hentries : (entriesOf code sessions' (code address)).Perm
      (⟨address, some session⟩ :: entriesOf code sessions (code address)) := by
    have hkind := @entriesOf_of_perm _ _ _ _ code _ _ _ hperm (code address)
    rwa [if_pos rfl] at hkind
  have hquiet : quiet (code address) ((address, session) :: created) =
      false := by
    rw [quiet, hnotFound, Bool.false_and]
  constructor
  · intro hnone
    rw [first_cons, if_pos rfl] at hnone
    cases hnone
  · intro _ _ hnil
    rw [hnil] at hentries
    cases hentries.symm.eq_nil
  · intro opener hopener entry hentry
    rw [first_cons, if_pos rfl, Option.some.injEq] at hopener
    rw [hentries.mem_iff, List.mem_cons] at hentry
    cases hfirst : first created (code address) with
    | none =>
        rw [hfirst, Option.getD_none] at hopener
        rw [hinv.empty hfirst] at hentry
        rcases hentry with rfl | hentry
        · rw [hopener]
        · cases hentry
    | some opener' =>
        rw [hfirst, Option.getD_some] at hopener
        subst hopener
        rcases hentry with rfl | hentry
        · exact (compared_of_not_found hnotFound hfirst).symm
        · exact hinv.compared opener' hfirst entry hentry
  · intro entry hentry
    rw [hentries.mem_iff, List.mem_cons] at hentry
    rcases hentry with rfl | hentry
    · rfl
    · exact hinv.value entry hentry
  · intro hsingle
    cases hfirst : first created (code address) with
    | none =>
        rw [hentries.length_eq, hinv.empty hfirst]
        rfl
    | some opener =>
        rw [single_cons rfl hfirst, hnotFound] at hsingle
        cases hsingle
  · intro hkept
    cases hfirst : first created (code address) with
    | none =>
        rw [hinv.empty hfirst, List.perm_singleton] at hentries
        rw [hentries, classOf_cons, if_pos rfl]
        rfl
    | some opener =>
        rw [hquiet, single_cons rfl hfirst, hnotFound] at hkept
        simp at hkept

/-- A creation for an address of another class leaves the entries of the class
in their order unless it adds one. -/
theorem other (hinv : ClassInvariant sessions created class_)
    (hcode : code address ≠ class_) {sessions' : List Session}
    (hperm : (entriesOf code sessions' class_).Perm
      (entriesOf code sessions class_))
    (horder : isFound created address = true →
      entriesOf code sessions' class_ = entriesOf code sessions class_) :
    ClassInvariant sessions' ((address, session) :: created) class_ := by
  have hfirst : first ((address, session) :: created) class_ =
      first created class_ := by
    rw [first_cons, if_neg hcode]
  constructor
  · intro hnone
    rw [hinv.empty (hfirst ▸ hnone)] at hperm
    exact hperm.eq_nil
  · intro opener hopener hnil
    rw [hnil] at hperm
    exact hinv.nonempty opener (hfirst ▸ hopener) hperm.symm.eq_nil
  · intro opener hopener entry hentry
    exact hinv.compared opener (hfirst ▸ hopener) entry
      (hperm.mem_iff.mp hentry)
  · intro entry hentry
    exact hinv.value entry (hperm.mem_iff.mp hentry)
  · intro hsingle
    rw [single_cons_of_ne hcode] at hsingle
    rw [hperm.length_eq]
    exact hinv.one hsingle
  · intro hkept
    rw [single_cons_of_ne hcode, quiet, Bool.and_eq_true, Bool.or_eq_true,
      beq_iff_eq, or_iff_right hcode] at hkept
    rw [classOf_cons, if_neg hcode]
    rcases hkept with hsingle | ⟨hfound, hquiet⟩
    · rw [eq_of_perm_of_length_le_one hperm (hinv.one hsingle)]
      exact hinv.newest (Or.inl hsingle)
    · rw [horder hfound]
      exact hinv.newest (Or.inr hquiet)

end ClassInvariant

/-! ## Runs -/

/-- A run of calls that answer right keeps the invariant of every class. -/
def Invariant (state : State) : Prop :=
  ∀ class_, ClassInvariant state.model.sessions state.created class_

theorem Invariant.initial : Invariant initial := by
  intro class_
  exact {
    empty := fun _ => rfl
    nonempty := fun _ hfirst => nomatch hfirst
    compared := fun _ hfirst => nomatch hfirst
    value := fun _ hentry => nomatch hentry
    one := fun _ => Nat.zero_le 1
    newest := fun _ => rfl }

section Runs

variable {state next : State} {call : Call}

/-- A creation gives the address its session. -/
theorem Invariant.create
    (hreorder : ∀ entries, (reorder entries).Perm entries)
    (hinv : Invariant state) :
    ClassInvariant (createSession reorder state.model address).2.sessions
      ((address, state.model.allocated) :: state.created) class_ := by
  have hclass := hinv (code address)
  rw [createSession, subscriptAssign]
  cases hfound : isFound state.created address with
  | true =>
      obtain ⟨entry, entries, hentries⟩ := hclass.exists_entry hfound
      have hfind : SearchMap.find? accepts address state.model.sessions =
        some entry := by
        rw [hclass.find?_of_found hfound, hentries, List.head?_cons]
      simp only [hfind]
      by_cases hcode : code address = class_
      · subst hcode
        exact hclass.assign hfound
      · have hsame : entriesOf code (assignFound accepts address
            (some state.model.allocated) state.model.sessions) class_ =
              entriesOf code state.model.sessions class_ :=
          entriesOf_assignFound_of_ne code_of_accepts hcode
        exact (hinv class_).other hcode (hsame ▸ .refl _) fun _ => hsame
  | false =>
      simp only [hclass.find?_of_not_found hfound]
      have hperm := hreorder
        (⟨address, some state.model.allocated⟩ :: state.model.sessions)
      by_cases hcode : code address = class_
      · subst hcode
        exact hclass.insert hfound hperm
      · have hkind := @entriesOf_of_perm _ _ _ _ code _ _ _ hperm class_
        rw [if_neg hcode] at hkind
        exact (hinv class_).other hcode hkind fun htrue => by
          rw [hfound] at htrue
          cases htrue

/-- What the map finds a session for is in the map afterwards as before. -/
theorem getSession_of_find? {entry : Session}
    (hfind : SearchMap.find? accepts address state.model.sessions =
        some entry) :
    getSession reorder state.model address = (entry.value, state.model) := by
  rw [getSession, subscript]
  simp only [hfind]

/-- A call that is allowed answers right. -/
theorem Invariant.answersRight (hinv : Invariant state)
    (hallowed : allowed state call = true) :
    AnswersRight reorder state call := by
  cases call with
  | create address => trivial
  | get address =>
      simp only [allowed, Bool.and_eq_true, beq_iff_eq, Bool.or_eq_true]
        at hallowed
      obtain ⟨⟨hfound, hnewest⟩, hkept⟩ := hallowed
      have hclass := hinv (code address)
      obtain ⟨entry, entries, hentries⟩ := hclass.exists_entry hfound
      have hfind := hclass.find?_of_found hfound
      have hvalue := hclass.newest hkept
      rw [hentries, List.head?_cons] at hfind hvalue
      rw [hnewest, Option.map_some] at hvalue
      obtain ⟨creation, hcreation, hsession⟩ :=
        Option.map_eq_some_iff.mp hvalue.symm
      rw [AnswersRight, getSession_of_find? hfind, hcreation, Option.map_some,
        hsession]
  | check address =>
      simp only [allowed, Bool.and_eq_true] at hallowed
      obtain ⟨hfound, hcreated⟩ := hallowed
      have hclass := hinv (code address)
      obtain ⟨entry, entries, hentries⟩ := hclass.exists_entry hfound
      have hfind := hclass.find?_of_found hfound
      rw [hentries, List.head?_cons] at hfind
      have hsome := hclass.value entry (hentries ▸ List.mem_cons_self)
      obtain ⟨session, hsession⟩ := Option.isSome_iff_exists.mp hsome
      simp only [AnswersRight, checkSession, getSession_of_find? hfind,
        hsession, hcreated]
      rfl

/-- A call that only looks and answers right leaves the state alone. -/
theorem eq_of_answersRight (hright : AnswersRight reorder state call)
    (hstep : step reorder state call = some next) :
    (∃ address, call = .create address) ∨ next = state := by
  cases call with
  | create address => exact Or.inl ⟨address, rfl⟩
  | get address =>
      cases hstep
      rw [AnswersRight] at hright
      right
      rw [hright]
  | check address =>
      cases hstep
      rw [AnswersRight] at hright
      right
      rw [hright]

theorem Invariant.step (hreorder : ∀ entries, (reorder entries).Perm entries)
    (hinv : Invariant state) (hallowed : allowed state call = true)
    (hstep : step reorder state call = some next) : Invariant next := by
  have hright : AnswersRight reorder state call := hinv.answersRight hallowed
  rcases eq_of_answersRight hright hstep with ⟨address, rfl⟩ | rfl
  · cases hstep
    intro class_
    exact hinv.create hreorder
  · exact hinv

/-- In every run of calls that are allowed each call answers right, whatever a
rehash does to the order of the entries. -/
theorem answersRight_of_allowed
    (hreorder : ∀ entries, (reorder entries).Perm entries)
    (hreach : ((system reorder).restrict fun state call =>
      allowed state call = true).Reachable state)
    (hallowed : allowed state call = true) :
    AnswersRight reorder state call := by
  have hinv : Invariant state := by
    refine hreach.invariant ?_ ?_
    · rintro _ rfl
      exact .initial
    · rintro before call after hbefore ⟨hcall, hstep⟩
      exact hbefore.step hreorder hcall hstep
  exact hinv.answersRight hallowed

end Runs

/-- Sessions for two addresses that have one hash, and calls that look at the
second. -/
def twoAddresses : List Call :=
  let first := ofInAddr #v[10, 0, 0, 34] 0
  let second := ofInAddr #v[10, 0, 1, 1] 0
  [.create first, .create second, .check second, .get second]

theorem answersRight_of_allowed_twoAddresses : ∃ state : State,
    state.created.length = 2 ∧
      AnswersRight id state (.get (ofInAddr #v[10, 0, 1, 1] 0)) := by
  have hrun : (execute (guardStep allowed (step id)) initial
      twoAddresses).map (fun state =>
        (state.created.length,
          allowed state (.get (ofInAddr #v[10, 0, 1, 1] 0)))) =
      some (2, true) := by
    decide +kernel
  obtain ⟨state, hstate, hkept⟩ := Option.map_eq_some_iff.mp hrun
  obtain ⟨hlength, hallowed⟩ := Prod.mk.inj hkept
  have hreach : ((system id).restrict fun state call =>
      allowed state call = true).Reachable state :=
    reachable_restrict_of_execute rfl hstate
  exact ⟨state, hlength,
    answersRight_of_allowed (fun _ => .refl _) hreach hallowed⟩

/-- The session of the only address created is not found. -/
theorem not_answersRight_created : ¬ ∀ (state : State) (call : Call),
    (system id).Reachable state → AnswersRight id state call := by
  intro hright
  let address := ofInAddr #v[10, 0, 0, 1] 0
  let state : State :=
    { model := (createSession id initial.model address).2
      created := [(address, 0)] }
  have hstep : (system id).Step initial (.create address) state := rfl
  have hanswer := hright state (.get address) ((Reachable.init rfl).step hstep)
  exact absurd hanswer (by decide +kernel)

end Sensor.NegotiationModel
