import Sensor.Reactor.SocketOwnership

/-!
# The start of the service

The constructor of `SensorService` lets its acceptor listen: `TcpAcceptor::init`
creates a socket, and a call on it that fails throws.  The value that
`createFromText` returned has closed the descriptor before the first call.  So
the constructor throws, unless another thread of the program opens a descriptor
that gets the number of the socket.
-/

namespace Sensor.ServiceStart

open TransitionSystem

/-- The calls on the socket in `TcpAcceptor::init` and `TcpAcceptor::start`. -/
inductive AcceptorCall where
  | setNonblocking
  | setReuseAddr
  | bind
  | listen
  deriving DecidableEq

/-- What the number of the socket stands for: nothing, as `::socket` failed, no
descriptor at the moment, or an open one. -/
inductive Number where
  | invalid
  | free
  | taken
  deriving DecidableEq

/-- What `createFromText` does: it throws, or returns a value with the result of
`::socket`. -/
inductive Created where
  | threw
  | failed
  | made
  deriving DecidableEq

/-- Where the constructor is: in front of `createFromText` or a call, at its
end, or left by an exception. -/
inductive Start where
  | create
  | calling (call : AcceptorCall) (number : Number)
  | constructed
  | thrown
  deriving DecidableEq

/-- A step of the constructor, or another part of the program that opens a
descriptor with the number of the socket or closes it. -/
inductive Label where
  | create (created : Created)
  | call (succeeds : Bool)
  | otherOpen
  | otherClose
  deriving DecidableEq

/-- The constructor behind a call that succeeded. -/
def AcceptorCall.behind (number : Number) : AcceptorCall → Start
  | .setNonblocking => .calling .setReuseAddr number
  | .setReuseAddr => .calling .bind number
  | .bind => .calling .listen number
  | .listen => .constructed

def step : Start → Label → Option Start
  | .create, .create .threw => some .thrown
  | .create, .create .failed => some (.calling .setNonblocking .invalid)
  -- the destructor of the returned value closed the descriptor
  | .create, .create .made => some (.calling .setNonblocking .free)
  | .calling _ _, .call false => some .thrown
  -- without an open descriptor every call fails
  | .calling call .taken, .call true => some (call.behind .taken)
  | .calling call .free, .otherOpen => some (.calling call .taken)
  | .calling call .taken, .otherClose => some (.calling call .free)
  | _, _ => none

def system : TransitionSystem Start Label := .ofStep (· = .create) step

/-! ## Without another thread -/

variable {start next : Start} {label : Label}

/-- The constructor did not get behind a call, and the number of the socket
stands for no descriptor. -/
def Start.Unopened : Start → Prop
  | .create => True
  | .calling call number => call = .setNonblocking ∧ number ≠ .taken
  | .constructed => False
  | .thrown => True

theorem Start.Unopened.step (hstart : start.Unopened)
    (hlabel : label ≠ .otherOpen)
    (hstep : ServiceStart.step start label = some next) : next.Unopened := by
  rw [ServiceStart.step.eq_def] at hstep
  split at hstep
  case h_1 | h_4 =>
    cases hstep
    trivial
  case h_2 | h_3 =>
    cases hstep
    exact ⟨rfl, by simp⟩
  case h_5 => exact absurd rfl hstart.2
  case h_6 => exact absurd rfl hlabel
  case h_7 => exact absurd rfl hstart.2
  case h_8 => cases hstep

/-- As long as no other part of the program gets the number of the socket, the
constructor does not end but by an exception. -/
theorem unopened_of_run {labels : List Label}
    (hrun : system.Run .create labels start)
    (hnone : .otherOpen ∉ labels) : start.Unopened := by
  refine hrun.preserves (· ≠ .otherOpen) Start.Unopened ?_ ?_ trivial
  · exact fun before label after hlabel hbefore hstep =>
      hbefore.step hlabel hstep
  · rintro label hmem rfl
    exact hnone hmem

/-- What the constructor does when nothing else happens. -/
example : execute step .create [.create .made, .call false] = some .thrown :=
  rfl

/-! ## The descriptors behind the number -/

variable {Name : Type*} [DecidableEq Name]
variable {sockets following : SocketMain.State Name} {sock returned : Name}

omit [DecidableEq Name] in
/-- What a number stands for among the descriptors of the program. -/
def numberOf (sockets : SocketMain.State Name) (fd : ℤ) : Number :=
  if fd < 0 then .invalid
  else if (sockets.table fd).isSome then .taken
  else .free

/-- The number of the member `sock` is what the constructor has it to be. -/
def Represents (sockets : SocketMain.State Name) (sock : Name)
    (number : Number) : Prop :=
  ∃ value, sockets.values sock = some value ∧
    numberOf sockets value.m_fd = number

/-- After the operations of `init` the member has the number that `::socket`
returned. -/
theorem values_of_acceptorInit (hother : sock ≠ returned) {fd : ℤ}
    (hinit : execute SocketMain.step sockets
      (SocketMain.acceptorInit sock returned fd) = some following) :
    ∃ value, following.values sock = some value ∧ value.m_fd = fd := by
  obtain ⟨created, hcreate, hrest⟩ := Option.bind_eq_some_iff.mp hinit
  obtain ⟨assigned, hassign, hrest⟩ := Option.bind_eq_some_iff.mp hrest
  obtain ⟨destroyed, hdestroy, hdone⟩ := Option.bind_eq_some_iff.mp hrest
  cases hdone
  obtain ⟨middle, value, hsocket, hcases⟩ :=
    SocketMain.createFromText_cases hcreate
  have hnumber : value.m_fd = fd := by
    rcases SocketMain.socket_cases hsocket with
      ⟨rfl, -, rfl⟩ | ⟨-, -, -, -, rfl⟩
    · rfl
    · rfl
  rcases hcases with ⟨-, hconstruct⟩ | ⟨⟨⟩, -⟩
  obtain ⟨-, rfl⟩ := SocketMain.construct_cases hconstruct
  obtain ⟨copied, hcopied, rfl⟩ := SocketMain.assign_cases hassign
  dsimp only at hcopied
  rw [Function.update_self, Option.some.injEq] at hcopied
  subst hcopied
  refine ⟨value, ?_, hnumber⟩
  obtain ⟨gone, -, hclose⟩ := SocketMain.destroy_cases hdestroy
  rcases hclose with ⟨-, rfl⟩ | ⟨descriptor, -, rfl⟩
  · dsimp only
    rw [Function.update_of_ne hother, Function.update_self]
  · dsimp only
    rw [Function.update_of_ne hother, Function.update_self]

omit [DecidableEq Name] in
theorem socket_failed_or_issued {sock : ℤ} {value : SocketMain.Value}
    (hsocket : sockets.socket sock = some (following, value)) :
    sock = -1 ∨ 0 ≤ sock := by
  rcases SocketMain.socket_cases hsocket with ⟨hfailed, -⟩ | ⟨-, hissued, -⟩
  · exact .inl hfailed
  · exact .inr hissued

omit [DecidableEq Name] in
theorem numberOf_of_closed {fd : ℤ} (hfd : 0 ≤ fd)
    (hclosed : sockets.table fd = none) : numberOf sockets fd = .free := by
  rw [numberOf, if_neg (Int.not_lt.mpr hfd), hclosed]
  rfl

omit [DecidableEq Name] in
theorem numberOf_of_open {fd : ℤ} (hfd : 0 ≤ fd)
    {descriptor : SocketMain.Descriptor}
    (hopen : sockets.table fd = some descriptor) :
    numberOf sockets fd = .taken := by
  rw [numberOf, if_neg (Int.not_lt.mpr hfd), hopen]
  rfl

omit [DecidableEq Name] in
theorem numberOf_of_negative {fd : ℤ} (hfd : fd < 0) :
    numberOf sockets fd = .invalid := by
  rw [numberOf, if_pos hfd]

omit [DecidableEq Name] in
/-- A change elsewhere in the table is nothing to a number. -/
theorem numberOf_setTable {fd other : ℤ}
    {entry : Option SocketMain.Descriptor} (hother : other ≠ fd) :
    numberOf { sockets with
      table := Function.update sockets.table fd entry } other =
        numberOf sockets other := by
  simp only [numberOf, Function.update_of_ne hother]

/-- `init` leads in front of the first call, and leaves no open descriptor
behind the number. -/
theorem represents_acceptorInit (hsockets : SocketMain.Consistent sockets)
    (hother : sock ≠ returned) {fd : ℤ}
    (hinit : execute SocketMain.step sockets
      (SocketMain.acceptorInit sock returned fd) = some following) :
    ∃ created number, step .create (.create created) =
        some (.calling .setNonblocking number) ∧
      Represents following sock number := by
  obtain ⟨value, hvalue, hnumber⟩ := values_of_acceptorInit hother hinit
  obtain ⟨created, hcreate, -⟩ := Option.bind_eq_some_iff.mp hinit
  obtain ⟨middle, held, hsocket, -⟩ := SocketMain.createFromText_cases hcreate
  rcases socket_failed_or_issued hsocket with hfailed | hissued
  · refine ⟨.failed, .invalid, rfl, value, hvalue, ?_⟩
    rw [hnumber, hfailed]
    exact numberOf_of_negative (by decide)
  · have hclosed : following.table fd = none := by
      refine (SocketMain.acceptorInit_closes hsockets ?_ hinit).1
      rintro rfl
      exact absurd hissued (by decide)
    refine ⟨.made, .free, rfl, value, hvalue, ?_⟩
    rw [hnumber]
    exact numberOf_of_closed hissued hclosed

/-- Another part of the program that opens a descriptor leaves the constructor
alone or gets the number of the socket. -/
theorem Represents.otherOpen {fd : ℤ} {number : Number} (call : AcceptorCall)
    (hrepresents : Represents sockets sock number)
    (hstep : SocketMain.step sockets (.otherOpen fd) = some following) :
    ∃ number', (number' = number ∨
        step (.calling call number) .otherOpen =
          some (.calling call number')) ∧
      Represents following sock number' := by
  obtain ⟨⟨hissued, hfree⟩, ⟨⟩⟩ := Option.ite_none_right_eq_some.mp hstep
  obtain ⟨value, hvalue, rfl⟩ := hrepresents
  by_cases hsame : value.m_fd = fd
  · subst hsame
    rw [numberOf_of_closed hissued hfree]
    refine ⟨.taken, .inr rfl, value, hvalue, ?_⟩
    exact numberOf_of_open hissued (Function.update_self ..)
  · exact ⟨_, .inl rfl, value, hvalue, numberOf_setTable hsame⟩

/-- One that closes a descriptor of its own leaves the constructor alone or
closes the one with the number of the socket. -/
theorem Represents.otherClose {fd : ℤ} {number : Number} (call : AcceptorCall)
    (hrepresents : Represents sockets sock number)
    (hstep : SocketMain.step sockets (.otherClose fd) = some following) :
    ∃ number', (number' = number ∨
        step (.calling call number) .otherClose =
          some (.calling call number')) ∧
      Represents following sock number' := by
  obtain ⟨hopen, ⟨⟩⟩ := Option.ite_none_right_eq_some.mp hstep
  obtain ⟨value, hvalue, rfl⟩ := hrepresents
  by_cases hsame : value.m_fd = fd
  · subst hsame
    by_cases hnegative : value.m_fd < 0
    · refine ⟨_, .inl rfl, value, hvalue, ?_⟩
      rw [numberOf_of_negative hnegative, numberOf_of_negative hnegative]
    · have hissued : 0 ≤ value.m_fd := Int.not_lt.mp hnegative
      rw [numberOf_of_open hissued hopen]
      refine ⟨.free, .inr rfl, value, hvalue, ?_⟩
      exact numberOf_of_closed hissued (Function.update_self ..)
  · exact ⟨_, .inl rfl, value, hvalue, numberOf_setTable hsame⟩

/-- Any other part of the program can get the number while it is free. -/
theorem Represents.exists_otherOpen
    (hrepresents : Represents sockets sock .free) :
    ∃ fd following,
      SocketMain.step sockets (.otherOpen fd) = some following ∧
        Represents following sock .taken := by
  obtain ⟨value, hvalue, hnumber⟩ := hrepresents
  rw [numberOf] at hnumber
  split at hnumber
  case isTrue => cases hnumber
  case isFalse hnonneg =>
    split at hnumber
    case isTrue => cases hnumber
    case isFalse hclosed =>
      have hissued : 0 ≤ value.m_fd := Int.not_lt.mp hnonneg
      have hfree : sockets.table value.m_fd = none :=
        Option.not_isSome_iff_eq_none.mp hclosed
      refine ⟨value.m_fd, _, if_pos ⟨hissued, hfree⟩, value, hvalue, ?_⟩
      exact numberOf_of_open hissued (Function.update_self ..)

/-- What happens to the descriptors from `init` on, until the constructor makes
its first call, is a run of the constructor. -/
theorem exists_run_of_acceptorInit (hsockets : SocketMain.Consistent sockets)
    (hother : sock ≠ returned) {fd : ℤ}
    {others : List (SocketMain.Label Name)}
    (hothers : ∀ label ∈ others, ∃ fd,
      label = .otherOpen fd ∨ label = .otherClose fd)
    (hexecute : execute SocketMain.step sockets
      (SocketMain.acceptorInit sock returned fd ++ others) = some following) :
    ∃ labels number,
      system.Run .create labels (.calling .setNonblocking number) ∧
        Represents following sock number := by
  induction others using List.reverseRecOn generalizing following with
  | nil =>
      rw [List.append_nil] at hexecute
      obtain ⟨created, number, hstep, hrepresents⟩ :=
        represents_acceptorInit hsockets hother hexecute
      exact ⟨[.create created], number, .cons hstep (.nil _), hrepresents⟩
  | append_singleton others label ih =>
      rw [← List.append_assoc, execute_append] at hexecute
      obtain ⟨middle, hmiddle, hlast⟩ := Option.bind_eq_some_iff.mp hexecute
      obtain ⟨labels, number, hrun, hrepresents⟩ :=
        ih (fun label hlabel =>
          hothers label (List.mem_append_left _ hlabel)) hmiddle
      obtain ⟨after, hstep, hdone⟩ := Option.bind_eq_some_iff.mp hlast
      cases hdone
      obtain ⟨fd, rfl | rfl⟩ := hothers label (by simp)
      · obtain ⟨number', rfl | hnext, hafter⟩ :=
          hrepresents.otherOpen .setNonblocking hstep
        · exact ⟨labels, number', hrun, hafter⟩
        · exact ⟨_, number', hrun.concat hnext, hafter⟩
      · obtain ⟨number', rfl | hnext, hafter⟩ :=
          hrepresents.otherClose .setNonblocking hstep
        · exact ⟨labels, number', hrun, hafter⟩
        · exact ⟨_, number', hrun.concat hnext, hafter⟩

end Sensor.ServiceStart
