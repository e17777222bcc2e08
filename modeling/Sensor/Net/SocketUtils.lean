import Mathlib

/-!
# Sockets for servers and connections

The helpers of `socket_utils.c` that create a socket and bind or connect it,
with every outcome of the system calls they make.  A run leaves a log of what
was opened, closed and freed.
-/

namespace Sensor.SocketUtils

/-- The outcomes of `bind` and `connect`. -/
inductive Outcome where
  | success
  | failure
  deriving DecidableEq

def Outcome.rc : Outcome → ℤ
  | success => 0
  | failure => -1

/-- What the system answers during one call of a helper. -/
structure Host where
  getaddrinfo : ℤ
  /-- `ai_addrlen` of the list `getaddrinfo` makes. -/
  addrlen : ℕ
  /-- The descriptor, or nothing for -1. -/
  socket : Option ℕ
  bind : Outcome
  /-- The outcome for a length of the address. -/
  connect : ℕ → Outcome
  /-- `errno` behind `connect`: left by an earlier call if `connect` succeeds. -/
  errno : ℤ

/-- What the pointer `result` holds. -/
inductive Addrinfo where
  | uninitialised
  | produced
  deriving DecidableEq

inductive Event where
  | socket (sock : ℕ)
  | setNonblocking (sock : ℕ)
  | bind (sock : ℕ)
  | connect (sock len : ℕ)
  | close (sock : ℕ)
  | freeaddrinfo (result : Addrinfo)
  deriving DecidableEq

def eINTR : ℤ := 4

def eINPROGRESS : ℤ := 115

namespace Host

variable (host : Host) (isNonblock : Bool)

/-- `result` behind `getaddrinfo`, which only sets it when it succeeds. -/
def result : Addrinfo :=
  if host.getaddrinfo = 0 then .produced else .uninitialised

/-- The loop of `create_socket_server`; its socket is a variable of its own. -/
def serverLoop : List Event :=
  if host.getaddrinfo ≠ 0 then []
  else
    match host.socket with
    | none => []
    | some sock =>
        .socket sock :: .bind sock ::
          if host.bind.rc ≠ 1 then [.close sock] else []

/-- The log, and the outer `sock`, which nothing assigns to. -/
def createSocketServer : List Event × ℤ :=
  (host.serverLoop ++ [.freeaddrinfo host.result], -1)

/-- The test behind `connect`. -/
def goesOn : Bool :=
  host.errno = eINPROGRESS ∧ isNonblock = true ∨ host.errno = eINTR

def setNonblock (sock : ℕ) : List Event :=
  if isNonblock then [.setNonblocking sock] else []

/-- The loop of `create_tcp_connect`; its socket is a variable of its own. -/
def tcpLoop : List Event :=
  if host.getaddrinfo ≠ 0 then []
  else
    match host.socket with
    | none => []
    | some sock =>
        .socket sock :: setNonblock isNonblock sock ++
          .connect sock host.addrlen ::
            if (host.connect host.addrlen).rc ≠ 1 then
              if ¬ host.goesOn isNonblock then [.close sock] else []
            else []

/-- The log, and the outer `sock`, which nothing assigns to. -/
def createTcpConnect : List Event × ℤ :=
  (host.tcpLoop isNonblock ++ [.freeaddrinfo host.result], -1)

/-- The switch over `ss_family`. -/
def inetLength (family : ℤ) : ℕ :=
  if family = 2 then 16 else if family = 10 then 28 else 0

def createInetConnect (family : ℤ) : List Event × ℤ :=
  let len := inetLength family
  match host.socket with
  | none => ([], -1)
  | some sock =>
      let log := .socket sock :: setNonblock isNonblock sock ++
        [.connect sock len]
      if (host.connect len).rc ≠ 1 then
        if ¬ host.goesOn isNonblock then (log ++ [.close sock], -1)
        else (log, sock)
      else (log, sock)

end Host

/-! ## What a helper should do -/

/-- The descriptors that were opened and not closed, the last one first. -/
def openDescriptors (log : List Event) : List ℕ :=
  log.foldl (fun descriptors event =>
    match event with
    | .socket sock => sock :: descriptors
    | .close sock => descriptors.erase sock
    | _ => descriptors) []

/-- The helper returns the descriptor, the only one it leaves open, if it is
ready for use, and otherwise -1 and leaves nothing open; it frees no list that
`getaddrinfo` did not make. -/
structure Usable (host : Host) (Ready : Prop) (run : List Event × ℤ) :
    Prop where
  ready : Ready → ∃ sock, host.socket = some sock ∧ run.2 = sock ∧
    openDescriptors run.1 = [sock]
  nothing : ¬ Ready → run.2 = -1 ∧ openDescriptors run.1 = []
  freed : ∀ result, .freeaddrinfo result ∈ run.1 → result = .produced

namespace Host

variable (host : Host) (isNonblock : Bool)

def Bound : Prop :=
  host.getaddrinfo = 0 ∧ host.socket ≠ none ∧ host.bind = .success

/-- The connection is made, or a non-blocking attempt goes on; whether an
attempt that a signal interrupted counts as one that goes on is left open. -/
def Connected (interruptedGoesOn : Prop) (len : ℕ) : Prop :=
  host.socket ≠ none ∧ (host.connect len = .success ∨
    host.errno = eINPROGRESS ∧ isNonblock = true ∨
    host.errno = eINTR ∧ interruptedGoesOn)

end Host

section

variable {host : Host} {isNonblock : Bool}

theorem rc_ne_one (outcome : Outcome) : outcome.rc ≠ 1 := by
  cases outcome <;> decide

/-- A list may be freed just when `getaddrinfo` made it. -/
theorem result_eq_produced_iff :
    host.result = .produced ↔ host.getaddrinfo = 0 := by
  rw [Host.result]
  split
  case isTrue hzero => exact iff_of_true rfl hzero
  case isFalse hfailed => exact iff_of_false (by decide) hfailed

@[simp]
theorem openDescriptors_freeaddrinfo {log : List Event} {result : Addrinfo} :
    openDescriptors (log ++ [.freeaddrinfo result]) = openDescriptors log := by
  rw [openDescriptors, List.foldl_append]
  rfl

theorem openDescriptors_close {sock : ℕ} {log : List Event}
    (hlog : openDescriptors log = [sock]) :
    openDescriptors (log ++ [.close sock]) = [] := by
  rw [openDescriptors] at hlog ⊢
  rw [List.foldl_append, hlog]
  simp

/-- What `create_tcp_connect` and `create_inet_connect` do up to `connect`
opens one descriptor. -/
theorem openDescriptors_attempt {sock len : ℕ} :
    openDescriptors (.socket sock :: Host.setNonblock isNonblock sock ++
      [.connect sock len]) = [sock] := by
  cases isNonblock <;> rfl

theorem freeaddrinfo_notMem_attempt {sock len : ℕ} {result : Addrinfo} :
    .freeaddrinfo result ∉ .socket sock :: Host.setNonblock isNonblock sock ++
      [.connect sock len] := by
  cases isNonblock <;> simp [Host.setNonblock]

/-- A helper that always returns -1 and frees `result` is right just where
`getaddrinfo` succeeds, nothing is ready and its loop leaves nothing open. -/
theorem usable_minusOne_iff {Ready : Prop} {loop : List Event}
    (hloop : ∀ result, .freeaddrinfo result ∉ loop) :
    Usable host Ready (loop ++ [.freeaddrinfo host.result], -1) ↔
      host.getaddrinfo = 0 ∧ ¬ Ready ∧ openDescriptors loop = [] := by
  constructor
  · intro husable
    have hproduced : host.getaddrinfo = 0 := by
      rw [← result_eq_produced_iff]
      exact husable.freed _ (List.mem_append_right _ List.mem_cons_self)
    have hnotReady : ¬ Ready := by
      intro hready
      obtain ⟨descriptor, -, hvalue, -⟩ := husable.ready hready
      have hnonneg := Int.natCast_nonneg descriptor
      rw [← hvalue] at hnonneg
      exact absurd hnonneg (show ¬ (0 : ℤ) ≤ -1 by decide)
    have hnone := (husable.nothing hnotReady).2
    rw [openDescriptors_freeaddrinfo] at hnone
    exact ⟨hproduced, hnotReady, hnone⟩
  · rintro ⟨hproduced, hnotReady, hnone⟩
    constructor
    · intro hready
      exact absurd hready hnotReady
    · intro _
      exact ⟨rfl, openDescriptors_freeaddrinfo.trans hnone⟩
    · intro result hmem
      rw [List.mem_append, List.mem_singleton] at hmem
      cases hmem with
      | inl hbefore => exact absurd hbefore (hloop result)
      | inr hfree =>
        rw [Event.freeaddrinfo.inj hfree, result_eq_produced_iff]
        exact hproduced

/-! ### Servers -/

/-- The server's socket is always closed. -/
theorem openDescriptors_serverLoop : openDescriptors host.serverLoop = [] := by
  rw [Host.serverLoop]
  split
  case isTrue => rfl
  case isFalse =>
    cases host.socket with
    | none => rfl
    | some sock => simp [rc_ne_one host.bind, openDescriptors]

theorem freeaddrinfo_notMem_serverLoop {result : Addrinfo} :
    .freeaddrinfo result ∉ host.serverLoop := by
  rw [Host.serverLoop]
  split
  case isTrue => exact List.not_mem_nil
  case isFalse =>
    cases host.socket with
    | none => exact List.not_mem_nil
    | some sock => simp [rc_ne_one host.bind]

/-- Only a server that cannot be made is reported properly. -/
theorem usable_createSocketServer_iff :
    Usable host host.Bound host.createSocketServer ↔
      host.getaddrinfo = 0 ∧ ¬ host.Bound := by
  rw [Host.createSocketServer,
    usable_minusOne_iff fun _ => freeaddrinfo_notMem_serverLoop,
    and_iff_left openDescriptors_serverLoop]

/-! ### Connections -/

theorem goesOn_iff : host.goesOn isNonblock = true ↔
    host.errno = eINPROGRESS ∧ isNonblock = true ∨ host.errno = eINTR :=
  decide_eq_true_iff

/-- A failed attempt that does not go on is no connection. -/
theorem not_connected {interruptedGoesOn : Prop} {len : ℕ}
    (hfailed : host.connect len = .failure)
    (hover : host.goesOn isNonblock = false) :
    ¬ host.Connected isNonblock interruptedGoesOn len := by
  have hnot : ¬ (host.errno = eINPROGRESS ∧ isNonblock = true ∨
      host.errno = eINTR) := by
    rw [← goesOn_iff, hover]
    exact Bool.false_ne_true
  rw [not_or] at hnot
  rintro ⟨-, hsuccess | hprogress | hinterrupted⟩
  · rw [hfailed] at hsuccess
    exact Outcome.noConfusion hsuccess
  · exact hnot.1 hprogress
  · exact hnot.2 hinterrupted.1

/-- The socket stays open when the test behind `connect` says that the attempt
goes on. -/
theorem openDescriptors_tcpLoop : openDescriptors (host.tcpLoop isNonblock) =
    if host.getaddrinfo = 0 ∧ host.goesOn isNonblock = true then
      host.socket.toList
    else [] := by
  rw [Host.tcpLoop]
  by_cases hproduced : host.getaddrinfo = 0
  · cases hsocket : host.socket with
    | none => simp [hproduced, openDescriptors]
    | some sock =>
      have hattempt := @openDescriptors_attempt isNonblock sock host.addrlen
      by_cases hgoesOn : host.goesOn isNonblock = true
      · simp only [hproduced, rc_ne_one, hgoesOn, ne_eq, not_true_eq_false,
          not_false_eq_true, if_true, if_false, and_self, Option.toList_some]
        exact hattempt
      · have hclosed := openDescriptors_close hattempt
        rw [List.append_assoc] at hclosed
        simp only [hproduced, rc_ne_one, hgoesOn, ne_eq, not_true_eq_false,
          not_false_eq_true, if_true, if_false]
        exact hclosed
  · simp [hproduced, openDescriptors]

theorem freeaddrinfo_notMem_tcpLoop {result : Addrinfo} :
    .freeaddrinfo result ∉ host.tcpLoop isNonblock := by
  rw [Host.tcpLoop]
  split
  case isTrue => exact List.not_mem_nil
  case isFalse =>
    cases host.socket with
    | none => exact List.not_mem_nil
    | some sock =>
      cases isNonblock <;> cases host.goesOn _ <;>
        simp [Host.setNonblock, rc_ne_one]

/-- Only a connection that cannot be made, without a left-over `errno` of an
attempt that goes on, is reported properly. -/
theorem usable_createTcpConnect_iff {interruptedGoesOn : Prop} :
    Usable host (host.getaddrinfo = 0 ∧
        host.Connected isNonblock interruptedGoesOn host.addrlen)
        (host.createTcpConnect isNonblock) ↔
      host.getaddrinfo = 0 ∧ (host.socket = none ∨
        host.connect host.addrlen = .failure ∧
          host.goesOn isNonblock = false) := by
  rw [Host.createTcpConnect,
    usable_minusOne_iff fun _ => freeaddrinfo_notMem_tcpLoop,
    openDescriptors_tcpLoop]
  refine and_congr_right fun hproduced => ?_
  simp only [hproduced, true_and]
  cases hsocket : host.socket with
  | none =>
    have hnotConnected :
        ¬ host.Connected isNonblock interruptedGoesOn host.addrlen :=
      fun hconnected => hconnected.1 hsocket
    exact iff_of_true ⟨hnotConnected, ite_self []⟩ (Or.inl rfl)
  | some sock =>
    rw [or_iff_right (Option.some_ne_none sock), Option.toList_some]
    constructor
    · rintro ⟨hnotConnected, hnone⟩
      have hover : ¬ host.goesOn isNonblock = true := by
        intro hgoesOn
        rw [if_pos hgoesOn] at hnone
        exact List.cons_ne_nil _ _ hnone
      refine ⟨?_, Bool.eq_false_iff.mpr hover⟩
      cases hconnect : host.connect host.addrlen with
      | failure => rfl
      | success =>
        have hsome : host.socket ≠ none := by
          rw [hsocket]
          exact Option.some_ne_none sock
        exact absurd ⟨hsome, Or.inl hconnect⟩ hnotConnected
    · rintro ⟨hfailed, hover⟩
      refine ⟨not_connected hfailed hover, ?_⟩
      rw [if_neg (by rw [hover]; exact Bool.false_ne_true)]

/-- What `create_inet_connect` leaves open is what it returns. -/
theorem createInetConnect_spec {family : ℤ} :
    (openDescriptors (host.createInetConnect isNonblock family).1 =
        if host.goesOn isNonblock = true then host.socket.toList else []) ∧
      (host.createInetConnect isNonblock family).2 =
        (if host.goesOn isNonblock = true then
          host.socket.elim (-1) (fun sock => (sock : ℤ)) else -1) ∧
      ∀ result, .freeaddrinfo result ∉
        (host.createInetConnect isNonblock family).1 := by
  rw [Host.createInetConnect]
  cases host.socket with
  | none => simp [openDescriptors]
  | some sock =>
    have hattempt := @openDescriptors_attempt isNonblock sock
      (Host.inetLength family)
    have hnotMem := @freeaddrinfo_notMem_attempt isNonblock sock
      (Host.inetLength family)
    by_cases hgoesOn : host.goesOn isNonblock = true
    · simp only [rc_ne_one, hgoesOn, ne_eq, not_true_eq_false,
        not_false_eq_true, if_true, if_false]
      exact ⟨hattempt, rfl, fun _ => hnotMem⟩
    · simp only [rc_ne_one, hgoesOn, ne_eq, not_false_eq_true, if_true,
        Bool.false_eq_true, if_false]
      refine ⟨openDescriptors_close hattempt, trivial, ?_⟩
      intro result hmem
      cases List.mem_append.mp hmem with
      | inl hbefore => exact hnotMem hbefore
      | inr hclose => simp at hclose

theorem usable_of_no_socket {Ready : Prop} {len : ℕ} {family : ℤ}
    (hnone : host.socket = none) :
    Usable host (host.Connected isNonblock Ready len)
      (host.createInetConnect isNonblock family) := by
  obtain ⟨hlog, hvalue, hfreed⟩ :=
    @createInetConnect_spec host isNonblock family
  constructor
  · intro hconnected
    exact absurd hnone hconnected.1
  · intro _
    rw [hlog, hvalue, hnone]
    simp
  · intro result hmem
    exact absurd hmem (hfreed result)

/-- With a socket the outcome depends on the test behind `connect` alone. -/
theorem usable_iff_of_socket {Ready : Prop} {family : ℤ} {sock : ℕ}
    (hsocket : host.socket = some sock) :
    Usable host Ready (host.createInetConnect isNonblock family) ↔
      (Ready ↔ host.goesOn isNonblock = true) := by
  obtain ⟨hlog, hvalue, hfreed⟩ :=
    @createInetConnect_spec host isNonblock family
  rw [hsocket] at hlog hvalue
  constructor
  · intro husable
    constructor
    · intro hready
      obtain ⟨descriptor, -, -, hopen⟩ := husable.ready hready
      by_contra hover
      rw [hlog, if_neg hover] at hopen
      exact List.cons_ne_nil _ _ hopen.symm
    · intro hgoesOn
      by_contra hnotReady
      have hnone := (husable.nothing hnotReady).2
      rw [hlog, if_pos hgoesOn] at hnone
      exact List.cons_ne_nil _ _ hnone
  · intro hiff
    constructor
    · intro hready
      have hgoesOn := hiff.mp hready
      rw [if_pos hgoesOn] at hlog hvalue
      exact ⟨sock, hsocket, hvalue, hlog⟩
    · intro hnotReady
      have hover := mt hiff.mpr hnotReady
      rw [if_neg hover] at hlog hvalue
      exact ⟨hvalue, hlog⟩
    · intro result hmem
      exact absurd hmem (hfreed result)

/-- A connection to an address is reported properly when there is no socket,
when it is made and a left-over `errno` keeps it open, and when the attempt
fails and, unless an interrupted attempt goes on, was not interrupted. -/
theorem usable_createInetConnect_iff {interruptedGoesOn : Prop} {family : ℤ} :
    Usable host
        (host.Connected isNonblock interruptedGoesOn (Host.inetLength family))
        (host.createInetConnect isNonblock family) ↔
      host.socket = none ∨
        host.connect (Host.inetLength family) = .success ∧
          host.goesOn isNonblock = true ∨
        host.connect (Host.inetLength family) = .failure ∧
          (host.errno = eINTR → interruptedGoesOn) := by
  cases hsocket : host.socket with
  | none => exact iff_of_true (usable_of_no_socket hsocket) (Or.inl rfl)
  | some sock =>
    rw [usable_iff_of_socket hsocket, or_iff_right (Option.some_ne_none sock),
      Host.Connected, goesOn_iff, hsocket,
      and_iff_right (Option.some_ne_none sock)]
    cases hconnect : host.connect (Host.inetLength family) with
    | success => simp
    | failure =>
      have hdistinct : eINTR ≠ eINPROGRESS := by decide
      by_cases hinterrupted : host.errno = eINTR
      · simp [hinterrupted, hdistinct]
      · simp [hinterrupted]

/-- The three helpers, for all answers of the system, whether or not an
interrupted attempt counts as one that goes on. -/
theorem usable_iff (host : Host) (isNonblock : Bool)
    (interruptedGoesOn : Prop) (family : ℤ) :
    (Usable host host.Bound host.createSocketServer ↔
      host.getaddrinfo = 0 ∧ ¬ host.Bound) ∧
    (Usable host (host.getaddrinfo = 0 ∧
        host.Connected isNonblock interruptedGoesOn host.addrlen)
        (host.createTcpConnect isNonblock) ↔
      host.getaddrinfo = 0 ∧ (host.socket = none ∨
        host.connect host.addrlen = .failure ∧
          host.goesOn isNonblock = false)) ∧
    (Usable host
        (host.Connected isNonblock interruptedGoesOn (Host.inetLength family))
        (host.createInetConnect isNonblock family) ↔
      host.socket = none ∨
        host.connect (Host.inetLength family) = .success ∧
          host.goesOn isNonblock = true ∨
        host.connect (Host.inetLength family) = .failure ∧
          (host.errno = eINTR → interruptedGoesOn)) := by
  constructor
  · exact usable_createSocketServer_iff
  constructor
  · exact usable_createTcpConnect_iff
  · exact usable_createInetConnect_iff

end

/-- Every call succeeds, and no earlier one failed. -/
def willingHost : Host where
  getaddrinfo := 0
  addrlen := 16
  socket := some 3
  bind := .success
  connect := fun _ => .success
  errno := 0

/-- No helper returns the descriptor it made. -/
theorem willingHost_not_usable :
    ¬ Usable willingHost willingHost.Bound willingHost.createSocketServer ∧
    ¬ Usable willingHost (willingHost.getaddrinfo = 0 ∧
        willingHost.Connected true False willingHost.addrlen)
        (willingHost.createTcpConnect true) ∧
    ¬ Usable willingHost
        (willingHost.Connected true False (Host.inetLength 2))
        (willingHost.createInetConnect true 2) := by
  rw [usable_createSocketServer_iff, usable_createTcpConnect_iff,
    usable_createInetConnect_iff]
  simp [willingHost, Host.Bound, Host.goesOn, eINPROGRESS, eINTR]

end Sensor.SocketUtils
