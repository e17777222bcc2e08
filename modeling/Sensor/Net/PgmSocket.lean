import Mathlib

/-!
# Creating a PGM socket

`create_pgm_socket` makes a dozen calls of the PGM library, most of which must
succeed, and cleans up behind a loop that it leaves by `break`.  The answers of
the library are a parameter; a run leaves a log of what was made and released.
-/

namespace Sensor.PgmSocket

/-- The answer of a call that may make an error object when it fails. -/
inductive Answer where
  | success
  | failure (error : Bool)
  deriving DecidableEq

/-- What the library answers during one call of `create_pgm_socket`. -/
structure Library where
  getaddrinfo : Answer
  /-- `ai_recv_addrs_len`. -/
  recvAddrsLen : ℕ
  socket : Answer
  encapUcastPort : Bool
  encapMcastPort : Bool
  gsiCreateFromData : Bool
  bind3 : Answer
  /-- `PGM_JOIN_GROUP` for the receive address at an index. -/
  joinGroup : ℕ → Bool
  sendGroup : Bool
  connect : Answer

inductive Event where
  | newAddrinfo
  | newError
  | newSocket
  | joinGroup (index : ℕ)
  | errorFree
  | freeaddrinfo
  | close
  deriving DecidableEq

/-- The variables the clean-up looks at; pointers are whether they are set. -/
structure Variables where
  log : List Event
  error : Bool
  sockInit : Bool
  pgmError : Bool
  addrinfo : Bool
  sock : Bool

def start : Variables where
  log := []
  error := true
  sockInit := false
  pgmError := false
  addrinfo := false
  sock := false

/-- A failed call leaves its error object, if it made one, in `pgm_error`. -/
def Variables.fail (self : Variables) (error : Bool) : Variables :=
  { self with
    log := self.log ++ if error then [.newError] else []
    pgmError := error }

/-- What follows the loop. -/
def Variables.cleanUp (self : Variables) : List Event × Bool :=
  (self.log ++
    (if self.pgmError then [.errorFree] else []) ++
    (if self.addrinfo then [.freeaddrinfo] else []) ++
    (if self.error && self.sockInit then [.close] else []),
    if self.error && self.sockInit then false else self.sock)

section

variable (library : Library) (encap : Bool)

/-- The loop over the receive addresses from `index` on; its `break` leaves
only this loop. -/
def joinGroups : (remaining index : ℕ) → List Event
  | 0, _ => []
  | remaining + 1, index =>
      .joinGroup index ::
        if library.joinGroup index then joinGroups remaining (index + 1) else []

/-- The outer loop, which is run once and left by `break`. -/
def attempt : Variables :=
  match library.getaddrinfo with
  | .failure error => start.fail error
  | .success =>
      let resolved := { start with log := [.newAddrinfo], addrinfo := true }
      match library.socket with
      | .failure error => resolved.fail error
      | .success =>
          let created := { resolved with
            log := resolved.log ++ [.newSocket]
            sockInit := true
            sock := true }
          if encap = true ∧
              ¬ (library.encapUcastPort = true ∧
                library.encapMcastPort = true) then created
          else if ¬ library.gsiCreateFromData = true then created
          else
            match library.bind3 with
            | .failure error => created.fail error
            | .success =>
                let joined := { created with
                  log := created.log ++
                    joinGroups library library.recvAddrsLen 0 }
                if ¬ library.sendGroup = true then joined
                else
                  match library.connect with
                  | .failure error => joined.fail error
                  | .success => { joined with error := false }

/-- The log of the whole call, and whether a socket is returned. -/
def createPgmSocket : List Event × Bool :=
  (attempt library encap).cleanUp

/-- Every step but joining the groups succeeds. -/
structure Otherwise : Prop where
  getaddrinfo : library.getaddrinfo = .success
  socket : library.socket = .success
  ports : encap = true →
    library.encapUcastPort = true ∧ library.encapMcastPort = true
  gsi : library.gsiCreateFromData = true
  bind3 : library.bind3 = .success
  sendGroup : library.sendGroup = true
  connect : library.connect = .success

/-- Every receive group is joined. -/
def JoinsAll : Prop :=
  ∀ index, index < library.recvAddrsLen → library.joinGroup index = true

end

/-- Every mandatory step succeeds and a socket that was made is returned, or a
step fails, nothing is returned and a socket that was made is closed once; the
address info and the error object are freed once if they were made. -/
structure AllOrNothing (Succeeds : Prop) (run : List Event × Bool) : Prop where
  all : Succeeds → run.2 = true ∧ run.1.count .close = 0
  nothing : ¬ Succeeds → run.2 = false ∧
    run.1.count .close = run.1.count .newSocket
  errorFreed : run.1.count .errorFree = run.1.count .newError
  addrinfoFreed : run.1.count .freeaddrinfo = run.1.count .newAddrinfo
  made : run.1.count .newSocket ≤ 1 ∧ run.1.count .newError ≤ 1 ∧
    run.1.count .newAddrinfo ≤ 1

/-! ## The variables say what was made -/

/-- The log and the variables agree, and nothing was released yet. -/
structure Tracks (left : Variables) : Prop where
  addrinfo : left.log.count .newAddrinfo = left.addrinfo.toNat
  error : left.log.count .newError = left.pgmError.toNat
  socket : left.log.count .newSocket = left.sockInit.toNat
  sock : left.sock = left.sockInit
  kept : left.log.count .errorFree = 0 ∧ left.log.count .freeaddrinfo = 0 ∧
    left.log.count .close = 0

section

variable {library : Library} {encap : Bool} {left : Variables}

theorem Tracks.fail (htracks : Tracks left) (hnone : left.pgmError = false)
    (error : Bool) : Tracks (left.fail error) := by
  have herror := htracks.error
  rw [hnone] at herror
  cases error with
  | false =>
    have hlog : (left.fail false).log = left.log := List.append_nil _
    constructor
    · rw [hlog]
      exact htracks.addrinfo
    · rw [hlog]
      exact herror
    · rw [hlog]
      exact htracks.socket
    · exact htracks.sock
    · rw [hlog]
      exact htracks.kept
  | true =>
    have hlog : (left.fail true).log = left.log ++ [.newError] := rfl
    have hother {event : Event} (hevent : event ≠ .newError) :
        (left.fail true).log.count event = left.log.count event := by
      rw [hlog, List.count_append, List.count_singleton,
        if_neg (by simpa using hevent.symm), Nat.add_zero]
    constructor
    · rw [hother (by decide)]
      exact htracks.addrinfo
    · rw [hlog, List.count_append, herror]
      rfl
    · rw [hother (by decide)]
      exact htracks.socket
    · exact htracks.sock
    · rw [hother (by decide), hother (by decide), hother (by decide)]
      exact htracks.kept

/-- The loop over the groups makes and releases nothing. -/
theorem count_joinGroups {event : Event} {remaining index : ℕ}
    (hevent : ∀ index, event ≠ .joinGroup index) :
    (joinGroups library remaining index).count event = 0 := by
  rw [List.count_eq_zero]
  induction remaining generalizing index with
  | zero => exact List.not_mem_nil
  | succ remaining ih =>
    rw [joinGroups, List.mem_cons, not_or]
    refine ⟨hevent index, ?_⟩
    split
    case isTrue => exact ih
    case isFalse => exact List.not_mem_nil

/-- Joining the groups does not disturb the account. -/
theorem Tracks.joined (htracks : Tracks left) {remaining index : ℕ} :
    Tracks { left with
      log := left.log ++ joinGroups library remaining index } := by
  have hcount {event : Event} (hevent : ∀ index, event ≠ .joinGroup index) :
      (left.log ++ joinGroups library remaining index).count event =
        left.log.count event := by
    rw [List.count_append, count_joinGroups hevent, Nat.add_zero]
  constructor
  · exact (hcount fun _ => by simp).trans htracks.addrinfo
  · exact (hcount fun _ => by simp).trans htracks.error
  · exact (hcount fun _ => by simp).trans htracks.socket
  · exact htracks.sock
  · rw [hcount fun _ => by simp, hcount fun _ => by simp,
      hcount fun _ => by simp]
    exact htracks.kept

theorem Tracks.done (htracks : Tracks left) :
    Tracks { left with error := false } where
  addrinfo := htracks.addrinfo
  error := htracks.error
  socket := htracks.socket
  sock := htracks.sock
  kept := htracks.kept

theorem tracks_start : Tracks start := by
  constructor <;> decide

theorem tracks_resolved :
    Tracks { start with log := [.newAddrinfo], addrinfo := true } := by
  constructor <;> decide

theorem tracks_created : Tracks { start with
    log := [.newAddrinfo, .newSocket]
    addrinfo := true
    sockInit := true
    sock := true } := by
  constructor <;> decide

/-- At every `break` the variables say what was made. -/
theorem tracks_attempt : Tracks (attempt library encap) := by
  rw [attempt]
  cases library.getaddrinfo with
  | failure error => exact tracks_start.fail rfl error
  | success =>
    cases library.socket with
    | failure error => exact tracks_resolved.fail rfl error
    | success =>
      dsimp only
      split
      case isTrue => exact tracks_created
      case isFalse =>
        split
        case isTrue => exact tracks_created
        case isFalse =>
          cases library.bind3 with
          | failure error => exact tracks_created.fail rfl error
          | success =>
            dsimp only
            split
            case isTrue => exact tracks_created.joined
            case isFalse =>
              cases library.connect with
              | failure error => exact tracks_created.joined.fail rfl error
              | success => exact tracks_created.joined.done

/-- When every step but joining the groups succeeds, the loop ends without an
error and a socket is made. -/
theorem attempt_of_otherwise (hsucceeds : Otherwise library encap) :
    (attempt library encap).error = false ∧
      (attempt library encap).sockInit = true := by
  have hports : ¬ (encap = true ∧ ¬ (library.encapUcastPort = true ∧
      library.encapMcastPort = true)) := fun hfailed =>
    hfailed.2 (hsucceeds.ports hfailed.1)
  rw [attempt, hsucceeds.getaddrinfo, hsucceeds.socket]
  dsimp only
  rw [if_neg hports, if_neg (not_not.mpr hsucceeds.gsi), hsucceeds.bind3]
  dsimp only
  rw [if_neg (not_not.mpr hsucceeds.sendGroup), hsucceeds.connect]
  exact ⟨rfl, rfl⟩

/-- The loop ends without an error only then. -/
theorem error_attempt_iff :
    (attempt library encap).error = false ↔ Otherwise library encap := by
  constructor
  · intro herror
    rw [attempt] at herror
    cases hgetaddrinfo : library.getaddrinfo with
    | failure error => simp [hgetaddrinfo, start, Variables.fail] at herror
    | success =>
      cases hsocket : library.socket with
      | failure error =>
        simp [hgetaddrinfo, hsocket, start, Variables.fail] at herror
      | success =>
        simp only [hgetaddrinfo, hsocket] at herror
        split at herror
        case isTrue => simp [start] at herror
        case isFalse hports =>
          split at herror
          case isTrue => simp [start] at herror
          case isFalse hgsi =>
            cases hbind : library.bind3 with
            | failure error =>
              simp [hbind, start, Variables.fail] at herror
            | success =>
              simp only [hbind] at herror
              split at herror
              case isTrue => simp [start] at herror
              case isFalse hsend =>
                cases hconnect : library.connect with
                | failure error =>
                  simp [hconnect, start, Variables.fail] at herror
                | success =>
                  rw [not_and, not_not] at hports
                  rw [not_not] at hgsi hsend
                  exact ⟨hgetaddrinfo, hsocket, hports, hgsi, hbind, hsend,
                    hconnect⟩
  · exact fun hsucceeds => (attempt_of_otherwise hsucceeds).1

/-- An attempt without an error made a socket. -/
theorem sockInit_attempt (herror : (attempt library encap).error = false) :
    (attempt library encap).sockInit = true :=
  (attempt_of_otherwise (error_attempt_iff.mp herror)).2

/-! ## The clean-up -/

/-- The clean-up releases each thing that was made, the socket unless there was
no error. -/
theorem Tracks.count_cleanUp (htracks : Tracks left) :
    left.cleanUp.1.count .newAddrinfo = left.addrinfo.toNat ∧
    left.cleanUp.1.count .newError = left.pgmError.toNat ∧
    left.cleanUp.1.count .newSocket = left.sockInit.toNat ∧
    left.cleanUp.1.count .freeaddrinfo = left.addrinfo.toNat ∧
    left.cleanUp.1.count .errorFree = left.pgmError.toNat ∧
    left.cleanUp.1.count .close = (left.error && left.sockInit).toNat := by
  obtain ⟨haddrinfo, herror, hsocket, -, herrorFree, hfree, hclose⟩ := htracks
  simp only [Variables.cleanUp, List.count_append, haddrinfo, herror, hsocket,
    herrorFree, hfree, hclose]
  cases left.pgmError <;> cases left.addrinfo <;>
    cases left.error && left.sockInit <;> simp

/-- The clean-up is right for the steps whose failure the loop noticed. -/
theorem Tracks.allOrNothing (htracks : Tracks left)
    (hinit : left.error = false → left.sockInit = true) :
    AllOrNothing (left.error = false) left.cleanUp := by
  obtain ⟨haddrinfo, herror, hsocket, hfree, herrorFree, hclose⟩ :=
    htracks.count_cleanUp
  constructor
  · intro hnoError
    rw [hclose, Variables.cleanUp, hnoError, htracks.sock, hinit hnoError]
    exact ⟨rfl, rfl⟩
  · intro hsome
    rw [Bool.not_eq_false] at hsome
    rw [hclose, hsocket, Variables.cleanUp, hsome, htracks.sock]
    cases left.sockInit with
    | false => exact ⟨rfl, rfl⟩
    | true => exact ⟨rfl, rfl⟩
  · rw [herrorFree, herror]
  · rw [hfree, haddrinfo]
  · rw [hsocket, herror, haddrinfo]
    exact ⟨Bool.toNat_le _, Bool.toNat_le _, Bool.toNat_le _⟩

/-- A call is all or nothing as far as the steps other than joining the groups
go. -/
theorem allOrNothing_otherwise (library : Library) (encap : Bool) :
    AllOrNothing (Otherwise library encap)
      (createPgmSocket library encap) := by
  rw [← error_attempt_iff]
  exact tracks_attempt.allOrNothing sockInit_attempt

/-- A call is all or nothing unless only the joining of a receive group
fails. -/
theorem createPgmSocket_allOrNothing_iff (library : Library) (encap : Bool) :
    AllOrNothing (Otherwise library encap ∧ JoinsAll library)
        (createPgmSocket library encap) ↔
      ¬ (Otherwise library encap ∧ ¬ JoinsAll library) := by
  have hother := allOrNothing_otherwise library encap
  constructor
  · rintro hall ⟨hsucceeds, hjoin⟩
    have hreturned := (hother.all hsucceeds).1
    rw [(hall.nothing fun hboth => hjoin hboth.2).1] at hreturned
    exact Bool.noConfusion hreturned
  · intro hjoin
    rw [not_and, not_not] at hjoin
    constructor
    · intro hboth
      exact hother.all hboth.1
    · intro hfails
      exact hother.nothing fun hsucceeds =>
        hfails ⟨hsucceeds, hjoin hsucceeds⟩
    · exact hother.errorFreed
    · exact hother.addrinfoFreed
    · exact hother.made

end

/-- The second of two receive groups cannot be joined. -/
def halfJoined : Library where
  getaddrinfo := .success
  recvAddrsLen := 2
  socket := .success
  encapUcastPort := true
  encapMcastPort := true
  gsiCreateFromData := true
  bind3 := .success
  joinGroup := fun index => index = 0
  sendGroup := true
  connect := .success

/-- The socket is returned all the same. -/
theorem halfJoined_returned :
    ¬ AllOrNothing (Otherwise halfJoined true ∧ JoinsAll halfJoined)
      (createPgmSocket halfJoined true) := by
  intro hall
  have hfails : ¬ (Otherwise halfJoined true ∧ JoinsAll halfJoined) := by
    intro hboth
    exact absurd (hboth.2 1 (by decide)) (by decide)
  exact absurd (hall.nothing hfails).1 (by decide)

end Sensor.PgmSocket
