import Sensor.Core.Overwriting
import Sensor.Frontend.Sensord

/-!
# The arguments of the daemon

`arguments.c` assigns the fields of `struct arguments` their defaults and what
the command line says.  The variable is not initialised: a field that is not
assigned has the contents of its memory.
-/

namespace Sensor.Sensord

open ByteOrder Kvs Memory

/-! ## The command line -/

/-- A call of `parse_options` by argp: the key of an option and its argument,
empty where it has none, or one of the keys argp has for itself. -/
structure Call where
  key : ℕ
  arg : List Byte

/-- What the functions of the C library do in a run: the calls argp makes for
the words behind the name of the program, unless it ends the process; the words
`wordexp` stores for a file name, unless it fails without; and the contents of
the files that can be opened. -/
structure Library where
  argpParse : List (List Byte) → Option (List Call)
  wordexp : List Byte → Option (List (List Byte))
  fopen : List Byte → Option (List Byte)

/-- The arguments of the program; the field `config` is the pointer, which can
be null, and stands apart from the others. -/
structure ProgramArguments where
  config : Option (List Byte)
  arguments : Arguments

def optDisablePersist : ℕ := 1
def optDisableRedirect : ℕ := 2
def optDisableFork : ℕ := 3

def argpErrUnknown : ℕ := 7

def atoi (arg : List Byte) : BitVec 32 := BitVec.ofInt 32 (strtol arg)

/-- What the cases of the switch in `parse_options` assign, all but the one for
the configuration file. -/
def assigned (key : ℕ) (arg : List Byte) : Option (Field × Content) :=
  if key = 'i'.toNat then some (.capture_interface, .string arg)
  else if key = 'p'.toNat then some (.capture_promiscuous, .bool true)
  else if key = 'b'.toNat then some (.capture_buffersize, .bits32 (atoi arg))
  else if key = 'H'.toNat then some (.head_host, .string arg)
  else if key = 'P'.toNat then some (.head_util_port, .bits32 (atoi arg))
  else if key = 'D'.toNat then some (.head_dump_port, .bits32 (atoi arg))
  else if key = 'K'.toNat then some (.head_key, .string arg)
  else if key = 't'.toNat then some (.capture_timeout, .bits32 (atoi arg))
  else if key = 'w'.toNat then some (.persist_period, .bits32 (atoi arg))
  else if key = optDisablePersist then some (.enable_persistance, .bool false)
  else if key = optDisableRedirect then
    some (.nodes_enable_redirect, .bool false)
  else if key = optDisableFork then some (.enable_fork, .bool false)
  else if key = 'v'.toNat then some (.verbose, .bool true)
  else if key = 'g'.toNat then some (.enable_background, .bool true)
  else none

/-- `parse_options`: its result and the arguments. -/
def parseOptions (call : Call) (program : ProgramArguments) :
    ℕ × ProgramArguments :=
  if call.key = 'c'.toNat then (0, { program with config := some call.arg })
  else
    match assigned call.key call.arg with
    | some (field, content) =>
        (0, { program with
          arguments := Function.update program.arguments field content })
    | none => (argpErrUnknown, program)

/-- `args_get_default`, where the variable has the contents `memory` before. -/
def argsGetDefault (memory : Arguments) : ProgramArguments where
  config := none
  arguments
    | .capture_interface => .string (text "eth0")
    | .capture_promiscuous => .bool false
    | .capture_buffersize => .bits32 65536
    | .head_host => .string (text "localhost")
    | .head_util_port => .bits32 0
    | .head_dump_port => .bits32 0
    | .head_key => .string (text "dummy")
    | .capture_timeout => .bits32 5
    | .persist_period => .bits32 10
    | .enable_persistance => .bool true
    | .nodes_enable_redirect => .bool true
    | .enable_fork => .bool true
    | .verbose => .bool false
    | .enable_background => .bool false
    | field => memory field

/-- `args_parse`; argp does not end the process for the keys it has for itself
when they are unknown. -/
def argsParse (library : Library) (argv : List (List Byte))
    (program : ProgramArguments) : Option ProgramArguments :=
  (library.argpParse argv).map fun calls =>
    calls.foldl (fun program call => (parseOptions call program).2) program

/-- A field of a type holds a value of it. -/
def FieldType.Holds : FieldType → Content → Prop
  | .string, .string _ => True
  | .int, .bits32 _ => True
  | .bool, .bool _ => True
  | _, _ => False

/-- The fields that neither the defaults nor the command line assign and `main`
hands to the sensor. -/
def uninitialised : List Field :=
  [.nodes_survey_timeout, .nodes_survey_initial_timeout,
    .nodes_disconnect_timeout, .nodes_enable_modify_routing,
    .nodes_modify_routing_timeout, .balancing_timeout,
    .balancing_initial_seek_timeout, .balancing_info_timeout,
    .balancing_session_timeout, .balancing_load_count, .balancing_interval]

/-! ## The command line leaves fields alone -/

section CommandLine

variable {field : Field} {calls : List Call} {program : ProgramArguments}

end CommandLine

end Sensor.Sensord
