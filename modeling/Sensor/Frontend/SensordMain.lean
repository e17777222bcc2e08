import Sensor.Frontend.Arguments
import Sensor.Frontend.KvsetPieces

/-!
# The options `main` hands to the sensor

`main` takes the options of the sensor from the arguments.  The defaults do not
assign the fields that only the configuration file has an option for, and `main`
hands most of them over.
-/

namespace Sensor.Sensord

open ByteOrder Kvs Memory

/-! ## The options of the sensor -/

structure SensorOptCapture where
  device_name : List Byte
  promiscuous : Bool
  buffersize : BitVec 32
  timeout : BitVec 32
  deriving DecidableEq

structure SensorOptPersist where
  device_name : List Byte
  timeout : BitVec 32
  deriving DecidableEq

structure SensorOptSurvey where
  survey_timeout : BitVec 32
  survey_initial_timeout : BitVec 32
  disconnect_timeout : BitVec 32
  enable_redirect : Bool
  enable_modify_routing : Bool
  modify_routing_timeout : BitVec 32
  deriving DecidableEq

structure SensorOptBalancing where
  device_name : List Byte
  timeout : BitVec 32
  initial_timeout : BitVec 32
  info_timeout : BitVec 32
  session_timeout : BitVec 32
  load_count : BitVec 32
  load_interval : BitVec 32
  deriving DecidableEq

/-- `sensor_options_t`. -/
structure SensorOptions where
  capture : SensorOptCapture
  persist : SensorOptPersist
  nodes : SensorOptSurvey
  balancing : SensorOptBalancing
  deriving DecidableEq

def ifNameSize : ℕ := 16

/-- The array after `strncpy(array, source, size)`. -/
def strncpy (source : List Byte) (size : ℕ) : List Byte :=
  source.take size ++ List.replicate (size - source.length) 0

/-- Reading a field of the type `char *`. -/
def stringIn : Content → List Byte
  | .string value => value
  | _ => []

/-- Reading a field of the type `int`. -/
def intIn : Content → BitVec 32
  | .bits32 value => value
  | _ => 0

/-- Reading a field of the type `bool`. -/
def boolIn : Content → Bool
  | .bool value => value
  | _ => false

/-- The assignments to `opts` in `main`.  It is a global variable, so that the
field that is not assigned is zero. -/
def setOptions (arguments : Arguments) : SensorOptions where
  capture := {
    timeout := intIn (arguments .capture_timeout)
    promiscuous := boolIn (arguments .capture_promiscuous)
    device_name := strncpy (stringIn (arguments .capture_interface)) ifNameSize
    buffersize := intIn (arguments .capture_buffersize) }
  persist := {
    device_name := List.replicate ifNameSize 0
    timeout := intIn (arguments .persist_period) }
  nodes := {
    survey_timeout := intIn (arguments .nodes_survey_timeout)
    survey_initial_timeout := intIn (arguments .nodes_survey_initial_timeout)
    disconnect_timeout := intIn (arguments .nodes_disconnect_timeout)
    enable_redirect := boolIn (arguments .nodes_enable_redirect)
    enable_modify_routing := boolIn (arguments .nodes_enable_modify_routing)
    modify_routing_timeout := intIn (arguments .nodes_modify_routing_timeout) }
  balancing := {
    device_name := strncpy (stringIn (arguments .capture_interface)) ifNameSize
    timeout := intIn (arguments .balancing_timeout)
    info_timeout := intIn (arguments .balancing_info_timeout)
    session_timeout := intIn (arguments .balancing_session_timeout)
    initial_timeout := intIn (arguments .balancing_initial_seek_timeout)
    load_count := intIn (arguments .balancing_load_count)
    load_interval := intIn (arguments .balancing_interval) }

/-- What the stack has in the variables that are not initialised: the fields of
`arguments` in `args_get_default`, and `exp_result` in `LoadKVS`.  Taking the
first word of the latter ends the process, or gives a null pointer or a name. -/
structure Stack where
  arguments : Arguments
  exp_result : Option (Option (List Byte))

/-- `LoadKVS` up to `fopen`: the contents of the file, if it can be opened.  An
assertion ends the process for an empty name. -/
def openConfig (library : Library) (filename : List Byte)
    (exp_result : Option (Option (List Byte))) : Option (Option (List Byte)) :=
  if filename = [] then none
  else
    match library.wordexp filename with
    -- without a word `we_wordv[0]` is null and cannot be opened
    | some words => some (words.head?.bind library.fopen)
    -- the result of `wordexp` is not checked
    | none => exp_result.map fun word => word.bind library.fopen

/-- `main` up to `sensor_set_options`: the options it hands to the sensor, where
the variables that are not initialised have the contents `stack`. -/
def main (library : Library) (argv : List (List Byte)) (stack : Stack) :
    Option SensorOptions :=
  (argsParse library argv (argsGetDefault stack.arguments)).bind fun program =>
    match program.config with
    | none => some (setOptions program.arguments)
    | some filename =>
        (openConfig library filename stack.exp_result).bind fun file =>
          (readConfig file program.arguments).map fun result =>
            setOptions result.2

/-! ## What the options should depend on -/

section ConfigFile

variable {field : Field} {contents : List Byte} {arguments : Arguments}

end ConfigFile

/-! ## What is handed over -/

section Main

variable {library : Library} {argv : List (List Byte)} {calls : List Call}
  {file : Option (List Byte)} {field : Field}
  {exp_result : Option (Option (List Byte))}

/-- The fields that `main` reads when it assigns the options. -/
def passed : List Field :=
  [.capture_timeout, .capture_promiscuous, .capture_interface,
    .capture_buffersize, .persist_period, .nodes_enable_redirect] ++
    uninitialised

/-- Another memory than `unset`. -/
def filled : Arguments := fun field =>
  match field.type with
  | .string => .string [1]
  | .int => .bits32 1
  | .bool => .bool true

end Main

end Sensor.Sensord
