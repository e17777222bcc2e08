import Sensor.Frontend.KvsetWrite

/-!
# The configuration of the daemon

`read_config` registers the fields of `struct arguments` for the options of
`sensor.conf` and loads the file.  One of the options is registered for another
section than the one it stands in.
-/

namespace Sensor.Sensord

open ByteOrder Kvs

/-- The fields of `struct arguments`. -/
inductive Field where
  | config
  | capture_interface
  | enable_fork
  | enable_background
  | capture_promiscuous
  | capture_buffersize
  | capture_timeout
  | head_host
  | head_key
  | head_util_port
  | head_dump_port
  | persist_period
  | enable_persistance
  | nodes_survey_timeout
  | nodes_survey_initial_timeout
  | nodes_disconnect_timeout
  | nodes_enable_redirect
  | nodes_enable_modify_routing
  | nodes_modify_routing_timeout
  | balancing_listen_port
  | balancing_timeout
  | balancing_initial_seek_timeout
  | balancing_info_timeout
  | balancing_session_timeout
  | balancing_load_count
  | balancing_interval
  | verbose
  deriving DecidableEq

/-- `struct arguments`. -/
abbrev Arguments := Field → Content

def sections : Fin 6 → List Byte
  | 0 => text "main"
  | 1 => text "capture"
  | 2 => text "persistance"
  | 3 => text "nodes"
  | 4 => text "balancing"
  | 5 => text "misc"

/-- The calls of `AddKVS`. -/
def registrations : List (Registration 6 Field) :=
  [⟨⟨.bool, text "Fork", .enable_fork⟩, 0⟩,
    ⟨⟨.bool, text "Background", .enable_background⟩, 0⟩,
    ⟨⟨.string, text "Interface", .capture_interface⟩, 1⟩,
    ⟨⟨.bool, text "Promiscuous", .capture_promiscuous⟩, 1⟩,
    ⟨⟨.uint32, text "BufferSize", .capture_buffersize⟩, 1⟩,
    ⟨⟨.uint32, text "Timeout", .capture_timeout⟩, 1⟩,
    ⟨⟨.bool, text "Enable", .enable_persistance⟩, 2⟩,
    ⟨⟨.string, text "Host", .head_host⟩, 2⟩,
    ⟨⟨.uint32, text "UtilPort", .head_util_port⟩, 2⟩,
    ⟨⟨.uint32, text "DumpPort", .head_dump_port⟩, 2⟩,
    ⟨⟨.string, text "Key", .head_key⟩, 2⟩,
    ⟨⟨.uint32, text "Timeout", .persist_period⟩, 2⟩,
    ⟨⟨.uint32, text "SurveyTimeout", .nodes_survey_timeout⟩, 3⟩,
    ⟨⟨.uint32, text "InitialSurveyTimeout", .nodes_survey_initial_timeout⟩, 3⟩,
    ⟨⟨.uint32, text "NodeDisconnectTimeout", .nodes_disconnect_timeout⟩, 3⟩,
    ⟨⟨.bool, text "EnableModifyRouting", .nodes_enable_modify_routing⟩, 3⟩,
    ⟨⟨.uint32, text "ModifyRoutingTimeout", .nodes_modify_routing_timeout⟩, 4⟩,
    ⟨⟨.bool, text "EnableRedirect", .nodes_enable_redirect⟩, 3⟩,
    ⟨⟨.string, text "ListenPort", .balancing_listen_port⟩, 4⟩,
    ⟨⟨.uint32, text "RebalanceTimeout", .balancing_timeout⟩, 4⟩,
    ⟨⟨.uint32, text "InitialSeekTimeout", .balancing_initial_seek_timeout⟩, 4⟩,
    ⟨⟨.uint32, text "InfoRequestInterval", .balancing_info_timeout⟩, 4⟩,
    ⟨⟨.uint32, text "SessionTimeout", .balancing_session_timeout⟩, 4⟩,
    ⟨⟨.uint32, text "LoadCount", .balancing_load_count⟩, 4⟩,
    ⟨⟨.uint32, text "LoadInterval", .balancing_interval⟩, 4⟩]

/-- `read_config` on the contents of the configuration file: its result, which
does not depend on the one of `LoadKVS`, and the arguments. -/
def readConfig (file : Option (List Byte)) (arguments : Arguments) :
    Option (ℕ × Arguments) :=
  (loadKVS (kvsetOf sections registrations) file arguments).map
    fun result => (0, result.2)

/-! ## The options of the configuration file -/

/-- The C types of the fields. -/
inductive FieldType where
  | string
  | int
  | bool
  deriving DecidableEq

def Field.type : Field → FieldType
  | .config | .capture_interface | .head_host | .head_key
  | .balancing_listen_port => .string
  | .enable_fork | .enable_background | .capture_promiscuous
  | .enable_persistance | .nodes_enable_redirect
  | .nodes_enable_modify_routing | .verbose => .bool
  | _ => .int

/-- A value an option can have. -/
inductive Assigned : FieldType → Type where
  | string (value : List Byte) (valid : IsValue value) : Assigned .string
  | number (value : ℕ) (valid : value < 2 ^ 31) : Assigned .int
  | flag (value : Bool) : Assigned .bool

abbrev Assignment := (field : Field) → Assigned field.type

/-- What is written for a value. -/
def Assigned.written {type : FieldType} : Assigned type → List Byte
  | .string value _ => value
  | .number value _ => decimal value
  | .flag value => text (if value then "1" else "0")

/-- The field with a value. -/
def Assigned.content {type : FieldType} : Assigned type → Content
  | .string value _ => .string value
  | .number value _ => .bits32 (BitVec.ofNat 32 value)
  | .flag value => .bool value

/-- The sections and the keys of `sensor.conf`. -/
def sensorConf : List (Block sections Field) :=
  [{ name := "main"
     section_ := 0
     options :=
       [("Fork", .enable_fork), ("Background", .enable_background)]
     recognised := by decide +kernel
     name_word := by decide +kernel
     key_words := by decide +kernel },
   { name := "capture"
     section_ := 1
     options :=
       [("Interface", .capture_interface),
        ("Promiscuous", .capture_promiscuous),
        ("BufferSize", .capture_buffersize),
        ("Timeout", .capture_timeout)]
     recognised := by decide +kernel
     name_word := by decide +kernel
     key_words := by decide +kernel },
   { name := "persistance"
     section_ := 2
     options :=
       [("Enable", .enable_persistance), ("Host", .head_host),
        ("UtilPort", .head_util_port), ("DumpPort", .head_dump_port),
        ("Key", .head_key), ("Timeout", .persist_period)]
     recognised := by decide +kernel
     name_word := by decide +kernel
     key_words := by decide +kernel },
   { name := "nodes"
     section_ := 3
     options :=
       [("SurveyTimeout", .nodes_survey_timeout),
        ("InitialSurveyTimeout", .nodes_survey_initial_timeout),
        ("NodeDisconnectTimeout", .nodes_disconnect_timeout),
        ("EnableModifyRouting", .nodes_enable_modify_routing),
        ("ModifyRoutingTimeout", .nodes_modify_routing_timeout),
        ("EnableRedirect", .nodes_enable_redirect)]
     recognised := by decide +kernel
     name_word := by decide +kernel
     key_words := by decide +kernel },
   { name := "balancing"
     section_ := 4
     options :=
       [("ListenPort", .balancing_listen_port),
        ("RebalanceTimeout", .balancing_timeout),
        ("InitialSeekTimeout", .balancing_initial_seek_timeout),
        ("InfoRequestInterval", .balancing_info_timeout),
        ("SessionTimeout", .balancing_session_timeout),
        ("LoadCount", .balancing_load_count),
        ("LoadInterval", .balancing_interval)]
     recognised := by decide +kernel
     name_word := by decide +kernel
     key_words := by decide +kernel }]

/-- The fields with an option in `sensor.conf`. -/
def listed : List Field := (optionsOf sensorConf).map (·.2.2)

/-- The configuration file with the values of an assignment. -/
def configFile (assigned : Assignment) : List Byte :=
  writeFile (fun field => (assigned field).written) sensorConf

/-- Reading the file gives every listed field its value and leaves the others
alone. -/
def RoundTrips (assigned : Assignment) (arguments : Arguments) : Prop :=
  ∃ after, readConfig (some (configFile assigned)) arguments =
      some (0, after) ∧
    (∀ field ∈ listed, after field = (assigned field).content) ∧
    ∀ field, field ∉ listed → after field = arguments field

/-! ## What is read -/

section Read

variable {type : FieldType} {assigned : Assignment} {arguments : Arguments}

/-- Every value can be read as it was written. -/
theorem isValue_written (value : Assigned type) : IsValue value.written := by
  cases value with
  | string value valid => exact valid
  | number value valid =>
      have hlength : (decimal value).length ≤ 10 := by
        rw [decimal, List.length_map,
          Nat.length_toDigits_le_iff (by decide) (by decide)]
        omega
      exact {
        nonempty := decimal_ne_nil
        length := hlength.trans (by decide)
        plain := fun _ hbyte => (not_special_of_isDigit
          (isDigit_of_mem_decimal hbyte)).2.2.2 }
  | flag value =>
      cases value with
      | true => decide
      | false => decide

/-- The type a field is registered with. -/
def FieldType.kvsType : FieldType → KvsType
  | .string => .string
  | .int => .uint32
  | .bool => .bool

/-- Parsing what was written gives the value. -/
theorem parseValue_written (value : Assigned type) (content : Content) :
    parseValue type.kvsType value.written content = value.content := by
  cases value with
  | string value valid =>
      exact congrArg Content.string (List.take_of_length_le valid.length)
  | number value valid =>
      rw [FieldType.kvsType, Assigned.written, Assigned.content, parseValue,
        strtol_decimal (by omega), BitVec.ofInt_natCast]
  | flag value =>
      cases value with
      | true => rfl
      | false => rfl

theorem registrations_nodup : (registrations.map (·.content)).Nodup := by
  decide +kernel

/-- The fields are registered with their types. -/
theorem type_of_mem_registrations : ∀ registration ∈ registrations,
    registration.type = registration.content.type.kvsType := by
  decide

/-- `sensor.conf` has the option of each registered field in the section the
field is registered for, with one exception. -/
theorem lastOption_sensorConf : ∀ registration ∈ registrations,
    lastOption sensorConf registration =
      if registration.content = .nodes_modify_routing_timeout then none
      else some registration.content := by
  decide +kernel

theorem mem_listed_iff {field : Field} :
    field ∈ listed ↔ field ∈ registrations.map (·.content) := by
  have hlisted : ∀ field ∈ listed,
      field ∈ registrations.map (·.content) := by
    decide +kernel
  have hregistered : ∀ field ∈ registrations.map (·.content),
      field ∈ listed := by
    decide +kernel
  exact ⟨hlisted field, hregistered field⟩

/-- Reading the configuration file: one of the fields keeps what it held. -/
theorem readConfig_configFile :
    ∃ after, readConfig (some (configFile assigned)) arguments =
        some (0, after) ∧
      (∀ field ∈ listed, after field =
        if field = .nodes_modify_routing_timeout then arguments field
        else (assigned field).content) ∧
      ∀ field, field ∉ listed → after field = arguments field := by
  obtain ⟨after, hload, hregistered, hother⟩ := @loadKVS_writeFile _ _ _
    (fun field => (assigned field).written) sensorConf registrations _
    registrations_nodup (fun field => isValue_written (assigned field))
    (List.cons_ne_nil _ _) arguments
  refine ⟨after, ?_, ?_, ?_⟩
  · rw [readConfig, configFile, hload]
    rfl
  · intro field hfield
    obtain ⟨registration, hmem, rfl⟩ :=
      List.mem_map.mp (mem_listed_iff.mp hfield)
    rw [hregistered registration hmem, lastOption_sensorConf registration hmem]
    by_cases hwrong : registration.content = .nodes_modify_routing_timeout
    · rw [if_pos hwrong, if_pos hwrong]
    · rw [if_neg hwrong, if_neg hwrong,
        type_of_mem_registrations registration hmem]
      exact parseValue_written _ _
  · intro field hfield
    exact hother field fun hmem => hfield (mem_listed_iff.mpr hmem)

/-- The file is read back exactly if the timeout that is registered for another
section is assigned what its field holds already. -/
theorem roundTrips_iff :
    RoundTrips assigned arguments ↔
      arguments .nodes_modify_routing_timeout =
        (assigned .nodes_modify_routing_timeout).content := by
  obtain ⟨after, hread, hlisted, hother⟩ :=
    @readConfig_configFile assigned arguments
  have hmem : .nodes_modify_routing_timeout ∈ listed := by decide +kernel
  constructor
  · rintro ⟨after', hread', hlisted', -⟩
    rw [hread, Option.some.injEq, Prod.mk.injEq] at hread'
    rw [← hlisted' _ hmem, ← hread'.2, hlisted _ hmem, if_pos rfl]
  · intro hsame
    refine ⟨after, hread, ?_, hother⟩
    intro field hfield
    rw [hlisted field hfield]
    split
    · rename_i hwrong
      rw [hwrong]
      exact hsame
    · rfl

end Read

/-- The values in the `sensor.conf` of the repository. -/
def shipped : Assignment
  | .config => .string (text "sensor.conf") (by decide +kernel)
  | .enable_fork => .flag false
  | .enable_background => .flag false
  | .capture_interface => .string (text "wlan0") (by decide +kernel)
  | .capture_promiscuous => .flag true
  | .capture_buffersize => .number 67560000 (by decide)
  | .capture_timeout => .number 10 (by decide)
  | .enable_persistance => .flag false
  | .head_host => .string (text "000") (by decide +kernel)
  | .head_util_port => .number 5332 (by decide)
  | .head_dump_port => .number 3333 (by decide)
  | .head_key => .string (text "A1A1A1A1A1A1A1A1A1A1A1A1") (by decide +kernel)
  | .persist_period => .number 10 (by decide)
  | .nodes_survey_timeout => .number 10 (by decide)
  | .nodes_survey_initial_timeout => .number 10 (by decide)
  | .nodes_disconnect_timeout => .number 60 (by decide)
  | .nodes_enable_modify_routing => .flag true
  | .nodes_modify_routing_timeout => .number 10 (by decide)
  | .nodes_enable_redirect => .flag true
  | .balancing_listen_port => .string (text "31337") (by decide +kernel)
  | .balancing_timeout => .number 10 (by decide)
  | .balancing_initial_seek_timeout => .number 10 (by decide)
  | .balancing_info_timeout => .number 10 (by decide)
  | .balancing_session_timeout => .number 120 (by decide)
  | .balancing_load_count => .number 5 (by decide)
  | .balancing_interval => .number 10 (by decide)
  | .verbose => .flag false

example : configFile shipped = [char '\n'].intercalate
    (["[main]", "Fork = 0", "Background = 0", "", "[capture]",
      "Interface = wlan0", "Promiscuous = 1", "BufferSize = 67560000",
      "Timeout = 10", "", "[persistance]", "Enable = 0", "Host = 000",
      "UtilPort = 5332", "DumpPort = 3333", "Key = A1A1A1A1A1A1A1A1A1A1A1A1",
      "Timeout = 10", "", "[nodes]", "SurveyTimeout = 10",
      "InitialSurveyTimeout = 10", "NodeDisconnectTimeout = 60",
      "EnableModifyRouting = 1", "ModifyRoutingTimeout = 10",
      "EnableRedirect = 1", "", "[balancing]", "ListenPort = 31337",
      "RebalanceTimeout = 10", "InitialSeekTimeout = 10",
      "InfoRequestInterval = 10", "SessionTimeout = 120", "LoadCount = 5",
      "LoadInterval = 10"].map text) := by
  decide +kernel

/-- Arguments with no options set. -/
def unset : Arguments := fun field =>
  match field.type with
  | .string => .string []
  | .int => .bits32 0
  | .bool => .bool false

/-- The shipped file leaves a timeout that was not set as it is. -/
theorem not_roundTrips : ¬ ∀ (assigned : Assignment) (arguments : Arguments),
    RoundTrips assigned arguments := by
  intro hround
  obtain ⟨after, hread, hlisted, -⟩ := hround shipped unset
  obtain ⟨after', hread', hkept, -⟩ := @readConfig_configFile shipped unset
  have hmem : .nodes_modify_routing_timeout ∈ listed := by decide +kernel
  rw [hread, Option.some.injEq, Prod.mk.injEq] at hread'
  have hten := hlisted _ hmem
  rw [hread'.2, hkept _ hmem, if_pos rfl] at hten
  exact absurd hten (by decide)

end Sensor.Sensord
