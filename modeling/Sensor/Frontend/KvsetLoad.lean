import Mathlib.Data.List.Nodup
import Sensor.Frontend.KvsetLine

/-!
# What loading a configuration file does

A file is a sequence of lines, each in the section of the last header before
it.  After `LoadKVS` a variable holds the value of the last line of its section
with its key.
-/

namespace Sensor.Kvs

open ByteOrder

variable {count : ℕ} {Target : Type*}

/-- A line with a key and a value, and the section it stands in. -/
structure DataLine where
  section_ : ℕ
  key : List Byte
  value : List Byte
  deriving DecidableEq

/-- The lines with a key and a value, where the first stands in `section_`. -/
def dataLines (sections : Fin count → List Byte) (section_ : ℕ) :
    List (List Byte) → List DataLine
  | [] => []
  | line :: lines =>
      if line.head? = some (char '#') then dataLines sections section_ lines
      else
        match header sections line with
        | some index => dataLines sections index lines
        | none =>
            if char '=' ∈ line then
              ⟨section_, keyOf line, valueOf line⟩ ::
                dataLines sections section_ lines
            else dataLines sections section_ lines

/-- The value of the last line of a section with a key and some value. -/
def lastValue (sections : Fin count → List Byte) (file : List Byte)
    (section_ : Fin count) (name : List Byte) : Option (List Byte) :=
  ((dataLines sections 0 (file.splitOn (char '\n'))).filter fun data =>
    data.section_ = section_.val ∧ data.key = name ∧
      data.value ≠ []).getLast?.map (·.value)

/-- A registered variable. -/
structure Registration (count : ℕ) (Target : Type*) extends Value Target where
  section_ : Fin count

def register (self : Kvset count Target)
    (registration : Registration count Target) : Kvset count Target :=
  addKVS self registration.section_ registration.type registration.name
    registration.content

/-- The set after the variables were registered. -/
def kvsetOf (sections : Fin count → List Byte)
    (registrations : List (Registration count Target)) : Kvset count Target :=
  registrations.foldl register (initKVS sections)

/-! ## The whole file -/

section File

variable {line file : List Byte}

/-- A line that fits is not cut. -/
theorem fgetsAll_append {size : ℕ} {buf : List Byte}
    (hnewline : char '\n' ∉ line)
    (hroom : buf.length + line.length + 2 ≤ size) :
    fgetsAll size buf (line ++ file) = fgetsAll size (buf ++ line) file := by
  induction line generalizing buf with
  | nil => rw [List.append_nil, List.nil_append]
  | cons byte line ih =>
      rw [List.mem_cons, not_or] at hnewline
      rw [List.length_cons] at hroom
      have hmore : ¬ (byte = char '\n' ∨ buf.length + 2 = size) := by
        rw [not_or]
        exact ⟨fun hsame => hnewline.1 hsame.symm, by omega⟩
      rw [List.cons_append, fgetsAll, if_neg hmore, ih hnewline.2 (by
        rw [List.length_append, List.length_singleton]
        omega), List.append_assoc, List.singleton_append]

/-- A line is read in one piece with its newline, or the newline is read
alone. -/
theorem fgetsAll_line (hnewline : char '\n' ∉ line)
    (hlength : line.length ≤ 511) :
    fgetsAll 512 [] (line ++ char '\n' :: file) =
        [line ++ [char '\n']] ++ fgetsAll 512 [] file ∨
      fgetsAll 512 [] (line ++ char '\n' :: file) =
        [line, [char '\n']] ++ fgetsAll 512 [] file := by
  rcases Nat.lt_or_ge line.length 511 with hshort | hfull
  · left
    rw [fgetsAll_append hnewline (by simp; omega), List.nil_append, fgetsAll,
      if_pos (Or.inl rfl)]
    rfl
  · right
    have hnonempty : line ≠ [] := List.length_pos_iff.mp (by omega)
    have hsplit := List.dropLast_append_getLast hnonempty
    have hfront : line.dropLast.length = 510 := by
      rw [List.length_dropLast]
      omega
    have hfrontNewline : char '\n' ∉ line.dropLast := fun hmem =>
      hnewline (List.dropLast_subset _ hmem)
    rw [← hsplit, List.append_assoc,
      fgetsAll_append hfrontNewline (by simp [hfront]), List.nil_append,
      List.cons_append, fgetsAll, if_pos (Or.inr (by rw [hfront])),
      List.nil_append, fgetsAll, if_pos (Or.inl rfl)]
    rfl

/-- The last line is read in one piece. -/
theorem fgetsAll_last (hnewline : char '\n' ∉ line)
    (hlength : line.length ≤ 511) (hnonempty : line ≠ []) :
    fgetsAll 512 [] line = [line] := by
  rcases Nat.lt_or_ge line.length 511 with hshort | hfull
  · have hread := @fgetsAll_append line [] 512 [] hnewline (by simp; omega)
    rw [List.append_nil, List.nil_append] at hread
    rw [hread, fgetsAll, if_neg (by simpa using hnonempty)]
  · have hsplit := List.dropLast_append_getLast hnonempty
    have hfront : line.dropLast.length = 510 := by
      rw [List.length_dropLast]
      omega
    have hfrontNewline : char '\n' ∉ line.dropLast := fun hmem =>
      hnewline (List.dropLast_subset _ hmem)
    conv_lhs => rw [← hsplit]
    rw [fgetsAll_append hfrontNewline (by simp [hfront]), List.nil_append,
      fgetsAll, if_pos (Or.inr (by rw [hfront])), hsplit]
    rfl

variable [DecidableEq Target] {self : Kvset count Target}
  {state : ℕ × (Target → Content)}

/-- `LoadKVS` on what one call of `fgets` read. -/
def loadBuffer (self : Kvset count Target) (state : ℕ × (Target → Content))
    (buf : List Byte) : Option (ℕ × (Target → Content)) :=
  loadLine self state (buf.takeWhile (· != 0))

theorem loadBuffer_eq {ending : List Byte} (hread : Readable line)
    (hnewline : char '\n' ∉ line) (hending : IsEnding ending) :
    loadBuffer self state (line ++ ending) =
      some (lineResult self state line) := by
  have hnul : 0 ∉ line ++ ending := by
    rw [mem_append_ending hending (by decide)]
    exact hread.no_nul
  rw [loadBuffer, List.takeWhile_eq_self_iff.mpr (bne_of_notMem hnul)]
  exact loadLine_eq hread hnewline hending

theorem readable_nil : Readable [] where
  no_nul := List.not_mem_nil
  length := Nat.zero_le 511
  bracket := nofun

/-- A newline that is read alone does nothing. -/
theorem loadBuffer_newline :
    loadBuffer self state [char '\n'] = some state := by
  have hread := @loadBuffer_eq _ _ [] _ self state [char '\n'] readable_nil
    List.not_mem_nil (Or.inr rfl)
  rwa [List.nil_append, lineResult_of_length_le_one readable_nil
    (Nat.zero_le 1)] at hread

/-- What the calls of `fgets` read has the results of the lines in turn. -/
theorem foldlM_fgetsAll {first : List Byte} {lines : List (List Byte)}
    (hlines : ∀ line ∈ first :: lines, Readable line ∧ char '\n' ∉ line) :
    (fgetsAll 512 [] ([char '\n'].intercalate (first :: lines))).foldlM
        (loadBuffer self) state =
      some ((first :: lines).foldl (lineResult self) state) := by
  induction lines generalizing first state with
  | nil =>
      obtain ⟨hread, hnewline⟩ := hlines first List.mem_cons_self
      have hbuffer := @loadBuffer_eq _ _ first _ self state [] hread hnewline
        (Or.inl rfl)
      rw [List.append_nil] at hbuffer
      rw [List.intercalate_singleton, List.foldl_cons, List.foldl_nil,
        ← hbuffer]
      by_cases hempty : first = []
      · rw [hbuffer, hempty, lineResult_of_length_le_one readable_nil
          (Nat.zero_le 1)]
        rfl
      · rw [fgetsAll_last hnewline hread.length hempty, List.foldlM_cons]
        exact bind_pure _
  | cons second lines ih =>
      obtain ⟨hread, hnewline⟩ := hlines first List.mem_cons_self
      have hrest := @ih (lineResult self state first) second fun line hline =>
        hlines line (List.mem_cons_of_mem _ hline)
      rw [List.intercalate_cons_cons, List.append_assoc,
        List.singleton_append]
      rcases fgetsAll_line hnewline hread.length with hwhole | hapart
      · rw [hwhole, List.foldlM_append, List.foldlM_cons,
          loadBuffer_eq hread hnewline (Or.inr rfl)]
        exact hrest
      · have hbuffer := @loadBuffer_eq _ _ first _ self state [] hread hnewline
          (Or.inl rfl)
        rw [List.append_nil] at hbuffer
        have halone : [first, [char '\n']].foldlM (loadBuffer self) state =
            some (lineResult self state first) := by
          simp only [List.foldlM_cons, List.foldlM_nil, hbuffer,
            Option.bind_eq_bind, Option.bind_some, loadBuffer_newline,
            Option.pure_def]
        rw [hapart, List.foldlM_append, halone]
        exact hrest

theorem not_mem_of_mem_splitOn {line : List Byte}
    (hline : line ∈ file.splitOn (char '\n')) : char '\n' ∉ line := by
  induction file generalizing line with
  | nil =>
      rw [List.splitOn_nil, List.mem_singleton] at hline
      rw [hline]
      exact List.not_mem_nil
  | cons byte file ih =>
      rw [List.splitOn_cons_eq_if_modifyHead] at hline
      split at hline
      · rcases List.mem_cons.mp hline with rfl | hrest
        · exact List.not_mem_nil
        · exact ih hrest
      · rename_i hbyte
        obtain ⟨first, lines, hlines⟩ := List.exists_cons_of_ne_nil
          (List.splitOn_ne_nil (char '\n') file)
        rw [hlines, List.modifyHead_cons, List.mem_cons] at hline
        rcases hline with rfl | hrest
        · rw [List.mem_cons, not_or]
          refine ⟨fun hsame => hbyte (beq_iff_eq.mpr hsame.symm), ?_⟩
          exact ih (hlines ▸ List.mem_cons_self)
        · exact ih (hlines ▸ List.mem_cons_of_mem _ hrest)

/-- `LoadKVS` gives the variables the results of the lines in turn. -/
theorem loadKVS_eq_foldl {memory : Target → Content}
    (hfile : ∀ line ∈ file.splitOn (char '\n'), Readable line) :
    loadKVS self (some file) memory =
      some (0, ((file.splitOn (char '\n')).foldl (lineResult self)
        (0, memory)).2) := by
  obtain ⟨first, lines, hlines⟩ := List.exists_cons_of_ne_nil
    (List.splitOn_ne_nil (char '\n') file)
  have hread := @foldlM_fgetsAll _ _ _ self (0, memory) first lines
    fun line hline =>
      ⟨hfile line (hlines ▸ hline), not_mem_of_mem_splitOn (hlines ▸ hline)⟩
  rw [← hlines, List.intercalate_splitOn] at hread
  rw [loadKVS]
  exact congrArg _ hread

end File

/-! ## The variables -/

section Variables

variable [DecidableEq Target] {self : Kvset count Target}
  {key value : List Byte} {values : List (Value Target)}
  {memory : Target → Content} {target : Target}

/-- What a line with a key and a value does to the variables. -/
def assignData (self : Kvset count Target) (memory : Target → Content)
    (data : DataLine) : Target → Content :=
  if h : data.section_ < count then
    (self.values ⟨data.section_, h⟩).foldl (assign data.key data.value) memory
  else memory

/-- The results of the lines are those of the ones with a key and a value. -/
theorem foldl_lineResult {section_ : ℕ} {lines : List (List Byte)} :
    (lines.foldl (lineResult self) (section_, memory)).2 =
      (dataLines self.sections section_ lines).foldl (assignData self)
        memory := by
  induction lines generalizing section_ memory with
  | nil => rfl
  | cons line lines ih =>
      rw [List.foldl_cons, lineResult, dataLines]
      split
      · exact ih
      cases header self.sections line with
      | some index => exact ih
      | none =>
          by_cases hequals : char '=' ∈ line
          · simp only [if_pos hequals, List.foldl_cons, assignData]
            split
            · exact ih
            · exact ih
          · simp only [if_neg hequals]
            split
            · exact ih
            · exact ih

/-- Assigning to other variables leaves a variable alone. -/
theorem foldl_assign_of_notMem (htarget : target ∉ values.map (·.content)) :
    values.foldl (assign key value) memory target = memory target := by
  induction values generalizing memory with
  | nil => rfl
  | cons current values ih =>
      rw [List.map_cons, List.mem_cons, not_or] at htarget
      rw [List.foldl_cons, ih htarget.2, assign]
      split
      · exact Function.update_of_ne htarget.1 _ _
      · rfl

theorem foldl_assign_of_mem (hnodup : (values.map (·.content)).Nodup)
    {current : Value Target} (hmem : current ∈ values) :
    values.foldl (assign key value) memory current.content =
      if Accepts current.name key value then
        parseValue current.type value (memory current.content)
      else memory current.content := by
  induction values generalizing memory with
  | nil => cases hmem
  | cons first values ih =>
      rw [List.map_cons, List.nodup_cons] at hnodup
      rw [List.foldl_cons]
      rcases List.mem_cons.mp hmem with rfl | hmem
      · rw [foldl_assign_of_notMem hnodup.1, assign]
        split
        · exact Function.update_self _ _ _
        · rfl
      · have hother : current.content ≠ first.content := fun hsame =>
          hnodup.1 (hsame ▸ List.mem_map_of_mem hmem)
        have hkept : assign key value memory first current.content =
            memory current.content := by
          rw [assign]
          split
          · exact Function.update_of_ne hother _ _
          · rfl
        rw [ih hnodup.2 hmem, hkept]

end Variables

/-! ## Registered variables -/

section Registered

variable {sections : Fin count → List Byte}
  {registrations : List (Registration count Target)}
  {registration : Registration count Target}

theorem sections_kvsetOf :
    (kvsetOf sections registrations).sections = sections := by
  have hfold : ∀ self : Kvset count Target,
      (registrations.foldl register self).sections = self.sections := by
    induction registrations with
    | nil => exact fun _ => rfl
    | cons first registrations ih => exact fun self => ih (register self first)
  exact hfold _

/-- The values of a section are the ones registered for it, the last first. -/
theorem values_kvsetOf (section_ : Fin count) :
    (kvsetOf sections registrations).values section_ =
      ((registrations.filter (·.section_ = section_)).map
        (·.toValue)).reverse := by
  have hfold : ∀ self : Kvset count Target,
      (registrations.foldl register self).values section_ =
        ((registrations.filter (·.section_ = section_)).map
          (·.toValue)).reverse ++ self.values section_ := by
    induction registrations with
    | nil => exact fun _ => rfl
    | cons first registrations ih =>
        intro self
        rw [List.foldl_cons, ih, register, addKVS]
        by_cases hsection : first.section_ = section_
        · simp [hsection]
        · simp [hsection, Function.update_of_ne (Ne.symm hsection)]
  exact (hfold _).trans (List.append_nil _)

theorem nodup_values_kvsetOf
    (hnodup : (registrations.map (·.content)).Nodup) (section_ : Fin count) :
    (((kvsetOf sections registrations).values section_).map
      (·.content)).Nodup := by
  rw [values_kvsetOf, List.map_reverse, List.nodup_reverse, List.map_map]
  exact hnodup.sublist (List.filter_sublist.map _)

variable [DecidableEq Target] {memory : Target → Content}

/-- A line is for a registered variable. -/
def IsFor (registration : Registration count Target) (data : DataLine) : Prop :=
  data.section_ = registration.section_ ∧
    Accepts registration.name data.key data.value

instance : DecidablePred (IsFor registration) := fun _ =>
  inferInstanceAs (Decidable (_ ∧ _))

/-- A line does to a registered variable what its own key says. -/
theorem assignData_registered (hnodup : (registrations.map (·.content)).Nodup)
    (hmem : registration ∈ registrations) (data : DataLine) :
    assignData (kvsetOf sections registrations) memory data
        registration.content =
      if IsFor registration data then
        parseValue registration.type data.value (memory registration.content)
      else memory registration.content := by
  rw [assignData]
  by_cases hsection : data.section_ = registration.section_.val
  · have hvalid : data.section_ < count := hsection ▸ registration.section_.isLt
    have hsame : (⟨data.section_, hvalid⟩ : Fin count) =
        registration.section_ := Fin.ext hsection
    have hcurrent : registration.toValue ∈
        (kvsetOf sections registrations).values registration.section_ := by
      rw [values_kvsetOf, List.mem_reverse]
      exact List.mem_map_of_mem
        (List.mem_filter.mpr ⟨hmem, decide_eq_true rfl⟩)
    rw [dif_pos hvalid, hsame,
      foldl_assign_of_mem (nodup_values_kvsetOf hnodup _) hcurrent]
    simp only [IsFor, hsection, true_and]
  · rw [if_neg fun hboth => hsection hboth.1]
    split
    · rw [foldl_assign_of_notMem]
      rw [values_kvsetOf, List.map_reverse, List.mem_reverse, List.map_map,
        List.mem_map]
      rintro ⟨other, hother, hcontent⟩
      obtain ⟨hregistered, hplace⟩ := List.mem_filter.mp hother
      have hsame := List.inj_on_of_nodup_map hnodup hregistered hmem hcontent
      subst hsame
      rw [decide_eq_true_eq] at hplace
      exact hsection (congrArg Fin.val hplace).symm
    · rfl

/-- A variable that is not registered is left alone. -/
theorem assignData_of_notMem {target : Target}
    (htarget : target ∉ registrations.map (·.content)) (data : DataLine) :
    assignData (kvsetOf sections registrations) memory data target =
      memory target := by
  rw [assignData]
  split
  · rw [foldl_assign_of_notMem]
    intro hmem
    rw [values_kvsetOf, List.map_reverse, List.mem_reverse,
      List.map_map] at hmem
    exact htarget ((List.filter_sublist.map _).subset hmem)
  · rfl

theorem parseValue_parseValue (type : KvsType) (first second : List Byte)
    (content : Content) :
    parseValue type second (parseValue type first content) =
      parseValue type second content := by
  cases type
  all_goals rfl

/-- The name of a registered variable that a key can be equal to. -/
def IsName (name : List Byte) : Prop := name ≠ [] ∧ name.length < 128

instance {name : List Byte} : Decidable (IsName name) :=
  inferInstanceAs (Decidable (_ ∧ _))

/-- What a registered variable holds after a file was loaded, if the names that
count are the ones `counts` says. -/
def expected (counts : List Byte → Prop) [DecidablePred counts]
    (sections : Fin count → List Byte) (file : List Byte)
    (registration : Registration count Target) (content : Content) : Content :=
  match lastValue sections file registration.section_ registration.name with
  | some value =>
      if counts registration.name then
        parseValue registration.type value content
      else content
  | none => content

/-- Loading a file gives every registered variable the value of the last line
for it and changes nothing else. -/
def LastWriteWins (counts : List Byte → Prop) [DecidablePred counts]
    (sections : Fin count → List Byte)
    (registrations : List (Registration count Target)) (file : List Byte)
    (memory : Target → Content) : Prop :=
  ∃ after, loadKVS (kvsetOf sections registrations) (some file) memory =
      some (0, after) ∧
    (∀ registration ∈ registrations, after registration.content =
      expected counts sections file registration
        (memory registration.content)) ∧
    ∀ target, target ∉ registrations.map (·.content) →
      after target = memory target

/-- Of all lines a registered variable keeps the last one for it. -/
theorem foldl_assignData (hnodup : (registrations.map (·.content)).Nodup)
    (hmem : registration ∈ registrations) (lines : List DataLine) :
    lines.foldl (assignData (kvsetOf sections registrations)) memory
        registration.content =
      match (lines.filter (IsFor registration)).getLast?.map (·.value) with
      | some value =>
          parseValue registration.type value (memory registration.content)
      | none => memory registration.content := by
  induction lines generalizing memory with
  | nil => rfl
  | cons data lines ih =>
      rw [List.foldl_cons, ih, assignData_registered hnodup hmem,
        List.filter_cons]
      by_cases hfor : IsFor registration data
      · rw [if_pos hfor, if_pos (decide_eq_true hfor), List.getLast?_cons]
        cases (lines.filter (IsFor registration)).getLast? with
        | none => rfl
        | some last => exact parseValue_parseValue _ _ _ _
      · rw [if_neg hfor, if_neg (by simpa using hfor)]

theorem foldl_assignData_of_notMem {target : Target}
    (htarget : target ∉ registrations.map (·.content))
    (lines : List DataLine) :
    lines.foldl (assignData (kvsetOf sections registrations)) memory target =
      memory target := by
  induction lines generalizing memory with
  | nil => rfl
  | cons data lines ih =>
      rw [List.foldl_cons, ih, assignData_of_notMem htarget]

omit [DecidableEq Target] in
/-- The lines for a variable are the ones of its section with its name as the
key and some value. -/
theorem expected_eq {file : List Byte} {content : Content} :
    expected IsName sections file registration content =
      match ((dataLines sections 0 (file.splitOn (char '\n'))).filter
        (IsFor registration)).getLast?.map (·.value) with
      | some value => parseValue registration.type value content
      | none => content := by
  rw [expected, lastValue]
  by_cases hname : IsName registration.name
  · have hfor : ∀ data : DataLine, IsFor registration data ↔
        data.section_ = registration.section_.val ∧
          data.key = registration.name ∧ data.value ≠ [] := by
      intro data
      constructor
      · exact fun hfor => ⟨hfor.1, hfor.2.1, hfor.2.2.1⟩
      · rintro ⟨hsection, hkey, hvalue⟩
        exact ⟨hsection, hkey, hvalue, hkey ▸ hname.1, hkey ▸ hname.2⟩
    simp only [hfor, if_pos hname]
  · have hnone : ∀ data : DataLine, ¬ IsFor registration data := by
      rintro data ⟨-, hkey, -, hnonempty, hlength⟩
      exact hname ⟨hkey ▸ hnonempty, hkey ▸ hlength⟩
    simp only [hnone, decide_false, List.filter_false, if_neg hname]
    split
    · rfl
    · rfl

/-- Loading a file does to the registered variables what its lines with a key
and a value do in turn. -/
theorem loadKVS_kvsetOf {file : List Byte}
    (hfile : ∀ line ∈ file.splitOn (char '\n'), Readable line) :
    loadKVS (kvsetOf sections registrations) (some file) memory =
      some (0, (dataLines sections 0 (file.splitOn (char '\n'))).foldl
        (assignData (kvsetOf sections registrations)) memory) := by
  rw [loadKVS_eq_foldl hfile, foldl_lineResult, sections_kvsetOf]

/-- Loading is last-write-wins for the names of 1 to 127 bytes; a variable with
another name keeps its content. -/
theorem lastWriteWins_isName (hnodup : (registrations.map (·.content)).Nodup)
    {file : List Byte}
    (hfile : ∀ line ∈ file.splitOn (char '\n'), Readable line) :
    LastWriteWins IsName sections registrations file memory := by
  refine ⟨_, loadKVS_kvsetOf hfile, ?_, ?_⟩
  · intro registration hmem
    rw [foldl_assignData hnodup hmem, expected_eq]
  · intro target htarget
    exact foldl_assignData_of_notMem htarget _

end Registered

/-- Two sections with a key `Timeout` each. -/
def twoSections : Fin 2 → List Byte
  | 0 => text "capture"
  | 1 => text "persistance"

def twoTimeouts : List (Registration 2 (Fin 3)) :=
  [⟨⟨.uint32, text "Timeout", 0⟩, 0⟩, ⟨⟨.uint32, text "Timeout", 1⟩, 1⟩]

def twoTimeoutsFile : List Byte :=
  text "Timeout = 3\n# Timeout = 4\nTime out=5\n\n[persistance]\nTimeout ="

theorem lastWriteWins_isName_twoTimeouts :
    ∃ after, loadKVS (kvsetOf twoSections twoTimeouts) (some twoTimeoutsFile)
        (fun _ => .bits32 10) = some (0, after) ∧
      after 0 = .bits32 5 ∧ after 1 = .bits32 10 ∧ after 2 = .bits32 10 := by
  obtain ⟨after, hload, hlast, hother⟩ := @lastWriteWins_isName _ _ twoSections
    twoTimeouts _ (fun _ => .bits32 10) (by decide) twoTimeoutsFile
    (by decide +kernel)
  refine ⟨after, hload, ?_, ?_, hother 2 (by decide)⟩
  · rw [hlast ⟨⟨.uint32, text "Timeout", 0⟩, 0⟩ (by simp [twoTimeouts])]
    decide +kernel
  · rw [hlast ⟨⟨.uint32, text "Timeout", 1⟩, 1⟩ (by simp [twoTimeouts])]
    decide +kernel

/-- A variable with one name in one section. -/
def oneName (name : List Byte) : List (Registration 1 Unit) :=
  [⟨⟨.uint32, name, ()⟩, 0⟩]

/-- A name no key is equal to, empty or of 128 bytes. -/
theorem not_lastWriteWins :
    (¬ LastWriteWins (fun _ => True) (fun _ => text "main") (oneName [])
        (text "=5") fun _ => .bits32 0) ∧
      ¬ LastWriteWins (fun _ => True) (fun _ => text "main")
        (oneName (List.replicate 128 (char 'a')))
        (List.replicate 128 (char 'a') ++ text "=5") fun _ => .bits32 0 := by
  have hwrong : ∀ name, (loadKVS (kvsetOf (fun _ => text "main")
        (oneName name)) (some (name ++ text "=5")) fun _ => .bits32 0).map
          (fun result => result.2 ()) = some (.bits32 0) →
      expected (fun _ => True) (fun _ => text "main") (name ++ text "=5")
        (⟨⟨.uint32, name, ()⟩, 0⟩ : Registration 1 Unit) (.bits32 0) =
          .bits32 5 →
      ¬ LastWriteWins (fun _ => True) (fun _ => text "main") (oneName name)
        (name ++ text "=5") fun _ => .bits32 0 := by
    rintro name hkept hexpected ⟨after, hload, hlast, -⟩
    have hfive : after () = .bits32 5 :=
      (hlast _ List.mem_cons_self).trans hexpected
    rw [hload, Option.map_some, Option.some.injEq] at hkept
    cases hfive.symm.trans hkept
  exact ⟨hwrong [] (by decide +kernel) (by decide +kernel),
    hwrong (List.replicate 128 (char 'a')) (by decide +kernel)
      (by decide +kernel)⟩

end Sensor.Kvs
