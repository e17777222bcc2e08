import Mathlib.Data.List.Basic
import Sensor.Frontend.KvsetLoad

/-!
# Writing a configuration file

A file of sections with one `key = value` line for each option, the sections
set apart by blank lines.  Loading it gives every registered variable the value
that was written for its section and its name.
-/

namespace Sensor.Kvs

open ByteOrder

variable {count : ℕ} {Target : Type*}

/-! ## Values -/

/-- The digits of a number. -/
def decimal (number : ℕ) : List Byte := (Nat.toDigits 10 number).map char

/-- A byte that can be written in a key or a value. -/
def IsPlain (byte : Byte) : Prop :=
  byte ≠ 0 ∧ byte ≠ char ' ' ∧ byte ≠ char '\n'

instance : DecidablePred IsPlain := fun _ =>
  inferInstanceAs (Decidable (_ ∧ _ ∧ _))

section Decimal

variable {number : ℕ} {digit : Char}

theorem toNat_char_of_isDigit (hdigit : digit.isDigit = true) :
    48 ≤ digit.toNat ∧ digit.toNat ≤ 57 ∧
      (char digit).toNat = digit.toNat := by
  simp only [Char.isDigit, Bool.and_eq_true, decide_eq_true_eq] at hdigit
  have hlow : 48 ≤ digit.toNat := hdigit.1
  have hhigh : digit.toNat ≤ 57 := hdigit.2
  refine ⟨hlow, hhigh, ?_⟩
  rw [char, BitVec.toNat_ofNat]
  omega

theorem isDigit_char (hdigit : digit.isDigit = true) :
    isDigit (char digit) = true := by
  obtain ⟨hlow, hhigh, hnumber⟩ := toNat_char_of_isDigit hdigit
  rw [isDigit, hnumber]
  simp [hlow, hhigh]

theorem isDigit_of_mem_decimal {byte : Byte} (hbyte : byte ∈ decimal number) :
    isDigit byte = true := by
  obtain ⟨digit, hdigit, rfl⟩ := List.mem_map.mp hbyte
  exact isDigit_char
    (Nat.isDigit_of_mem_toDigits (by decide) (by decide) hdigit)

/-- A digit is no blank and no sign. -/
theorem not_special_of_isDigit {byte : Byte} (hbyte : isDigit byte = true) :
    isSpace byte = false ∧ byte ≠ char '-' ∧ byte ≠ char '+' ∧
      IsPlain byte := by
  rw [isDigit, Bool.and_eq_true, decide_eq_true_eq, decide_eq_true_eq] at hbyte
  have hne : ∀ other : Byte, other.toNat < 48 → byte ≠ other := by
    rintro other hother rfl
    omega
  have hspace : byte ≠ char ' ' := hne _ (by decide)
  refine ⟨?_, hne _ (by decide), hne _ (by decide), hne _ (by decide), hspace,
    hne _ (by decide)⟩
  rw [isSpace, Bool.or_eq_false_iff, Bool.and_eq_false_iff]
  exact ⟨by simpa using hspace, Or.inr (decide_eq_false (by omega))⟩

theorem decimal_ne_nil : decimal number ≠ [] := by
  rw [decimal, Ne, List.map_eq_nil_iff]
  exact Nat.toDigits_ne_nil

theorem digits_decimal : digits (decimal number) = number := by
  have hall : ∀ byte ∈ decimal number, isDigit byte = true :=
    fun _ => isDigit_of_mem_decimal
  have hvalue := @Nat.ofDigitChars_ten_toDigits number
  rw [Nat.ofDigitChars_eq_foldl] at hvalue
  rw [digits, List.takeWhile_eq_self_iff.mpr hall, decimal, List.foldl_map]
  refine (List.foldl_ext _ _ 0 ?_).trans hvalue
  intro sofar digit hdigit
  have hchar := toNat_char_of_isDigit
    (Nat.isDigit_of_mem_toDigits (by decide) (by decide) hdigit)
  rw [hchar.2.2]
  rfl

/-- A number is read as it was written. -/
theorem strtol_decimal (hnumber : number < 2 ^ 63) :
    strtol (decimal number) = number := by
  obtain ⟨byte, rest, hdecimal⟩ := List.exists_cons_of_ne_nil
    (@decimal_ne_nil number)
  have hdigit : isDigit byte = true :=
    @isDigit_of_mem_decimal number byte (hdecimal ▸ List.mem_cons_self)
  obtain ⟨hspace, hminus, hplus, -⟩ := not_special_of_isDigit hdigit
  rw [strtol, hdecimal, List.dropWhile_cons_of_neg (by simp [hspace])]
  simp only [if_neg hminus, if_neg hplus]
  rw [← hdecimal, digits_decimal]
  omega

end Decimal

/-! ## Lines -/

/-- A key that is read as it was written. -/
structure IsKey (key : List Byte) : Prop where
  nonempty : key ≠ []
  length : key.length < 128
  plain : ∀ byte ∈ key, IsPlain byte
  equals : char '=' ∉ key
  start : key.head? ≠ some (char '#') ∧ key.head? ≠ some (char '[')

/-- A string of letters that is not empty and fits into the array for a key. -/
def isWord (word : String) : Bool :=
  word.toList.all Char.isAlpha &&
    decide (0 < word.toList.length ∧ word.toList.length < 128)

/-- A value that is read as it was written. -/
structure IsValue (value : List Byte) : Prop where
  nonempty : value ≠ []
  length : value.length ≤ maxString
  plain : ∀ byte ∈ value, IsPlain byte

/-- A letter is a byte of its own. -/
theorem char_ne_of_isAlpha {letter : Char} (hletter : letter.isAlpha = true)
    {other : Byte} (hupper : ¬ (65 ≤ other.toNat ∧ other.toNat ≤ 90))
    (hlower : ¬ (97 ≤ other.toNat ∧ other.toNat ≤ 122)) :
    char letter ≠ other := by
  simp only [Char.isAlpha, Char.isUpper, Char.isLower, Bool.or_eq_true,
    Bool.and_eq_true, decide_eq_true_eq] at hletter
  have hrange : (65 ≤ letter.toNat ∧ letter.toNat ≤ 90) ∨
      (97 ≤ letter.toNat ∧ letter.toNat ≤ 122) := hletter
  rintro rfl
  rw [char, BitVec.toNat_ofNat] at hupper hlower
  omega

theorem length_text {word : String} :
    (text word).length = word.toList.length := List.length_map _

/-- A word can be a key. -/
theorem isKey_text {word : String} (hword : isWord word = true) :
    IsKey (text word) := by
  rw [isWord, Bool.and_eq_true, decide_eq_true_eq, List.all_eq_true] at hword
  obtain ⟨hletters, hpos, hlength⟩ := hword
  have hne : ∀ other : Byte, ¬ (65 ≤ other.toNat ∧ other.toNat ≤ 90) →
      ¬ (97 ≤ other.toNat ∧ other.toNat ≤ 122) → ∀ byte ∈ text word,
        byte ≠ other := by
    intro other hupper hlower byte hbyte
    obtain ⟨letter, hletter, rfl⟩ := List.mem_map.mp hbyte
    exact char_ne_of_isAlpha (hletters letter hletter) hupper hlower
  have hfirst : ∀ other : Byte, ¬ (65 ≤ other.toNat ∧ other.toNat ≤ 90) →
      ¬ (97 ≤ other.toNat ∧ other.toNat ≤ 122) →
        (text word).head? ≠ some other := fun other hupper hlower hstart =>
    hne other hupper hlower other (List.mem_of_head? hstart) rfl
  constructor
  · rw [← List.length_pos_iff, length_text]
    exact hpos
  · rw [length_text]
    exact hlength
  · intro byte hbyte
    exact ⟨hne _ (by decide) (by decide) byte hbyte,
      hne _ (by decide) (by decide) byte hbyte,
      hne _ (by decide) (by decide) byte hbyte⟩
  · exact fun hmem => hne _ (by decide) (by decide) _ hmem rfl
  · exact ⟨hfirst _ (by decide) (by decide), hfirst _ (by decide) (by decide)⟩

theorem isValue_iff {value : List Byte} :
    (value ≠ [] ∧ value.length ≤ maxString ∧ ∀ byte ∈ value, IsPlain byte) ↔
      IsValue value :=
  ⟨fun ⟨nonempty, length, plain⟩ => ⟨nonempty, length, plain⟩,
    fun ⟨nonempty, length, plain⟩ => ⟨nonempty, length, plain⟩⟩

instance : DecidablePred IsValue := fun _ =>
  decidable_of_iff _ isValue_iff

def optionLine (key value : List Byte) : List Byte :=
  key ++ text " = " ++ value

section OptionLine

variable {sections : Fin count → List Byte} {key value : List Byte}

theorem filter_of_plain {word : List Byte}
    (hplain : ∀ byte ∈ word, IsPlain byte) :
    word.filter (· != char ' ') = word := by
  rw [List.filter_eq_self]
  intro byte hbyte
  exact bne_iff_ne.mpr (hplain byte hbyte).2.1

theorem optionLine_eq :
    optionLine key value =
      (key ++ [char ' ']) ++ char '=' :: (char ' ' :: value) := by
  rw [optionLine, List.append_assoc, List.append_assoc]
  rfl

theorem head?_optionLine (hkey : IsKey key) (value : List Byte) :
    (optionLine key value).head? = key.head? := by
  rw [optionLine, List.append_assoc,
    List.head?_append_of_ne_nil _ hkey.nonempty]

/-- A line that does not start with a bracket is no header. -/
theorem getCmpSection_of_ne {line : List Byte}
    (hstart : line.head? ≠ some (char '[')) :
    getCmpSection sections line = some none := by
  cases line with
  | nil => rfl
  | cons byte rest =>
      rw [getCmpSection, if_pos]
      rintro rfl
      exact hstart rfl

/-- A line with an option is one with its key and its value. -/
theorem dataLines_optionLine (hkey : IsKey key) (hvalue : IsValue value)
    (section_ : ℕ) (lines : List (List Byte)) :
    dataLines sections section_ (optionLine key value :: lines) =
      ⟨section_, key, value⟩ :: dataLines sections section_ lines := by
  have hfront : char '=' ∉ key ++ [char ' '] := by
    rw [List.mem_append, not_or]
    exact ⟨hkey.equals, by decide⟩
  have hkeyOf : keyOf (optionLine key value) = key := by
    rw [optionLine_eq, keyOf_equals hfront, List.filter_append,
      filter_of_plain hkey.plain]
    exact List.append_nil key
  have hvalueOf : valueOf (optionLine key value) = value := by
    rw [optionLine_eq, valueOf_equals hfront]
    exact filter_of_plain hvalue.plain
  have hequals : char '=' ∈ optionLine key value := by
    rw [optionLine_eq]
    exact List.mem_append_right _ List.mem_cons_self
  obtain ⟨hcomment, hbracket⟩ := hkey.start
  have hfirst := head?_optionLine hkey value
  have hheader : header sections (optionLine key value) = none := by
    rw [header, getCmpSection_of_ne (hfirst ▸ hbracket)]
    rfl
  rw [dataLines, hfirst, if_neg hcomment, hheader]
  simp only [if_pos hequals, hkeyOf, hvalueOf]

/-- Such a line is read in one piece. -/
theorem readable_optionLine (hkey : IsKey key) (hvalue : IsValue value) :
    Readable (optionLine key value) ∧ char '\n' ∉ optionLine key value := by
  have hall : ∀ byte ∈ optionLine key value,
      byte ≠ 0 ∧ byte ≠ char '\n' := by
    intro byte hbyte
    rw [optionLine, List.mem_append, List.mem_append] at hbyte
    rcases hbyte with (hmem | hmem) | hmem
    · exact ⟨(hkey.plain byte hmem).1, (hkey.plain byte hmem).2.2⟩
    · revert byte
      decide
    · exact ⟨(hvalue.plain byte hmem).1, (hvalue.plain byte hmem).2.2⟩
  have hlength : (optionLine key value).length ≤ 511 := by
    have hkeyLength := hkey.length
    have hvalueLength : value.length ≤ 255 := hvalue.length
    have hmiddle : (text " = ").length = 3 := rfl
    rw [optionLine, List.length_append, List.length_append]
    omega
  refine ⟨⟨fun hmem => (hall 0 hmem).1 rfl, hlength, ?_⟩, fun hmem =>
    (hall _ hmem).2 rfl⟩
  intro hbracket
  rw [head?_optionLine hkey value] at hbracket
  exact absurd hbracket hkey.start.2

end OptionLine

/-! ## Files -/

def headerLine (name : String) : List Byte := text "[" ++ text name ++ text "]"

/-- A section of a file: its header, the section the header is recognised as,
and its keys with what they are for. -/
structure Block (sections : Fin count → List Byte) (Target : Type*) where
  name : String
  section_ : Fin count
  options : List (String × Target)
  recognised : header sections (headerLine name) = some section_
  name_word : isWord name = true
  key_words : ∀ option ∈ options, isWord option.1 = true

/-- The header of a section is read in one piece. -/
theorem readable_headerLine {name : String} (hname : isWord name = true) :
    Readable (headerLine name) ∧ char '\n' ∉ headerLine name := by
  have hkey := isKey_text hname
  have hall : ∀ byte ∈ headerLine name, byte ≠ 0 ∧ byte ≠ char '\n' := by
    intro byte hbyte
    rw [headerLine, List.mem_append, List.mem_append] at hbyte
    rcases hbyte with (hmem | hmem) | hmem
    · revert byte
      decide
    · exact ⟨(hkey.plain byte hmem).1, (hkey.plain byte hmem).2.2⟩
    · revert byte
      decide
  have hlength : (headerLine name).length ≤ 511 := by
    have hnameLength := hkey.length
    have hbefore : (text "[").length = 1 := rfl
    have hbehind : (text "]").length = 1 := rfl
    rw [headerLine, List.length_append, List.length_append]
    omega
  refine ⟨⟨fun hmem => (hall 0 hmem).1 rfl, hlength, fun _ => ?_⟩,
    fun hmem => (hall _ hmem).2 rfl⟩
  exact List.mem_append_right _ (by decide)

section Write

variable {sections : Fin count → List Byte} (written : Target → List Byte)
  (blocks : List (Block sections Target))

def blockLines (block : Block sections Target) : List (List Byte) :=
  headerLine block.name :: block.options.map fun option =>
    optionLine (text option.1) (written option.2)

/-- The lines of the sections, with a blank line between two of them. -/
def fileLines : List (List Byte) :=
  [[]].intercalate (blocks.map (blockLines written))

/-- The file, without a newline at its end. -/
def writeFile : List Byte := [char '\n'].intercalate (fileLines written blocks)

/-- All options with the sections they stand in. -/
def optionsOf : List (Fin count × String × Target) :=
  blocks.flatMap fun block =>
    block.options.map fun option => (block.section_, option)

/-- What the last option for a registered variable is for. -/
def lastOption (registration : Registration count Target) : Option Target :=
  ((optionsOf blocks).filter fun option =>
    option.1 = registration.section_ ∧
      text option.2.1 = registration.name).getLast?.map (·.2.2)

variable {written blocks} {registrations : List (Registration count Target)}
  {registration : Registration count Target}

/-- The line an option is read as. -/
def optionData (written : Target → List Byte)
    (option : Fin count × String × Target) : DataLine :=
  ⟨option.1, text option.2.1, written option.2.2⟩

theorem dataLines_blockLines (hvalues : ∀ target, IsValue (written target))
    (block : Block sections Target) (section_ : ℕ)
    (lines : List (List Byte)) :
    dataLines sections section_ (blockLines written block ++ lines) =
      (block.options.map fun option =>
        optionData written (block.section_, option)) ++
          dataLines sections block.section_ lines := by
  have hoptions : ∀ options : List (String × Target),
      (∀ option ∈ options, isWord option.1 = true) →
        dataLines sections block.section_
            ((options.map fun option =>
              optionLine (text option.1) (written option.2)) ++ lines) =
          (options.map fun option =>
            optionData written (block.section_, option)) ++
              dataLines sections block.section_ lines := by
    intro options hwords
    induction options with
    | nil => rfl
    | cons option options ih =>
        rw [List.map_cons, List.cons_append,
          dataLines_optionLine (isKey_text (hwords option List.mem_cons_self))
            (hvalues option.2),
          ih fun other hother => hwords other (List.mem_cons_of_mem _ hother)]
        rfl
  have hstart : (headerLine block.name).head? ≠ some (char '#') := by
    rw [headerLine, List.append_assoc,
      List.head?_append_of_ne_nil _ (by decide)]
    decide
  rw [blockLines, List.cons_append, dataLines, if_neg hstart,
    block.recognised]
  exact hoptions block.options block.key_words

theorem fileLines_cons (block : Block sections Target) :
    fileLines written (block :: blocks) =
      blockLines written block ++
        if blocks = [] then [] else [] :: fileLines written blocks := by
  cases blocks with
  | nil => simp [fileLines]
  | cons second blocks =>
      rw [fileLines, List.map_cons, List.map_cons, List.intercalate_cons_cons,
        if_neg (List.cons_ne_nil _ _), List.append_assoc]
      rfl

/-- The lines of a file with a key and a value are its options. -/
theorem dataLines_fileLines (hvalues : ∀ target, IsValue (written target))
    (section_ : ℕ) :
    dataLines sections section_ (fileLines written blocks) =
      (optionsOf blocks).map (optionData written) := by
  induction blocks generalizing section_ with
  | nil => rfl
  | cons block blocks ih =>
      have hrest : dataLines sections block.section_
          (if blocks = [] then [] else [] :: fileLines written blocks) =
            (optionsOf blocks).map (optionData written) := by
        split
        · rename_i hnone
          rw [hnone]
          rfl
        · exact ih block.section_
      rw [fileLines_cons, dataLines_blockLines hvalues, hrest, optionsOf,
        optionsOf, List.flatMap_cons, List.map_append, List.map_map]
      rfl

theorem readable_of_mem_fileLines (hvalues : ∀ target, IsValue (written target))
    {line : List Byte} (hline : line ∈ fileLines written blocks) :
    Readable line ∧ char '\n' ∉ line := by
  induction blocks with
  | nil => cases hline
  | cons block blocks ih =>
      rw [fileLines_cons, blockLines, List.mem_append, List.mem_cons,
        List.mem_map] at hline
      rcases hline with (rfl | ⟨option, hoption, rfl⟩) | hline
      · exact readable_headerLine block.name_word
      · exact readable_optionLine (isKey_text (block.key_words option hoption))
          (hvalues option.2)
      · split at hline
        · cases hline
        · rcases List.mem_cons.mp hline with rfl | hrest
          · exact ⟨readable_nil, List.not_mem_nil⟩
          · exact ih hrest

theorem splitOn_writeFile (hvalues : ∀ target, IsValue (written target))
    (hblocks : blocks ≠ []) :
    (writeFile written blocks).splitOn (char '\n') =
      fileLines written blocks := by
  obtain ⟨block, rest, rfl⟩ := List.exists_cons_of_ne_nil hblocks
  refine List.splitOn_intercalate _
    (fun line hline => (readable_of_mem_fileLines hvalues hline).2) ?_
  rw [fileLines_cons, blockLines]
  exact List.cons_ne_nil _ _

/-- An option is for a variable when its section and its key are. -/
theorem isFor_optionData (hvalues : ∀ target, IsValue (written target))
    {option : Fin count × String × Target}
    (hoption : option ∈ optionsOf blocks) :
    IsFor registration (optionData written option) ↔
      option.1 = registration.section_ ∧
        text option.2.1 = registration.name := by
  obtain ⟨block, -, hmem⟩ := List.mem_flatMap.mp hoption
  obtain ⟨key, hkey, rfl⟩ := List.mem_map.mp hmem
  have hkeys := isKey_text (block.key_words key hkey)
  constructor
  · rintro ⟨hsection, hname, -⟩
    exact ⟨Fin.ext hsection, hname⟩
  · rintro ⟨hsection, hname⟩
    exact ⟨congrArg Fin.val hsection, hname, (hvalues _).nonempty,
      hkeys.nonempty, hkeys.length⟩

/-- The last line for a variable is the one of the last option for it. -/
theorem getLast?_optionData (hvalues : ∀ target, IsValue (written target)) :
    (((optionsOf blocks).map (optionData written)).filter
        (IsFor registration)).getLast?.map (·.value) =
      (lastOption blocks registration).map written := by
  have hfilter : (optionsOf blocks).filter
      ((fun data => decide (IsFor registration data)) ∘ optionData written) =
        (optionsOf blocks).filter fun option =>
          option.1 = registration.section_ ∧
            text option.2.1 = registration.name := by
    apply List.filter_congr
    intro option hoption
    exact decide_eq_decide.mpr (isFor_optionData hvalues hoption)
  rw [List.filter_map, List.getLast?_map, hfilter, lastOption, Option.map_map,
    Option.map_map]
  rfl

/-- Loading the file that was written. -/
theorem loadKVS_writeFile [DecidableEq Target]
    (hnodup : (registrations.map (·.content)).Nodup)
    (hvalues : ∀ target, IsValue (written target)) (hblocks : blocks ≠ [])
    {memory : Target → Content} :
    ∃ after, loadKVS (kvsetOf sections registrations)
        (some (writeFile written blocks)) memory = some (0, after) ∧
      (∀ registration ∈ registrations, after registration.content =
        match lastOption blocks registration with
        | some target =>
            parseValue registration.type (written target)
              (memory registration.content)
        | none => memory registration.content) ∧
      ∀ target, target ∉ registrations.map (·.content) →
        after target = memory target := by
  have hfile : ∀ line ∈ (writeFile written blocks).splitOn (char '\n'),
      Readable line := by
    intro line hline
    rw [splitOn_writeFile hvalues hblocks] at hline
    exact (readable_of_mem_fileLines hvalues hline).1
  refine ⟨_, loadKVS_kvsetOf hfile, ?_, ?_⟩
  · intro registration hmem
    rw [splitOn_writeFile hvalues hblocks, dataLines_fileLines hvalues,
      foldl_assignData hnodup hmem, getLast?_optionData hvalues]
    cases lastOption blocks registration with
    | none => rfl
    | some target => rfl
  · intro target htarget
    exact foldl_assignData_of_notMem htarget _

end Write

end Sensor.Kvs
