import Sensor.Frontend.KvsetPieces

/-!
# What the lines of a file store

Loading a file leaves in every variable the last content that a line stored in
it.  A line under a header of no registered section stores what it would store
under the header before, so that such lines can be deleted only if nothing of
that lasts.
-/

namespace Sensor.Kvs

open ByteOrder

variable {count : ℕ} {Target : Type*}

/-! ## Lines of at most 511 bytes -/

/-- What `LoadKVS` sees of a line of at most 511 bytes. -/
def seen (raw : List Byte) : List Byte :=
  (stem raw).takeWhile (· != 0)

/-- The lines of a file and their newlines. -/
theorem FileLines.exists_ending {lines : List (List Byte)}
    (hlines : FileLines lines) {raw : List Byte} (hraw : raw ∈ lines) :
    ∃ line ending, char '\n' ∉ line ∧ IsEnding ending ∧ raw = line ++ ending ∧
      raw ≠ [] := by
  induction hlines with
  | nil => cases hraw
  | @last line hnonempty hnewline =>
      rw [List.mem_singleton] at hraw
      rw [hraw]
      exact ⟨line, [], hnewline, Or.inl rfl, by simp, hnonempty⟩
  | @cons line lines hnewline _ ih =>
      rcases List.mem_cons.mp hraw with rfl | hrest
      · exact ⟨line, [char '\n'], hnewline, Or.inr rfl, rfl, by simp⟩
      · exact ih hrest

theorem stem_takeWhile (raw : List Byte) :
    stem (raw.takeWhile (· != 0)) = seen raw := by
  rw [stem, seen, stem, List.takeWhile_takeWhile, List.takeWhile_takeWhile]
  congr 1
  funext byte
  exact decide_eq_decide.mpr and_comm

section Short

variable [DecidableEq Target] {self : Kvset count Target}
  {state : ℕ × (Target → Content)}

/-- A line of at most 511 bytes has the result of what is seen of it. -/
theorem foldl_strings_line {line ending : List Byte}
    (hnewline : char '\n' ∉ line) (hending : IsEnding ending)
    (hlength : line.length ≤ 511) (hnonempty : line ++ ending ≠ []) :
    ((strings (line ++ ending)).map stem).foldl (lineResult self) state =
      lineResult self state (seen (line ++ ending)) := by
  rcases hending with rfl | rfl
  · rw [List.append_nil] at hnonempty ⊢
    rw [strings, fgetsAll_last hnewline hlength hnonempty]
    simp only [List.map_cons, List.map_nil, List.foldl_cons, List.foldl_nil,
      stem_takeWhile]
  · rcases @fgetsAll_line line [] hnewline hlength with hwhole | hapart
    · rw [strings, hwhole]
      simp only [fgetsAll, List.isEmpty_nil, if_true, List.append_nil,
        List.map_cons, List.map_nil, List.foldl_cons, List.foldl_nil,
        stem_takeWhile]
    · have hsame : seen line = seen (line ++ [char '\n']) := by
        rw [seen, seen, stem_append_ending hnewline (Or.inr rfl)]
        congr 1
        have hstem := @stem_append_ending line [] hnewline (Or.inl rfl)
        rwa [List.append_nil] at hstem
      have halone : seen [char '\n'] = [] := rfl
      rw [strings, hapart]
      simp only [fgetsAll, List.isEmpty_nil, if_true, List.append_nil,
        List.map_cons, List.map_nil, List.foldl_cons, List.foldl_nil,
        stem_takeWhile, hsame, halone]
      exact lineResult_of_length_le_one readable_nil (Nat.zero_le 1)

/-- So does a file of such lines. -/
theorem foldl_strings {lines : List (List Byte)} (hlines : FileLines lines)
    (hlength : ∀ raw ∈ lines, (stem raw).length ≤ 511) :
    ((strings lines.flatten).map stem).foldl (lineResult self) state =
      (lines.map seen).foldl (lineResult self) state := by
  rw [strings_flatten hlines]
  have hall : ∀ raw ∈ lines, ∃ line ending, char '\n' ∉ line ∧
      IsEnding ending ∧ raw = line ++ ending ∧ raw ≠ [] :=
    fun raw hraw => hlines.exists_ending hraw
  clear hlines
  induction lines generalizing state with
  | nil => rfl
  | cons raw lines ih =>
      obtain ⟨line, ending, hnewline, hending, rfl, hnonempty⟩ :=
        hall raw List.mem_cons_self
      have hshort := hlength _ List.mem_cons_self
      rw [stem_append_ending hnewline hending] at hshort
      rw [List.flatMap_cons, List.map_append, List.foldl_append,
        foldl_strings_line hnewline hending hshort hnonempty, List.map_cons,
        List.foldl_cons]
      exact ih (fun other hother => hlength other (List.mem_cons_of_mem _ hother))
        fun other hother => hall other (List.mem_cons_of_mem _ hother)

end Short

/-! ## Stores -/

/-- What `parseValue` stores, whatever was there before. -/
def parsed (type : KvsType) (value : List Byte) : Option Content :=
  match type with
  | .hex => none
  | type => some (parseValue type value (.bool false))

theorem parseValue_eq_getD (type : KvsType) (value : List Byte)
    (content : Content) :
    parseValue type value content = (parsed type value).getD content := by
  cases type
  all_goals rfl

variable [DecidableEq Target]

/-- What a line stores in a target through one registered variable. -/
def stored (target : Target) (data : DataLine) (current : Value Target) :
    List Content :=
  if current.content = target ∧ Accepts current.name data.key data.value then
    (parsed current.type data.value).toList
  else []

/-- What a line stores in a target, in order. -/
def stores (self : Kvset count Target) (target : Target) (data : DataLine) :
    List Content :=
  if h : data.section_ < count then
    (self.values ⟨data.section_, h⟩).flatMap (stored target data)
  else []

/-- What the lines that begin in a section store in a target, in order. -/
def storesOf (self : Kvset count Target) (target : Target) (section_ : ℕ)
    (lines : List (List Byte)) : List Content :=
  (dataLines self.sections section_ lines).flatMap (stores self target)

omit [DecidableEq Target] in
/-- Where each step of a run leaves the last of its outputs in view, the run
leaves the last of all. -/
theorem foldl_eq_getLast? {State Item Output : Type*}
    (view : State → Output) {step : State → Item → State}
    {outputs : Item → List Output}
    (hstep : ∀ state item, view (step state item) =
      (outputs item).getLast?.getD (view state)) (state : State)
    (items : List Item) :
    view (items.foldl step state) =
      (items.flatMap outputs).getLast?.getD (view state) := by
  induction items generalizing state with
  | nil => rfl
  | cons item items ih =>
      rw [List.foldl_cons, ih, hstep, List.flatMap_cons, List.getLast?_append,
        Option.getD_or]

variable {self : Kvset count Target}

section Sections

variable {sections : Fin count → List Byte}

/-- The section a line leads to. -/
def sectionOf (sections : Fin count → List Byte) (section_ : ℕ)
    (line : List Byte) : ℕ :=
  if line.head? = some (char '#') then section_
  else ((header sections line).map Fin.val).getD section_

/-- The section that is current behind some lines. -/
def sectionAfter (sections : Fin count → List Byte) (section_ : ℕ)
    (lines : List (List Byte)) : ℕ :=
  lines.foldl (sectionOf sections) section_

theorem dataLines_append {section_ : ℕ} {first second : List (List Byte)} :
    dataLines sections section_ (first ++ second) =
      dataLines sections section_ first ++
        dataLines sections (sectionAfter sections section_ first) second := by
  induction first generalizing section_ with
  | nil => rfl
  | cons line first ih =>
      rw [List.cons_append, dataLines, dataLines, sectionAfter, List.foldl_cons,
        sectionOf]
      split
      · exact ih
      · cases header sections line with
        | some index => exact ih
        | none =>
            by_cases hequals : char '=' ∈ line
            · simp only [if_pos hequals, List.cons_append]
              exact congrArg _ ih
            · simp only [if_neg hequals]
              exact ih

/-- Behind a header it does not matter which section was current before. -/
theorem dataLines_header {line : List Byte} {lines : List (List Byte)}
    {index : Fin count} (hheader : header sections line = some index)
    (section_ other : ℕ) :
    dataLines sections section_ (line :: lines) =
      dataLines sections other (line :: lines) := by
  rw [dataLines, dataLines]
  simp only [hheader]
  split
  · rename_i hcomment
    have hnone : header sections line = none := by
      rw [header, getCmpSection_of_head?]
      · rfl
      · rw [hcomment]
        decide
    rw [hnone] at hheader
    cases hheader
  · rfl

omit [DecidableEq Target] in
theorem sectionOf_header {line : List Byte} {section_ : ℕ}
    (hheader : header sections line = none) :
    sectionOf sections section_ line = section_ := by
  rw [sectionOf, hheader]
  split
  · rfl
  · rfl

/-- Lines that are no headers leave the section as it is. -/
theorem sectionAfter_of_no_header {section_ : ℕ} {lines : List (List Byte)}
    (hlines : ∀ line ∈ lines, header sections line = none) :
    sectionAfter sections section_ lines = section_ := by
  induction lines with
  | nil => rfl
  | cons line lines ih =>
      rw [sectionAfter, List.foldl_cons,
        sectionOf_header (hlines line List.mem_cons_self)]
      exact ih fun other hother => hlines other (List.mem_cons_of_mem _ hother)

end Sections

/-- After a line a target holds what the line stored in it last. -/
theorem assignData_apply (target : Target) (memory : Target → Content)
    (data : DataLine) :
    assignData self memory data target =
      (stores self target data).getLast?.getD (memory target) := by
  rw [assignData, stores]
  split
  · refine foldl_eq_getLast? (fun memory => memory target) ?_ memory _
    intro memory current
    rw [assign, stored]
    by_cases haccepts : Accepts current.name data.key data.value
    · rw [if_pos haccepts]
      by_cases hcontent : current.content = target
      · rw [if_pos ⟨hcontent, haccepts⟩, ← hcontent, Function.update_self,
          parseValue_eq_getD]
        cases parsed current.type data.value with
        | none => rfl
        | some content => rfl
      · rw [if_neg fun hboth => hcontent hboth.1,
          Function.update_of_ne (Ne.symm hcontent)]
        rfl
    · rw [if_neg haccepts, if_neg fun hboth => haccepts hboth.2]
      rfl
  · rfl

/-- After lines a target holds what one of them stored in it last. -/
theorem foldl_lineResult_apply (section_ : ℕ) (memory : Target → Content)
    (lines : List (List Byte)) (target : Target) :
    (lines.foldl (lineResult self) (section_, memory)).2 target =
      (storesOf self target section_ lines).getLast?.getD (memory target) := by
  rw [foldl_lineResult]
  exact foldl_eq_getLast? (fun memory : Target → Content => memory target)
    (assignData_apply target) memory _

/-! ## Deleting lines -/

/-- Deleting the lines of `block` leaves every target as it was after
`LoadKVS`. -/
def Deletable (self : Kvset count Target) (memory : Target → Content)
    (before block after : List (List Byte)) : Prop :=
  ∃ result,
    loadKVS self (some (before ++ block ++ after).flatten) memory =
      some (0, result) ∧
    loadKVS self (some (before ++ after).flatten) memory = some (0, result)

/-- Behind the lines comes the end of the file or a header that selects a
section, or the lines select none. -/
def Resumes (sections : Fin count → List Byte)
    (block after : List (List Byte)) : Prop :=
  after = [] ∨
    (∃ raw rest index, after = raw :: rest ∧
      header sections (seen raw) = some index) ∨
    ∀ raw ∈ block, header sections (seen raw) = none

/-- What a target holds behind some lines. -/
def heldAfter (self : Kvset count Target) (memory : Target → Content)
    (target : Target) (lines : List (List Byte)) : Content :=
  (storesOf self target 0 (lines.map seen)).getLast?.getD (memory target)

/-- A target in which the lines of `block` store something is stored into
behind them, or holds before them what they store last. -/
def Settled (self : Kvset count Target) (memory : Target → Content)
    (before block after : List (List Byte)) (target : Target) : Prop :=
  let section_ := sectionAfter self.sections 0 (before.map seen)
  storesOf self target section_ (after.map seen) ≠ [] ∨
    ∀ last ∈ (storesOf self target section_ (block.map seen)).getLast?,
      last = heldAfter self memory target before

section Delete

variable {memory : Target → Content} {before block after : List (List Byte)}

theorem storesOf_append {target : Target} {section_ : ℕ}
    {first second : List (List Byte)} :
    storesOf self target section_ (first ++ second) =
      storesOf self target section_ first ++
        storesOf self target (sectionAfter self.sections section_ first)
          second := by
  rw [storesOf, dataLines_append, List.flatMap_append]
  rfl

/-- What is stored behind the lines does not depend on them. -/
theorem Resumes.storesOf_eq (hresumes : Resumes self.sections block after)
    (target : Target) (section_ : ℕ) :
    storesOf self target
        (sectionAfter self.sections section_ (block.map seen))
        (after.map seen) =
      storesOf self target section_ (after.map seen) := by
  rcases hresumes with rfl | ⟨raw, rest, index, rfl, hheader⟩ | hnone
  · rfl
  · rw [storesOf, List.map_cons, dataLines_header hheader _ section_]
    rfl
  · rw [sectionAfter_of_no_header]
    intro line hline
    obtain ⟨raw, hraw, rfl⟩ := List.mem_map.mp hline
    exact hnone raw hraw

theorem getLast?_getD_eq_iff {Item : Type*} {first second : List Item}
    {held : Item} :
    second.getLast?.getD (first.getLast?.getD held) =
        second.getLast?.getD held ↔
      second ≠ [] ∨ ∀ last ∈ first.getLast?, last = held := by
  cases hsecond : second.getLast? with
  | some last =>
      have hne : second ≠ [] := by
        rintro rfl
        cases hsecond
      simp [hne]
  | none =>
      rw [List.getLast?_eq_none_iff] at hsecond
      cases first.getLast? with
      | none => simp [hsecond]
      | some last => simp [hsecond]

/-- A target holds the same with the lines and without them exactly if it is
settled. -/
theorem Resumes.heldAfter_eq_iff (hresumes : Resumes self.sections block after)
    (memory : Target → Content) (before : List (List Byte)) (target : Target) :
    heldAfter self memory target (before ++ block ++ after) =
        heldAfter self memory target (before ++ after) ↔
      Settled self memory before block after target := by
  rw [heldAfter, heldAfter, List.map_append, List.map_append,
    List.map_append, List.append_assoc, storesOf_append, storesOf_append,
    storesOf_append, hresumes.storesOf_eq]
  simp only [List.getLast?_append, Option.getD_or]
  exact getLast?_getD_eq_iff

/-- What a file of lines of at most 511 bytes leaves in the targets. -/
theorem loadKVS_flatten {lines : List (List Byte)} (hlines : FileLines lines)
    (hlength : ∀ raw ∈ lines, (stem raw).length ≤ 511) :
    loadKVS self (some lines.flatten) memory =
      if ∃ string ∈ strings lines.flatten, Opens string then none
      else some (0, fun target => heldAfter self memory target lines) := by
  rw [loadKVS_eq_ite, foldl_strings hlines hlength]
  congr 3
  funext target
  exact foldl_lineResult_apply 0 memory (lines.map seen) target

/-- Lines can be deleted exactly where every string of the file that opens a
bracket closes it, and every target is settled. -/
theorem deletable_iff (hlines : FileLines (before ++ block ++ after))
    (hlength : ∀ raw ∈ before ++ block ++ after, (stem raw).length ≤ 511)
    (hresumes : Resumes self.sections block after) :
    Deletable self memory before block after ↔
      (∀ string ∈ strings (before ++ block ++ after).flatten,
        ¬ Opens string) ∧
      ∀ target, Settled self memory before block after target := by
  have hsub : (before ++ after).Sublist (before ++ block ++ after) :=
    (List.sublist_append_left before block).append_right after
  have hrest := hlines.sublist hsub
  have hshort : ∀ raw ∈ before ++ after, (stem raw).length ≤ 511 :=
    fun raw hraw => hlength raw (hsub.subset hraw)
  have hstrings := hlines.strings_subset hsub
  rw [Deletable, loadKVS_flatten hlines hlength, loadKVS_flatten hrest hshort]
  by_cases hopens : ∃ string ∈ strings (before ++ block ++ after).flatten,
      Opens string
  · rw [if_pos hopens]
    apply iff_of_false
    · rintro ⟨result, ⟨⟩, -⟩
    · rintro ⟨hcloses, -⟩
      obtain ⟨string, hstring, hopen⟩ := hopens
      exact hcloses string hstring hopen
  · have hcloses : ∀ string ∈ strings (before ++ block ++ after).flatten,
        ¬ Opens string := fun string hstring hopen =>
      hopens ⟨string, hstring, hopen⟩
    have hnone : ¬ ∃ string ∈ strings (before ++ after).flatten,
        Opens string := fun ⟨string, hstring, hopen⟩ =>
      hcloses string (hstrings hstring) hopen
    rw [if_neg hopens, if_neg hnone, and_iff_right hcloses,
      ← forall_congr' (hresumes.heldAfter_eq_iff memory before), ← funext_iff]
    constructor
    · rintro ⟨result, hwith, hwithout⟩
      have hsame := hwith.trans hwithout.symm
      simpa using hsame
    · intro hsame
      exact ⟨_, rfl, by rw [hsame]⟩

end Delete

/-- A variable `Timeout` in the section `main`. -/
def timeoutSet : Kvset 1 Unit :=
  kvsetOf (fun _ => text "main") (oneName (text "Timeout"))

theorem fileLines_timeout (header line : String)
    (hheader : char '\n' ∉ text header) (hline : char '\n' ∉ text line) :
    FileLines ([] ++ [text header ++ [char '\n'], text line ++ [char '\n']] ++
      []) :=
  .cons hheader (.cons hline .nil)

/-- The period of another section can be deleted with its header. -/
theorem deletable_iff_period :
    Deletable timeoutSet (fun _ => .bits32 0) []
      [text "[other]" ++ [char '\n'], text "Period=5" ++ [char '\n']] [] := by
  rw [deletable_iff (fileLines_timeout "[other]" "Period=5" (by decide)
    (by decide)) (by decide) (.inl rfl)]
  refine ⟨by decide +kernel, fun target => .inr ?_⟩
  cases target
  decide +kernel

/-- The timeout of another section cannot: it is stored. -/
theorem not_deletable_timeout :
    ¬ ∀ (self : Kvset 1 Unit) (memory : Unit → Content)
      (before : List (List Byte)) (first : List Byte)
      (block after : List (List Byte)),
      FileLines (before ++ first :: block ++ after) →
      (∀ raw ∈ before ++ first :: block ++ after, (stem raw).length ≤ 511) →
      (∃ name, HeaderOf (seen first) name ∧
        ∀ index, ¬ name <+: self.sections index) →
      (∀ raw ∈ block, ∀ name, HeaderOf (seen raw) name →
        ∀ index, ¬ name <+: self.sections index) →
      (after = [] ∨ ∃ raw rest index, after = raw :: rest ∧
        HeaderOf (seen raw) (self.sections index)) →
      Deletable self memory before (first :: block) after := by
  intro hdeletable
  obtain ⟨result, hwith, hwithout⟩ := hdeletable timeoutSet
    (fun _ => .bits32 0) [] (text "[other]" ++ [char '\n'])
    [text "Timeout=5" ++ [char '\n']] []
    (fileLines_timeout "[other]" "Timeout=5" (by decide) (by decide))
    (by decide) ⟨text "other", ⟨by decide, [], rfl⟩, by decide⟩ (by
      intro raw hraw name hname
      rw [List.mem_singleton] at hraw
      rw [hraw] at hname
      exact absurd hname.head?_eq (by decide)) (.inl rfl)
  have hfive : (loadKVS timeoutSet (some (text "[other]\nTimeout=5\n"))
      (fun _ => .bits32 0)).map (fun result => result.2 ()) =
        some (.bits32 5) := by
    decide +kernel
  have hzero : (loadKVS timeoutSet (some []) (fun _ => .bits32 0)).map
      (fun result => result.2 ()) = some (.bits32 0) := by
    decide +kernel
  have hafter : result () = .bits32 5 :=
    Option.some.inj ((congrArg _ hwith).symm.trans hfive)
  have hbefore : result () = .bits32 0 :=
    Option.some.inj ((congrArg _ hwithout).symm.trans hzero)
  rw [hafter] at hbefore
  exact absurd hbefore (by decide)

end Sensor.Kvs
