import Sensor.Frontend.KvsetLoad
import Sensor.Frontend.KvsetSection

/-!
# The strings `LoadKVS` looks at

`fgets` reads a line of a file, or 511 bytes of one, at a time, and `LoadKVS`
looks at the string in front of the first NUL of what was read.  A file is read
line by line, whatever the lengths of its lines, and each string has its result
on its own unless it opens a bracket that it does not close.
-/

namespace Sensor.Kvs

open ByteOrder

variable {count : ℕ} {Target : Type*}

/-! ## The strings of a file -/

/-- The strings that are in `buf` after each call of `fgets`. -/
def strings (file : List Byte) : List (List Byte) :=
  (fgetsAll 512 [] file).map fun buf => buf.takeWhile (· != 0)

/-- A string without its newline. -/
def stem (string : List Byte) : List Byte :=
  string.takeWhile (· != char '\n')

/-- What can be in `buf` after a call of `fgets`: a part of a line, with its
newline or without. -/
def IsPiece (buf : List Byte) : Prop :=
  buf.length ≤ 511 ∧ ∃ line ending, char '\n' ∉ line ∧ IsEnding ending ∧
    buf = line ++ ending

/-- The lines of a file with their newlines, which only the last may not
have. -/
inductive FileLines : List (List Byte) → Prop
  | nil : FileLines []
  | last {line : List Byte} (hnonempty : line ≠ [])
      (hnewline : char '\n' ∉ line) : FileLines [line]
  | cons {line : List Byte} {lines : List (List Byte)}
      (hnewline : char '\n' ∉ line) (hlines : FileLines lines) :
      FileLines ((line ++ [char '\n']) :: lines)

section Reading

variable {file line : List Byte}

/-- What is read behind a newline does not depend on what was read before. -/
theorem fgetsAll_newline_append {size : ℕ} {buf : List Byte} :
    fgetsAll size buf (line ++ char '\n' :: file) =
      fgetsAll size buf (line ++ [char '\n']) ++ fgetsAll size [] file := by
  induction line generalizing buf with
  | nil =>
      rw [List.nil_append, List.nil_append, fgetsAll, if_pos (Or.inl rfl),
        fgetsAll, if_pos (Or.inl rfl)]
      rfl
  | cons byte line ih =>
      rw [List.cons_append, List.cons_append, fgetsAll, fgetsAll]
      split
      · rw [ih, List.cons_append]
      · exact ih

theorem strings_newline_append :
    strings (line ++ [char '\n'] ++ file) =
      strings (line ++ [char '\n']) ++ strings file := by
  rw [strings, List.append_assoc, List.singleton_append,
    fgetsAll_newline_append, List.map_append]
  rfl

/-- A file is read line by line. -/
theorem strings_flatten {lines : List (List Byte)} (hlines : FileLines lines) :
    strings lines.flatten = lines.flatMap strings := by
  induction hlines with
  | nil => rfl
  | last hnonempty hnewline => simp
  | cons hnewline hlines ih =>
      rw [List.flatten_cons, strings_newline_append, ih, List.flatMap_cons]

theorem FileLines.sublist {lines rest : List (List Byte)}
    (hlines : FileLines lines) (hsub : rest.Sublist lines) :
    FileLines rest := by
  induction hlines generalizing rest with
  | nil =>
      rw [List.sublist_nil.mp hsub]
      exact FileLines.nil
  | last hnonempty hnewline =>
      cases hsub with
      | cons _ hnil =>
          rw [List.sublist_nil.mp hnil]
          exact FileLines.nil
      | cons_cons _ hnil =>
          rw [List.sublist_nil.mp hnil]
          exact FileLines.last hnonempty hnewline
  | cons hnewline _ ih =>
      cases hsub with
      | cons _ hrest => exact ih hrest
      | cons_cons _ hrest => exact FileLines.cons hnewline (ih hrest)

/-- The strings of some of the lines are strings of the file. -/
theorem FileLines.strings_subset {lines rest : List (List Byte)}
    (hlines : FileLines lines) (hsub : rest.Sublist lines) :
    strings rest.flatten ⊆ strings lines.flatten := by
  rw [strings_flatten hlines, strings_flatten (hlines.sublist hsub)]
  intro string hstring
  obtain ⟨raw, hraw, hmem⟩ := List.mem_flatMap.mp hstring
  exact List.mem_flatMap.mpr ⟨raw, hsub.subset hraw, hmem⟩

theorem isPiece_of_mem_fgetsAll {buf piece : List Byte}
    (hnewline : char '\n' ∉ buf) (hlength : buf.length ≤ 510)
    (hpiece : piece ∈ fgetsAll 512 buf file) : IsPiece piece := by
  induction file generalizing buf with
  | nil =>
      rw [fgetsAll] at hpiece
      split at hpiece
      · cases hpiece
      · rw [List.mem_singleton] at hpiece
        rw [hpiece]
        exact ⟨by omega, buf, [], hnewline, Or.inl rfl, by simp⟩
  | cons byte file ih =>
      rw [fgetsAll] at hpiece
      split at hpiece
      · rename_i hends
        rw [List.mem_cons] at hpiece
        rcases hpiece with rfl | hrest
        · refine ⟨by simp; omega, ?_⟩
          by_cases hbyte : byte = char '\n'
          · exact ⟨buf, [byte], hnewline, Or.inr (by rw [hbyte]), rfl⟩
          · refine ⟨buf ++ [byte], [], ?_, Or.inl rfl, by simp⟩
            rw [List.mem_append, List.mem_singleton, not_or]
            exact ⟨hnewline, fun hsame => hbyte hsame.symm⟩
        · exact ih List.not_mem_nil (Nat.zero_le 510) hrest
      · rename_i hmore
        rw [not_or] at hmore
        refine ih ?_ ?_ hpiece
        · rw [List.mem_append, List.mem_singleton, not_or]
          exact ⟨hnewline, fun hsame => hmore.1 hsame.symm⟩
        · rw [List.length_append, List.length_singleton]
          omega

/-- A string in `buf` is a part of a line without NUL. -/
theorem isPiece_of_mem_strings {string : List Byte}
    (hstring : string ∈ strings file) : IsPiece string ∧ 0 ∉ string := by
  obtain ⟨piece, hpiece, rfl⟩ := List.mem_map.mp hstring
  obtain ⟨hlength, line, ending, hnewline, hending, rfl⟩ :=
    isPiece_of_mem_fgetsAll List.not_mem_nil (Nat.zero_le 510) hpiece
  have hnul : ∀ bytes : List Byte, 0 ∉ bytes.takeWhile (· != 0) := by
    intro bytes hmem
    have hkept := List.mem_takeWhile_imp hmem
    simp at hkept
  refine ⟨⟨?_, ?_⟩, hnul _⟩
  · exact (List.takeWhile_sublist _).length_le.trans hlength
  · by_cases hmem : 0 ∈ line
    · obtain ⟨rest, -, hline⟩ := exists_eq_append hmem
      refine ⟨line.takeWhile (· != 0), [], ?_, Or.inl rfl, ?_⟩
      · exact fun hin => hnewline ((List.takeWhile_sublist _).subset hin)
      · conv_lhs => rw [hline]
        rw [List.append_assoc, List.takeWhile_append_of_pos
          (bne_of_notMem (hnul line)), List.cons_append,
          List.takeWhile_cons_of_neg (by simp)]
    · refine ⟨line, ending, hnewline, hending, ?_⟩
      rw [List.takeWhile_append_of_pos (bne_of_notMem hmem)]
      congr 1
      rcases hending with rfl | rfl
      · rfl
      · rfl

theorem stem_append_ending {ending : List Byte} (hnewline : char '\n' ∉ line)
    (hending : IsEnding ending) : stem (line ++ ending) = line := by
  rw [stem, List.takeWhile_append_of_pos (bne_of_notMem hnewline)]
  rcases hending with rfl | rfl
  · simp
  · rw [List.takeWhile_cons_of_neg (by simp), List.append_nil]

end Reading

/-! ## The results of the strings -/

/-- A string that starts with a bracket and has no closing one. -/
def Opens (string : List Byte) : Prop :=
  2 ≤ string.length ∧ string.head? = some (char '[') ∧ char ']' ∉ string

instance : DecidablePred Opens := fun string =>
  inferInstanceAs (Decidable (2 ≤ string.length ∧
    string.head? = some (char '[') ∧ char ']' ∉ string))

section Results

variable [DecidableEq Target] {self : Kvset count Target}
  {state : ℕ × (Target → Content)} {string file : List Byte}

/-- A string that opens a bracket only has no result. -/
theorem loadLine_of_opens (hopens : Opens string) :
    loadLine self state string = none := by
  obtain ⟨hlength, hhead, hbracket⟩ := hopens
  have hopen : ∀ name, ¬ HeaderOf string name := by
    rintro name ⟨-, rest, rfl⟩
    apply hbracket
    simp
  rw [loadLine, if_neg, getCmpSection_of_open hhead hopen]
  · rfl
  · rw [hhead]
    simp [char]
    omega

/-- A bracket alone does nothing. -/
theorem lineResult_bracket : lineResult self state [char '['] = state := by
  have hheader : header self.sections [char '['] = none := by
    rw [header, getCmpSection, if_neg (by simp), if_neg List.not_mem_nil]
    rfl
  have hequals : char '=' ∉ [char '['] := by decide
  rw [lineResult, if_neg (by decide), hheader]
  simp only [if_neg hequals]
  split
  · rfl
  · rfl

/-- All others have the result of a line. -/
theorem loadLine_of_not_opens (hpiece : IsPiece string) (hnul : 0 ∉ string)
    (hopens : ¬ Opens string) :
    loadLine self state string = some (lineResult self state (stem string)) := by
  obtain ⟨hlength, line, ending, hnewline, hending, rfl⟩ := hpiece
  rw [stem_append_ending hnewline hending]
  by_cases hbracket : line.head? = some (char '[') → char ']' ∈ line
  · refine loadLine_eq ⟨?_, ?_, hbracket⟩ hnewline hending
    · exact fun hmem => hnul (List.mem_append_left _ hmem)
    · rw [List.length_append] at hlength
      omega
  · -- a bracket alone, at the end of a file or before a NUL
    rw [Classical.not_imp] at hbracket
    obtain ⟨hhead, hclosed⟩ := hbracket
    obtain ⟨byte, rest, rfl⟩ := List.exists_cons_of_ne_nil
      (fun hnil : line = [] => by rw [hnil] at hhead; cases hhead)
    obtain rfl : byte = char '[' := Option.some.inj hhead
    have hshort : ¬ 2 ≤ (char '[' :: rest ++ ending).length := by
      intro htwo
      refine hopens ⟨htwo, rfl, ?_⟩
      rwa [mem_append_ending hending (by decide)]
    have hrest : rest = [] := by
      rw [List.length_append, List.length_cons] at hshort
      exact List.eq_nil_of_length_eq_zero (by omega)
    subst hrest
    rw [loadLine, if_pos (Or.inl (by omega)), lineResult_bracket]

/-- A run of steps that succeed but for bad elements. -/
theorem foldlM_eq_ite {State Element : Type*}
    {step : State → Element → Option State} (result : State → Element → State)
    (Bad : Element → Prop) [DecidablePred Bad] {elements : List Element}
    (hbad : ∀ state, ∀ element ∈ elements, Bad element →
      step state element = none)
    (hgood : ∀ state, ∀ element ∈ elements, ¬ Bad element →
      step state element = some (result state element)) (state : State) :
    elements.foldlM step state =
      if ∃ element ∈ elements, Bad element then none
      else some (elements.foldl result state) := by
  induction elements generalizing state with
  | nil => simp
  | cons element elements ih =>
      rw [List.foldlM_cons, List.foldl_cons]
      by_cases hfirst : Bad element
      · rw [hbad state element List.mem_cons_self hfirst,
          if_pos ⟨element, List.mem_cons_self, hfirst⟩]
        rfl
      · rw [hgood state element List.mem_cons_self hfirst, Option.bind_eq_bind,
          Option.bind_some,
          ih (fun other next hnext => hbad other next
            (List.mem_cons_of_mem _ hnext))
          (fun other next hnext => hgood other next
            (List.mem_cons_of_mem _ hnext))]
        simp [hfirst]

/-- `LoadKVS` does what the strings do in turn, unless one of them opens a
bracket only. -/
theorem loadKVS_eq_ite {memory : Target → Content} :
    loadKVS self (some file) memory =
      if ∃ string ∈ strings file, Opens string then none
      else some (0, (((strings file).map stem).foldl (lineResult self)
        (0, memory)).2) := by
  have hstrings : loadKVS self (some file) memory =
      ((strings file).foldlM (loadLine self) (0, memory)).map
        fun state => (0, state.2) := by
    rw [strings, List.foldlM_map]
    rfl
  rw [hstrings, foldlM_eq_ite
    (fun state string => lineResult self state (stem string)) Opens
    (fun _ _ _ hopens => loadLine_of_opens hopens)
    (fun _ string hstring hopens =>
      have hpiece := isPiece_of_mem_strings hstring
      loadLine_of_not_opens hpiece.1 hpiece.2 hopens), List.foldl_map]
  split
  · rfl
  · rfl

end Results

end Sensor.Kvs
