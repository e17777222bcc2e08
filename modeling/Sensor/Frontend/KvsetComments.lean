import Sensor.Frontend.KvsetStores

/-!
# Comments

A line that begins with `#` is skipped up to its byte 511.  What follows is
read as strings of their own, and the line can be deleted from every file
exactly if none of them does anything.
-/

namespace Sensor.Kvs

open ByteOrder

variable {count : ℕ} {Target : Type*}

/-- A line that has a value for a key that fits. -/
def Assigns (line : List Byte) : Prop :=
  line.head? ≠ some (char '#') ∧ char '=' ∈ line ∧ keyOf line ≠ [] ∧
    (keyOf line).length < 128 ∧ valueOf line ≠ []

/-- A line that is the header of a section with a name of two bytes or more. -/
def Heads (line : List Byte) : Prop :=
  ∃ name, HeaderOf line name ∧ 2 ≤ name.length

/-- A string of a line that does nothing: it neither opens a bracket only nor
has a value for a key, and is no header with lines behind it. -/
structure Inert (raw string : List Byte) : Prop where
  closes : ¬ Opens string
  assigns : ¬ Assigns (stem string)
  heads : char '\n' ∈ raw → ¬ Heads (stem string)

/-- Deleting the line from a file that has it changes nothing. -/
def Harmless (raw : List Byte) : Prop :=
  ∀ (count : ℕ) (Target : Type) [DecidableEq Target]
    (self : Kvset count Target) (memory : Target → Content)
    (before after : List (List Byte)), FileLines (before ++ raw :: after) →
    loadKVS self (some (before ++ raw :: after).flatten) memory =
      loadKVS self (some (before ++ after).flatten) memory

/-! ## Strings that do nothing -/

section Quiet

variable [DecidableEq Target] {self : Kvset count Target}
  {state : ℕ × (Target → Content)} {line : List Byte}
  {lines : List (List Byte)}

omit [DecidableEq Target] in
/-- A header that selects a section has two bytes of its name or more. -/
theorem exists_headerOf_of_header {sections : Fin count → List Byte}
    {index : Fin count} (hheader : header sections line = some index) :
    ∃ name, HeaderOf line name ∧ 2 ≤ name.length ∧
      name <+: sections index := by
  have hfound : getCmpSection sections line = some (some index) :=
    Option.join_eq_some_iff.mp hheader
  have hhead : line.head? = some (char '[') := by
    by_contra hhead
    rw [getCmpSection_of_head? hhead] at hfound
    cases hfound
  have hclosed : ∃ name, HeaderOf line name := by
    by_contra hopen
    rw [not_exists] at hopen
    rw [getCmpSection_of_open hhead hopen] at hfound
    cases hfound
  obtain ⟨name, hname⟩ := hclosed
  rw [getCmpSection_of_headerOf hname] at hfound
  split at hfound
  · cases hfound
  · rename_i hlong
    rw [Option.some.injEq, find?_section_eq_some_iff] at hfound
    exact ⟨name, hname, Nat.lt_of_not_le hlong, hfound.1⟩

omit [DecidableEq Target] in
theorem header_of_not_heads (sections : Fin count → List Byte)
    (hheads : ¬ Heads line) : header sections line = none := by
  rw [Option.eq_none_iff_forall_ne_some]
  intro index hheader
  obtain ⟨name, hname, hlong, -⟩ := exists_headerOf_of_header hheader
  exact hheads ⟨name, hname, hlong⟩

theorem foldl_assign_of_not_accepts {key value : List Byte}
    (hnone : ∀ name, ¬ Accepts name key value) (values : List (Value Target))
    (memory : Target → Content) :
    values.foldl (assign key value) memory = memory := by
  induction values with
  | nil => rfl
  | cons current values ih =>
      rw [List.foldl_cons, assign, if_neg (hnone current.name), ih]

/-- A line without an assignment leaves the variables alone. -/
theorem lineResult_snd (hassigns : ¬ Assigns line) :
    (lineResult self state line).2 = state.2 := by
  rw [lineResult]
  split
  · rfl
  · rename_i hcomment
    split
    · rfl
    · split
      · split
        · rename_i hequals
          apply foldl_assign_of_not_accepts
          intro name haccepts
          obtain ⟨-, hvalue, hkey, hlength⟩ := haccepts
          exact hassigns ⟨hcomment, hequals, hkey, hlength, hvalue⟩
        · rfl
      · rfl

/-- A line that is no header either does nothing. -/
theorem lineResult_eq (hassigns : ¬ Assigns line) (hheads : ¬ Heads line) :
    lineResult self state line = state := by
  have hsnd := @lineResult_snd _ _ _ self state line hassigns
  have hfst : (lineResult self state line).1 = state.1 := by
    rw [lineResult, header_of_not_heads _ hheads]
    split
    · rfl
    · simp only
      split
      · split
        · rfl
        · rfl
      · rfl
  exact Prod.ext hfst hsnd

theorem foldl_lineResult_snd (hassigns : ∀ line ∈ lines, ¬ Assigns line) :
    (lines.foldl (lineResult self) state).2 = state.2 := by
  induction lines generalizing state with
  | nil => rfl
  | cons line lines ih =>
      rw [List.foldl_cons, ih fun other hother =>
        hassigns other (List.mem_cons_of_mem _ hother)]
      exact lineResult_snd (hassigns line List.mem_cons_self)

theorem foldl_lineResult_eq (hassigns : ∀ line ∈ lines, ¬ Assigns line)
    (hheads : ∀ line ∈ lines, ¬ Heads line) :
    lines.foldl (lineResult self) state = state := by
  induction lines with
  | nil => rfl
  | cons line lines ih =>
      rw [List.foldl_cons, lineResult_eq (hassigns line List.mem_cons_self)
        (hheads line List.mem_cons_self)]
      exact ih (fun other hother =>
        hassigns other (List.mem_cons_of_mem _ hother))
        fun other hother => hheads other (List.mem_cons_of_mem _ hother)

end Quiet

/-- A line without a newline is the last one of its file. -/
theorem FileLines.eq_nil_of_notMem {raw : List Byte}
    {before after : List (List Byte)}
    (hlines : FileLines (before ++ raw :: after)) (hraw : char '\n' ∉ raw) :
    after = [] := by
  induction before with
  | nil =>
      cases hlines with
      | last => rfl
      | cons => exact absurd (List.mem_append_right _ List.mem_cons_self) hraw
  | cons first before ih =>
      rw [List.cons_append] at hlines
      generalize hrest : before ++ raw :: after = rest at ih hlines
      cases hlines with
      | last => simp at hrest
      | cons _ hlines => exact ih hlines

/-- A line of inert strings can be deleted. -/
theorem harmless_of_inert {raw : List Byte}
    (hinert : ∀ string ∈ strings raw, Inert raw string) : Harmless raw := by
  intro count Target _ self memory before after hlines
  have hrest := hlines.sublist
    ((List.sublist_cons_self raw after).append_left before)
  -- no string of the line opens a bracket only
  have hopens : (∃ string ∈ strings (before ++ raw :: after).flatten,
      Opens string) ↔ ∃ string ∈ strings (before ++ after).flatten,
        Opens string := by
    have hnone : ¬ ∃ string ∈ strings raw, Opens string :=
      fun ⟨string, hstring, hopen⟩ => (hinert string hstring).closes hopen
    rw [strings_flatten hlines, strings_flatten hrest, List.flatMap_append,
      List.flatMap_append, List.flatMap_cons]
    simp only [List.mem_append, or_and_right, exists_or, hnone, false_or]
  -- and together they do not change the variables
  have hfold : (((strings (before ++ raw :: after).flatten).map stem).foldl
      (lineResult self) (0, memory)).2 =
        (((strings (before ++ after).flatten).map stem).foldl
          (lineResult self) (0, memory)).2 := by
    have hassigns : ∀ line ∈ (strings raw).map stem, ¬ Assigns line := by
      intro line hline
      obtain ⟨string, hstring, rfl⟩ := List.mem_map.mp hline
      exact (hinert string hstring).assigns
    rw [strings_flatten hlines, strings_flatten hrest, List.flatMap_append,
      List.flatMap_append, List.flatMap_cons]
    simp only [List.map_append, List.foldl_append]
    by_cases hraw : char '\n' ∈ raw
    · rw [foldl_lineResult_eq hassigns]
      intro line hline
      obtain ⟨string, hstring, rfl⟩ := List.mem_map.mp hline
      exact (hinert string hstring).heads hraw
    · rw [hlines.eq_nil_of_notMem hraw]
      exact foldl_lineResult_snd hassigns
  rw [loadKVS_eq_ite, loadKVS_eq_ite, hfold]
  simp only [hopens]

/-! ## Strings that do something -/

/-- A string variable in the first of two sections, of which only the second
has a name. -/
def listener (name key : List Byte) : Kvset 2 Unit :=
  addKVS (initKVS ![[], name]) ⟨0, Nat.zero_lt_two⟩ .string key ()

section Loud

variable {name key : List Byte} {line : List Byte} {lines : List (List Byte)}

/-- No header selects the section without a name. -/
theorem header_listener {index : Fin 2}
    (hheader : header (listener name key).sections line = some index) :
    index = 1 ∧ name ≠ [] := by
  obtain ⟨text, -, hlong, hbegins⟩ := exists_headerOf_of_header hheader
  have hlength := hlong.trans hbegins.length_le
  fin_cases index
  · cases hlength
  · refine ⟨rfl, ?_⟩
    rintro rfl
    cases hlength

/-- A header by the whole name selects the second section. -/
theorem header_listener_of_long (hname : HeaderOf line name)
    (hlong : 2 ≤ name.length) :
    header (listener name key).sections line = some 1 := by
  have hfound : ((List.finRange 2).find? fun index =>
      ((listener name key).sections index).take name.length = name) =
        some 1 := by
    rw [find?_section_eq_some_iff]
    refine ⟨List.prefix_rfl, ?_⟩
    intro earlier hlt hbegins
    obtain rfl : earlier = 0 := Fin.ext (Nat.lt_one_iff.mp hlt)
    exact Nat.not_succ_le_zero 1 (hlong.trans hbegins.length_le)
  rw [header, getCmpSection_of_headerOf hname, if_neg (Nat.not_le.mpr hlong),
    hfound]
  rfl

/-- The variable takes strings for its key in the first section. -/
theorem stores_listener (data : DataLine) :
    stores (listener name key) () data =
      if data.section_ = 0 ∧ Accepts key data.key data.value then
        [.string (data.value.take maxString)]
      else [] := by
  obtain ⟨section_, key', value⟩ := data
  match section_ with
  | 0 =>
      simp [stores, listener, addKVS, initKVS, stored, parsed, parseValue,
        Option.toList_some]
  | 1 => simp [stores, listener, addKVS, initKVS]
  | section_ + 2 => simp [stores]

/-- What it holds is a string if anything was stored. -/
theorem storesOf_listener_eq_nil {section_ : ℕ}
    (hheld : (storesOf (listener name key) () section_ lines).getLast?.getD
      (.bool false) = .bool false) :
    storesOf (listener name key) () section_ lines = [] := by
  by_contra hnonempty
  have hlast := List.getLast_mem hnonempty
  rw [List.getLast?_eq_some_getLast hnonempty, Option.getD_some] at hheld
  rw [hheld, storesOf] at hlast
  obtain ⟨data, -, hdata⟩ := List.mem_flatMap.mp hlast
  rw [stores_listener] at hdata
  split at hdata
  · simp at hdata
  · cases hdata

/-- Lines without a value for a key store nothing. -/
theorem storesOf_listener_of_not_assigns
    (hassigns : ∀ line ∈ lines, ¬ Assigns line) :
    storesOf (listener name key) () 0 lines = [] := by
  apply storesOf_listener_eq_nil
  rw [← foldl_lineResult_apply 0 (fun _ => .bool false),
    foldl_lineResult_snd hassigns]

theorem mem_dataLines {sections : Fin count → List Byte} {section_ : ℕ}
    (hnone : ∀ line, header sections line = none) (hline : line ∈ lines)
    (hcomment : line.head? ≠ some (char '#')) (hequals : char '=' ∈ line) :
    ⟨section_, keyOf line, valueOf line⟩ ∈
      dataLines sections section_ lines := by
  induction lines with
  | nil => cases hline
  | cons first lines ih =>
      rw [dataLines, hnone first]
      rcases List.mem_cons.mp hline with rfl | hrest
      · rw [if_neg hcomment]
        simp only [if_pos hequals]
        exact List.mem_cons_self
      · have hmem := ih hrest
        split
        · exact hmem
        · simp only
          split
          · exact List.mem_cons_of_mem _ hmem
          · exact hmem

/-- A line with a value for a key stores it somewhere. -/
theorem storesOf_ne_nil (hline : line ∈ lines) (hassigns : Assigns line) :
    storesOf (listener [] (keyOf line)) () 0 lines ≠ [] := by
  obtain ⟨hcomment, hequals, hkey, hlength, hvalue⟩ := hassigns
  have hnone : ∀ other,
      header (listener [] (keyOf line)).sections other = none := by
    intro other
    rw [Option.eq_none_iff_forall_ne_some]
    exact fun index hheader => (header_listener hheader).2 rfl
  have hdata := @mem_dataLines 2 line lines _ 0 hnone hline hcomment hequals
  have hstores : stores (listener [] (keyOf line)) ()
      ⟨0, keyOf line, valueOf line⟩ =
        [.string ((valueOf line).take maxString)] := by
    rw [stores_listener, if_pos ⟨rfl, rfl, hvalue, hkey, hlength⟩]
  intro hnil
  have hnone := List.flatMap_eq_nil_iff.mp hnil _ hdata
  rw [hstores] at hnone
  cases hnone

/-- A line for the key `k` stores in the first section only. -/
theorem storesOf_listener_line (section_ : ℕ) :
    storesOf (listener name (text "k")) () section_ [text "k=v"] =
      if section_ = 0 then [.string (text "v")] else [] := by
  have hheader : header (listener name (text "k")).sections (text "k=v") =
      none := by
    rw [header, getCmpSection_of_head? (by decide)]
    rfl
  have hequals : char '=' ∈ text "k=v" := by decide
  have haccepts : Accepts (text "k") (keyOf (text "k=v"))
      (valueOf (text "k=v")) := by decide
  rw [storesOf, dataLines, if_neg (by decide), hheader]
  simp only [if_pos hequals, dataLines, List.flatMap_singleton, stores_listener,
    haccepts, and_true]
  rfl

/-- Behind a header of the second section it stays the current one. -/
theorem sectionAfter_listener {section_ : ℕ} (hline : line ∈ lines)
    (hheader : header (listener name key).sections line = some 1) :
    sectionAfter (listener name key).sections section_ lines = 1 := by
  have hcomment : line.head? ≠ some (char '#') := by
    obtain ⟨text, htext, -⟩ := exists_headerOf_of_header hheader
    rw [htext.head?_eq]
    decide
  have hone : ∀ other,
      sectionOf (listener name key).sections 1 other = 1 := by
    intro other
    rw [sectionOf]
    split
    · rfl
    · cases hother : header (listener name key).sections other with
      | none => rfl
      | some index => rw [(header_listener hother).1]; rfl
  have hstays : ∀ others : List (List Byte),
      sectionAfter (listener name key).sections 1 others = 1 := by
    intro others
    induction others with
    | nil => rfl
    | cons other others ih => rw [sectionAfter, List.foldl_cons, hone]; exact ih
  induction lines generalizing section_ with
  | nil => cases hline
  | cons first lines ih =>
      rw [sectionAfter, List.foldl_cons]
      rcases List.mem_cons.mp hline with rfl | hrest
      · rw [sectionOf, if_neg hcomment, hheader]
        exact hstays lines
      · exact ih hrest

end Loud

section Main

variable {raw : List Byte}

/-- No string of a harmless comment opens a bracket only. -/
theorem Harmless.closes (hharmless : Harmless raw) (hline : FileLines [raw]) :
    ∀ string ∈ strings raw, ¬ Opens string := by
  intro string hstring hopens
  have hsame := hharmless 2 Unit (listener [] []) (fun _ => .bool false) [] []
    hline
  have hwith : ∃ string ∈ strings ([] ++ [raw]).flatten, Opens string := by
    rw [List.nil_append, List.flatten_singleton]
    exact ⟨string, hstring, hopens⟩
  rw [loadKVS_eq_ite, if_pos hwith] at hsame
  cases hsame

/-- What the variable of a listener holds with a harmless comment is what it
holds without. -/
theorem Harmless.held (hharmless : Harmless raw) {name key : List Byte}
    {after : List (List Byte)} (hlines : FileLines (raw :: after))
    (hcloses : ∀ string ∈ strings (raw :: after).flatten, ¬ Opens string) :
    (storesOf (listener name key) () 0
        ((strings (raw :: after).flatten).map stem)).getLast?.getD
          (.bool false) =
      (storesOf (listener name key) () 0
        ((strings after.flatten).map stem)).getLast?.getD (.bool false) := by
  have hsame := hharmless 2 Unit (listener name key) (fun _ => .bool false) []
    after hlines
  have hrest : ¬ ∃ string ∈ strings after.flatten, Opens string := by
    rintro ⟨string, hstring, hopens⟩
    have hsub := hlines.strings_subset (List.sublist_cons_self raw after)
    exact hcloses string (hsub hstring) hopens
  have hwith : ¬ ∃ string ∈ strings (raw :: after).flatten, Opens string :=
    fun ⟨string, hstring, hopens⟩ => hcloses string hstring hopens
  rw [List.nil_append, List.nil_append, loadKVS_eq_ite, loadKVS_eq_ite,
    if_neg hwith, if_neg hrest, Option.some.injEq, Prod.mk.injEq] at hsame
  have hheld := congrFun hsame.2 ()
  rwa [foldl_lineResult_apply, foldl_lineResult_apply] at hheld

/-- No string has a value for a key. -/
theorem Harmless.assigns (hharmless : Harmless raw) (hline : FileLines [raw]) :
    ∀ string ∈ strings raw, ¬ Assigns (stem string) := by
  intro string hstring hassigns
  refine storesOf_ne_nil (List.mem_map_of_mem hstring) hassigns ?_
  apply storesOf_listener_eq_nil
  have hheld := @Harmless.held raw hharmless [] (keyOf (stem string)) [] hline
    (by rw [List.flatten_singleton]; exact hharmless.closes hline)
  rwa [List.flatten_singleton] at hheld

/-- The string under test is no header if lines can stand behind it. -/
theorem Harmless.heads (hharmless : Harmless raw) (hline : FileLines [raw])
    (hcloses : ∀ string ∈ strings raw, ¬ Opens string)
    (hassigns : ∀ string ∈ strings raw, ¬ Assigns (stem string))
    (hnewline : char '\n' ∈ raw) {string : List Byte}
    (hstring : string ∈ strings raw) : ¬ Heads (stem string) := by
  rintro ⟨name, hname, hlong⟩
  let self := listener name (text "k")
  let lines := (strings raw).map stem
  have hlines : FileLines [raw, text "k=v\n"] := by
    cases hline with
    | last _ hnone => exact absurd hnewline hnone
    | cons hnone _ =>
        exact .cons hnone (@FileLines.cons (text "k=v") [] (by decide) .nil)
  have hall : strings [raw, text "k=v\n"].flatten =
      strings raw ++ [text "k=v\n"] := by
    rw [strings_flatten hlines]
    rfl
  have hclosesAll : ∀ other ∈ strings [raw, text "k=v\n"].flatten,
      ¬ Opens other := by
    intro other hother
    rw [hall, List.mem_append, List.mem_singleton] at hother
    cases hother with
    | inl hother => exact hcloses other hother
    | inr hother =>
        rw [hother]
        decide
  have hempty : storesOf self () 0 lines = [] := by
    apply storesOf_listener_of_not_assigns
    intro line hmem
    obtain ⟨other, hother, rfl⟩ := List.mem_map.mp hmem
    exact hassigns other hother
  have hheader : header self.sections (stem string) = some 1 :=
    header_listener_of_long hname hlong
  have hheld := @Harmless.held raw hharmless name (text "k") _ hlines
    hclosesAll
  have hsection := @sectionAfter_listener name (text "k") _ _ 0
    (List.mem_map_of_mem hstring) hheader
  have hlast : (strings [text "k=v\n"].flatten).map stem = [text "k=v"] := rfl
  rw [hall, List.map_append, storesOf_append, hsection, hempty, hlast] at hheld
  -- with the line the second section is current behind it
  have hwith : storesOf self () 1 [text "k=v"] = [] := by
    rw [storesOf_listener_line, if_neg (by decide)]
  have hwithout : storesOf self () 0 [text "k=v"] = [.string (text "v")] := by
    rw [storesOf_listener_line, if_pos rfl]
  rw [List.nil_append] at hheld
  have hfalse : Content.bool false = .string (text "v") := by
    calc Content.bool false
        = (storesOf self () 1 [text "k=v"]).getLast?.getD (.bool false) := by
          rw [hwith]
          rfl
      _ = (storesOf self () 0 [text "k=v"]).getLast?.getD (.bool false) :=
          hheld
      _ = .string (text "v") := by
          rw [hwithout]
          rfl
  cases hfalse

/-- Deleting a line changes no file exactly if all its strings are inert. -/
theorem harmless_iff (hline : FileLines [raw]) :
    Harmless raw ↔ ∀ string ∈ strings raw, Inert raw string := by
  refine ⟨?_, harmless_of_inert⟩
  intro hharmless string hstring
  have hcloses := hharmless.closes hline
  have hassigns := hharmless.assigns hline
  exact ⟨hcloses string hstring, hassigns string hstring, fun hnewline =>
    hharmless.heads hline hcloses hassigns hnewline hstring⟩

/-- A string that begins as a comment is inert. -/
theorem inert_of_comment {string : List Byte}
    (hcomment : string.head? = some (char '#')) : Inert raw string := by
  have hstem : (stem string).head? = some (char '#') := by
    rw [stem, List.head?_takeWhile, hcomment]
    rfl
  refine ⟨?_, fun hassigns => hassigns.1 hstem, ?_⟩
  · intro hopens
    rw [Opens, hcomment] at hopens
    exact absurd (Option.some.inj hopens.2.1) (by decide)
  · rintro - ⟨name, hname, -⟩
    rw [hname.head?_eq] at hstem
    exact absurd (Option.some.inj hstem) (by decide)

/-- A string without a bracket in front and without an assignment is inert. -/
theorem inert_of_plain {string : List Byte}
    (hhead : string.head? ≠ some (char '['))
    (hequals : char '=' ∉ string) : Inert raw string where
  closes := fun hopens => hhead hopens.2.1
  assigns := fun hassigns =>
    hequals ((List.takeWhile_sublist _).subset hassigns.2.1)
  heads := fun _ hheads => by
    obtain ⟨name, hname, -⟩ := hheads
    have hstem : (stem string).head? = some (char '[') := hname.head?_eq
    rw [stem, List.head?_takeWhile, Option.filter_eq_some_iff] at hstem
    exact hhead hstem.1

theorem inert_newline : Inert raw [char '\n'] :=
  inert_of_plain (by decide) (by decide)

/-- A comment of at most 511 bytes can be deleted. -/
theorem harmless_of_short (hline : FileLines [raw])
    (hcomment : raw.head? = some (char '#'))
    (hlength : (stem raw).length ≤ 511) : Harmless raw := by
  apply harmless_of_inert
  have hhead : ∀ bytes : List Byte, bytes.head? = some (char '#') →
      (bytes.takeWhile (· != 0)).head? = some (char '#') := by
    intro bytes hbytes
    rw [List.head?_takeWhile, hbytes]
    rfl
  obtain ⟨line, ending, hnewline, hending, rfl, hnonempty⟩ :=
    hline.exists_ending (List.mem_singleton_self raw)
  have hcommentLine : line.head? = some (char '#') := by
    cases line with
    | nil =>
        rcases hending with rfl | rfl
        · cases hcomment
        · exact absurd (Option.some.inj hcomment) (by decide)
    | cons byte line => exact hcomment
  rw [stem_append_ending hnewline hending] at hlength
  intro string hstring
  obtain ⟨piece, hpiece, rfl⟩ := List.mem_map.mp hstring
  have hnil : fgetsAll 512 [] [] = [] := rfl
  rcases hending with rfl | rfl
  · rw [List.append_nil] at hpiece hnonempty
    rw [fgetsAll_last hnewline hlength hnonempty, List.mem_singleton] at hpiece
    rw [hpiece]
    exact inert_of_comment (hhead _ hcommentLine)
  · rcases @fgetsAll_line line [] hnewline hlength with hwhole | hapart
    · rw [hwhole, hnil, List.append_nil, List.mem_singleton] at hpiece
      rw [hpiece]
      exact inert_of_comment (hhead _ hcomment)
    · rw [hapart, hnil, List.append_nil, List.mem_cons,
        List.mem_singleton] at hpiece
      rcases hpiece with rfl | rfl
      · exact inert_of_comment (hhead _ hcommentLine)
      · exact inert_newline

end Main

/-- A comment that `fgets` reads in two pieces. -/
def dashes : List Byte := char '#' :: List.replicate 520 (char '-')

theorem harmless_iff_dashes : Harmless (dashes ++ [char '\n']) := by
  have hline : FileLines [dashes ++ [char '\n']] :=
    .cons (by decide +kernel) .nil
  have hpieces : strings (dashes ++ [char '\n']) =
      [char '#' :: List.replicate 510 (char '-'),
        List.replicate 10 (char '-') ++ [char '\n']] := by
    decide +kernel
  rw [harmless_iff hline, hpieces, List.forall_mem_cons,
    List.forall_mem_singleton]
  constructor
  · exact inert_of_comment rfl
  · exact inert_of_plain (by decide) (by decide)

/-- A comment of 511 bytes with an assignment behind them. -/
def longComment : List Byte :=
  char '#' :: List.replicate 510 (char '-') ++ text "k=v"

/-- The assignment is made. -/
theorem not_harmless_longComment :
    ¬ ∀ raw, FileLines [raw] → raw.head? = some (char '#') →
      Harmless raw := by
  intro hharmless
  have hline : FileLines [longComment ++ [char '\n']] :=
    .cons (by decide +kernel) .nil
  have hsame := hharmless _ hline rfl 2 Unit (listener [] (text "k"))
    (fun _ => .bool false) [] [] hline
  have hstored : (loadKVS (listener [] (text "k"))
      (some ([] ++ [longComment ++ [char '\n']]).flatten)
        fun _ => .bool false).map (fun result => result.2 ()) =
          some (.string (text "v")) := by
    decide +kernel
  rw [hsame] at hstored
  exact absurd hstored (by decide)

end Sensor.Kvs
