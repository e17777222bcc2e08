import Sensor.Frontend.KvsetLine

/-!
# Which section a header selects

`get_cmp_section` compares as many bytes of a registered name as the header
has, so that a header selects the first section whose name starts with its
text; it asks for at least two bytes, and looks for the closing bracket without
testing that there is one.
-/

namespace Sensor.Kvs

open ByteOrder

variable {count : ℕ} {sections : Fin count → List Byte}
  {line name other rest : List Byte}

/-- The line is the header of a section with that name. -/
def HeaderOf (line name : List Byte) : Prop :=
  char ']' ∉ name ∧ ∃ rest, line = char '[' :: (name ++ char ']' :: rest)

/-- `get_cmp_section` returns the first section that has the name between the
brackets of the line, and -1 where there is none. -/
def MatchesExactly (sections : Fin count → List Byte) (line : List Byte) :
    Prop :=
  ∃ result, getCmpSection sections line = some result ∧
    ∀ index, result = some index ↔
      HeaderOf line (sections index) ∧
        ∀ earlier < index, sections earlier ≠ sections index

/-- A line that starts with a bracket has the closing one behind it; its text is
no registered name if it is shorter than two bytes, and otherwise comes before
all other registered names that start with it. -/
def Distinguishes (sections : Fin count → List Byte) (line : List Byte) :
    Prop :=
  line.head? = some (char '[') → ∃ name, HeaderOf line name ∧
    (name.length ≤ 1 → ∀ index, sections index ≠ name) ∧
    (2 ≤ name.length → ∀ index, name <+: sections index →
      ∃ earlier ≤ index, sections earlier = name)

theorem HeaderOf.head?_eq (hheader : HeaderOf line name) :
    line.head? = some (char '[') := by
  obtain ⟨-, rest, rfl⟩ := hheader
  rfl

theorem takeWhile_bracket (hname : char ']' ∉ name) :
    (name ++ char ']' :: rest).takeWhile (· != char ']') = name := by
  rw [List.takeWhile_append_of_pos (bne_of_notMem hname),
    List.takeWhile_cons_of_neg (by simp), List.append_nil]

/-- A line is the header of one name only. -/
theorem HeaderOf.unique (hname : HeaderOf line name)
    (hother : HeaderOf line other) : name = other := by
  obtain ⟨hclosed, rest, rfl⟩ := hname
  obtain ⟨hclosed', rest', heq⟩ := hother
  calc name = (name ++ char ']' :: rest).takeWhile (· != char ']') :=
        (takeWhile_bracket hclosed).symm
    _ = (other ++ char ']' :: rest').takeWhile (· != char ']') := by
        rw [(List.cons.inj heq).2]
    _ = other := takeWhile_bracket hclosed'

/-- A line with a bracket that is closed is a header. -/
theorem exists_headerOf (hclosed : char ']' ∈ rest) :
    HeaderOf (char '[' :: rest) (rest.takeWhile (· != char ']')) := by
  obtain ⟨after, -, hrest⟩ := exists_eq_append hclosed
  constructor
  · intro hmem
    have hkept := List.mem_takeWhile_imp hmem
    simp at hkept
  · exact ⟨after, congrArg _ hrest⟩

/-! ## The three cases of `get_cmp_section` -/

theorem getCmpSection_of_head? (hhead : line.head? ≠ some (char '[')) :
    getCmpSection sections line = some none := by
  cases line with
  | nil => rfl
  | cons byte rest =>
      have hbyte : byte ≠ char '[' := fun hsame => hhead (by rw [hsame]; rfl)
      rw [getCmpSection, if_pos hbyte]

/-- Without the closing bracket a difference from the null pointer is
computed. -/
theorem getCmpSection_of_open (hhead : line.head? = some (char '['))
    (hopen : ∀ name, ¬ HeaderOf line name) :
    getCmpSection sections line = none := by
  cases line with
  | nil => cases hhead
  | cons byte rest =>
      obtain rfl : byte = char '[' := Option.some.inj hhead
      have hclosed : char ']' ∉ rest := fun hmem =>
        hopen _ (exists_headerOf hmem)
      rw [getCmpSection, if_neg (by simp), if_neg hclosed]

/-- A header selects the first section whose name starts with its text. -/
theorem getCmpSection_of_headerOf (hheader : HeaderOf line name) :
    getCmpSection sections line =
      if name.length ≤ 1 then some none
      else some ((List.finRange count).find? fun index =>
        (sections index).take name.length = name) := by
  obtain ⟨hname, rest, rfl⟩ := hheader
  rw [getCmpSection, if_neg (by simp), if_pos (by simp)]
  simp only [takeWhile_bracket hname]

theorem take_eq_iff_prefix {bytes : List Byte} :
    bytes.take name.length = name ↔ name <+: bytes := by
  rw [List.prefix_iff_eq_take, eq_comm]

/-- The section found is the first one with the text as a prefix. -/
theorem find?_section_eq_some_iff {index : Fin count} :
    ((List.finRange count).find? fun index =>
        (sections index).take name.length = name) = some index ↔
      name <+: sections index ∧
        ∀ earlier < index, ¬ name <+: sections earlier := by
  rw [← Fin.find?_eq_find?_finRange, Fin.find?_eq_some_iff]
  simp only [decide_eq_true_eq, decide_eq_false_iff_not, take_eq_iff_prefix]

/-! ## The main result -/

/-- The sections with a prefix are found exactly where the name itself comes
first among them. -/
theorem find?_section_exact_iff :
    (∀ index, ((List.finRange count).find? fun index =>
        (sections index).take name.length = name) = some index ↔
      name = sections index ∧
        ∀ earlier < index, sections earlier ≠ sections index) ↔
      ∀ index, name <+: sections index →
        ∃ earlier ≤ index, sections earlier = name := by
  simp only [find?_section_eq_some_iff]
  constructor
  · intro hexact index hbegins
    -- the first section with the prefix has the name itself
    obtain ⟨first, hfirst, hbefore⟩ :=
      (Fin.exists_iff_exists_minimal fun index => name <+: sections index).mp
        ⟨index, hbegins⟩
    have hname := ((hexact first).mp ⟨hfirst, hbefore⟩).1
    refine ⟨first, ?_, hname.symm⟩
    by_contra hlate
    exact hbefore index (not_le.mp hlate) hbegins
  · intro hnamed index
    constructor
    · intro hfound
      obtain ⟨hbegins, hbefore⟩ := hfound
      obtain ⟨earlier, hle, hearlier⟩ := hnamed index hbegins
      have hsame : earlier = index := by
        by_contra hne
        exact hbefore earlier (lt_of_le_of_ne hle hne)
          (hearlier ▸ List.prefix_rfl)
      rw [hsame] at hearlier
      refine ⟨hearlier.symm, ?_⟩
      intro other hlt hequal
      exact hbefore other hlt (hequal.trans hearlier ▸ List.prefix_rfl)
    · intro hexact
      obtain ⟨hname, hbefore⟩ := hexact
      refine ⟨hname ▸ List.prefix_rfl, ?_⟩
      intro other hlt hbegins
      obtain ⟨earlier, hle, hearlier⟩ := hnamed other hbegins
      exact hbefore earlier (hle.trans_lt hlt) (hearlier.trans hname)

/-- A name is right to be found nowhere where it is not registered. -/
theorem none_exact_iff :
    (∃ result : Option (Fin count), some none = some result ∧
      ∀ index, result = some index ↔
        name = sections index ∧
          ∀ earlier < index, sections earlier ≠ sections index) ↔
      ∀ index, sections index ≠ name := by
  simp only [Option.some.injEq, exists_eq_left', reduceCtorEq, false_iff,
    not_and]
  constructor
  · intro hexact index hindex
    -- the first section with the name is one to be found
    obtain ⟨first, hfirst, hbefore⟩ :=
      (Fin.exists_iff_exists_minimal fun index => sections index = name).mp
        ⟨index, hindex⟩
    apply hexact first hfirst.symm
    intro earlier hlt hsame
    exact hbefore earlier hlt (hsame.trans hfirst)
  · intro hnone index hname
    exact absurd hname.symm (hnone index)

/-- Headers match exactly where the names tell them apart. -/
theorem matchesExactly_iff (sections : Fin count → List Byte)
    (line : List Byte) :
    MatchesExactly sections line ↔ Distinguishes sections line := by
  rw [MatchesExactly, Distinguishes]
  by_cases hhead : line.head? = some (char '[')
  · rw [imp_iff_right hhead]
    by_cases hopen : ∀ name, ¬ HeaderOf line name
    · rw [getCmpSection_of_open hhead hopen]
      simp [hopen]
    · rw [not_forall_not] at hopen
      obtain ⟨name, hheader⟩ := hopen
      have hname : ∀ other, HeaderOf line other ↔ name = other := fun other =>
        ⟨hheader.unique, fun hsame => hsame ▸ hheader⟩
      simp only [hname, exists_eq_left']
      rw [getCmpSection_of_headerOf hheader]
      by_cases hshort : name.length ≤ 1
      · have hlong : ¬ 2 ≤ name.length := Nat.not_le.mpr
          (Nat.lt_succ_of_le hshort)
        rw [if_pos hshort, none_exact_iff]
        simp [hshort, hlong]
      · have hlong : 2 ≤ name.length := Nat.lt_of_not_le hshort
        rw [if_neg hshort, imp_iff_right hlong, ← find?_section_exact_iff]
        simp [hshort]
  · rw [getCmpSection_of_head? hhead]
    simp only [hhead, false_imp_iff, iff_true]
    refine ⟨none, rfl, fun index => iff_of_false nofun ?_⟩
    intro hboth
    exact hhead hboth.1.head?_eq

/-- The header `[cap]` selects the section `capture`. -/
theorem not_matchesExactly :
    ¬ ∀ (count : ℕ) (sections : Fin count → List Byte) (line : List Byte),
      MatchesExactly sections line := by
  intro hexact
  obtain ⟨result, hresult, hindex⟩ := hexact 1 (fun _ => text "capture")
    (text "[cap]\n")
  have hselected : result = some 0 := Option.some.inj
    (hresult.symm.trans (by decide))
  obtain ⟨⟨-, rest, hline⟩, -⟩ := (hindex 0).mp hselected
  have hlength := congrArg List.length hline
  simp [text] at hlength

end Sensor.Kvs
