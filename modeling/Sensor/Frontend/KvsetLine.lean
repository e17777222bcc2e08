import Sensor.Frontend.Kvset
import Mathlib.Data.List.TakeWhile

/-!
# What a line of a configuration file does

A line gives its value to the variables that are registered for its key, when
the key is not empty and fits into the 128 bytes `LoadKVS` has for it.
-/

namespace Sensor.Kvs

open ByteOrder

variable {count : ℕ} {Target : Type*}

/-- The key of a line, without spaces. -/
def keyOf (line : List Byte) : List Byte :=
  (line.takeWhile (· != char '=')).filter (· != char ' ')

/-- The value of a line, without spaces. -/
def valueOf (line : List Byte) : List Byte :=
  ((line.dropWhile (· != char '=')).drop 1).filter (· != char ' ')

/-- The section a line is the header of. -/
def header (sections : Fin count → List Byte) (line : List Byte) :
    Option (Fin count) :=
  (getCmpSection sections line).join

/-- A line `LoadKVS` can read: it is read in one piece, up to its newline, and
a bracket that is opened at its start is closed. -/
structure Readable (line : List Byte) : Prop where
  no_nul : 0 ∉ line
  length : line.length ≤ 511
  bracket : line.head? = some (char '[') → char ']' ∈ line

theorem readable_iff {line : List Byte} :
    (0 ∉ line ∧ line.length ≤ 511 ∧
      (line.head? = some (char '[') → char ']' ∈ line)) ↔ Readable line :=
  ⟨fun ⟨no_nul, length, bracket⟩ => ⟨no_nul, length, bracket⟩,
    fun ⟨no_nul, length, bracket⟩ => ⟨no_nul, length, bracket⟩⟩

instance : DecidablePred Readable := fun _ =>
  decidable_of_iff _ readable_iff

/-! ## Keys and values -/

theorem bne_of_notMem {stop : Byte} {bytes : List Byte}
    (hstop : stop ∉ bytes) : ∀ byte ∈ bytes, (byte != stop) = true := by
  intro byte hbyte
  rw [bne_iff_ne]
  rintro rfl
  exact hstop hbyte

/-- What is copied of a text: the bytes before the stop, without spaces. -/
def copied (stop : Byte) (source : List Byte) : List Byte :=
  (source.takeWhile (· != stop)).filter (· != char ' ')

section Copy

variable {stop byte : Byte} {before source after written : List Byte}
  {room : ℕ}

theorem copied_stop : copied stop (stop :: source) = [] := by
  rw [copied, List.takeWhile_cons_of_neg (by simp), List.filter_nil]

theorem copied_space (hstop : stop ≠ char ' ') :
    copied stop (char ' ' :: source) = copied stop source := by
  rw [copied, List.takeWhile_cons_of_pos (by simpa using hstop.symm),
    List.filter_cons_of_neg (by simp), copied]

theorem copied_cons (hstop : byte ≠ stop) (hspace : byte ≠ char ' ') :
    copied stop (byte :: source) = byte :: copied stop source := by
  rw [copied, List.takeWhile_cons_of_pos (by simpa using hstop),
    List.filter_cons_of_pos (by simpa using hspace), copied]

/-- One pass of the loop. -/
theorem copyLoop_cons {arraylen j : ℕ} {array : List Byte}
    (hj : j < arraylen) :
    copyLoop stop (before ++ byte :: source ++ after) arraylen
        (byte :: source).length before.length j array =
      if byte = char ' ' then
        copyLoop stop ((before ++ [byte]) ++ source ++ after) arraylen
          source.length (before ++ [byte]).length j array
      else if byte = stop then some (before.length, j, array)
      else (store array j byte).bind
        (copyLoop stop ((before ++ [byte]) ++ source ++ after) arraylen
          source.length (before ++ [byte]).length (j + 1)) := by
  have hbyte : (before ++ byte :: source ++ after)[before.length]? =
      some byte := by simp
  rw [List.length_cons, copyLoop, if_pos hj, hbyte, Option.bind_some]
  simp

theorem store_replicate :
    store (written ++ List.replicate (room + 1) 0) written.length byte =
      some ((written ++ [byte]) ++ List.replicate room 0) := by
  rw [store, if_pos (by simp)]
  simp [List.replicate_succ]

theorem length_add_succ :
    written.length + (room + 1) = (written ++ [byte]).length + room := by
  rw [List.length_append, List.length_singleton]
  omega

/-- A byte that is neither a space nor the stop takes the next place. -/
theorem copyLoop_byte (hspace : ¬ byte = char ' ') (hend : ¬ byte = stop) :
    copyLoop stop (before ++ byte :: source ++ after)
        (written.length + (room + 1)) (byte :: source).length before.length
        written.length (written ++ List.replicate (room + 1) 0) =
      copyLoop stop ((before ++ [byte]) ++ source ++ after)
        ((written ++ [byte]).length + room) source.length
        (before ++ [byte]).length (written ++ [byte]).length
        ((written ++ [byte]) ++ List.replicate room 0) := by
  have hwritten : written.length + 1 = (written ++ [byte]).length := by
    rw [List.length_append, List.length_singleton]
  rw [copyLoop_cons (by omega), if_neg hspace, if_neg hend, store_replicate,
    Option.bind_some, hwritten, @length_add_succ byte]

/-- A text whose copy leaves room in the array is copied up to the stop. -/
theorem copyLoop_of_lt (hstop : stop ≠ char ' ')
    (hroom : (copied stop source).length < room) :
    copyLoop stop (before ++ source ++ after) (written.length + room)
        source.length before.length written.length
        (written ++ List.replicate room 0) =
      some (before.length + (source.takeWhile (· != stop)).length,
        written.length + (copied stop source).length,
        written ++ copied stop source ++
          List.replicate (room - (copied stop source).length) 0) := by
  induction source generalizing before written room with
  | nil => simp [copyLoop, copied]
  | cons byte source ih =>
      by_cases hspace : byte = char ' '
      · subst hspace
        rw [copied_space hstop] at hroom ⊢
        rw [copyLoop_cons (by omega), if_pos rfl, ih hroom,
          List.takeWhile_cons_of_pos (by simpa using hstop.symm)]
        simp
        omega
      by_cases hend : byte = stop
      · subst hend
        rw [copyLoop_cons (by omega), if_neg hspace, if_pos rfl, copied_stop]
        simp
      · rw [copied_cons hend hspace, List.length_cons] at hroom
        obtain ⟨room, rfl⟩ := Nat.exists_eq_add_one_of_ne_zero
          (Nat.ne_zero_of_lt hroom)
        rw [copyLoop_byte hspace hend, ih (Nat.lt_of_succ_lt_succ hroom),
          copied_cons hend hspace,
          List.takeWhile_cons_of_pos (by simpa using hend)]
        simp
        omega

/-- A text whose copy does not leave room fills the array. -/
theorem copyLoop_of_le (hstop : stop ≠ char ' ')
    (hroom : room ≤ (copied stop source).length) :
    ∃ i array, copyLoop stop (before ++ source ++ after)
        (written.length + room) source.length before.length written.length
        (written ++ List.replicate room 0) =
      some (i, written.length + room, array) := by
  induction source generalizing before written room with
  | nil =>
      have hfull : room = 0 := Nat.le_zero.mp hroom
      exact ⟨_, _, by rw [hfull, List.length_nil, copyLoop, Nat.add_zero]⟩
  | cons byte source ih =>
      rcases room with - | room
      · exact ⟨before.length, written, by simp [copyLoop]⟩
      by_cases hspace : byte = char ' '
      · subst hspace
        rw [copied_space hstop] at hroom
        rw [copyLoop_cons (by omega), if_pos rfl]
        exact ih hroom
      by_cases hend : byte = stop
      · subst hend
        rw [copied_stop] at hroom
        cases hroom
      · rw [copied_cons hend hspace, List.length_cons] at hroom
        rw [copyLoop_byte hspace hend, @length_add_succ byte]
        exact ih (Nat.le_of_succ_le_succ hroom)

/-- Copying to an empty array that has room. -/
theorem copyLoop_empty_of_lt (before after : List Byte) {arraylen : ℕ}
    (hstop : stop ≠ char ' ') (hroom : (copied stop source).length < arraylen) :
    copyLoop stop (before ++ source ++ after) arraylen source.length
        before.length 0 (List.replicate arraylen 0) =
      some (before.length + (source.takeWhile (· != stop)).length,
        (copied stop source).length,
        copied stop source ++
          List.replicate (arraylen - (copied stop source).length) 0) := by
  have hcopy := @copyLoop_of_lt stop before source after [] arraylen hstop hroom
  rwa [List.nil_append, List.nil_append, List.length_nil, Nat.zero_add,
    Nat.zero_add] at hcopy

/-- Copying to an empty array that has no room. -/
theorem copyLoop_empty_of_le (before after : List Byte) {arraylen : ℕ}
    (hstop : stop ≠ char ' ') (hroom : arraylen ≤ (copied stop source).length) :
    ∃ i array, copyLoop stop (before ++ source ++ after) arraylen
        source.length before.length 0 (List.replicate arraylen 0) =
      some (i, arraylen, array) := by
  have hcopy := @copyLoop_of_le stop before source after [] arraylen hstop hroom
  rwa [List.nil_append, List.length_nil, Nat.zero_add] at hcopy

end Copy

section Line

variable {line : List Byte}

/-- A line with some byte is what stands before it, the byte and the rest: a
line with an equals sign is a key, the sign and the rest. -/
theorem exists_eq_append {stop : Byte} (hstop : stop ∈ line) :
    ∃ rest, line.dropWhile (· != stop) = stop :: rest ∧
      line = line.takeWhile (· != stop) ++ stop :: rest := by
  have hnonempty : line.dropWhile (· != stop) ≠ [] := by
    intro hnil
    have hkept := List.dropWhile_eq_nil_iff.mp hnil _ hstop
    simp at hkept
  obtain ⟨byte, rest, hrest⟩ := List.exists_cons_of_ne_nil hnonempty
  have hbyte : byte = stop := by
    have hhead := List.head_dropWhile_not (· != stop) hnonempty
    simpa [hrest] using hhead
  subst hbyte
  refine ⟨rest, hrest, ?_⟩
  rw [← hrest, List.takeWhile_append_dropWhile]

/-- The value `get_key_value` finds: the bytes between the first equals sign
and the newline, without spaces. -/
def valueFound (line : List Byte) : List Byte :=
  copied (char '\n') ((line.dropWhile (· != char '=')).drop 1)

variable {keylen vallen : ℕ}

/-- A key that leaves room in its array is found with its value. -/
theorem getKeyValue_of_lt (hequals : char '=' ∈ line)
    (hkey : (keyOf line).length < keylen)
    (hvalue : (valueFound line).length < vallen) :
    getKeyValue (line ++ [0]) keylen vallen line.length =
      some (keyOf line ++ List.replicate (keylen - (keyOf line).length) 0,
        valueFound line ++
          List.replicate (vallen - (valueFound line).length) 0, 0) := by
  obtain ⟨rest, hdrop, hline⟩ := exists_eq_append hequals
  have hfound : valueFound line = copied (char '\n') rest := by
    rw [valueFound, hdrop, List.drop_one, List.tail_cons]
  have hbuffer : line ++ [0] =
      (line.takeWhile (· != char '=') ++ [char '=']) ++ rest ++ [0] := by
    conv_lhs => rw [hline]
    simp
  have hlength : line.length =
      (line.takeWhile (· != char '=')).length + 1 + rest.length := by
    conv_lhs => rw [hline]
    simp
    omega
  have hfirst := copyLoop_empty_of_lt [] [0] (by decide) hkey
  have hsecond := copyLoop_empty_of_lt
    (line.takeWhile (· != char '=') ++ [char '=']) [0] (by decide)
    (hfound ▸ hvalue)
  rw [List.nil_append, List.length_nil, Nat.zero_add] at hfirst
  rw [← hbuffer, List.length_append, List.length_singleton] at hsecond
  rw [getKeyValue, hfirst, Option.bind_some]
  have hmore : ¬ ((line.takeWhile (· != char '=')).length = line.length ∨
      (copied (char '=') line).length = keylen) := by
    have hkey' : (copied (char '=') line).length < keylen := hkey
    omega
  have hleft : line.length - ((line.takeWhile (· != char '=')).length + 1) =
      rest.length := by omega
  simp only
  rw [if_neg hmore, hleft, hsecond, hfound]
  rfl

/-- A key that does not leave room in its array has no value. -/
theorem getKeyValue_of_le (hkey : keylen ≤ (keyOf line).length) :
    ∃ key, getKeyValue (line ++ [0]) keylen vallen line.length =
      some (key, List.replicate vallen 0, 1) := by
  obtain ⟨i, key, hcopy⟩ := copyLoop_empty_of_le [] [0] (by decide) hkey
  rw [List.nil_append, List.length_nil] at hcopy
  refine ⟨key, ?_⟩
  rw [getKeyValue, hcopy, Option.bind_some]
  exact if_pos (Or.inr rfl)

end Line

section Values

variable [DecidableEq Target] {line key value : List Byte}
  {memory : Target → Content} {current : Value Target}

/-- A key and a value are for a name: the key fits into its array and neither
of them is empty. -/
def Accepts (name key value : List Byte) : Prop :=
  key = name ∧ value ≠ [] ∧ key ≠ [] ∧ key.length < 128

instance {name : List Byte} : Decidable (Accepts name key value) :=
  inferInstanceAs (Decidable (_ ∧ _ ∧ _ ∧ _))

/-- What a key and a value do to a variable that is registered for a name. -/
def assign (key value : List Byte) (memory : Target → Content)
    (current : Value Target) : Target → Content :=
  if Accepts current.name key value then
    Function.update memory current.content
      (parseValue current.type value (memory current.content))
  else memory

/-- The string in an array that has room behind it. -/
theorem cString_append_replicate {bytes : List Byte} {room : ℕ}
    (hnul : 0 ∉ bytes) (hroom : bytes.length < room) :
    cString (bytes ++ List.replicate (room - bytes.length) 0) = some bytes := by
  obtain ⟨rest, hrest⟩ := Nat.exists_eq_add_one_of_ne_zero
    (Nat.sub_ne_zero_of_lt hroom)
  rw [cString, hrest, if_pos (by simp [List.replicate_succ]),
    List.takeWhile_append_of_pos (bne_of_notMem hnul)]
  simp [List.replicate_succ]

theorem getElem?_append_replicate {bytes : List Byte} {room : ℕ}
    (hnul : 0 ∉ bytes) (hroom : bytes.length < room) :
    (bytes ++ List.replicate (room - bytes.length) 0)[0]? ≠ some 0 ↔
      bytes ≠ [] := by
  cases bytes with
  | nil =>
      obtain ⟨rest, hrest⟩ := Nat.exists_eq_add_one_of_ne_zero
        (Nat.ne_zero_of_lt hroom)
      simp [hrest, List.replicate_succ]
  | cons byte bytes =>
      have hbyte : byte ≠ 0 := by
        rintro rfl
        exact hnul List.mem_cons_self
      simpa using hbyte

theorem not_mem_keyOf (hnul : 0 ∉ line) : 0 ∉ keyOf line := fun hmem =>
  hnul ((List.takeWhile_sublist _).subset (List.mem_filter.mp hmem).1)

theorem not_mem_valueFound (hnul : 0 ∉ line) : 0 ∉ valueFound line :=
  fun hmem => hnul
    (((List.takeWhile_sublist _).trans
      ((List.drop_sublist _ _).trans (List.dropWhile_sublist _))).subset
        (List.mem_filter.mp hmem).1)

/-- A line with an equals sign is compared with a registered name. -/
theorem loadValue_eq (hnul : 0 ∉ line) (hequals : char '=' ∈ line)
    (hvalue : (valueFound line).length < 512) :
    loadValue (line ++ [0]) line.length memory current =
      some (assign (keyOf line) (valueFound line) memory current) := by
  rw [loadValue, assign]
  rcases Nat.lt_or_ge (keyOf line).length 128 with hkey | hkey
  · rw [getKeyValue_of_lt hequals hkey hvalue, Option.bind_some]
    simp only [getElem?_append_replicate (not_mem_keyOf hnul) hkey,
      getElem?_append_replicate (not_mem_valueFound hnul) hvalue,
      cString_append_replicate (not_mem_keyOf hnul) hkey,
      cString_append_replicate (not_mem_valueFound hnul) hvalue,
      Option.bind_some, Option.map_some]
    by_cases haccepts : Accepts current.name (keyOf line) (valueFound line)
    · obtain ⟨hname, hsome, hnonempty, -⟩ := id haccepts
      rw [if_pos ⟨hnonempty, hsome⟩, if_pos hname.symm, if_pos haccepts]
    · rw [if_neg haccepts]
      split
      · rename_i hnonempty
        rw [if_neg]
        intro hname
        exact haccepts ⟨hname.symm, hnonempty.2, hnonempty.1, hkey⟩
      · rfl
  · obtain ⟨key, hfound⟩ := getKeyValue_of_le hkey
    have hnone : ¬ Accepts current.name (keyOf line) (valueFound line) :=
      fun haccepts => Nat.not_lt.mpr hkey haccepts.2.2.2
    rw [hfound, Option.bind_some, if_neg hnone]
    exact if_neg fun hsome => hsome.2 rfl

/-- A fold whose steps all succeed. -/
theorem foldlM_eq_some {State Element : Type*}
    {step : State → Element → Option State} (result : State → Element → State)
    {elements : List Element}
    (hstep : ∀ state, ∀ element ∈ elements,
      step state element = some (result state element)) (state : State) :
    elements.foldlM step state = some (elements.foldl result state) := by
  induction elements generalizing state with
  | nil => rfl
  | cons element elements ih =>
      rw [List.foldlM_cons, hstep state element List.mem_cons_self]
      exact ih (fun other next hnext =>
        hstep other next (List.mem_cons_of_mem _ hnext)) _

end Values

/-! ## Lines without their newline -/

section Lines

variable [DecidableEq Target] {line : List Byte}

/-- What a line does to the section and the variables. -/
def lineResult (self : Kvset count Target)
    (state : ℕ × (Target → Content)) (line : List Byte) :
    ℕ × (Target → Content) :=
  if line.head? = some (char '#') then state
  else
    match header self.sections line with
    | some index => (index.val, state.2)
    | none =>
        if h : state.1 < count then
          if char '=' ∈ line then
            (state.1, (self.values ⟨state.1, h⟩).foldl
              (assign (keyOf line) (valueOf line)) state.2)
          else state
        else state

/-- A line ends behind a newline or with the file. -/
def IsEnding (ending : List Byte) : Prop :=
  ending = [] ∨ ending = [char '\n']

section Equals

variable {front rest ending : List Byte}

theorem takeWhile_equals (hfront : char '=' ∉ front) :
    (front ++ char '=' :: rest).takeWhile (· != char '=') = front := by
  rw [List.takeWhile_append_of_pos (bne_of_notMem hfront),
    List.takeWhile_cons_of_neg (by simp), List.append_nil]

theorem dropWhile_equals (hfront : char '=' ∉ front) :
    (front ++ char '=' :: rest).dropWhile (· != char '=') =
      char '=' :: rest := by
  rw [List.dropWhile_append_of_pos (bne_of_notMem hfront),
    List.dropWhile_cons_of_neg (by simp)]

theorem keyOf_equals (hfront : char '=' ∉ front) :
    keyOf (front ++ char '=' :: rest) = front.filter (· != char ' ') := by
  rw [keyOf, takeWhile_equals hfront]

theorem valueOf_equals (hfront : char '=' ∉ front) :
    valueOf (front ++ char '=' :: rest) = rest.filter (· != char ' ') := by
  rw [valueOf, dropWhile_equals hfront, List.drop_one, List.tail_cons]

theorem valueFound_equals (hfront : char '=' ∉ front)
    (hnewline : char '\n' ∉ rest) (hending : IsEnding ending) :
    valueFound (front ++ char '=' :: (rest ++ ending)) =
      rest.filter (· != char ' ') := by
  rw [valueFound, dropWhile_equals hfront, List.drop_one, List.tail_cons,
    copied, List.takeWhile_append_of_pos (bne_of_notMem hnewline)]
  rcases hending with rfl | rfl
  · rw [List.takeWhile_nil, List.append_nil]
  · rw [List.takeWhile_cons_of_neg (by simp), List.append_nil]

end Equals

/-- The ending of a line belongs neither to its key nor to its value. -/
theorem keyOf_and_valueFound_append {ending : List Byte}
    (hending : IsEnding ending) (hequals : char '=' ∈ line)
    (hnewline : char '\n' ∉ line) :
    keyOf (line ++ ending) = keyOf line ∧
      valueFound (line ++ ending) = valueOf line := by
  obtain ⟨rest, -, hline⟩ := exists_eq_append hequals
  have hfront : char '=' ∉ line.takeWhile (· != char '=') := by
    intro hmem
    have hkept := List.mem_takeWhile_imp hmem
    simp at hkept
  have hrest : char '\n' ∉ rest := by
    intro hmem
    apply hnewline
    rw [hline]
    exact List.mem_append_right _ (List.mem_cons_of_mem _ hmem)
  rw [hline, List.append_assoc, List.cons_append, keyOf_equals hfront,
    keyOf_equals hfront, valueOf_equals hfront,
    valueFound_equals hfront hrest hending]
  exact ⟨rfl, rfl⟩

/-- The ending of a line does not change what it is the header of. -/
theorem getCmpSection_append {sections : Fin count → List Byte}
    {ending : List Byte}
    (hbracket : line.head? = some (char '[') → char ']' ∈ line)
    (hnonempty : line ≠ []) :
    getCmpSection sections (line ++ ending) =
      some (header sections line) := by
  obtain ⟨byte, rest, rfl⟩ := List.exists_cons_of_ne_nil hnonempty
  rw [header, List.cons_append, getCmpSection, getCmpSection]
  by_cases hbyte : byte = char '['
  · have hmem : char ']' ∈ rest := by
      have hclosed := hbracket (by simp [hbyte])
      rw [List.mem_cons] at hclosed
      rcases hclosed with hsame | hmem
      · rw [hbyte] at hsame
        exact absurd hsame (by decide)
      · exact hmem
    have hname : (rest ++ ending).takeWhile (· != char ']') =
        rest.takeWhile (· != char ']') := by
      rw [List.takeWhile_append, if_neg]
      intro hlength
      have hall := (List.takeWhile_prefix _).eq_of_length hlength
      rw [List.takeWhile_eq_self_iff] at hall
      simpa using hall _ hmem
    simp only [hbyte, hmem, hname, ne_eq, not_true_eq_false, if_false,
      List.mem_append, true_or, if_true]
    split
    · rfl
    · rfl
  · simp [hbyte]

theorem length_valueOf_le : (valueOf line).length ≤ line.length :=
  (List.length_filter_le _ _).trans
    ((List.drop_sublist _ _).trans (List.dropWhile_sublist _)).length_le

theorem foldl_assign_of_key_nil {value : List Byte}
    {values : List (Value Target)} {memory : Target → Content} :
    values.foldl (assign [] value) memory = memory := by
  induction values with
  | nil => rfl
  | cons current values ih =>
      have hnone : ¬ Accepts current.name [] value := fun haccepts =>
        haccepts.2.2.1 rfl
      rw [List.foldl_cons, assign, if_neg hnone, ih]

/-- A line that is too short to be looked at does nothing. -/
theorem lineResult_of_length_le_one {self : Kvset count Target}
    {state : ℕ × (Target → Content)} (hread : Readable line)
    (hlength : line.length ≤ 1) : lineResult self state line = state := by
  match line with
  | [] => simp [lineResult, header, getCmpSection]
  | [byte] =>
      have hbyte : byte ≠ char '[' := by
        rintro rfl
        have hclosed := hread.bracket rfl
        rw [List.mem_singleton] at hclosed
        exact absurd hclosed (by decide)
      have hheader : header self.sections [byte] = none := by
        rw [header, getCmpSection, if_pos hbyte]
        rfl
      have hkey : char '=' ∈ [byte] → keyOf [byte] = [] := by
        intro hmem
        rw [List.mem_singleton] at hmem
        rw [← hmem]
        rfl
      rw [lineResult, hheader]
      split
      · rfl
      simp only
      split
      · split
        · rename_i hequals
          rw [hkey hequals, foldl_assign_of_key_nil]
        · rfl
      · rfl
  | _ :: _ :: _ => simp at hlength

theorem mem_append_ending {byte : Byte} {ending : List Byte}
    (hending : IsEnding ending) (hbyte : byte ≠ char '\n') :
    byte ∈ line ++ ending ↔ byte ∈ line := by
  rcases hending with rfl | rfl
  · rw [List.append_nil]
  · rw [List.mem_append, List.mem_singleton, or_iff_left hbyte]

/-- A line with an equals sign is compared with all names of its section. -/
theorem foldlM_loadValue {ending : List Byte} (hread : Readable line)
    (hnewline : char '\n' ∉ line) (hending : IsEnding ending)
    (hequals : char '=' ∈ line) (values : List (Value Target))
    (memory : Target → Content) :
    values.foldlM (loadValue (line ++ ending ++ [0]) (line ++ ending).length)
        memory =
      some (values.foldl (assign (keyOf line) (valueOf line)) memory) := by
  obtain ⟨hkey, hvalue⟩ :=
    keyOf_and_valueFound_append hending hequals hnewline
  have hnul : 0 ∉ line ++ ending := by
    rw [mem_append_ending hending (by decide)]
    exact hread.no_nul
  have hroom : (valueFound (line ++ ending)).length < 512 := by
    rw [hvalue]
    exact Nat.lt_succ_of_le (length_valueOf_le.trans hread.length)
  refine foldlM_eq_some _ ?_ memory
  intro before current _
  rw [loadValue_eq hnul (List.mem_append_left _ hequals) hroom, hkey, hvalue]

/-- Whether its newline is read with it or not, a line has its result. -/
theorem loadLine_eq {self : Kvset count Target}
    {state : ℕ × (Target → Content)} {ending : List Byte}
    (hread : Readable line) (hnewline : char '\n' ∉ line)
    (hending : IsEnding ending) :
    loadLine self state (line ++ ending) =
      some (lineResult self state line) := by
  rw [loadLine]
  by_cases hshort : (line ++ ending).length ≤ 1
  · rw [if_pos (Or.inl hshort)]
    rw [List.length_append] at hshort
    rw [lineResult_of_length_le_one hread (by omega)]
  have hnonempty : line ≠ [] := by
    rintro rfl
    rcases hending with rfl | rfl
    · exact hshort (Nat.zero_le 1)
    · exact hshort (Nat.le_refl 1)
  have hfirst : (line ++ ending).head? = line.head? :=
    List.head?_append_of_ne_nil _ hnonempty
  rw [hfirst, lineResult]
  by_cases hcomment : line.head? = some (char '#')
  · rw [if_pos (Or.inr hcomment), if_pos hcomment]
  rw [if_neg (not_or.mpr ⟨hshort, hcomment⟩), if_neg hcomment,
    getCmpSection_append hread.bracket hnonempty, Option.bind_some]
  cases header self.sections line with
  | some index => rfl
  | none =>
      simp only [mem_append_ending hending (by decide : char '=' ≠ char '\n')]
      split
      · split
        · rename_i hequals
          rw [foldlM_loadValue hread hnewline hending hequals]
          rfl
        · rfl
      · rfl

end Lines

end Sensor.Kvs
