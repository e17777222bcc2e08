import Sensor.Frontend.KvsetLine

/-!
# `get_key_value` on every line

With the sizes `LoadKVS` passes, `get_key_value` stays inside its arrays on
every line of at most 511 bytes.  It may fill the array of the key, and then
finds no value, so that the key is not compared.
-/

namespace Sensor.Kvs

open ByteOrder

variable {Target : Type*} {stop : Byte} {line after other : List Byte}

/-! ## What the loops read and write -/

/-- The loops read no byte behind their fuel. -/
theorem copyLoop_append {arraylen fuel i j : ℕ} {array : List Byte}
    (hinside : i + fuel ≤ line.length) :
    copyLoop stop (line ++ after) arraylen fuel i j array =
      copyLoop stop (line ++ other) arraylen fuel i j array := by
  induction fuel generalizing i j array with
  | zero => rfl
  | succ fuel ih =>
      have hread : (line ++ after)[i]? = (line ++ other)[i]? := by
        rw [List.getElem?_append_left (by omega),
          List.getElem?_append_left (by omega)]
      rw [copyLoop, copyLoop, hread]
      congr 2
      funext byte
      rw [ih (by omega)]
      congr 3
      funext array
      exact ih (by omega)

/-- They end inside the line and keep the length of the array. -/
theorem copyLoop_bounds {buffer : List Byte} {arraylen fuel i j i' j' : ℕ}
    {array array' : List Byte}
    (hcopy : copyLoop stop buffer arraylen fuel i j array =
      some (i', j', array')) :
    i' ≤ i + fuel ∧ array'.length = array.length := by
  induction fuel generalizing i j array with
  | zero =>
      rw [copyLoop] at hcopy
      cases hcopy
      exact ⟨le_rfl, rfl⟩
  | succ fuel ih =>
      rw [copyLoop] at hcopy
      split at hcopy
      · obtain ⟨byte, -, hbyte⟩ := Option.bind_eq_some_iff.mp hcopy
        split at hbyte
        · obtain ⟨hend, hlength⟩ := ih hbyte
          exact ⟨by omega, hlength⟩
        · split at hbyte
          · cases hbyte
            exact ⟨by omega, rfl⟩
          · obtain ⟨next, hstore, hrest⟩ := Option.bind_eq_some_iff.mp hbyte
            obtain ⟨hend, hlength⟩ := ih hrest
            rw [store] at hstore
            split at hstore
            · cases hstore
              rw [List.length_set] at hlength
              exact ⟨by omega, hlength⟩
            · cases hstore
      · cases hcopy
        exact ⟨by omega, rfl⟩

/-- `get_key_value` reads no byte behind the line. -/
theorem getKeyValue_append {keylen vallen : ℕ} :
    getKeyValue (line ++ after) keylen vallen line.length =
      getKeyValue (line ++ other) keylen vallen line.length := by
  rw [getKeyValue, getKeyValue, copyLoop_append (Nat.zero_add _).le]
  cases hcopy : copyLoop (char '=') (line ++ other) keylen line.length 0 0
      (List.replicate keylen 0) with
  | none => rfl
  | some result =>
      obtain ⟨i, j, key⟩ := result
      obtain ⟨hend, -⟩ := copyLoop_bounds hcopy
      rw [Option.bind_some, Option.bind_some]
      simp only
      split
      · rfl
      · rename_i hmore
        rw [not_or] at hmore
        rw [copyLoop_append (by omega)]

/-- A line without an equals sign has no value. -/
theorem getKeyValue_of_notMem {keylen vallen : ℕ} (hequals : char '=' ∉ line)
    (hkey : (keyOf line).length < keylen) :
    getKeyValue (line ++ [0]) keylen vallen line.length =
      some (keyOf line ++ List.replicate (keylen - (keyOf line).length) 0,
        List.replicate vallen 0, 1) := by
  have hcopy := copyLoop_empty_of_lt [] [0] (by decide) hkey
  have hwhole : line.takeWhile (· != char '=') = line :=
    List.takeWhile_eq_self_iff.mpr (bne_of_notMem hequals)
  rw [List.nil_append, List.length_nil, Nat.zero_add, hwhole] at hcopy
  rw [getKeyValue, hcopy, Option.bind_some]
  exact if_pos (Or.inl rfl)

/-! ## Every line -/

/-- The arrays `get_key_value` leaves: both have their sizes, the value ends
with a NUL, and so does the key where `LoadKVS` compares it. -/
structure Terminated (key value : List Byte) : Prop where
  length_key : key.length = 128
  length_value : value.length = 512
  value_nul : 0 ∈ value
  key_nul : key[0]? ≠ some 0 → value[0]? ≠ some 0 → 0 ∈ key

theorem length_append_replicate {bytes : List Byte} {room : ℕ}
    (hroom : bytes.length < room) :
    (bytes ++ List.replicate (room - bytes.length) 0).length = room := by
  rw [List.length_append, List.length_replicate]
  omega

theorem mem_append_replicate {bytes : List Byte} {room : ℕ}
    (hroom : bytes.length < room) :
    0 ∈ bytes ++ List.replicate (room - bytes.length) 0 := by
  apply List.mem_append_right
  rw [List.mem_replicate]
  exact ⟨by omega, rfl⟩

theorem length_valueFound_le : (valueFound line).length ≤ line.length :=
  ((List.length_filter_le _ _).trans (List.takeWhile_sublist _).length_le).trans
    ((List.drop_sublist _ _).trans (List.dropWhile_sublist _)).length_le

/-- `get_key_value` stays inside its arrays and leaves them terminated. -/
theorem exists_getKeyValue (after : List Byte) (hlength : line.length ≤ 511) :
    ∃ key value result,
      getKeyValue (line ++ after) 128 512 line.length =
        some (key, value, result) ∧ Terminated key value := by
  rw [@getKeyValue_append line after [0]]
  by_cases hkey : (keyOf line).length < 128
  · by_cases hequals : char '=' ∈ line
    · have hvalue : (valueFound line).length < 512 :=
        Nat.lt_succ_of_le (length_valueFound_le.trans hlength)
      refine ⟨_, _, _, getKeyValue_of_lt hequals hkey hvalue, ?_⟩
      exact
        { length_key := length_append_replicate hkey
          length_value := length_append_replicate hvalue
          value_nul := mem_append_replicate hvalue
          key_nul := fun _ _ => mem_append_replicate hkey }
    · refine ⟨_, _, _, getKeyValue_of_notMem hequals hkey, ?_⟩
      exact
        { length_key := length_append_replicate hkey
          length_value := List.length_replicate
          value_nul := by decide
          key_nul := fun _ _ => mem_append_replicate hkey }
  · -- the key fills its array, and the value is left empty
    obtain ⟨i, key, hcopy⟩ := @copyLoop_empty_of_le (char '=') line [] [0] 128
      (by decide) (Nat.not_lt.mp hkey)
    rw [List.nil_append, List.length_nil] at hcopy
    obtain ⟨-, hkeyLength⟩ := copyLoop_bounds hcopy
    refine ⟨key, List.replicate 512 0, 1, ?_, ?_⟩
    · rw [getKeyValue, hcopy, Option.bind_some]
      exact if_pos (Or.inr rfl)
    · exact
        { length_key := hkeyLength.trans List.length_replicate
          length_value := List.length_replicate
          value_nul := by decide
          key_nul := fun _ hvalue => absurd rfl hvalue }

/-- `LoadKVS` reads no string that is not terminated. -/
theorem exists_loadValue [DecidableEq Target] (after : List Byte)
    (hlength : line.length ≤ 511) (memory : Target → Content)
    (current : Value Target) :
    ∃ result, loadValue (line ++ after) line.length memory current =
      some result := by
  obtain ⟨key, value, result, hfound, hterminated⟩ :=
    @exists_getKeyValue line after hlength
  rw [loadValue, hfound, Option.bind_some]
  simp only
  split
  · rename_i hcompared
    have hkey := hterminated.key_nul hcompared.1 hcompared.2
    rw [cString, if_pos hkey, Option.bind_some, cString,
      if_pos hterminated.value_nul]
    split
    · exact ⟨_, rfl⟩
    · exact ⟨_, rfl⟩
  · exact ⟨_, rfl⟩

/-! ## Assignments -/

/-- The line is an assignment with spaces in it and perhaps a newline behind
it. -/
def Spells (line key value : List Byte) : Prop :=
  ∃ front ending, IsEnding ending ∧ line = front ++ ending ∧
    front.filter (· != char ' ') = key ++ char '=' :: value

section Spelled

variable {key value : List Byte}

/-- The key and the value of an assignment are those it spells. -/
theorem Spells.keyOf_and_valueFound (hspells : Spells line key value)
    (hkey : char '=' ∉ key) (hvalue : char '\n' ∉ value) :
    char '=' ∈ line ∧ keyOf line = key ∧ valueFound line = value := by
  obtain ⟨front, ending, hending, rfl, hfilter⟩ := hspells
  have hequals : char '=' ∈ front := by
    have hmem : char '=' ∈ front.filter (· != char ' ') := by simp [hfilter]
    exact (List.mem_filter.mp hmem).1
  obtain ⟨rest, -, hfront⟩ := exists_eq_append hequals
  have hbefore : char '=' ∉ front.takeWhile (· != char '=') := by
    intro hmem
    have hkept := List.mem_takeWhile_imp hmem
    simp at hkept
  generalize front.takeWhile (· != char '=') = before at hfront hbefore
  subst hfront
  have hbeforeFilter : char '=' ∉ before.filter (· != char ' ') := fun hmem =>
    hbefore (List.mem_filter.mp hmem).1
  rw [List.filter_append, List.filter_cons_of_pos (by decide)] at hfilter
  have hkeyEq : before.filter (· != char ' ') = key := by
    rw [← takeWhile_equals hbeforeFilter, hfilter, takeWhile_equals hkey]
  have hvalueEq : rest.filter (· != char ' ') = value := by
    have hdrop := congrArg (List.dropWhile (· != char '=')) hfilter
    rw [dropWhile_equals hbeforeFilter, dropWhile_equals hkey] at hdrop
    exact (List.cons.inj hdrop).2
  have hnewline : char '\n' ∉ rest := by
    intro hmem
    apply hvalue
    rw [← hvalueEq]
    exact List.mem_filter.mpr ⟨hmem, by decide⟩
  rw [List.append_assoc, List.cons_append]
  refine ⟨by simp, ?_, ?_⟩
  · rw [keyOf_equals hbefore, hkeyEq]
  · rw [valueFound_equals hbefore hnewline hending, hvalueEq]

/-- `get_key_value` finds the key and the value of every assignment whose key
fits into its array. -/
theorem Spells.getKeyValue_eq (hspells : Spells line key value)
    (after : List Byte) (hlength : line.length ≤ 511)
    (hkeyLength : key.length ≤ 127) (hkey : char '=' ∉ key)
    (hkeyNul : 0 ∉ key) (hvalue : char '\n' ∉ value) (hvalueNul : 0 ∉ value) :
    ∃ keyArray valueArray,
      getKeyValue (line ++ after) 128 512 line.length =
        some (keyArray, valueArray, 0) ∧
      cString keyArray = some key ∧ cString valueArray = some value := by
  obtain ⟨hequals, rfl, rfl⟩ := hspells.keyOf_and_valueFound hkey hvalue
  have hkeyRoom : (keyOf line).length < 128 := Nat.lt_succ_of_le hkeyLength
  have hvalueRoom : (valueFound line).length < 512 :=
    Nat.lt_succ_of_le (length_valueFound_le.trans hlength)
  refine ⟨_, _, ?_, cString_append_replicate hkeyNul hkeyRoom,
    cString_append_replicate hvalueNul hvalueRoom⟩
  rw [@getKeyValue_append line after [0]]
  exact getKeyValue_of_lt hequals hkeyRoom hvalueRoom

end Spelled

/-- `get_key_value` is safe on every line, which lies in `buf` in front of its
NUL and whatever follows, and exact on every assignment. -/
theorem getKeyValue_safe_and_exact [DecidableEq Target] (line after : List Byte)
    (hlength : line.length ≤ 511) :
    (∃ key value result,
      getKeyValue (line ++ 0 :: after) 128 512 line.length =
        some (key, value, result) ∧ Terminated key value) ∧
    (∀ (memory : Target → Content) (current : Value Target), ∃ result,
      loadValue (line ++ 0 :: after) line.length memory current =
        some result) ∧
    ∀ key value, key.length ≤ 127 → char '=' ∉ key → 0 ∉ key →
      char '\n' ∉ value → 0 ∉ value → Spells line key value →
      ∃ keyArray valueArray,
        getKeyValue (line ++ 0 :: after) 128 512 line.length =
          some (keyArray, valueArray, 0) ∧
        cString keyArray = some key ∧ cString valueArray = some value := by
  refine ⟨exists_getKeyValue (0 :: after) hlength,
    exists_loadValue (0 :: after) hlength, ?_⟩
  intro key value hkeyLength hkey hkeyNul hvalue hvalueNul hspells
  exact hspells.getKeyValue_eq (0 :: after) hlength hkeyLength hkey hkeyNul
    hvalue hvalueNul

theorem getKeyValue_safe_and_exact_spaced :
    ∃ keyArray valueArray,
      getKeyValue (text " Time out = 3 \n" ++ [0, 7]) 128 512 15 =
        some (keyArray, valueArray, 0) ∧
      cString keyArray = some (text "Timeout") ∧
      cString valueArray = some (text "3") := by
  obtain ⟨-, -, hexact⟩ := @getKeyValue_safe_and_exact Unit _
    (text " Time out = 3 \n") [7] (by decide)
  exact hexact (text "Timeout") (text "3") (by decide) (by decide) (by decide)
    (by decide) (by decide) ⟨text " Time out = 3 ", _, .inr rfl, rfl, rfl⟩

end Sensor.Kvs
