import Mathlib
import Sensor.Frontend.KvsetLoad

/-!
# The default gateway in the kernel's routing table

`read_default_gateway` reads `/proc/net/route` line by line, takes the columns
of a line apart at the tabs and converts the gateway from its hexadecimal
digits.  A function returns `none` where it would use the null pointer or
bytes that nothing was read into.
-/

namespace Sensor.RouteTable

open ByteOrder Kvs

/-! ## Hexadecimal digits -/

/-- The cases of the switch in `hex_to_uint8`, in their order. -/
def hexDigits : List Byte := text "0123456789ABCDEF"

def hexToUint8 (hex : Byte) : Byte :=
  match hexDigits.idxOf? hex with
  | some digit => BitVec.ofNat 8 digit
  | none => 0

def combine (half1 half2 : Byte) : Byte := half1 <<< 4 ||| half2

/-- The eight bytes from `hex` on. -/
def hexToUint32 (hex : List Byte) : Option (BitVec 32) :=
  match hex with
  | hex0 :: hex1 :: hex2 :: hex3 :: hex4 :: hex5 :: hex6 :: hex7 :: _ =>
      let a := [combine (hexToUint8 hex0) (hexToUint8 hex1),
        combine (hexToUint8 hex2) (hexToUint8 hex3),
        combine (hexToUint8 hex4) (hexToUint8 hex5),
        combine (hexToUint8 hex6) (hexToUint8 hex7)]
      some (load32 (fun place => a.getD place 0) 0)
  | _ => none

/-! ## Reading the table -/

def tab : Byte := char '\t'

/-- `strtok` with a tab as the only delimiter: the token and what it leaves
for the next call, which starts behind the delimiter it overwrote. -/
def strtok (string : List Byte) : Option (List Byte × List Byte) :=
  match string.dropWhile (· == tab) with
  | [] => none
  | byte :: rest =>
      some ((byte :: rest).takeWhile (· != tab),
        ((byte :: rest).dropWhile (· != tab)).drop 1)

/-- `strtok(0, "\t")` after a call with the result `previous`. -/
def strtokNext (previous : Option (List Byte × List Byte)) :
    Option (List Byte × List Byte) :=
  previous.bind fun (_, rest) => strtok rest

/-- One turn of the loop on the string `buffer` holds; the inner `none` goes on
with the next line. -/
def readRow (interfaceName buffer : List Byte) :
    Option (Option (BitVec 32)) :=
  let iface := strtok buffer
  let destHEX := strtokNext iface
  let gwHEX := strtokNext destHEX
  match iface with
  | none => none
  | some (iface, _) =>
      if iface = interfaceName then
        match destHEX with
        | none => none
        | some (destHEX, _) =>
            if destHEX = text "00000000" then
              match gwHEX with
              | none => none
              | some (gwHEX, rest) =>
                  (hexToUint32 (gwHEX ++ 0 :: rest)).map fun word =>
                    some (swap32 word)
            else some none
      else some none

def readRows (interfaceName : List Byte) :
    List (List Byte) → Option (BitVec 32)
  | [] => some 0
  | buffer :: buffers =>
      match readRow interfaceName (buffer.takeWhile (· != 0)) with
      | none => none
      | some none => readRows interfaceName buffers
      | some (some result) => some result

/-- `read_default_gateway` on the contents of `/proc/net/route`, or without
them if the file cannot be opened. -/
def readDefaultGateway (route : Option (List Byte))
    (interfaceName : List Byte) : Option (BitVec 32) :=
  match route with
  | none => some 0
  | some route => readRows interfaceName ((fgetsAll 512 [] route).drop 1)

/-! ## The format of the table -/

/-- The digit the kernel prints for four bits. -/
def hexDigit (nibble : BitVec 4) : Byte := hexDigits.getD nibble.toNat 0

/-- An address as `%08X` prints it. -/
def hexText (word : BitVec 32) : List Byte :=
  [hexDigit (word.extractLsb' 28 4), hexDigit (word.extractLsb' 24 4),
    hexDigit (word.extractLsb' 20 4), hexDigit (word.extractLsb' 16 4),
    hexDigit (word.extractLsb' 12 4), hexDigit (word.extractLsb' 8 4),
    hexDigit (word.extractLsb' 4 4), hexDigit (word.extractLsb' 0 4)]

/-- The columns of a row; the addresses are in network order, and `rest` is
what follows the mask. -/
structure Row where
  iface : List Byte
  destination : BitVec 32
  gateway : BitVec 32
  flags : List Byte
  refCnt : List Byte
  use : List Byte
  metric : List Byte
  mask : BitVec 32
  rest : List Byte

/-- The columns behind the gateway. -/
def Row.others (row : Row) : List Byte :=
  row.flags ++ tab :: (row.refCnt ++ tab :: (row.use ++ tab ::
    (row.metric ++ tab :: (hexText row.mask ++ tab :: row.rest))))

/-- The printed row without the newline. -/
def Row.line (row : Row) : List Byte :=
  row.iface ++ tab :: (hexText row.destination ++ tab ::
    (hexText row.gateway ++ tab :: row.others))

/-- A row the kernel prints: one line, which fits into the buffer. -/
structure Route extends Row where
  named : iface ≠ []
  noTab : tab ∉ iface
  oneLine : char '\n' ∉ toRow.line
  noNul : 0 ∉ toRow.line
  short : toRow.line.length ≤ 510

/-- The whole table. -/
structure Table where
  header : List Byte
  routes : List Route
  oneLine : char '\n' ∉ header
  short : header.length ≤ 510

/-- The file the kernel shows. -/
def Table.file (table : Table) : List Byte :=
  table.header ++ char '\n' ::
    (table.routes.flatMap fun route => route.line ++ [char '\n'])

def Row.isDefault (row : Row) (interfaceName : List Byte) : Bool :=
  row.iface = interfaceName ∧ row.destination = 0 ∧ row.mask = 0

/-- The gateway of the interface's first default route, or 0. -/
def defaultGateway (interfaceName : List Byte) (routes : List Route) :
    BitVec 32 :=
  match routes.find? (·.isDefault interfaceName) with
  | some route => route.gateway
  | none => 0

/-! ## Addresses survive the conversion -/

theorem hexToUint8_hexDigit : ∀ nibble : BitVec 4,
    hexToUint8 (hexDigit nibble) = nibble.setWidth 8 := by
  decide

theorem hexDigit_ne : ∀ nibble : BitVec 4,
    hexDigit nibble ≠ tab ∧ hexDigit nibble ≠ 0 := by
  decide

theorem combine_nibbles {word : BitVec 32} {start : ℕ} :
    combine ((word.extractLsb' (start + 4) 4).setWidth 8)
        ((word.extractLsb' start 4).setWidth 8) =
      word.extractLsb' start 8 := by
  rw [combine]
  ext index
  grind

/-- Two digits are read as the byte they were printed for. -/
theorem combine_hexDigits (word : BitVec 32) (start : ℕ) :
    combine (hexToUint8 (hexDigit (word.extractLsb' (start + 4) 4)))
        (hexToUint8 (hexDigit (word.extractLsb' start 4))) =
      word.extractLsb' start 8 := by
  rw [hexToUint8_hexDigit, hexToUint8_hexDigit, combine_nibbles]

/-- What was printed is read. -/
theorem hexToUint32_hexText {word : BitVec 32} {behind : List Byte} :
    hexToUint32 (hexText word ++ behind) = some (swap32 word) := by
  rw [hexText]
  simp only [List.cons_append, hexToUint32]
  rw [combine_hexDigits word 24, combine_hexDigits word 16,
    combine_hexDigits word 8, combine_hexDigits word 0]
  rfl

theorem hexText_injective : Function.Injective hexText := by
  intro left right heq
  have hswap : some (swap32 left) = some (swap32 right) := by
    rw [← @hexToUint32_hexText left [], heq, hexToUint32_hexText]
  exact swap32_injective (Option.some.inj hswap)

theorem hexText_eq_zeros_iff {word : BitVec 32} :
    hexText word = text "00000000" ↔ word = 0 := by
  have hzero : hexText 0 = text "00000000" := by decide
  rw [← hzero, hexText_injective.eq_iff]

theorem tab_notMem_hexText {word : BitVec 32} : tab ∉ hexText word := by
  intro hmem
  simp only [hexText, List.mem_cons, List.not_mem_nil, or_false] at hmem
  grind [hexDigit_ne]

/-! ## Reading a row -/

theorem strtok_append {token rest : List Byte} (hnonempty : token ≠ [])
    (htab : tab ∉ token) :
    strtok (token ++ tab :: rest) = some (token, rest) := by
  have hnot : ∀ byte ∈ token, (byte != tab) = true := by
    intro byte hbyte
    rw [bne_iff_ne]
    intro hsame
    exact htab (hsame ▸ hbyte)
  have htake : (token ++ tab :: rest).takeWhile (· != tab) = token := by
    rw [List.takeWhile_append_of_pos hnot]
    simp
  have hdrop : (token ++ tab :: rest).dropWhile (· != tab) = tab :: rest := by
    rw [List.dropWhile_append_of_pos hnot]
    simp
  cases token with
  | nil => exact absurd rfl hnonempty
  | cons byte token =>
    have hfirst : (byte == tab) = false := by
      have hne := hnot byte List.mem_cons_self
      simpa using hne
    have hskip : ((byte :: token) ++ tab :: rest).dropWhile (· == tab) =
        byte :: (token ++ tab :: rest) := by
      rw [List.cons_append, List.dropWhile_cons, hfirst]
      rfl
    rw [strtok, hskip]
    rw [List.cons_append] at htake hdrop
    simp only [htake, hdrop, List.drop_one, List.tail_cons]

/-- A printed row is taken if it is the interface's and has the destination
zero, whatever its mask. -/
theorem readRow_line (route : Route) (interfaceName : List Byte) :
    readRow interfaceName (route.line ++ [char '\n']) =
      some (if route.iface = interfaceName ∧ route.destination = 0 then
        some route.gateway else none) := by
  have hiface : strtok (route.line ++ [char '\n']) =
      some (route.iface, hexText route.destination ++ tab ::
        (hexText route.gateway ++ tab :: (route.others ++ [char '\n']))) := by
    rw [← strtok_append route.named route.noTab]
    simp [Row.line]
  have hdest {rest : List Byte} : strtok (hexText route.destination ++ tab ::
      rest) = some (hexText route.destination, rest) :=
    strtok_append (List.cons_ne_nil _ _) tab_notMem_hexText
  have hgw {rest : List Byte} : strtok (hexText route.gateway ++ tab ::
      rest) = some (hexText route.gateway, rest) :=
    strtok_append (List.cons_ne_nil _ _) tab_notMem_hexText
  simp only [readRow, strtokNext, hiface, hdest, hgw, Option.bind_some,
    hexText_eq_zeros_iff, hexToUint32_hexText, Option.map_some, swap32_swap32]
  split
  case isTrue hname => simp [hname, apply_ite some]
  case isFalse hname => simp [hname]

/-! ## Reading the table -/

theorem fgetsAll_short_line {line file : List Byte}
    (hnewline : char '\n' ∉ line) (hshort : line.length ≤ 510) :
    fgetsAll 512 [] (line ++ char '\n' :: file) =
      (line ++ [char '\n']) :: fgetsAll 512 [] file := by
  have hroom : ([] : List Byte).length + line.length + 2 ≤ 512 := by
    rw [List.length_nil]
    omega
  rw [fgetsAll_append hnewline hroom, List.nil_append, fgetsAll,
    if_pos (Or.inl rfl)]

theorem fgetsAll_routes {routes : List Route} :
    fgetsAll 512 [] (routes.flatMap fun route => route.line ++ [char '\n']) =
      routes.map fun route => route.line ++ [char '\n'] := by
  induction routes with
  | nil => rfl
  | cons route routes ih =>
    rw [List.flatMap_cons, List.append_assoc, List.singleton_append,
      fgetsAll_short_line route.oneLine route.short, ih, List.map_cons]

/-- The row the loop stops at. -/
def chosen (interfaceName : List Byte) (routes : List Route) : Option Route :=
  routes.find? fun route =>
    route.iface = interfaceName ∧ route.destination = 0

theorem takeWhile_line (route : Route) :
    (route.line ++ [char '\n']).takeWhile (· != 0) =
      route.line ++ [char '\n'] := by
  rw [List.takeWhile_eq_self_iff]
  intro byte hbyte
  rw [bne_iff_ne]
  rintro rfl
  rcases List.mem_append.mp hbyte with hline | hnewline
  · exact route.noNul hline
  · exact absurd (List.mem_singleton.mp hnewline) (by decide)

theorem readRows_routes {interfaceName : List Byte} {routes : List Route} :
    readRows interfaceName
        (routes.map fun route => route.line ++ [char '\n']) =
      some (((chosen interfaceName routes).map (·.gateway)).getD 0) := by
  induction routes with
  | nil => rfl
  | cons route routes ih =>
    rw [List.map_cons, readRows, takeWhile_line, readRow_line, chosen,
      List.find?_cons]
    by_cases hchosen : route.iface = interfaceName ∧ route.destination = 0
    · simp [hchosen]
    · simp only [hchosen, if_false, decide_false]
      exact ih

/-- The function returns the gateway of the first row of the interface with
the destination zero. -/
theorem readDefaultGateway_file (table : Table) (interfaceName : List Byte) :
    readDefaultGateway (some table.file) interfaceName =
      some (((chosen interfaceName table.routes).map (·.gateway)).getD 0) := by
  rw [readDefaultGateway, Table.file,
    fgetsAll_short_line table.oneLine table.short, fgetsAll_routes,
    List.drop_one, List.tail_cons, readRows_routes]

theorem chosen_of_isDefault {interfaceName : List Byte} {route : Row}
    (hdefault : route.isDefault interfaceName = true) :
    route.iface = interfaceName ∧ route.destination = 0 := by
  simp only [Row.isDefault, decide_eq_true_eq] at hdefault
  exact ⟨hdefault.1, hdefault.2.1⟩

/-- A default route the loop stops at is the first one. -/
theorem defaultGateway_of_chosen {interfaceName : List Byte}
    {routes : List Route} {route : Route}
    (hchosen : chosen interfaceName routes = some route)
    (hmask : route.mask = 0) :
    defaultGateway interfaceName routes = route.gateway := by
  rw [chosen, List.find?_eq_some_iff_append] at hchosen
  obtain ⟨hroute, before, behind, hroutes, hbefore⟩ := hchosen
  have hfind : routes.find? (·.isDefault interfaceName) = some route := by
    rw [List.find?_eq_some_iff_append]
    refine ⟨?_, before, behind, hroutes, ?_⟩
    · simpa [Row.isDefault, hmask] using hroute
    · intro earlier hearlier
      have hnot := hbefore earlier hearlier
      simp only [Bool.not_eq_true', decide_eq_false_iff_not] at hnot ⊢
      rw [Bool.eq_false_iff]
      intro hdefault
      exact hnot (chosen_of_isDefault hdefault)
  rw [defaultGateway, hfind]

theorem defaultGateway_of_not_chosen {interfaceName : List Byte}
    {routes : List Route} (hchosen : chosen interfaceName routes = none) :
    defaultGateway interfaceName routes = 0 := by
  have hfind : routes.find? (·.isDefault interfaceName) = none := by
    rw [chosen, List.find?_eq_none] at hchosen
    rw [List.find?_eq_none]
    intro route hroute hdefault
    exact hchosen route hroute
      (decide_eq_true (chosen_of_isDefault hdefault))
  rw [defaultGateway, hfind]

/-- The result is the gateway of the interface's first default route just when
the first row with the destination zero is one, or has its gateway. -/
theorem readDefaultGateway_eq_iff (table : Table)
    (interfaceName : List Byte) :
    readDefaultGateway (some table.file) interfaceName =
        some (defaultGateway interfaceName table.routes) ↔
      ∀ route ∈ chosen interfaceName table.routes, route.mask = 0 ∨
        route.gateway = defaultGateway interfaceName table.routes := by
  rw [readDefaultGateway_file, Option.some_inj]
  cases hchosen : chosen interfaceName table.routes with
  | none => simp [defaultGateway_of_not_chosen hchosen]
  | some route =>
    simp only [Option.map_some, Option.getD_some, Option.mem_def,
      Option.some_inj, forall_eq']
    constructor
    · exact Or.inr
    · rintro (hmask | hgateway)
      · exact (defaultGateway_of_chosen hchosen hmask).symm
      · exact hgateway

/-- The lower half of all addresses goes through a tunnel. -/
def halfRoute : Route where
  iface := text "tun0"
  destination := 0
  gateway := 0x0100080A
  flags := text "0003"
  refCnt := text "0"
  use := text "0"
  metric := text "0"
  mask := 0x00000080
  rest := text "0\t0\t0"
  named := by decide
  noTab := by decide
  oneLine := by decide
  noNul := by decide
  short := by decide

def halfTable : Table where
  header := text "Iface\tDestination\tGateway"
  routes := [halfRoute]
  oneLine := by decide
  short := by decide

/-- There is no default route, but a gateway is returned. -/
theorem readDefaultGateway_halfTable :
    readDefaultGateway (some halfTable.file) (text "tun0") ≠
      some (defaultGateway (text "tun0") halfTable.routes) := by
  rw [readDefaultGateway_file]
  decide

end Sensor.RouteTable
