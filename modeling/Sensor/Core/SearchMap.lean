import Mathlib.Data.List.Basic

/-!
# Maps that search

A map keeps its entries in a list.  A search stops at the first entry whose key
is accepted for the key that is looked for; the relation that accepts need not
be an equality.  Where nothing is found a new entry is put in front, and what
the map then does to the order of its entries is a parameter.
-/

namespace Sensor.SearchMap

structure Entry (Key Value : Type*) where
  key : Key
  value : Value
  deriving DecidableEq

variable {Key Value Kind : Type*}

section Map

variable (accepts : Key → Key → Bool)
  (reorder : List (Entry Key Value) → List (Entry Key Value))

/-- The search: `accepts key stored` says whether it stops. -/
def find? (key : Key) (entries : List (Entry Key Value)) :
    Option (Entry Key Value) :=
  entries.find? fun entry => accepts key entry.key

/-- Assigning to the entry that is found. -/
def assignFound (key : Key) (value : Value) :
    List (Entry Key Value) → List (Entry Key Value)
  | [] => []
  | entry :: entries =>
      if accepts key entry.key then { entry with value := value } :: entries
      else entry :: assignFound key value entries

/-- The value for a key, which gets an entry with the default if it has none. -/
def subscript (default : Value) (key : Key) (entries : List (Entry Key Value)) :
    Value × List (Entry Key Value) :=
  match find? accepts key entries with
  | some entry => (entry.value, entries)
  | none => (default, reorder (⟨key, default⟩ :: entries))

/-- Assigning to the value for a key. -/
def subscriptAssign (key : Key) (value : Value)
    (entries : List (Entry Key Value)) : List (Entry Key Value) :=
  match find? accepts key entries with
  | some _ => assignFound accepts key value entries
  | none => reorder (⟨key, value⟩ :: entries)

end Map

variable [DecidableEq Kind]

/-- The entries of the keys of a kind. -/
def entriesOf (kind : Key → Kind) (entries : List (Entry Key Value))
    (wanted : Kind) : List (Entry Key Value) :=
  entries.filter fun entry => kind entry.key = wanted

/-! ## Searches that accept keys of one kind only -/

section Kinds

variable {accepts : Key → Key → Bool} {kind : Key → Kind} {key : Key}
  {value : Value} {entry : Entry Key Value} {entries : List (Entry Key Value)}
  {wanted : Kind}

theorem mem_entriesOf :
    entry ∈ entriesOf kind entries wanted ↔
      entry ∈ entries ∧ kind entry.key = wanted := by
  rw [entriesOf, List.mem_filter, decide_eq_true_eq]

variable (hkind : ∀ key stored, accepts key stored = true →
  kind stored = kind key)

include hkind

/-- A search that accepts every key of its kind finds the first one. -/
theorem find?_eq_head?
    (hall : ∀ entry ∈ entriesOf kind entries (kind key),
      accepts key entry.key = true) :
    find? accepts key entries =
      (entriesOf kind entries (kind key)).head? := by
  rw [find?, ← List.head?_filter, entriesOf]
  congr 1
  apply List.filter_congr
  intro entry hentry
  rw [Bool.eq_iff_iff, decide_eq_true_eq]
  constructor
  · exact hkind key entry.key
  · intro hsame
    exact hall entry (mem_entriesOf.mpr ⟨hentry, hsame⟩)

/-- A search that accepts no key of its kind finds nothing. -/
theorem find?_eq_none
    (hnone : ∀ entry ∈ entriesOf kind entries (kind key),
      accepts key entry.key = false) :
    find? accepts key entries = none := by
  rw [find?, List.find?_eq_none]
  intro entry hentry haccepts
  have hrefused := hnone entry
    (mem_entriesOf.mpr ⟨hentry, hkind key entry.key haccepts⟩)
  rw [haccepts] at hrefused
  cases hrefused

/-- An assignment leaves the entries of the other kinds alone. -/
theorem entriesOf_assignFound_of_ne (hother : kind key ≠ wanted) :
    entriesOf kind (assignFound accepts key value entries) wanted =
      entriesOf kind entries wanted := by
  induction entries with
  | nil => rfl
  | cons entry entries ih =>
      rw [assignFound]
      split
      · rename_i haccepts
        have hentry : kind entry.key ≠ wanted := by
          rw [hkind key entry.key haccepts]
          exact hother
        simp [entriesOf, hentry]
      · simp only [entriesOf, List.filter_cons] at ih ⊢
        rw [ih]

/-- Where the search accepts every key of its kind, an assignment goes to the
first one. -/
theorem entriesOf_assignFound
    (hall : ∀ entry ∈ entriesOf kind entries (kind key),
      accepts key entry.key = true) :
    entriesOf kind (assignFound accepts key value entries) (kind key) =
      (entriesOf kind entries (kind key)).modifyHead
        fun entry => { entry with value := value } := by
  induction entries with
  | nil => rfl
  | cons entry entries ih =>
      by_cases hentry : kind entry.key = kind key
      · have haccepts := hall entry
          (mem_entriesOf.mpr ⟨List.mem_cons_self, hentry⟩)
        simp [assignFound, haccepts, entriesOf, hentry]
      · have hrefuses : ¬ accepts key entry.key = true := fun haccepts =>
          hentry (hkind key entry.key haccepts)
        have hrest := ih fun other hother => hall other
          (mem_entriesOf.mpr
            ⟨List.mem_cons_of_mem _ (mem_entriesOf.mp hother).1,
              (mem_entriesOf.mp hother).2⟩)
        simp only [assignFound, if_neg hrefuses]
        simpa [entriesOf, hentry] using hrest

end Kinds

/-- A new entry is one of its kind, wherever it is put. -/
theorem entriesOf_of_perm {kind : Key → Kind} {entry : Entry Key Value}
    {entries entries' : List (Entry Key Value)}
    (hperm : entries'.Perm (entry :: entries)) (wanted : Kind) :
    (entriesOf kind entries' wanted).Perm
      (if kind entry.key = wanted then entry :: entriesOf kind entries wanted
      else entriesOf kind entries wanted) := by
  have hfilter := hperm.filter fun entry => kind entry.key = wanted
  rw [List.filter_cons] at hfilter
  simpa [entriesOf] using hfilter

end Sensor.SearchMap
