import Mathlib.Data.List.Find
import Mathlib.Data.List.Nodup
import Mathlib.Data.List.Pairwise
import Mathlib.Data.List.Perm.Basic
import Mathlib.Logic.Function.Basic

/-!
# Maps kept in buckets

A hash table keeps its entries in chains, and a placement function says in
which chain the entry of a key belongs.  As long as every entry is in its chain
and the keys of a chain are distinct, looking a key up is a question about the
entries of the table only, whatever the order in the chains, and so it survives
any redistribution of the entries.
-/

namespace Sensor.BucketMap

open scoped List

variable {Entry Key : Type*} [DecidableEq Key]
variable (key : Entry → Key) (place : Key → ℕ)

/-- The entry of a key. -/
def lookup (chains : ℕ → List Entry) (wanted : Key) : Option Entry :=
  (chains (place wanted)).find? fun entry => key entry = wanted

/-- The entry is in one of the chains. -/
def Holds (chains : ℕ → List Entry) (entry : Entry) : Prop :=
  ∃ index, entry ∈ chains index

/-- Every entry is in the chain of its key, and the keys of a chain are
distinct. -/
structure WellFormed (chains : ℕ → List Entry) : Prop where
  placed : ∀ index entry, entry ∈ chains index → place (key entry) = index
  nodup : ∀ index, ((chains index).map key).Nodup

/-- Every entry is in the chain of its key. -/
def Placed (chains : ℕ → List Entry) : Prop :=
  ∀ index, ∀ entry ∈ chains index, place (key entry) = index

/-- Put an entry in front of its chain. -/
def push (chains : ℕ → List Entry) (entry : Entry) : ℕ → List Entry :=
  Function.update chains (place (key entry))
    (entry :: chains (place (key entry)))

/-- Replace the entry of a key by its image under `change`. -/
def modify (chains : ℕ → List Entry) (wanted : Key) (change : Entry → Entry) :
    ℕ → List Entry :=
  Function.update chains (place wanted)
    ((chains (place wanted)).map fun entry =>
      if key entry = wanted then change entry else entry)

/-- Take the entry of a key out of its chain. -/
def erase (chains : ℕ → List Entry) (wanted : Key) : ℕ → List Entry :=
  Function.update chains (place wanted)
    ((chains (place wanted)).eraseP fun entry => key entry = wanted)

variable {key place} {chains chains' : ℕ → List Entry}
variable {entry other : Entry} {wanted : Key} {change : Entry → Entry}

omit [DecidableEq Key] in
theorem WellFormed.empty :
    WellFormed key place (fun _ => ([] : List Entry)) where
  placed := by simp
  nodup := by simp

omit [DecidableEq Key] in
/-- An entry of the table is the only one with its key. -/
theorem WellFormed.eq_of_key (hwf : WellFormed key place chains)
    (hentry : Holds chains entry) (hother : Holds chains other)
    (hkey : key entry = key other) : entry = other := by
  obtain ⟨index, hmem⟩ := hentry
  obtain ⟨index', hmem'⟩ := hother
  have hindex : index = index' := by
    rw [← hwf.placed _ _ hmem, ← hwf.placed _ _ hmem', hkey]
  subst hindex
  exact List.inj_on_of_nodup_map (hwf.nodup index) hmem hmem' hkey

theorem key_of_lookup (hfound : lookup key place chains wanted = some entry) :
    key entry = wanted := by
  have hkey := List.find?_some hfound
  exact of_decide_eq_true hkey

/-- Looking a key up finds the entry of the table that has it. -/
theorem WellFormed.lookup_eq_some_iff (hwf : WellFormed key place chains) :
    lookup key place chains wanted = some entry ↔
      Holds chains entry ∧ key entry = wanted := by
  constructor
  · intro hfound
    exact ⟨⟨_, List.mem_of_find?_eq_some hfound⟩, key_of_lookup hfound⟩
  · rintro ⟨⟨index, hmem⟩, rfl⟩
    have hplace := hwf.placed _ _ hmem
    have hsome : (lookup key place chains (key entry)).isSome := by
      rw [lookup, List.find?_isSome, hplace]
      exact ⟨entry, hmem, decide_eq_true rfl⟩
    obtain ⟨found, hfound⟩ := Option.isSome_iff_exists.mp hsome
    have heq := hwf.eq_of_key ⟨_, List.mem_of_find?_eq_some hfound⟩
      ⟨index, hmem⟩ (key_of_lookup hfound)
    rw [hfound, heq]

/-- Two tables with the same entries answer alike, wherever they keep them. -/
theorem WellFormed.lookup_congr {place' : Key → ℕ}
    (hwf : WellFormed key place chains) (hwf' : WellFormed key place' chains')
    (hsame : ∀ entry, Holds chains' entry ↔ Holds chains entry) (wanted : Key) :
    lookup key place' chains' wanted = lookup key place chains wanted := by
  apply Option.ext
  intro entry
  rw [hwf'.lookup_eq_some_iff, hwf.lookup_eq_some_iff, hsame]

/-! ## Adding an entry -/

omit [DecidableEq Key] in
theorem holds_push :
    Holds (push key place chains entry) other ↔
      other = entry ∨ Holds chains other := by
  constructor
  · rintro ⟨index, hmem⟩
    by_cases heq : index = place (key entry)
    · rw [push, heq, Function.update_self, List.mem_cons] at hmem
      rcases hmem with hnew | hold
      · exact .inl hnew
      · exact .inr ⟨_, hold⟩
    · rw [push, Function.update_of_ne heq] at hmem
      exact .inr ⟨index, hmem⟩
  · rintro (rfl | ⟨index, hmem⟩)
    · refine ⟨place (key other), ?_⟩
      rw [push, Function.update_self]
      exact List.mem_cons_self
    · refine ⟨index, ?_⟩
      by_cases heq : index = place (key entry)
      · rw [push, heq, Function.update_self]
        exact List.mem_cons_of_mem _ (heq ▸ hmem)
      · rw [push, Function.update_of_ne heq]
        exact hmem

omit [DecidableEq Key] in
theorem Placed.push (hplaced : Placed key place chains) (entry : Entry) :
    Placed key place (BucketMap.push key place chains entry) := by
  intro index other hother
  by_cases hindex : index = place (key entry)
  · rw [BucketMap.push, hindex, Function.update_self, List.mem_cons] at hother
    cases hother with
    | inl hnew => rw [hnew, hindex]
    | inr hold => rw [hplaced _ other hold, hindex]
  · rw [BucketMap.push, Function.update_of_ne hindex] at hother
    exact hplaced index other hother

omit [DecidableEq Key] in
theorem WellFormed.push (hwf : WellFormed key place chains)
    (hfresh : ∀ other, Holds chains other → key other ≠ key entry) :
    WellFormed key place (push key place chains entry) where
  placed := Placed.push hwf.placed entry
  nodup := fun index => by
    by_cases heq : index = place (key entry)
    · rw [BucketMap.push, heq, Function.update_self, List.map_cons,
        List.nodup_cons]
      refine ⟨?_, hwf.nodup _⟩
      rintro hmem
      obtain ⟨other, hother, hkey⟩ := List.mem_map.mp hmem
      exact hfresh other ⟨_, hother⟩ hkey
    · rw [BucketMap.push, Function.update_of_ne heq]
      exact hwf.nodup index

theorem lookup_push :
    lookup key place (push key place chains entry) wanted =
      if key entry = wanted then some entry
      else lookup key place chains wanted := by
  by_cases hplace : place wanted = place (key entry)
  · rw [lookup, lookup, push, hplace, Function.update_self, List.find?_cons]
    split
    case h_1 hkey => rw [if_pos (of_decide_eq_true hkey)]
    case h_2 hkey => rw [if_neg (of_decide_eq_false hkey)]
  · have hkey : key entry ≠ wanted := fun heq => hplace (congrArg _ heq.symm)
    rw [lookup, lookup, push, Function.update_of_ne hplace, if_neg hkey]

/-! ## Changing an entry -/

theorem exists_of_holds_modify
    (hholds : Holds (modify key place chains wanted change) other) :
    ∃ entry, Holds chains entry ∧ (other = entry ∨ other = change entry) := by
  obtain ⟨index, hmem⟩ := hholds
  by_cases heq : index = place wanted
  · rw [modify, heq, Function.update_self] at hmem
    obtain ⟨entry, hentry, rfl⟩ := List.mem_map.mp hmem
    refine ⟨entry, ⟨_, hentry⟩, ?_⟩
    split
    · exact .inr rfl
    · exact .inl rfl
  · rw [modify, Function.update_of_ne heq] at hmem
    exact ⟨other, ⟨index, hmem⟩, .inl rfl⟩

section Modify

variable (hkeep : ∀ entry, key (change entry) = key entry)

include hkeep

theorem key_changed :
    key (if key entry = wanted then change entry else entry) = key entry := by
  split
  · exact hkeep entry
  · rfl

theorem WellFormed.modify (hwf : WellFormed key place chains) :
    WellFormed key place (modify key place chains wanted change) where
  placed := fun index other hmem => by
    by_cases heq : index = place wanted
    · rw [BucketMap.modify, heq, Function.update_self] at hmem
      obtain ⟨entry, hentry, rfl⟩ := List.mem_map.mp hmem
      rw [key_changed hkeep, heq]
      exact hwf.placed _ _ hentry
    · rw [BucketMap.modify, Function.update_of_ne heq] at hmem
      exact hwf.placed _ _ hmem
  nodup := fun index => by
    by_cases heq : index = place wanted
    · have hkeys : (key ∘ fun entry =>
          if key entry = wanted then change entry else entry) = key :=
        funext fun entry => key_changed hkeep
      rw [BucketMap.modify, heq, Function.update_self, List.map_map, hkeys]
      exact hwf.nodup _
    · rw [BucketMap.modify, Function.update_of_ne heq]
      exact hwf.nodup index

theorem lookup_modify {target : Key} :
    lookup key place (modify key place chains target change) wanted =
      if target = wanted then
        (lookup key place chains wanted).map change
      else lookup key place chains wanted := by
  by_cases hplace : place wanted = place target
  · have hfind : ((fun entry => decide (key entry = wanted)) ∘ fun entry =>
        if key entry = target then change entry else entry) =
          fun entry => decide (key entry = wanted) := by
      funext entry
      rw [Function.comp_apply, key_changed hkeep]
    rw [lookup, lookup, modify, hplace, Function.update_self, List.find?_map,
      hfind]
    cases hfound : (chains (place target)).find?
        fun entry => decide (key entry = wanted) with
    | none => simp
    | some entry =>
        have hkey : key entry = wanted := by
          have hkey := List.find?_some hfound
          exact of_decide_eq_true hkey
        by_cases htarget : target = wanted
        · simp [htarget, hkey]
        · simp [htarget, hkey, Ne.symm htarget]
  · have htarget : target ≠ wanted := fun heq => hplace (congrArg _ heq.symm)
    rw [lookup, lookup, modify, Function.update_of_ne hplace, if_neg htarget]

end Modify

/-! ## Removing an entry -/

theorem mem_eraseP_iff {chain : List Entry} (hnodup : (chain.map key).Nodup) :
    (entry ∈ chain.eraseP fun entry => key entry = wanted) ↔
      entry ∈ chain ∧ key entry ≠ wanted := by
  induction chain with
  | nil => simp
  | cons first chain ih =>
      rw [List.map_cons, List.nodup_cons] at hnodup
      by_cases hfirst : key first = wanted
      · simp only [List.eraseP_cons, hfirst, decide_true, cond_true,
          List.mem_cons]
        constructor
        · intro hmem
          refine ⟨.inr hmem, fun hkey => hnodup.1 ?_⟩
          rw [hfirst, ← hkey]
          exact List.mem_map_of_mem hmem
        · rintro ⟨rfl | hmem, hkey⟩
          · exact absurd hfirst hkey
          · exact hmem
      · simp only [List.eraseP_cons, hfirst, decide_false, cond_false,
          List.mem_cons, ih hnodup.2]
        constructor
        · rintro (rfl | ⟨hmem, hkey⟩)
          · exact ⟨.inl rfl, hfirst⟩
          · exact ⟨.inr hmem, hkey⟩
        · rintro ⟨rfl | hmem, hkey⟩
          · exact .inl rfl
          · exact .inr ⟨hmem, hkey⟩

theorem erase_sublist (index : ℕ) :
    (erase key place chains wanted index).Sublist (chains index) := by
  by_cases heq : index = place wanted
  · rw [erase, heq, Function.update_self]
    exact List.eraseP_sublist
  · rw [erase, Function.update_of_ne heq]

theorem WellFormed.erase (hwf : WellFormed key place chains) :
    WellFormed key place (erase key place chains wanted) where
  placed := fun index _ hmem =>
    hwf.placed _ _ ((erase_sublist index).subset hmem)
  nodup := fun index => ((erase_sublist index).map key).nodup (hwf.nodup index)

/-- The entry of the key leaves the table, and no other one. -/
theorem WellFormed.holds_erase (hwf : WellFormed key place chains) :
    Holds (BucketMap.erase key place chains wanted) entry ↔
      Holds chains entry ∧ key entry ≠ wanted := by
  constructor
  · rintro ⟨index, hmem⟩
    refine ⟨⟨index, (erase_sublist index).subset hmem⟩, ?_⟩
    by_cases heq : index = place wanted
    · rw [BucketMap.erase, heq, Function.update_self,
        mem_eraseP_iff (hwf.nodup _)] at hmem
      exact hmem.2
    · rw [BucketMap.erase, Function.update_of_ne heq] at hmem
      rintro rfl
      exact heq (hwf.placed _ _ hmem).symm
  · rintro ⟨⟨index, hmem⟩, hkey⟩
    refine ⟨index, ?_⟩
    by_cases heq : index = place wanted
    · rw [BucketMap.erase, heq, Function.update_self,
        mem_eraseP_iff (hwf.nodup _)]
      exact ⟨heq ▸ hmem, hkey⟩
    · rw [BucketMap.erase, Function.update_of_ne heq]
      exact hmem

theorem WellFormed.lookup_erase (hwf : WellFormed key place chains)
    {target : Key} :
    lookup key place (BucketMap.erase key place chains target) wanted =
      if target = wanted then none
      else lookup key place chains wanted := by
  apply Option.ext
  intro entry
  rw [hwf.erase.lookup_eq_some_iff, hwf.holds_erase]
  by_cases htarget : target = wanted
  · simp only [htarget, if_true]
    constructor
    · rintro ⟨⟨_, hne⟩, hkey⟩
      exact absurd hkey hne
    · intro hfound
      cases hfound
  · rw [if_neg htarget, hwf.lookup_eq_some_iff]
    constructor
    · rintro ⟨⟨hentry, _⟩, hkey⟩
      exact ⟨hentry, hkey⟩
    · rintro ⟨hentry, hkey⟩
      exact ⟨⟨hentry, fun heq => htarget (heq.symm.trans hkey)⟩, hkey⟩

/-! ## Filling another table -/

omit [DecidableEq Key] in
theorem holds_foldl_push {entries : List Entry} :
    Holds (entries.foldl (push key place) chains) other ↔
      other ∈ entries ∨ Holds chains other := by
  induction entries generalizing chains with
  | nil => simp
  | cons entry entries ih =>
      rw [List.foldl_cons, ih, holds_push, List.mem_cons]
      constructor
      · rintro (hmem | hnew | hold)
        · exact .inl (.inr hmem)
        · exact .inl (.inl hnew)
        · exact .inr hold
      · rintro ((hnew | hmem) | hold)
        · exact .inr (.inl hnew)
        · exact .inl hmem
        · exact .inr (.inr hold)

omit [DecidableEq Key] in
/-- However many entries were moved, those that were are in their chains. -/
theorem Placed.foldl_push {entries : List Entry}
    (hplaced : Placed key place chains) :
    Placed key place (entries.foldl (BucketMap.push key place) chains) := by
  induction entries generalizing chains with
  | nil => exact hplaced
  | cons entry entries ih => exact ih (hplaced.push entry)

omit [DecidableEq Key] in
theorem WellFormed.foldl_push {entries : List Entry}
    (hwf : WellFormed key place chains) (hnodup : (entries.map key).Nodup)
    (hfresh : ∀ entry ∈ entries, ∀ other, Holds chains other →
      key other ≠ key entry) :
    WellFormed key place (entries.foldl (BucketMap.push key place) chains) := by
  induction entries generalizing chains with
  | nil => exact hwf
  | cons entry entries ih =>
      rw [List.map_cons, List.nodup_cons] at hnodup
      rw [List.foldl_cons]
      apply ih (hwf.push (hfresh entry List.mem_cons_self)) hnodup.2
      intro later hlater other hother
      rcases holds_push.mp hother with rfl | hold
      · intro hkey
        apply hnodup.1
        rw [hkey]
        exact List.mem_map_of_mem hlater
      · exact hfresh later (List.mem_cons_of_mem _ hlater) other hold

omit [DecidableEq Key] in
/-- Keys that place the entries alike fill the chains alike. -/
theorem foldl_push_congr {Key' : Type*} {key' : Entry → Key'}
    {place' : Key' → ℕ} {entries : List Entry}
    (hplace : ∀ entry ∈ entries, place (key entry) = place' (key' entry)) :
    entries.foldl (push key place) chains =
      entries.foldl (push key' place') chains := by
  induction entries generalizing chains with
  | nil => rfl
  | cons entry entries ih =>
      have hentry : push key place chains entry =
          push key' place' chains entry := by
        rw [push, push, hplace entry List.mem_cons_self]
      rw [List.foldl_cons, List.foldl_cons, hentry]
      exact ih fun other hother =>
        hplace other (List.mem_cons_of_mem entry hother)

omit [DecidableEq Key] in
/-- The keys of the entries in the first chains are distinct. -/
theorem WellFormed.nodup_flatMap (hwf : WellFormed key place chains)
    (length : ℕ) :
    (((List.range length).flatMap chains).map key).Nodup := by
  rw [List.map_flatMap, List.nodup_flatMap]
  refine ⟨fun index _ => hwf.nodup index, ?_⟩
  apply List.nodup_range.imp
  intro index index' hne wanted hmem hmem'
  obtain ⟨entry, hentry, rfl⟩ := List.mem_map.mp hmem
  obtain ⟨other, hother, hkey⟩ := List.mem_map.mp hmem'
  apply hne
  rw [← hwf.placed _ _ hentry, ← hwf.placed _ _ hother, hkey]

omit [DecidableEq Key] in
/-- The first chains hold every entry when every key is placed in them. -/
theorem WellFormed.mem_flatMap_iff (hwf : WellFormed key place chains)
    {length : ℕ} (hplace : ∀ wanted, place wanted < length) :
    entry ∈ (List.range length).flatMap chains ↔ Holds chains entry := by
  rw [List.mem_flatMap]
  constructor
  · rintro ⟨index, _, hmem⟩
    exact ⟨index, hmem⟩
  · rintro ⟨index, hmem⟩
    refine ⟨index, List.mem_range.mpr ?_, hmem⟩
    rw [← hwf.placed _ _ hmem]
    exact hplace _

/-! ## Exchanging one chain -/

omit [DecidableEq Key] in
/-- The entries of the first chains, those of one chain first. -/
theorem flatMap_range_perm {length index : ℕ} (hindex : index < length)
    (chains : ℕ → List Entry) :
    ((List.range length).flatMap chains).Perm
      (chains index ++ ((List.range length).erase index).flatMap chains) := by
  have hrange := List.perm_cons_erase (List.mem_range.mpr hindex)
  exact hrange.flatMap_right chains

omit [DecidableEq Key] in
/-- What enters and leaves one chain enters and leaves all of them. -/
theorem flatMap_update_perm {length index : ℕ} (hindex : index < length)
    {chain entering leaving : List Entry}
    (hchain : (entering ++ chains index).Perm (leaving ++ chain)) :
    (entering ++ (List.range length).flatMap chains).Perm
      (leaving ++
        (List.range length).flatMap (Function.update chains index chain)) := by
  have hothers : ((List.range length).erase index).flatMap
      (Function.update chains index chain) =
        ((List.range length).erase index).flatMap chains := by
    apply List.flatMap_congr
    intro other hother
    have hne := (List.nodup_range.mem_erase_iff.mp hother).1
    exact Function.update_of_ne hne _ _
  have hnew := flatMap_range_perm hindex (Function.update chains index chain)
  rw [Function.update_self, hothers] at hnew
  have hold := (flatMap_range_perm hindex chains).append_left entering
  have hmoved := hchain.append_right
    (((List.range length).erase index).flatMap chains)
  rw [List.append_assoc, List.append_assoc] at hmoved
  exact (hold.trans hmoved).trans (hnew.append_left leaving).symm

/-! ## Moving the entries -/

omit [DecidableEq Key] in
/-- Moving entries loses none and makes none twice. -/
theorem flatMap_foldl_push_perm {length : ℕ} {entries : List Entry}
    (hplace : ∀ entry ∈ entries, place (key entry) < length) :
    (entries ++ (List.range length).flatMap chains).Perm
      ((List.range length).flatMap
        (entries.foldl (push key place) chains)) := by
  induction entries generalizing chains with
  | nil => exact List.Perm.refl _
  | cons entry entries ih =>
      have hentry := hplace entry List.mem_cons_self
      have hpush : (entry :: (List.range length).flatMap chains).Perm
          ((List.range length).flatMap (push key place chains entry)) :=
        @flatMap_update_perm _ chains _ _ hentry _ [entry] [] (List.Perm.refl _)
      have hrest := @ih (push key place chains entry) fun other hother =>
        hplace other (List.mem_cons_of_mem entry hother)
      rw [List.foldl_cons]
      calc entry :: entries ++ (List.range length).flatMap chains
        _ ~ entries ++ entry :: (List.range length).flatMap chains :=
          List.perm_middle.symm
        _ ~ entries ++ (List.range length).flatMap
            (push key place chains entry) := hpush.append_left entries
        _ ~ _ := hrest

/-- Where at most one element counts, all elements that count are one. -/
theorem eq_of_countP_le_one {counts : Entry → Bool} {entries : List Entry}
    (hone : entries.countP counts ≤ 1) (hentry : entry ∈ entries)
    (hother : other ∈ entries) (hcounts : counts entry = true)
    (hcounts' : counts other = true) : entry = other := by
  rw [List.countP_eq_length_filter] at hone
  have hleft := List.mem_filter.mpr ⟨hentry, hcounts⟩
  have hright := List.mem_filter.mpr ⟨hother, hcounts'⟩
  cases hfilter : entries.filter counts with
  | nil =>
      rw [hfilter] at hleft
      exact absurd hleft List.not_mem_nil
  | cons first rest =>
      rw [hfilter, List.length_cons] at hone
      have hrest : rest = [] := List.length_eq_zero_iff.mp (by omega)
      rw [hfilter, hrest, List.mem_singleton] at hleft hright
      rw [hleft, hright]

omit [DecidableEq Key] in
/-- The only entry that is wanted is found in the chain of its key. -/
theorem Placed.find?_eq_some_iff (hplaced : Placed key place chains)
    {length : ℕ} (hplace : place wanted < length) {counts : Entry → Bool}
    (hkey : ∀ entry, counts entry = true → key entry = wanted)
    (hone : ((List.range length).flatMap chains).countP counts ≤ 1) :
    (chains (place wanted)).find? counts = some entry ↔
      entry ∈ (List.range length).flatMap chains ∧ counts entry = true := by
  have hinside : ∀ other ∈ chains (place wanted),
      other ∈ (List.range length).flatMap chains := by
    intro other hother
    exact List.mem_flatMap.mpr ⟨_, List.mem_range.mpr hplace, hother⟩
  constructor
  · intro hfind
    exact ⟨hinside entry (List.mem_of_find?_eq_some hfind),
      List.find?_some hfind⟩
  · intro hentry
    obtain ⟨index, -, hmem⟩ := List.mem_flatMap.mp hentry.1
    have hindex : place wanted = index := by
      rw [← hkey entry hentry.2]
      exact hplaced index entry hmem
    rw [hindex] at hinside ⊢
    cases hfind : (chains index).find? counts with
    | none => exact absurd hentry.2 (List.find?_eq_none.mp hfind entry hmem)
    | some other =>
        have hother := hinside other (List.mem_of_find?_eq_some hfind)
        rw [eq_of_countP_le_one hone hother hentry.1
          (List.find?_some hfind) hentry.2]

end Sensor.BucketMap
