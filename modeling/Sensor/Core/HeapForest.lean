import Mathlib.Data.List.Nodup
import Mathlib.Logic.Function.Basic

/-!
# Singly linked lists in a heap

A heap maps addresses to cells, which hold a value and the address of the next
cell.  A forest is a family of null-terminated lists that share no cell and to
which every allocated cell belongs, so that nothing dangles and nothing leaks.
This file proves what allocating, storing, unlinking and freeing a cell do to
such a family.
-/

namespace Sensor

/-- A cell of a list: its value and the link to the next cell. -/
structure HeapCell (Addr α : Type*) where
  val : α
  next : Option Addr

variable {Addr α Tree : Type*}

/-- The links lead from `start` through the cells of the list to `stop`. -/
def Segment (heap : Addr → Option (HeapCell Addr α)) (stop : Option Addr) :
    Option Addr → List (Addr × α) → Prop
  | start, [] => start = stop
  | start, (addr, val) :: rest =>
      start = some addr ∧
        ∃ next, heap addr = some ⟨val, next⟩ ∧ Segment heap stop next rest

namespace Segment

variable {heap heap' : Addr → Option (HeapCell Addr α)}
variable {start stop : Option Addr} {front rest cells : List (Addr × α)}

/-- Only the cells of the segment matter. -/
theorem frame (hsegment : Segment heap stop start cells)
    (hsame : ∀ addr ∈ cells.map Prod.fst, heap' addr = heap addr) :
    Segment heap' stop start cells := by
  induction cells generalizing start with
  | nil => exact hsegment
  | cons cell rest ih =>
      obtain ⟨hstart, next, hcell, hrest⟩ := hsegment
      refine ⟨hstart, next, ?_, ?_⟩
      · rw [hsame cell.1 List.mem_cons_self, hcell]
      · exact ih hrest fun addr haddr =>
          hsame addr (List.mem_cons_of_mem _ haddr)

theorem append_iff :
    Segment heap stop start (front ++ rest) ↔
      ∃ middle, Segment heap middle start front ∧
        Segment heap stop middle rest := by
  induction front generalizing start with
  | nil => simp [Segment]
  | cons cell front ih =>
      simp only [List.cons_append, Segment, ih]
      constructor
      · rintro ⟨hstart, next, hcell, middle, hfront, hrest⟩
        exact ⟨middle, ⟨hstart, next, hcell, hfront⟩, hrest⟩
      · rintro ⟨middle, ⟨hstart, next, hcell, hfront⟩, hrest⟩
        exact ⟨hstart, next, hcell, middle, hfront, hrest⟩

/-- A segment in front of a cell. -/
theorem append_cons_iff {addr : Addr} {val : α} :
    Segment heap stop start (front ++ (addr, val) :: rest) ↔
      Segment heap (some addr) start front ∧
        ∃ next, heap addr = some ⟨val, next⟩ ∧
          Segment heap stop next rest := by
  rw [append_iff]
  constructor
  · rintro ⟨_, hfront, rfl, hrest⟩
    exact ⟨hfront, hrest⟩
  · rintro ⟨hfront, hrest⟩
    exact ⟨some addr, hfront, rfl, hrest⟩

theorem concat_iff {addr : Addr} {val : α} :
    Segment heap stop start (front ++ [(addr, val)]) ↔
      Segment heap (some addr) start front ∧
        heap addr = some ⟨val, stop⟩ := by
  rw [append_cons_iff]
  apply and_congr_right
  intro _
  simp [Segment]

/-- The cells of a segment are allocated. -/
theorem isSome_of_mem (hsegment : Segment heap stop start cells)
    {addr : Addr} (haddr : addr ∈ cells.map Prod.fst) :
    (heap addr).isSome := by
  induction cells generalizing start with
  | nil => cases haddr
  | cons cell rest ih =>
      obtain ⟨-, next, hcell, hrest⟩ := hsegment
      rcases List.mem_cons.mp haddr with rfl | hlater
      · rw [hcell]
        rfl
      · exact ih hrest hlater

/-- A cell of a segment is in the heap with its value. -/
theorem exists_of_mem (hsegment : Segment heap stop start cells)
    {addr : Addr} {val : α} (hmem : (addr, val) ∈ cells) :
    ∃ next, heap addr = some ⟨val, next⟩ := by
  induction cells generalizing start with
  | nil => cases hmem
  | cons cell rest ih =>
      obtain ⟨-, next, hcell, hrest⟩ := hsegment
      rcases List.mem_cons.mp hmem with rfl | hlater
      · exact ⟨next, hcell⟩
      · exact ih hrest hlater

end Segment

/-- The lists that start at the roots hold the cells `cells`, share none of
them, and there is no other cell in the heap. -/
structure Forest (heap : Addr → Option (HeapCell Addr α))
    (root : Tree → Option Addr) (cells : Tree → List (Addr × α)) : Prop where
  linked : ∀ tree, Segment heap none (root tree) (cells tree)
  nodup : ∀ tree, ((cells tree).map Prod.fst).Nodup
  disjoint : ∀ tree other addr, addr ∈ (cells tree).map Prod.fst →
    addr ∈ (cells other).map Prod.fst → tree = other
  complete : ∀ addr, (heap addr).isSome →
    ∃ tree, addr ∈ (cells tree).map Prod.fst

namespace Forest

variable {heap heap' : Addr → Option (HeapCell Addr α)}
variable {root : Tree → Option Addr} {cells : Tree → List (Addr × α)}
variable {tree : Tree} {addr : Addr} {val : α}

theorem empty :
    Forest (fun _ => none : Addr → Option (HeapCell Addr α))
      (fun _ : Tree => none) fun _ => [] where
  linked := fun _ => rfl
  nodup := fun _ => List.nodup_nil
  disjoint := fun _ _ _ hmem => absurd hmem List.not_mem_nil
  complete := fun _ hsome => by cases hsome

/-- A forest beside one without cells. -/
theorem beside {Other : Type*} (hforest : Forest heap root cells) :
    Forest heap (Sum.elim root fun _ : Other => none)
      (Sum.elim cells fun _ => []) where
  linked := by
    rintro (tree | other)
    · exact hforest.linked tree
    · rfl
  nodup := by
    rintro (tree | other)
    · exact hforest.nodup tree
    · exact List.nodup_nil
  disjoint := by
    rintro (left | left) (right | right) addr hleft hright
    · exact congrArg Sum.inl (hforest.disjoint left right addr hleft hright)
    · cases hright
    · cases hleft
    · cases hleft
  complete := by
    intro addr hsome
    obtain ⟨tree, hmem⟩ := hforest.complete addr hsome
    exact ⟨.inl tree, hmem⟩

/-- Where one of two forests has no cells left the other is the whole. -/
theorem right {Other : Type*} {root : Tree ⊕ Other → Option Addr}
    {cells : Tree ⊕ Other → List (Addr × α)}
    (hforest : Forest heap root cells)
    (hempty : ∀ tree, cells (.inl tree) = []) :
    Forest heap (fun other => root (.inr other))
      fun other => cells (.inr other) where
  linked := fun other => hforest.linked (.inr other)
  nodup := fun other => hforest.nodup (.inr other)
  disjoint := fun left right addr hleft hright =>
    Sum.inr.inj (hforest.disjoint _ _ addr hleft hright)
  complete := by
    intro addr hsome
    obtain ⟨tree | other, hmem⟩ := hforest.complete addr hsome
    · rw [hempty tree] at hmem
      cases hmem
    · exact ⟨other, hmem⟩

variable {front rest : List (Addr × α)} {next : Option Addr}

/-- The cell of a tree is in no other place. -/
theorem mem_split (hforest : Forest heap root cells)
    (hcells : cells tree = front ++ (addr, val) :: rest) :
    addr ∉ front.map Prod.fst ∧ addr ∉ rest.map Prod.fst ∧
      ∀ other ≠ tree, addr ∉ (cells other).map Prod.fst := by
  have hnodup := hforest.nodup tree
  rw [hcells, List.map_append, List.map_cons] at hnodup
  obtain ⟨-, hrest, happart⟩ := List.nodup_append.mp hnodup
  refine ⟨?_, (List.nodup_cons.mp hrest).1, ?_⟩
  · intro hfront
    exact happart addr hfront addr List.mem_cons_self rfl
  · intro other hother hmem
    apply hother
    apply hforest.disjoint other tree addr hmem
    rw [hcells]
    simp

/-- A cell of the heap is in one of the trees with its value. -/
theorem exists_mem (hforest : Forest heap root cells)
    {cell : HeapCell Addr α} (hcell : heap addr = some cell) :
    ∃ tree, (addr, cell.val) ∈ cells tree := by
  obtain ⟨tree, hmem⟩ := hforest.complete addr (by rw [hcell]; rfl)
  obtain ⟨⟨_, val⟩, hpair, rfl⟩ := List.mem_map.mp hmem
  obtain ⟨next, hread⟩ := (hforest.linked tree).exists_of_mem hpair
  rw [hcell] at hread
  rw [Option.some.inj hread]
  exact ⟨tree, hpair⟩

section Update

variable [DecidableEq Tree]

/-- Another list in the place of one of the trees. -/
theorem replace (hforest : Forest heap root cells) {start : Option Addr}
    {rest : List (Addr × α)} (hlinked : Segment heap' none start rest)
    (hnodup : (rest.map Prod.fst).Nodup)
    (hframe : ∀ other ≠ tree, ∀ addr ∈ (cells other).map Prod.fst,
      heap' addr = heap addr)
    (hapart : ∀ other ≠ tree, ∀ addr ∈ (cells other).map Prod.fst,
      addr ∉ rest.map Prod.fst)
    (hcomplete : ∀ addr, (heap' addr).isSome →
      addr ∈ rest.map Prod.fst ∨
        ∃ other ≠ tree, addr ∈ (cells other).map Prod.fst) :
    Forest heap' (Function.update root tree start)
      (Function.update cells tree rest) where
  linked := by
    intro other
    by_cases hother : other = tree
    · subst hother
      rw [Function.update_self, Function.update_self]
      exact hlinked
    · rw [Function.update_of_ne hother, Function.update_of_ne hother]
      exact (hforest.linked other).frame (hframe other hother)
  nodup := by
    intro other
    by_cases hother : other = tree
    · subst hother
      rw [Function.update_self]
      exact hnodup
    · rw [Function.update_of_ne hother]
      exact hforest.nodup other
  disjoint := by
    intro left right addr hleft hright
    by_cases hl : left = tree <;> by_cases hr : right = tree
    · rw [hl, hr]
    · rw [hl, Function.update_self] at hleft
      rw [Function.update_of_ne hr] at hright
      exact absurd hleft (hapart right hr addr hright)
    · rw [hr, Function.update_self] at hright
      rw [Function.update_of_ne hl] at hleft
      exact absurd hright (hapart left hl addr hleft)
    · rw [Function.update_of_ne hl] at hleft
      rw [Function.update_of_ne hr] at hright
      exact hforest.disjoint left right addr hleft hright
  complete := by
    intro addr hsome
    rcases hcomplete addr hsome with hmem | ⟨other, hother, hmem⟩
    · exact ⟨tree, by rwa [Function.update_self]⟩
    · exact ⟨other, by rwa [Function.update_of_ne hother]⟩

variable [DecidableEq Addr]

/-- A new cell in front of a tree. -/
theorem push (hforest : Forest heap root cells) (tree : Tree) (val : α)
    (hfresh : heap addr = none) :
    Forest (Function.update heap addr (some ⟨val, root tree⟩))
      (Function.update root tree (some addr))
      (Function.update cells tree ((addr, val) :: cells tree)) := by
  have hnew : ∀ other, addr ∉ (cells other).map Prod.fst := by
    intro other hmem
    have hsome := (hforest.linked other).isSome_of_mem hmem
    rw [hfresh] at hsome
    cases hsome
  have hsame : ∀ other, ∀ old ∈ (cells other).map Prod.fst,
      Function.update heap addr (some ⟨val, root tree⟩) old = heap old := by
    intro other old hold
    apply Function.update_of_ne
    rintro rfl
    exact hnew other hold
  apply hforest.replace
  · refine ⟨rfl, root tree, Function.update_self .., ?_⟩
    exact (hforest.linked tree).frame (hsame tree)
  · exact List.nodup_cons.mpr ⟨hnew tree, hforest.nodup tree⟩
  · exact fun other _ => hsame other
  · intro other hother old hold hmem
    rcases List.mem_cons.mp hmem with rfl | hmem
    · exact hnew other hold
    · exact hother (hforest.disjoint _ _ old hold hmem)
  · intro old hsome
    by_cases hold : old = addr
    · exact .inl (List.mem_cons.mpr (.inl hold))
    · rw [Function.update_of_ne hold] at hsome
      obtain ⟨other, hmem⟩ := hforest.complete old hsome
      by_cases hother : other = tree
      · subst hother
        exact .inl (List.mem_cons_of_mem _ hmem)
      · exact .inr ⟨other, hother, hmem⟩

/-- Another value in a cell. -/
theorem store (hforest : Forest heap root cells)
    (hcells : cells tree = front ++ (addr, val) :: rest) {stored : α}
    (hcell : heap addr = some ⟨val, next⟩) :
    Forest (Function.update heap addr (some ⟨stored, next⟩)) root
      (Function.update cells tree (front ++ (addr, stored) :: rest)) := by
  obtain ⟨hfront, hrest, hothers⟩ := hforest.mem_split hcells
  have hsame : ∀ list : List (Addr × α), addr ∉ list.map Prod.fst →
      ∀ old ∈ list.map Prod.fst,
        Function.update heap addr (some ⟨stored, next⟩) old = heap old := by
    intro list hlist old hold
    apply Function.update_of_ne
    rintro rfl
    exact hlist hold
  have haddrs : (front ++ (addr, stored) :: rest).map Prod.fst =
      (cells tree).map Prod.fst := by
    rw [hcells]
    simp
  have hlinked := hforest.linked tree
  rw [hcells, Segment.append_cons_iff] at hlinked
  obtain ⟨hbefore, next', hcell', hafter⟩ := hlinked
  obtain rfl : next = next' := by
    rw [hcell] at hcell'
    exact congrArg HeapCell.next (Option.some.inj hcell')
  rw [← Function.update_eq_self tree root]
  apply hforest.replace
  · rw [Segment.append_cons_iff]
    exact ⟨hbefore.frame (hsame front hfront), next,
      Function.update_self .., hafter.frame (hsame rest hrest)⟩
  · rw [haddrs]
    exact hforest.nodup tree
  · exact fun other hother => hsame _ (hothers other hother)
  · intro other hother old hold hmem
    rw [haddrs] at hmem
    exact hother (hforest.disjoint _ _ old hold hmem)
  · intro old hsome
    have hsome' : (heap old).isSome := by
      by_cases hold : old = addr
      · rw [hold, hcell]
        rfl
      · rwa [Function.update_of_ne hold] at hsome
    obtain ⟨other, hmem⟩ := hforest.complete old hsome'
    by_cases hother : other = tree
    · subst hother
      rw [haddrs]
      exact .inl hmem
    · exact .inr ⟨other, hother, hmem⟩

/-- Freeing the first cell of a tree. -/
theorem pop (hforest : Forest heap root cells)
    (hcells : cells tree = (addr, val) :: rest)
    (hcell : heap addr = some ⟨val, next⟩) :
    Forest (Function.update heap addr none)
      (Function.update root tree next) (Function.update cells tree rest) := by
  have hsplit : cells tree = [] ++ (addr, val) :: rest := hcells
  obtain ⟨-, hrest, hothers⟩ := hforest.mem_split hsplit
  have hsame : ∀ list : List (Addr × α), addr ∉ list.map Prod.fst →
      ∀ old ∈ list.map Prod.fst,
        Function.update heap addr none old = heap old := by
    intro list hlist old hold
    apply Function.update_of_ne
    rintro rfl
    exact hlist hold
  have hlinked := hforest.linked tree
  rw [hcells] at hlinked
  obtain ⟨-, next', hcell', hafter⟩ := hlinked
  obtain rfl : next = next' := by
    rw [hcell] at hcell'
    exact congrArg HeapCell.next (Option.some.inj hcell')
  have hnodup := hforest.nodup tree
  rw [hcells] at hnodup
  apply hforest.replace
  · exact hafter.frame (hsame rest hrest)
  · exact (List.nodup_cons.mp hnodup).2
  · exact fun other hother => hsame _ (hothers other hother)
  · intro other hother old hold hmem
    apply hother
    apply hforest.disjoint other tree old hold
    rw [hcells]
    exact List.mem_cons_of_mem _ hmem
  · intro old hsome
    by_cases hold : old = addr
    · rw [hold, Function.update_self] at hsome
      cases hsome
    · rw [Function.update_of_ne hold] at hsome
      obtain ⟨other, hmem⟩ := hforest.complete old hsome
      by_cases hother : other = tree
      · rw [hother, hcells] at hmem
        rcases List.mem_cons.mp hmem with heq | hmem
        · exact absurd heq hold
        · exact .inl hmem
      · exact .inr ⟨other, hother, hmem⟩

/-- Linking a cell past its successor and freeing that one. -/
theorem unlink (hforest : Forest heap root cells) {previous : Addr} {kept : α}
    (hcells : cells tree = front ++ (previous, kept) :: (addr, val) :: rest)
    (hcell : heap addr = some ⟨val, next⟩) :
    Forest (Function.update (Function.update heap previous
        (some ⟨kept, next⟩)) addr none) root
      (Function.update cells tree (front ++ (previous, kept) :: rest)) := by
  have hcells' : cells tree =
      (front ++ [(previous, kept)]) ++ (addr, val) :: rest := by
    rw [hcells, List.append_assoc, List.singleton_append]
  obtain ⟨hfront, hrest, hothers⟩ := hforest.mem_split hcells'
  obtain ⟨hbefore, hbehind, hprevious⟩ := hforest.mem_split hcells
  have hne : previous ≠ addr := by
    rintro rfl
    exact hbehind List.mem_cons_self
  have hsame : ∀ list : List (Addr × α), addr ∉ list.map Prod.fst →
      previous ∉ list.map Prod.fst → ∀ old ∈ list.map Prod.fst,
        Function.update (Function.update heap previous (some ⟨kept, next⟩))
          addr none old = heap old := by
    intro list hlist hlist' old hold
    rw [Function.update_of_ne, Function.update_of_ne]
    · rintro rfl
      exact hlist' hold
    · rintro rfl
      exact hlist hold
  have hlinked := hforest.linked tree
  rw [hcells', Segment.append_cons_iff, Segment.concat_iff] at hlinked
  obtain ⟨⟨hstart, -⟩, next', hcell', hafter⟩ := hlinked
  obtain rfl : next = next' := by
    rw [hcell] at hcell'
    exact congrArg HeapCell.next (Option.some.inj hcell')
  have hfront' : addr ∉ front.map Prod.fst := by
    intro hmem
    apply hfront
    rw [List.map_append]
    exact List.mem_append_left _ hmem
  have hrest' : previous ∉ rest.map Prod.fst :=
    fun hmem => hbehind (List.mem_cons_of_mem _ hmem)
  have haddrs : ∀ old, old ∈ (cells tree).map Prod.fst ↔
      old = addr ∨ old ∈ (front ++ (previous, kept) :: rest).map Prod.fst := by
    intro old
    rw [hcells]
    simp only [List.map_append, List.map_cons, List.mem_append, List.mem_cons]
    tauto
  have hnodup := hforest.nodup tree
  rw [hcells] at hnodup
  rw [← Function.update_eq_self tree root]
  apply hforest.replace
  · rw [Segment.append_cons_iff]
    refine ⟨hstart.frame (hsame front hfront' hbefore), next, ?_,
      hafter.frame (hsame rest hrest hrest')⟩
    rw [Function.update_of_ne hne, Function.update_self]
  · refine List.Nodup.sublist ?_ hnodup
    apply List.Sublist.map
    apply List.Sublist.append_left
    apply List.Sublist.cons_cons
    exact List.sublist_cons_self _ _
  · exact fun other hother =>
      hsame _ (hothers other hother) (hprevious other hother)
  · intro other hother old hold hmem
    exact hother (hforest.disjoint _ _ old hold
      ((haddrs old).mpr (.inr hmem)))
  · intro old hsome
    have hne' : old ≠ addr := by
      rintro rfl
      rw [Function.update_self] at hsome
      cases hsome
    rw [Function.update_of_ne hne'] at hsome
    have hsome' : (heap old).isSome := by
      by_cases hold : old = previous
      · rw [hold]
        apply (hforest.linked tree).isSome_of_mem
        rw [hcells]
        simp
      · rwa [Function.update_of_ne hold] at hsome
    obtain ⟨other, hmem⟩ := hforest.complete old hsome'
    by_cases hother : other = tree
    · rw [hother, haddrs] at hmem
      exact .inl (hmem.resolve_left hne')
    · exact .inr ⟨other, hother, hmem⟩

/-- Moving the first cell of a tree in front of another tree. -/
theorem move (hforest : Forest heap root cells) {other : Tree}
    (hne : other ≠ tree) (hcells : cells tree = (addr, val) :: rest)
    (hcell : heap addr = some ⟨val, next⟩) :
    Forest (Function.update heap addr (some ⟨val, root other⟩))
      (Function.update (Function.update root tree next) other (some addr))
      (Function.update (Function.update cells tree rest) other
        ((addr, val) :: cells other)) := by
  have hpushed := (hforest.pop hcells hcell).push other val
    (Function.update_self ..)
  rw [Function.update_idem, Function.update_of_ne hne,
    Function.update_of_ne hne] at hpushed
  exact hpushed

end Update

end Forest

end Sensor
