import Sensor.Core.TransitionSystem
import Mathlib.Data.List.Infix
import Mathlib.Data.List.Nodup
import Mathlib.Logic.Function.Basic

/-!
# Singly linked chains built by exchange and link

A lock-free multi-producer queue grows its list in two steps: an exchange puts
a node at the tail and only a later store links the old tail to it.  Between
the two the chain has a gap.  This file describes such a chain with any number
of gaps: `chain` lists the nodes in exchange order, `next` holds the links, and
`pending left right` says that some thread still has to link `left` to
`right`.  It proves what an exchange, a link and an advance of the head do to
it.
-/

namespace Sensor

variable {Loc : Type*}

/-- `right` comes directly after `left` in `chain`. -/
def Adjacent (chain : List Loc) (left right : Loc) : Prop :=
  [left, right] <:+: chain

namespace Adjacent

theorem left_mem {chain : List Loc} {left right : Loc}
    (hadj : Adjacent chain left right) : left ∈ chain :=
  hadj.subset (by simp)

theorem right_mem {chain : List Loc} {left right : Loc}
    (hadj : Adjacent chain left right) : right ∈ chain :=
  hadj.subset (by simp)

theorem cons_iff {chain : List Loc} {head left right : Loc} :
    Adjacent (head :: chain) left right ↔
      (left = head ∧ chain.head? = some right) ∨ Adjacent chain left right := by
  rw [Adjacent, List.infix_cons_iff, Adjacent]
  apply or_congr_left
  rw [List.cons_prefix_cons]
  apply and_congr_right
  intro _
  cases chain with
  | nil => simp
  | cons second rest => simp [List.cons_prefix_cons, eq_comm]

theorem concat_iff {chain : List Loc} {last left right : Loc} :
    Adjacent (chain ++ [last]) left right ↔
      Adjacent chain left right ∨
        (chain.getLast? = some left ∧ right = last) := by
  rw [Adjacent, List.infix_concat_iff, Adjacent, or_comm]
  apply or_congr_right
  constructor
  · rintro ⟨front, hfront⟩
    have hsplit : (front ++ [left]) ++ [right] = chain ++ [last] := by
      simpa using hfront
    obtain ⟨hchain, hright⟩ := List.append_inj' hsplit rfl
    refine ⟨?_, by simpa using hright⟩
    rw [← hchain]
    simp
  · rintro ⟨hlast, rfl⟩
    obtain ⟨front, rfl⟩ := List.getLast?_eq_some_iff.mp hlast
    exact ⟨front, by simp⟩

/-- In a chain without repetitions a node has one successor. -/
theorem right_unique {chain : List Loc} {left right right' : Loc}
    (hnodup : chain.Nodup) (hadj : Adjacent chain left right)
    (hadj' : Adjacent chain left right') : right = right' := by
  induction chain with
  | nil => simp [Adjacent] at hadj
  | cons head rest ih =>
      obtain ⟨hhead, hrest⟩ := List.nodup_cons.mp hnodup
      rcases cons_iff.mp hadj with ⟨rfl, hfirst⟩ | hlater
      · rcases cons_iff.mp hadj' with ⟨-, hfirst'⟩ | hlater'
        · exact Option.some.inj (hfirst.symm.trans hfirst')
        · exact absurd hlater'.left_mem hhead
      · rcases cons_iff.mp hadj' with ⟨rfl, -⟩ | hlater'
        · exact absurd hlater.left_mem hhead
        · exact ih hrest hlater hlater'

/-- A node with a successor is not the last one. -/
theorem left_ne_last {chain : List Loc} {left right last : Loc}
    (hnodup : chain.Nodup) (hadj : Adjacent chain left right)
    (hlast : chain.getLast? = some last) : left ≠ last := by
  obtain ⟨front, rfl⟩ := List.getLast?_eq_some_iff.mp hlast
  have hmem : left ∈ front := by
    rcases concat_iff.mp hadj with hfront | ⟨hfront, -⟩
    · exact hfront.left_mem
    · exact List.mem_of_getLast? hfront
  have hdisjoint := (List.nodup_append.mp hnodup).2.2
  exact hdisjoint left hmem last (by simp)

end Adjacent

/-- A chain with gaps.  Every node but the last is either linked to its
successor or waits for a pending link to it, and pending links exist only for
such gaps. -/
structure LinkedChain (next : Loc → Option Loc) (pending : Loc → Loc → Prop)
    (chain : List Loc) : Prop where
  nodup : chain.Nodup
  linked : ∀ left right, Adjacent chain left right →
    next left = some right ∨ (next left = none ∧ pending left right)
  gap : ∀ left right, pending left right →
    Adjacent chain left right ∧ next left = none
  last_open : ∀ last, chain.getLast? = some last → next last = none

namespace LinkedChain

variable {next : Loc → Option Loc} {pending pending' : Loc → Loc → Prop}
variable {chain rest : List Loc}

theorem singleton {node : Loc} (hnext : next node = none)
    (hpending : ∀ left right, ¬ pending left right) :
    LinkedChain next pending [node] where
  nodup := List.nodup_singleton node
  linked := fun left right hadj => by
    rcases Adjacent.cons_iff.mp hadj with ⟨-, hfirst⟩ | hlater
    · simp at hfirst
    · simp [Adjacent] at hlater
  gap := fun left right hgap => absurd hgap (hpending left right)
  last_open := fun last hlast => by
    have hnode : node = last := by simpa using hlast
    rw [← hnode, hnext]

/-- Only the gaps matter of the pending links. -/
theorem congr_pending (hchain : LinkedChain next pending chain)
    (hpending : ∀ left right, pending' left right ↔ pending left right) :
    LinkedChain next pending' chain where
  nodup := hchain.nodup
  linked := fun left right hadj => by
    rw [hpending]
    exact hchain.linked left right hadj
  gap := fun left right hgap => hchain.gap left right ((hpending _ _).mp hgap)
  last_open := hchain.last_open

/-- Exchanging a new node into the tail opens one gap, from the old tail to
the new node. -/
theorem exchange (hchain : LinkedChain next pending chain) {tail node : Loc}
    (htail : chain.getLast? = some tail) (hnode : node ∉ chain)
    (hnext : next node = none)
    (hpending : ∀ left right, pending' left right ↔
      pending left right ∨ (left = tail ∧ right = node)) :
    LinkedChain next pending' (chain ++ [node]) where
  nodup := by
    rw [List.nodup_append]
    refine ⟨hchain.nodup, List.nodup_singleton node, ?_⟩
    intro left hleft right hright heq
    apply hnode
    rw [← List.mem_singleton.mp hright, ← heq]
    exact hleft
  linked := fun left right hadj => by
    rw [hpending]
    rcases Adjacent.concat_iff.mp hadj with hold | ⟨hlast, rfl⟩
    · rcases hchain.linked left right hold with hlink | ⟨hnone, hgap⟩
      · exact .inl hlink
      · exact .inr ⟨hnone, .inl hgap⟩
    · have heq : left = tail := Option.some.inj (hlast.symm.trans htail)
      exact .inr ⟨hchain.last_open left hlast, .inr ⟨heq, rfl⟩⟩
  gap := fun left right hgap => by
    rcases (hpending left right).mp hgap with hold | ⟨rfl, rfl⟩
    · obtain ⟨hadj, hnone⟩ := hchain.gap left right hold
      exact ⟨Adjacent.concat_iff.mpr (.inl hadj), hnone⟩
    · exact ⟨Adjacent.concat_iff.mpr (.inr ⟨htail, rfl⟩),
        hchain.last_open _ htail⟩
  last_open := fun last hlast => by
    have heq : node = last := by simpa using hlast
    rw [← heq, hnext]

section Update

variable [DecidableEq Loc]

/-- Storing a pending link closes its gap. -/
theorem link (hchain : LinkedChain next pending chain) {prev node : Loc}
    (hgap : pending prev node)
    (hpending : ∀ left right, pending' left right ↔
      pending left right ∧ left ≠ prev) :
    LinkedChain (Function.update next prev (some node)) pending' chain where
  nodup := hchain.nodup
  linked := fun left right hadj => by
    rw [hpending]
    by_cases hleft : left = prev
    · subst hleft
      have hright := Adjacent.right_unique hchain.nodup hadj
        (hchain.gap _ _ hgap).1
      simp [hright]
    · rw [Function.update_of_ne hleft]
      rcases hchain.linked left right hadj with hlink | ⟨hnone, hold⟩
      · exact .inl hlink
      · exact .inr ⟨hnone, hold, hleft⟩
  gap := fun left right hgap' => by
    obtain ⟨hold, hleft⟩ := (hpending left right).mp hgap'
    rw [Function.update_of_ne hleft]
    exact hchain.gap left right hold
  last_open := fun last hlast => by
    have hne : last ≠ prev := fun heq =>
      (hchain.gap _ _ hgap).1.left_ne_last hchain.nodup hlast heq.symm
    rw [Function.update_of_ne hne]
    exact hchain.last_open last hlast

/-- A store into a node outside the chain does not touch it. -/
theorem store_outside (hchain : LinkedChain next pending chain) {node : Loc}
    (hnode : node ∉ chain) (value : Option Loc) :
    LinkedChain (Function.update next node value) pending chain where
  nodup := hchain.nodup
  linked := fun left right hadj => by
    have hne : left ≠ node := ne_of_mem_of_not_mem hadj.left_mem hnode
    rw [Function.update_of_ne hne]
    exact hchain.linked left right hadj
  gap := fun left right hgap => by
    have hadj := (hchain.gap left right hgap).1
    have hne : left ≠ node := ne_of_mem_of_not_mem hadj.left_mem hnode
    rw [Function.update_of_ne hne]
    exact hchain.gap left right hgap
  last_open := fun last hlast => by
    have hne : last ≠ node :=
      ne_of_mem_of_not_mem (List.mem_of_getLast? hlast) hnode
    rw [Function.update_of_ne hne]
    exact hchain.last_open last hlast

end Update

/-! ## The head of the chain -/

/-- A link found in the head leads to the second node. -/
theorem second_of_next {head second : Loc}
    (hchain : LinkedChain next pending (head :: rest))
    (hnext : next head = some second) : rest.head? = some second := by
  cases rest with
  | nil =>
      have hopen := hchain.last_open head rfl
      rw [hnext] at hopen
      cases hopen
  | cons follower tail =>
      have hadj : Adjacent (head :: follower :: tail) head follower :=
        Adjacent.cons_iff.mpr (.inl ⟨rfl, rfl⟩)
      rcases hchain.linked _ _ hadj with hlink | ⟨hnone, -⟩
      · rw [hnext] at hlink
        exact hlink.symm
      · rw [hnext] at hnone
        cases hnone

/-- Dropping a linked head leaves a chain. -/
theorem advance {head second : Loc}
    (hchain : LinkedChain next pending (head :: rest))
    (hnext : next head = some second) : LinkedChain next pending rest where
  nodup := (List.nodup_cons.mp hchain.nodup).2
  linked := fun left right hadj =>
    hchain.linked left right (Adjacent.cons_iff.mpr (.inr hadj))
  gap := fun left right hgap => by
    obtain ⟨hadj, hnone⟩ := hchain.gap left right hgap
    refine ⟨?_, hnone⟩
    rcases Adjacent.cons_iff.mp hadj with ⟨rfl, -⟩ | hlater
    · rw [hnext] at hnone
      cases hnone
    · exact hlater
  last_open := fun last hlast => by
    apply hchain.last_open
    rw [List.getLast?_cons, hlast]
    rfl

end LinkedChain

/-! ## Gaps that threads hold -/

section Threads

variable {Thread Pc : Type*}

/-- Some thread is at a place whose next store links `left` to `right`. -/
def PendingLink (link : Pc → Option (Loc × Loc)) (place : Thread → Option Pc)
    (left right : Loc) : Prop :=
  ∃ thread pc, place thread = some pc ∧ link pc = some (left, right)

namespace PendingLink

variable [DecidableEq Thread] {link : Pc → Option (Loc × Loc)}
variable {place : Thread → Option Pc} {thread : Thread} {value : Option Pc}
variable {left right : Loc}

/-- The gaps after one thread moved: those of the other threads and its own. -/
theorem update_iff :
    PendingLink link (Function.update place thread value) left right ↔
      (∃ pc, value = some pc ∧ link pc = some (left, right)) ∨
        ∃ other pc, other ≠ thread ∧ place other = some pc ∧
          link pc = some (left, right) := by
  simp only [PendingLink, update_eq_some_iff]
  constructor
  · rintro ⟨other, pc, ⟨-, hvalue⟩ | ⟨hne, hother⟩, hlink⟩
    · exact .inl ⟨pc, hvalue, hlink⟩
    · exact .inr ⟨other, pc, hne, hother, hlink⟩
  · rintro (⟨pc, hvalue, hlink⟩ | ⟨other, pc, hne, hother, hlink⟩)
    · exact ⟨thread, pc, .inl ⟨rfl, hvalue⟩, hlink⟩
    · exact ⟨other, pc, .inr ⟨hne, hother⟩, hlink⟩

/-- A thread without a gap moves to a place without one. -/
theorem update_of_none
    (hold : ∀ pc, place thread = some pc → link pc = none)
    (hnew : ∀ pc, value = some pc → link pc = none) :
    PendingLink link (Function.update place thread value) left right ↔
      PendingLink link place left right := by
  rw [update_iff]
  constructor
  · rintro (⟨pc, hvalue, hlink⟩ | ⟨other, pc, -, hother, hlink⟩)
    · rw [hnew pc hvalue] at hlink
      cases hlink
    · exact ⟨other, pc, hother, hlink⟩
  · rintro ⟨other, pc, hother, hlink⟩
    refine .inr ⟨other, pc, ?_, hother, hlink⟩
    rintro rfl
    rw [hold pc hother] at hlink
    cases hlink

/-- A thread without a gap moves to a place with one. -/
theorem update_open {prev node : Loc} {pc : Pc}
    (hold : ∀ pc, place thread = some pc → link pc = none)
    (hnew : link pc = some (prev, node)) :
    PendingLink link (Function.update place thread (some pc)) left right ↔
      PendingLink link place left right ∨ (left = prev ∧ right = node) := by
  rw [update_iff]
  constructor
  · rintro (⟨pc, ⟨⟩, hlink⟩ | ⟨other, pc, -, hother, hlink⟩)
    · rw [hnew] at hlink
      cases hlink
      exact .inr ⟨rfl, rfl⟩
    · exact .inl ⟨other, pc, hother, hlink⟩
  · rintro (⟨other, otherPc, hother, hlink⟩ | ⟨rfl, rfl⟩)
    · refine .inr ⟨other, otherPc, ?_, hother, hlink⟩
      rintro rfl
      rw [hold otherPc hother] at hlink
      cases hlink
    · exact .inl ⟨pc, rfl, hnew⟩

/-- A thread stores its link and moves to a place without a gap, where no other
thread links the same node. -/
theorem update_close {prev : Loc}
    (hold : ∀ pc pair, place thread = some pc → link pc = some pair →
      pair.1 = prev)
    (hnew : ∀ pc, value = some pc → link pc = none)
    (hother : ∀ other pc pair, other ≠ thread → place other = some pc →
      link pc = some pair → pair.1 ≠ prev) :
    PendingLink link (Function.update place thread value) left right ↔
      PendingLink link place left right ∧ left ≠ prev := by
  rw [update_iff]
  constructor
  · rintro (⟨pc, hvalue, hlink⟩ | ⟨other, pc, hne, hplace, hlink⟩)
    · rw [hnew pc hvalue] at hlink
      cases hlink
    · exact ⟨⟨other, pc, hplace, hlink⟩, hother other pc _ hne hplace hlink⟩
  · rintro ⟨⟨other, pc, hplace, hlink⟩, hne⟩
    refine .inr ⟨other, pc, ?_, hplace, hlink⟩
    rintro rfl
    exact hne (hold pc _ hplace hlink)

end PendingLink

end Threads

end Sensor
