import Mathlib.Logic.Function.Basic
import Sensor.Core.TransitionSystem

/-!
# Resources with several holders

Holders refer to resources, several of them to the same one if need be, and a
count says how often each resource was closed.  The resources are owned if each
is closed once when the last of its holders has let go of it, and not before.
-/

namespace Sensor.SharedOwnership

variable {Holder Resource : Type*}

def Held (holds : Holder → Option Resource) (resource : Resource) : Prop :=
  ∃ holder, holds holder = some resource

/-- Held by another holder. -/
def HeldBeside (holds : Holder → Option Resource) (holder : Holder)
    (resource : Resource) : Prop :=
  ∃ other, other ≠ holder ∧ holds other = some resource

/-- Every tracked resource has not been closed while it is held, and has been
closed once when it is not. -/
def Owned (tracked : Resource → Prop) (holds : Holder → Option Resource)
    (closed : Resource → ℕ) : Prop :=
  ∀ resource, tracked resource →
    (Held holds resource → closed resource = 0) ∧
      (¬ Held holds resource → closed resource = 1)

variable {tracked : Resource → Prop} {holds : Holder → Option Resource}
variable {closed : Resource → ℕ} {holder : Holder} {resource : Resource}

theorem HeldBeside.held (hbeside : HeldBeside holds holder resource) :
    Held holds resource := by
  obtain ⟨other, -, hother⟩ := hbeside
  exact ⟨other, hother⟩

theorem Owned.held (howned : Owned tracked holds closed)
    (htracked : tracked resource) (hopen : closed resource = 0) :
    Held holds resource := by
  by_contra hheld
  have hclosed := (howned resource htracked).2 hheld
  rw [hopen] at hclosed
  cases hclosed

variable [DecidableEq Holder]

theorem held_update_iff {value : Option Resource} :
    Held (Function.update holds holder value) resource ↔
      value = some resource ∨ HeldBeside holds holder resource := by
  constructor
  · rintro ⟨other, hother⟩
    rcases update_eq_some_iff.mp hother with ⟨-, hvalue⟩ | ⟨hne, hother⟩
    · exact .inl hvalue
    · exact .inr ⟨other, hne, hother⟩
  · rintro (hvalue | ⟨other, hne, hother⟩)
    · exact ⟨holder, update_eq_some_iff.mpr (.inl ⟨rfl, hvalue⟩)⟩
    · exact ⟨other, update_eq_some_iff.mpr (.inr ⟨hne, hother⟩)⟩

theorem held_iff : Held holds resource ↔
    holds holder = some resource ∨ HeldBeside holds holder resource := by
  rw [← held_update_iff, Function.update_eq_self]

/-- A holder that turns to something held keeps the resources owned exactly if
it does not drop the last reference to a resource. -/
theorem Owned.rebind_iff (howned : Owned tracked holds closed)
    {value : Option Resource}
    (hvalue : ∀ resource, tracked resource → value = some resource →
      Held holds resource) :
    Owned tracked (Function.update holds holder value) closed ↔
      ∀ resource, tracked resource → holds holder = some resource →
        value = some resource ∨ HeldBeside holds holder resource := by
  constructor
  · intro hnext resource htracked hholds
    have hopen := (howned resource htracked).1 ⟨holder, hholds⟩
    exact held_update_iff.mp (hnext.held htracked hopen)
  · intro hkept resource htracked
    have hsame : Held (Function.update holds holder value) resource ↔
        Held holds resource := by
      rw [held_update_iff]
      constructor
      · rintro (hgiven | hbeside)
        · exact hvalue resource htracked hgiven
        · exact hbeside.held
      · intro hheld
        rcases held_iff.mp hheld with hholds | hbeside
        · exact hkept resource htracked hholds
        · exact .inr hbeside
    rw [hsame]
    exact howned resource htracked

/-- A holder of nothing may turn to anything held. -/
theorem Owned.acquire (howned : Owned tracked holds closed)
    (hnone : holds holder = none) {value : Option Resource}
    (hvalue : ∀ resource, tracked resource → value = some resource →
      Held holds resource) :
    Owned tracked (Function.update holds holder value) closed := by
  apply (howned.rebind_iff hvalue).mpr
  intro resource _ hholds
  rw [hnone] at hholds
  cases hholds

/-- A holder that goes and takes its resource with it keeps the resources owned
exactly if no other holder has it. -/
theorem Owned.release_iff [DecidableEq Resource]
    (howned : Owned tracked holds closed) (htracked : tracked resource)
    (hopen : closed resource = 0)
    (honly : ∀ other, tracked other → holds holder = some other →
      other = resource) :
    Owned tracked (Function.update holds holder none)
        (Function.update closed resource (closed resource + 1)) ↔
      ¬ HeldBeside holds holder resource := by
  have hheld : ∀ other, Held (Function.update holds holder none) other ↔
      HeldBeside holds holder other := by
    intro other
    rw [held_update_iff]
    exact or_iff_right (fun hnone => nomatch hnone)
  constructor
  · intro hnext hbeside
    have hclosed := (hnext resource htracked).1 ((hheld resource).mpr hbeside)
    rw [Function.update_self] at hclosed
    cases hclosed
  · intro hbeside other hother
    rw [hheld]
    by_cases heq : other = resource
    · subst heq
      rw [Function.update_self, hopen]
      exact ⟨fun hother => absurd hother hbeside, fun _ => rfl⟩
    · rw [Function.update_of_ne heq]
      have hsame : Held holds other ↔ HeldBeside holds holder other := by
        rw [held_iff]
        exact or_iff_right fun hholds => heq (honly other hother hholds)
      rw [← hsame]
      exact howned other hother

/-- A new resource in the hands of a holder of nothing. -/
theorem Owned.create (howned : Owned tracked holds closed)
    (hnone : holds holder = none) (hnew : ¬ tracked resource)
    (hopen : closed resource = 0) :
    Owned (fun other => tracked other ∨ other = resource)
      (Function.update holds holder (some resource)) closed := by
  rintro other (htracked | rfl)
  · have hne : ¬ some resource = some other := by
      rintro ⟨⟩
      exact hnew htracked
    have hsame : Held holds other ↔ HeldBeside holds holder other := by
      rw [held_iff, hnone]
      exact or_iff_right (fun hholds => nomatch hholds)
    rw [held_update_iff, or_iff_right hne, ← hsame]
    exact howned other htracked
  · have hheld : Held (Function.update holds holder (some other)) other :=
      held_update_iff.mpr (.inl rfl)
    exact ⟨fun _ => hopen, fun hunheld => absurd hheld hunheld⟩

end Sensor.SharedOwnership
