import Sensor.Core.TransitionSystem

/-!
# Readers-writer locks

A readers-writer lock counts the threads that share it and notes whether one
holds it exclusively; it does not know who they are.  This file says that the
count agrees with the threads that hold the lock and shows that taking and
releasing it keep the two in agreement, so that a thread that holds the lock
exclusively holds it alone.
-/

namespace Sensor

/-- How an operation takes the lock. -/
inductive LockMode where
  | shared
  | exclusive
  | unlocked
deriving DecidableEq

/-- A readers-writer lock. -/
structure ReadersWriterLock where
  readers : ℕ
  writing : Bool
deriving DecidableEq

namespace ReadersWriterLock

def free : ReadersWriterLock where
  readers := 0
  writing := false

def lockRead (lock : ReadersWriterLock) : Option ReadersWriterLock :=
  if lock.writing then none
  else some { lock with readers := lock.readers + 1 }

def lockWrite (lock : ReadersWriterLock) : Option ReadersWriterLock :=
  if lock.writing ∨ lock.readers ≠ 0 then none
  else some { lock with writing := true }

def release (lock : ReadersWriterLock) : ReadersWriterLock :=
  if lock.writing then { lock with writing := false }
  else { lock with readers := lock.readers - 1 }

def take (lock : ReadersWriterLock) : LockMode → Option ReadersWriterLock
  | .shared => lock.lockRead
  | .exclusive => lock.lockWrite
  | .unlocked => none

/-- The lock counts the threads that hold it. -/
structure HeldAs {Thread : Type*} (lock : ReadersWriterLock)
    (held : Thread → Option LockMode) : Prop where
  readers : ∃ tally : Finset Thread,
    (∀ thread, thread ∈ tally ↔ held thread = some .shared) ∧
      tally.card = lock.readers
  writing_iff : lock.writing = true ↔ ∃ thread, held thread = some .exclusive
  writer_unique : ∀ thread other, held thread = some .exclusive →
    held other = some .exclusive → thread = other
  apart : lock.writing = true → lock.readers = 0
  locked : ∀ thread, held thread ≠ some .unlocked

namespace HeldAs

variable {Thread : Type*} {lock next : ReadersWriterLock}
variable {held : Thread → Option LockMode} {thread : Thread}

theorem free : HeldAs .free fun _ : Thread => none where
  readers := ⟨∅, by simp, rfl⟩
  writing_iff := by simp [ReadersWriterLock.free]
  writer_unique := by simp
  apart := fun _ => rfl
  locked := by simp

/-- While nobody writes nobody holds the lock exclusively. -/
theorem ne_exclusive (hheld : lock.HeldAs held)
    (hwriting : lock.writing = false) (thread : Thread) :
    held thread ≠ some .exclusive := by
  intro hthread
  have htrue := hheld.writing_iff.mpr ⟨thread, hthread⟩
  rw [hwriting] at htrue
  cases htrue

/-- While somebody writes nobody shares the lock. -/
theorem ne_shared (hheld : lock.HeldAs held) (hreaders : lock.readers = 0)
    (thread : Thread) : held thread ≠ some .shared := by
  obtain ⟨tally, hmem, hcard⟩ := hheld.readers
  rw [hreaders, Finset.card_eq_zero] at hcard
  intro hthread
  have hin := (hmem thread).mpr hthread
  rw [hcard] at hin
  exact absurd hin (Finset.notMem_empty thread)

/-- Who holds the lock exclusively holds it alone. -/
theorem alone (hheld : lock.HeldAs held)
    (hthread : held thread = some .exclusive) {other : Thread}
    {mode : LockMode} (hother : held other = some mode) : other = thread := by
  have hreaders := hheld.apart (hheld.writing_iff.mpr ⟨thread, hthread⟩)
  cases mode with
  | shared => exact absurd hother (hheld.ne_shared hreaders other)
  | exclusive => exact hheld.writer_unique _ _ hother hthread
  | unlocked => exact absurd hother (hheld.locked other)

section Update

variable [DecidableEq Thread]

/-- The count of the readers after one thread changed how it holds the lock. -/
theorem exists_readers (hheld : lock.HeldAs held) (thread : Thread)
    (mode : Option LockMode) :
    ∃ tally : Finset Thread,
      (∀ other, other ∈ tally ↔
        Function.update held thread mode other = some .shared) ∧
      tally.card + (decide (held thread = some .shared)).toNat =
        lock.readers + (decide (mode = some .shared)).toNat := by
  obtain ⟨tally, hmem, hcard⟩ := hheld.readers
  have hbefore : ∀ other, other ∈ tally ↔
      decide (held other = some .shared) = true := by
    intro other
    rw [hmem, decide_eq_true_eq]
  have hkept : ∀ other, other ≠ thread →
      decide (Function.update held thread mode other = some .shared) =
        decide (held other = some .shared) := by
    intro other hother
    rw [Function.update_of_ne hother]
  obtain ⟨tally', hmem', hcard'⟩ := exists_tally hbefore thread hkept
  refine ⟨tally', fun other => ?_, ?_⟩
  · rw [hmem', decide_eq_true_eq]
  · rw [Function.update_self, hcard] at hcard'
    exact hcard'

theorem lockRead (hheld : lock.HeldAs held) (hthread : held thread = none)
    (hlock : lock.lockRead = some next) :
    next.HeldAs (Function.update held thread (some .shared)) := by
  obtain ⟨hwriting, rfl⟩ : lock.writing = false ∧
      { lock with readers := lock.readers + 1 } = next := by
    simpa [ReadersWriterLock.lockRead] using hlock
  have hnone : ∀ other,
      Function.update held thread (some .shared) other ≠ some .exclusive := by
    intro other
    by_cases hother : other = thread
    · rw [hother, Function.update_self]
      exact fun heq => LockMode.noConfusion (Option.some.inj heq)
    · rw [Function.update_of_ne hother]
      exact hheld.ne_exclusive hwriting other
  obtain ⟨tally, hmem, hcard⟩ := hheld.exists_readers thread (some .shared)
  constructor
  · refine ⟨tally, hmem, ?_⟩
    simpa [hthread] using hcard
  · simp [hwriting, hnone]
  · exact fun left _ hleft _ => absurd hleft (hnone left)
  · intro htrue
    rw [hwriting] at htrue
    cases htrue
  · intro other
    by_cases hother : other = thread
    · rw [hother, Function.update_self]
      exact fun heq => LockMode.noConfusion (Option.some.inj heq)
    · rw [Function.update_of_ne hother]
      exact hheld.locked other

theorem lockWrite (hheld : lock.HeldAs held) (hthread : held thread = none)
    (hlock : lock.lockWrite = some next) :
    next.HeldAs (Function.update held thread (some .exclusive)) := by
  obtain ⟨⟨hwriting, hreaders⟩, rfl⟩ :
      (lock.writing = false ∧ lock.readers = 0) ∧
        { lock with writing := true } = next := by
    simpa [ReadersWriterLock.lockWrite] using hlock
  have honly : ∀ other,
      Function.update held thread (some .exclusive) other =
        some .exclusive → other = thread := by
    intro other hexclusive
    by_contra hother
    rw [Function.update_of_ne hother] at hexclusive
    exact hheld.ne_exclusive hwriting other hexclusive
  obtain ⟨tally, hmem, hcard⟩ := hheld.exists_readers thread (some .exclusive)
  constructor
  · refine ⟨tally, hmem, ?_⟩
    simpa [hthread] using hcard
  · exact iff_of_true rfl ⟨thread, Function.update_self ..⟩
  · intro left right hleft hright
    rw [honly left hleft, honly right hright]
  · exact fun _ => hreaders
  · intro other
    by_cases hother : other = thread
    · rw [hother, Function.update_self]
      exact fun heq => LockMode.noConfusion (Option.some.inj heq)
    · rw [Function.update_of_ne hother]
      exact hheld.locked other

theorem take (hheld : lock.HeldAs held) (hthread : held thread = none)
    {mode : LockMode} (hlock : lock.take mode = some next) :
    next.HeldAs (Function.update held thread (some mode)) := by
  cases mode with
  | shared => exact hheld.lockRead hthread hlock
  | exclusive => exact hheld.lockWrite hthread hlock
  | unlocked => cases hlock

theorem release (hheld : lock.HeldAs held) {mode : LockMode}
    (hthread : held thread = some mode) :
    lock.release.HeldAs (Function.update held thread none) := by
  have hother : ∀ other mode,
      Function.update held thread none other = some mode ↔
        other ≠ thread ∧ held other = some mode := by
    intro other mode
    by_cases heq : other = thread
    · simp [heq]
    · simp [heq]
  obtain ⟨tally, hmem, hcard⟩ := hheld.exists_readers thread none
  cases mode with
  | unlocked => exact absurd hthread (hheld.locked thread)
  | shared =>
      have hwriting : lock.writing = false := by
        by_contra htrue
        rw [Bool.not_eq_false] at htrue
        exact hheld.ne_shared (hheld.apart htrue) thread hthread
      rw [ReadersWriterLock.release, if_neg (by simp [hwriting])]
      constructor
      · refine ⟨tally, hmem, ?_⟩
        have hone : tally.card + 1 = lock.readers := by
          simpa [hthread] using hcard
        exact Nat.eq_sub_of_add_eq hone
      · simp [hwriting, hother, hheld.ne_exclusive hwriting]
      · intro left right hleft _
        exact absurd ((hother _ _).mp hleft).2
          (hheld.ne_exclusive hwriting left)
      · intro htrue
        rw [hwriting] at htrue
        cases htrue
      · intro other hunlocked
        exact hheld.locked other ((hother _ _).mp hunlocked).2
  | exclusive =>
      have hwriting := hheld.writing_iff.mpr ⟨thread, hthread⟩
      rw [ReadersWriterLock.release, if_pos hwriting]
      have hnone : ∀ other mode,
          Function.update held thread none other ≠ some mode := by
        intro other mode hmode
        obtain ⟨hne, hold⟩ := (hother other mode).mp hmode
        exact hne (hheld.alone hthread hold)
      constructor
      · refine ⟨tally, hmem, ?_⟩
        simpa [hthread] using hcard
      · simp [hnone]
      · exact fun left _ hleft _ => absurd hleft (hnone left _)
      · exact fun htrue => by cases htrue
      · exact fun other => hnone other _

end Update

end HeldAs

end ReadersWriterLock

end Sensor
