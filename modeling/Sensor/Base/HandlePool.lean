import Mathlib
import Sensor.Core.TransitionSystem

/-!
# Pools of objects known by handles

`HandlePool` keeps objects in an array and hands out handles of an index and an
epoch.  The index in the handle of a free slot is meant to link it to the next
free one.  The class is read with `handle.id` as the index field and `indices`
as the array `items`.  An access outside of the array is undefined.
-/

namespace Sensor

/-- The template's numbers, which its `static_assert` compares. -/
structure HandlePool.Shape where
  size : ℕ
  idBits : ℕ
  epochBits : ℕ
  fits : size < 2 ^ idBits

structure HandlePool.Handle (shape : HandlePool.Shape) where
  index : BitVec shape.idBits
  epoch : BitVec shape.epochBits
  deriving DecidableEq

/-- A slot, with or without an object in its storage. -/
structure HandlePool.Item (shape : HandlePool.Shape) (Obj : Type*) where
  handle : HandlePool.Handle shape
  object : Option Obj

structure HandlePool (shape : HandlePool.Shape) (Obj : Type*) where
  count : ℤ
  freelistHead : ℤ
  freelistTail : ℤ
  items : ℕ → HandlePool.Item shape Obj

namespace HandlePool

variable {shape : Shape} {Obj : Type*}

/-- The place in the array, if it is inside. -/
def inside (shape : Shape) (place : ℤ) : Option ℕ :=
  if 0 ≤ place ∧ place < shape.size then some place.toNat else none

/-- The constructor; the storage holds no objects. -/
def new : HandlePool shape Obj where
  count := 0
  freelistHead := 0
  freelistTail := (shape.size : ℤ) - 1
  items := fun i => ⟨⟨BitVec.ofNat _ i, 0⟩, none⟩

/-- `in.index == h.index && in.epoch == h.epoch` for the slot of the handle. -/
def has (self : HandlePool shape Obj) (id : Handle shape) : Option Bool :=
  (inside shape id.index.toNat).map fun place =>
    (self.items place).handle.index = id.index ∧
      (self.items place).handle.epoch = id.epoch

/-- The storage of the slot, or the null pointer. -/
def get (self : HandlePool shape Obj) (id : Handle shape) :
    Option (Option (Option Obj)) :=
  (inside shape id.index.toNat).map fun place =>
    if (self.items place).handle.index = id.index ∧
        (self.items place).handle.epoch = id.epoch then
      some (self.items place).object
    else none

/-- The slot at the head of the free list exchanges its index with the head. -/
def add (self : HandlePool shape Obj) (o : Obj) :
    Option (Handle shape × HandlePool shape Obj) :=
  (inside shape self.freelistHead).map fun place =>
    let handle := (self.items place).handle
    let swapped := { handle with
      index := BitVec.ofInt shape.idBits self.freelistHead }
    (swapped, { self with
      items := Function.update self.items place ⟨swapped, some o⟩
      freelistHead := handle.index.toNat
      count := self.count + 1 })

/-- `emplace` does what `add` does with an object built from its arguments. -/
def emplace {Args : Type*} (self : HandlePool shape Obj) (build : Args → Obj)
    (args : Args) : Option (Handle shape × HandlePool shape Obj) :=
  self.add (build args)

/-- The slot at the tail of the free list is linked to the slot of a handle
that is accepted. -/
def remove (self : HandlePool shape Obj) (id : Handle shape) :
    Option (Bool × HandlePool shape Obj) :=
  (inside shape id.index.toNat).bind fun place =>
    let slot := self.items place
    if slot.handle.index = id.index ∧ slot.handle.epoch = id.epoch then
      let items := Function.update self.items place
        ⟨{ slot.handle with epoch := slot.handle.epoch + 1 }, none⟩
      (inside shape self.freelistTail).map fun tail =>
        (true, { self with
          items := Function.update items tail
            { items tail with
              handle := { (items tail).handle with
                index := slot.handle.index } }
          freelistTail := slot.handle.index.toNat
          count := self.count - 1 })
    else some (false, self)

/-! ## Runs -/

inductive Call (shape : Shape) (Obj : Type*) where
  | add (o : Obj)
  | remove (id : Handle shape)

/-- The pool, the handles it gave out and the live objects under theirs. -/
structure History (shape : Shape) (Obj : Type*) where
  pool : HandlePool shape Obj
  issued : List (Handle shape)
  live : List (Handle shape × Obj)

namespace History

def new : History shape Obj where
  pool := HandlePool.new
  issued := []
  live := []

def step (self : History shape Obj) :
    Call shape Obj → Option (History shape Obj)
  | .add o =>
      (self.pool.add o).map fun (handle, pool) => {
        pool := pool
        issued := handle :: self.issued
        live := (handle, o) :: self.live }
  | .remove id =>
      (self.pool.remove id).map fun (removed, pool) => {
        pool := pool
        issued := self.issued
        live := if removed then self.live.eraseP (·.1 = id) else self.live }

/-- What the pool promises: live objects have slots of their own and are found
under their handles, every other handle is rejected, and the count is right. -/
structure Kept (history : History shape Obj) : Prop where
  distinct : (history.live.map (·.1.index)).Nodup
  get : ∀ entry ∈ history.live,
    history.pool.get entry.1 = some (some (some entry.2))
  rejects : ∀ handle, (∀ entry ∈ history.live, entry.1 ≠ handle) →
    history.pool.has handle = some false ∧
      history.pool.get handle = some none ∧
      (history.pool.remove handle).map (·.1) = some false
  count : history.pool.count = history.live.length

/-- Only handles that were given out are removed. -/
def RemovesIssued (self : History shape Obj) : Call shape Obj → Prop
  | .add _ => True
  | .remove id => id ∈ self.issued

end History

/-! ## The handles that are given out -/

section

variable {self next : HandlePool shape Obj} {history after : History shape Obj}
variable {handle id : Handle shape} {o : Obj}

theorem inside_eq_some_iff {place : ℤ} {index : ℕ} :
    inside shape place = some index ↔ place = index ∧ index < shape.size := by
  rw [inside]
  split
  case isTrue hinside =>
    rw [Option.some_inj]
    omega
  case isFalse houtside =>
    constructor
    · intro hnone
      exact absurd hnone.symm (Option.some_ne_none index)
    · intro hplace
      omega

/-- A handle that is given out has an index inside the array. -/
theorem index_lt_of_add (hadd : self.add o = some (handle, next)) :
    handle.index.toNat < shape.size := by
  rw [add, Option.map_eq_some_iff] at hadd
  obtain ⟨place, hplace, heq⟩ := hadd
  obtain ⟨hhead, hlt⟩ := inside_eq_some_iff.mp hplace
  have hindex : handle.index = BitVec.ofNat shape.idBits place := by
    have hhandle := congrArg Prod.fst heq
    dsimp only at hhandle
    rw [← hhandle, hhead]
    exact BitVec.ofInt_natCast _ _
  rw [hindex, BitVec.toNat_ofNat, Nat.mod_eq_of_lt (hlt.trans shape.fits)]
  exact hlt

/-- The handle of the first index behind the array. -/
def behind (shape : Shape) : Handle shape where
  index := BitVec.ofNat shape.idBits shape.size
  epoch := 0

/-- Asking for a handle behind the array is undefined. -/
theorem has_behind : self.has (behind shape) = none := by
  have houtside : inside shape (behind shape).index.toNat = none := by
    rw [behind, BitVec.toNat_ofNat, Nat.mod_eq_of_lt shape.fits, inside,
      if_neg]
    omega
  rw [has, houtside, Option.map_none]

/-- The live handles have an index inside the array. -/
def LiveInside (history : History shape Obj) : Prop :=
  ∀ entry ∈ history.live, entry.1.index.toNat < shape.size

theorem liveInside_step {call : Call shape Obj} (hinside : LiveInside history)
    (hstep : history.step call = some after) : LiveInside after := by
  cases call with
  | add o =>
    obtain ⟨⟨handle, pool⟩, hadd, rfl⟩ := Option.map_eq_some_iff.mp hstep
    intro entry hentry
    cases List.mem_cons.mp hentry with
    | inl hnew =>
      rw [hnew]
      exact index_lt_of_add hadd
    | inr hold => exact hinside entry hold
  | remove id =>
    obtain ⟨⟨removed, pool⟩, -, rfl⟩ := Option.map_eq_some_iff.mp hstep
    intro entry hentry
    apply hinside entry
    dsimp only at hentry
    split at hentry
    case isTrue => exact List.mem_of_mem_eraseP hentry
    case isFalse => exact hentry

/-- The promise is not kept where a handle behind the array is not live. -/
theorem not_kept_of_liveInside (hinside : LiveInside history) :
    ¬ history.Kept := by
  intro hkept
  have hnotLive : ∀ entry ∈ history.live, entry.1 ≠ behind shape := by
    intro entry hentry heq
    have hlt := hinside entry hentry
    rw [heq, behind, BitVec.toNat_ofNat, Nat.mod_eq_of_lt shape.fits] at hlt
    exact Nat.lt_irrefl _ hlt
  have hhas := (hkept.rejects (behind shape) hnotLive).1
  rw [has_behind] at hhas
  exact absurd hhas.symm (Option.some_ne_none false)

/-! ## The free list never leads to another slot -/

/-- Before anything was added the handle of the first slot is accepted. -/
theorem has_new :
    (new : HandlePool shape Obj).has ⟨0, 0⟩ ≠ some false := by
  rw [has, ne_eq, Option.map_eq_some_iff]
  rintro ⟨place, hplace, hmatch⟩
  obtain ⟨hzero, -⟩ := inside_eq_some_iff.mp hplace
  have hplaceZero : place = 0 := by
    simpa using hzero.symm
  rw [hplaceZero] at hmatch
  simp [new] at hmatch

/-- The head is the first slot, which is linked to itself, and no other slot was
given out. -/
structure FirstOnly (history : History shape Obj) : Prop where
  head : history.pool.freelistHead = 0
  link : (history.pool.items 0).handle.index = 0
  issued : ∀ handle ∈ history.issued, handle.index = 0

theorem firstOnly_new : FirstOnly (History.new : History shape Obj) where
  head := rfl
  link := rfl
  issued := fun _ hhandle => absurd hhandle List.not_mem_nil

theorem FirstOnly.add (hfirst : FirstOnly history)
    (hstep : history.step (.add o) = some after) : FirstOnly after := by
  obtain ⟨⟨handle, pool⟩, hadd, rfl⟩ := Option.map_eq_some_iff.mp hstep
  rw [HandlePool.add, Option.map_eq_some_iff] at hadd
  obtain ⟨place, hplace, heq⟩ := hadd
  obtain ⟨hhead, -⟩ := inside_eq_some_iff.mp hplace
  have hzero : place = 0 := by
    rw [hfirst.head] at hhead
    exact (Int.natCast_eq_zero.mp hhead.symm)
  subst hzero
  obtain ⟨hhandle, hpool⟩ := Prod.mk.inj heq
  have hindex : BitVec.ofInt shape.idBits history.pool.freelistHead = 0 := by
    rw [hfirst.head]
    rfl
  constructor
  · rw [← hpool]
    dsimp only
    rw [hfirst.link]
    rfl
  · rw [← hpool]
    dsimp only
    rw [Function.update_self]
    exact hindex
  · intro other hother
    cases List.mem_cons.mp hother with
    | inl hnew =>
      rw [hnew, ← hhandle]
      exact hindex
    | inr hold => exact hfirst.issued other hold

theorem FirstOnly.remove (hfirst : FirstOnly history)
    (hissued : id ∈ history.issued)
    (hstep : history.step (.remove id) = some after) : FirstOnly after := by
  obtain ⟨⟨removed, pool⟩, hremove, rfl⟩ := Option.map_eq_some_iff.mp hstep
  suffices hpool : pool.freelistHead = 0 ∧ (pool.items 0).handle.index = 0 from
    ⟨hpool.1, hpool.2, hfirst.issued⟩
  have hid := hfirst.issued id hissued
  rw [HandlePool.remove, Option.bind_eq_some_iff] at hremove
  obtain ⟨place, hplace, hbody⟩ := hremove
  obtain ⟨hindex, -⟩ := inside_eq_some_iff.mp hplace
  have hzero : place = 0 := by
    rw [hid] at hindex
    simpa using hindex.symm
  subst hzero
  dsimp only at hbody
  split at hbody
  case isTrue =>
    obtain ⟨tail, -, heq⟩ := Option.map_eq_some_iff.mp hbody
    rw [← (Prod.mk.inj heq).2]
    refine ⟨hfirst.head, ?_⟩
    dsimp only
    by_cases htail : tail = 0
    · rw [htail, Function.update_self]
      exact hfirst.link
    · rw [Function.update_of_ne (Ne.symm htail), Function.update_self]
      exact hfirst.link
  case isFalse =>
    rw [← (Prod.mk.inj (Option.some.inj hbody)).2]
    exact ⟨hfirst.head, hfirst.link⟩

theorem firstOnly_step {call : Call shape Obj} (hfirst : FirstOnly history)
    (hremoves : history.RemovesIssued call)
    (hstep : history.step call = some after) : FirstOnly after := by
  cases call with
  | add o => exact hfirst.add hstep
  | remove id => exact hfirst.remove hremoves hstep

/-- In no state of a run is the promise kept: a new pool accepts a handle that
it did not give out, and while only handles that were given out are removed
every handle has the index of the first slot. -/
theorem never_kept (shape : Shape) (calls : List (Call shape Obj)) :
    TransitionSystem.Throughout History.step (fun history => ¬ history.Kept)
      History.new calls ∧
    (new : HandlePool shape Obj).has ⟨0, 0⟩ ≠ some false ∧
    (TransitionSystem.MeetsThroughout History.step History.RemovesIssued
        History.new calls →
      TransitionSystem.Throughout History.step
        (fun history => ∀ handle ∈ history.issued, handle.index = 0)
        History.new calls) := by
  refine ⟨?_, has_new, ?_⟩
  · apply TransitionSystem.throughout_of_invariant
    · exact fun _ _ _ => liveInside_step
    · exact fun _ => not_kept_of_liveInside
    · exact fun _ hentry => absurd hentry List.not_mem_nil
  · apply TransitionSystem.MeetsThroughout.throughout
    · exact fun _ _ _ => firstOnly_step
    · exact fun _ hfirst => hfirst.issued
    · exact firstOnly_new

end

/-- A pool of two objects. -/
def twoSlots : Shape where
  size := 2
  idBits := 12
  epochBits := 20
  fits := by decide

/-- The second object is put over the first one, under the same handle. -/
theorem second_add_overwrites :
    ¬ ∀ history, TransitionSystem.execute History.step
        (History.new : History twoSlots ℕ) [.add 7, .add 8] = some history →
      history.Kept := by
  intro hkept
  exact absurd (hkept _ rfl).distinct (by decide)

end HandlePool

end Sensor
