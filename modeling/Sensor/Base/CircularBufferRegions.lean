import Sensor.Base.CircularBufferSafety
import Sensor.Core.TransitionSystem

/-!
# The regions of the circular buffer against its copies

`watch_in` and `flush_in` are a second way to take bytes, `watch_out` and
`flush_out` a second way to put them in.  Neither agrees with the first way in
any state: `flush_in` moves `begin` alone where `get` also counts down `size`,
`flush_out` is a copy of `flush_in` where `add` moves `end`, and `watch_in` hands
out a region of an empty buffer.
-/

namespace Sensor.CircularBuffer

open Region TransitionSystem

variable {Byte : Type*}

/-- A buffer just constructed, and the operations on it. -/
def system (Byte : Type*) : TransitionSystem (CircularBuffer Byte) (Op Byte) :=
  .ofStep (fun buffer => ∃ capacity heap, 0 < capacity ∧ capacity < 2 ^ 64 ∧
    buffer = new capacity heap) after

variable {buffer : CircularBuffer Byte}

theorem reachable_valid (hreach : (system Byte).Reachable buffer) :
    buffer.Valid := by
  apply hreach.invariant
  · rintro start ⟨capacity, heap, hpos, hcapacity, rfl⟩
    exact .new hpos hcapacity heap
  · exact fun _ _ _ hvalid hstep => (hvalid.after hstep).1

/-! ## Taking bytes -/

/-- The first `sz` bytes of a region. -/
def regionBytes (buffer : CircularBuffer Byte) (region : ℕ × Option ℕ)
    (sz : ℕ) : List Byte :=
  match region.2 with
  | some offset => read buffer.buffer offset sz
  | none => []

/-- The region shows the bytes `get` returns, and `flush_in` leaves the state
`get` leaves. -/
def SameAsGet (buffer : CircularBuffer Byte) (sz : ℕ) : Prop :=
  ∃ result, buffer.get sz = some
    (buffer.flushIn sz, buffer.regionBytes buffer.watchIn sz, result)

/-- What reading `sz` bytes through the region promises. -/
structure ReadsAsGet (buffer : CircularBuffer Byte) (sz : ℕ) : Prop where
  same : buffer.SameAsGet sz
  flush_zero : (buffer.flushIn 0).hasfilled = buffer.hasfilled
  empty : buffer.watchIn.1 = 0 ↔ buffer.hasfilled = 0

theorem contDistance_pos {from_ to_ size : ℕ} (hle : to_ ≤ from_)
    (hfrom : from_ < size) (hsize : size < 2 ^ 64) :
    contDistance from_ to_ size ≠ 0 := by
  rw [contDistance_of_le hle hfrom.le hsize]
  omega

/-- Where there are bytes, `flush_in` moves `begin`. -/
theorem flushIn_begin_ne (hvalid : buffer.Valid)
    (hne : buffer.begin ≠ buffer.end_) {sz : ℕ}
    (hsz : sz ≤ contDistance buffer.begin buffer.end_ buffer.capacity) :
    (buffer.flushIn sz).begin ≠ buffer.begin := by
  have hsize := hvalid.size_lt
  have hbegin := hvalid.begin_lt
  rw [flushIn]
  split
  · exact hne.symm
  · simp only [if_neg (Nat.not_lt.mpr hsz), SizeT.add]
    omega

theorem flushIn_size (sz : ℕ) : (buffer.flushIn sz).size = buffer.size := by
  rw [flushIn]
  split
  · rfl
  · simp only
    split <;> rfl

/-- Where there are bytes, `flush_in` does not leave what any `get` leaves. -/
theorem not_sameAsGet_of_ne (hvalid : buffer.Valid)
    (hne : buffer.begin ≠ buffer.end_) {sz : ℕ}
    (hsz : sz ≤ buffer.watchIn.1) : ¬ buffer.SameAsGet sz := by
  rintro ⟨result, hget⟩
  obtain ⟨done, hdone, hflush⟩ := get_cases hget
  rw [consume] at hflush
  split at hflush
  case isTrue hpos =>
    have hsize := congrArg size hflush
    have hlt := hvalid.size_lt
    rw [flushIn_size] at hsize
    simp only [SizeT.sub] at hsize
    omega
  case isFalse =>
    exact flushIn_begin_ne hvalid hne hsz (congrArg begin hflush)

/-- Where `begin` is `end`, `get` returns nothing. -/
theorem not_sameAsGet_of_eq (hvalid : buffer.Valid)
    (heq : buffer.begin = buffer.end_) {sz : ℕ} (hpos : 0 < sz) :
    ¬ buffer.SameAsGet sz := by
  rintro ⟨result, hget⟩
  have hcont : contDistance buffer.begin buffer.end_ buffer.capacity ≠ 0 :=
    contDistance_pos heq.ge (heq ▸ hvalid.end_lt) hvalid.capacity_lt
  have hnone : buffer.pick sz = some ([], 0) := by
    simp [pick, hasfilled, heq]
  rw [get, hnone, Option.map_some, Option.some.injEq, Prod.mk.injEq,
    Prod.mk.injEq] at hget
  have hlength := congrArg List.length hget.2.1
  simp only [regionBytes, watchIn, if_pos hcont, length_read,
    List.length_nil] at hlength
  omega

/-- Reading through the region never does what it promises, and for one byte or
more it never agrees with `get`. -/
theorem not_readsAsGet (hreach : (system Byte).Reachable buffer) {sz : ℕ}
    (hsz : sz ≤ buffer.watchIn.1) :
    ¬ buffer.ReadsAsGet sz ∧ (0 < sz → ¬ buffer.SameAsGet sz) := by
  have hvalid := reachable_valid hreach
  by_cases heq : buffer.begin = buffer.end_
  · refine ⟨fun hreads => ?_, not_sameAsGet_of_eq hvalid heq⟩
    have hempty : buffer.hasfilled = 0 := by simp [hasfilled, heq]
    exact contDistance_pos heq.ge (heq ▸ hvalid.end_lt) hvalid.capacity_lt
      (hreads.empty.mpr hempty)
  · have hnot := not_sameAsGet_of_ne hvalid heq hsz
    exact ⟨fun hreads => hnot hreads.same, fun _ => hnot⟩

/-- Two bytes stored in four cells, of which the region is used to take one. -/
def twoStored : CircularBuffer ℕ :=
  (execute after (new 4 fun _ => 0) [.call (.add [1, 2])]).get (by decide)

theorem reachable_twoStored : (system ℕ).Reachable twoStored := by
  have hexecute : execute after (new 4 fun _ => 0) [.call (.add [1, 2])] =
      some twoStored := (Option.some_get _).symm
  exact reachable_of_execute ⟨4, _, by decide, by decide, rfl⟩ hexecute

theorem not_readsAsGet_twoStored :
    ¬ twoStored.ReadsAsGet 1 ∧ ¬ twoStored.SameAsGet 1 := by
  have hnot := not_readsAsGet reachable_twoStored
    (show 1 ≤ twoStored.watchIn.1 by decide)
  exact ⟨hnot.1, hnot.2 (by decide)⟩

/-- `get` counts `size` down to one, `flush_in` leaves it at two. -/
theorem not_all_readsAsGet : ¬ ∀ buffer : CircularBuffer ℕ,
    (system ℕ).Reachable buffer → ∀ sz ≤ buffer.watchIn.1,
      buffer.ReadsAsGet sz := by
  intro hreads
  obtain ⟨result, hget⟩ :=
    (hreads twoStored reachable_twoStored 1 (by decide)).same
  have hsize : (twoStored.get 1).map (fun next => next.1.size) = some 1 := by
    decide
  rw [hget, Option.map_some, flushIn_size] at hsize
  exact absurd hsize (by decide)

/-! ## Putting bytes in -/

/-- `data` stored at the region `watch_out` hands out, and `flush_out`. -/
def commit (buffer : CircularBuffer Byte) (data : List Byte) :
    CircularBuffer Byte :=
  match buffer.watchOut.2 with
  | some offset =>
      ({ buffer with buffer := write buffer.buffer offset data } :
        CircularBuffer Byte).flushOut data.length
  | none => buffer.flushOut data.length

/-- What putting `data` in through the region promises: the state `add` leaves,
so that the old bytes and then `data` are read, and a region that shows none of
the old bytes. -/
structure WritesAsAdd (buffer : CircularBuffer Byte) (data : List Byte) :
    Prop where
  same : ∃ result, buffer.add data = some (buffer.commit data, result)
  reads : ∀ old result, buffer.pick buffer.hasfilled = some (old, result) →
    ∃ next result', (buffer.commit data).get (old.length + data.length) =
      some (next, old ++ data, result')
  exposes : ∀ index < buffer.hasfilled, ∀ place < buffer.watchOut.1,
    (buffer.begin + index) % buffer.capacity ≠ buffer.end_ + place

/-- What is stored in the allocation does not matter to `flush_out`. -/
theorem begin_flushOut_store (memory : ℕ → Byte) (sz : ℕ) :
    (({ buffer with buffer := memory } : CircularBuffer Byte).flushOut
      sz).begin = (buffer.flushOut sz).begin := by
  simp only [flushOut]
  split
  · rfl
  · split <;> rfl

theorem begin_commit (data : List Byte) :
    (buffer.commit data).begin = (buffer.flushOut data.length).begin := by
  rw [commit]
  split
  · exact begin_flushOut_store _ _
  · rfl

theorem size_commit (data : List Byte) :
    (buffer.commit data).size = buffer.size := by
  rw [commit]
  split
  · exact flushIn_size _
  · exact flushIn_size _

theorem hasfree_lt (hvalid : buffer.Valid) : buffer.hasfree < 2 ^ 64 := by
  rw [hasfree]
  split
  · rw [distance]
    split <;> exact size_t_lt _
  · exact hvalid.capacity_lt

/-- Where there is no room, `flush_out` moves `begin`. -/
theorem flushOut_begin_ne (hvalid : buffer.Valid) (hfree : buffer.hasfree = 0)
    {sz : ℕ} (hpos : 0 < sz) (hsz : sz ≤ buffer.watchOut.1) :
    (buffer.flushOut sz).begin ≠ buffer.begin := by
  have hcapacity := hvalid.capacity_lt
  have hbegin := hvalid.begin_lt
  have hend := hvalid.end_lt
  have hsize := hvalid.size_lt
  have hne : buffer.begin ≠ buffer.end_ := by
    intro heq
    rw [hasfree, if_neg (not_not.mpr heq)] at hfree
    omega
  rw [hasfree, if_pos hne, distance] at hfree
  have hlt : buffer.begin < buffer.end_ := by
    by_contra hge
    rw [if_pos (by omega), SizeT.sub_of_le (by omega) hbegin] at hfree
    omega
  rw [if_neg (by omega), SizeT.sub, SizeT.add] at hfree
  simp only [watchOut] at hsz
  rw [contDistance_of_le hlt.le hend.le hcapacity] at hsz
  rw [flushOut, contDistance_of_lt hlt (by omega)]
  split
  · exact hne.symm
  · simp only
    split
    · simp only [SizeT.sub]
      omega
    · simp only [SizeT.add]
      omega

/-- Putting bytes in through the region never does what it promises. -/
theorem not_writesAsAdd (hreach : (system Byte).Reachable buffer)
    {data : List Byte} (hpos : 0 < data.length)
    (hlength : data.length ≤ buffer.watchOut.1) :
    ¬ buffer.WritesAsAdd data := by
  intro hwrites
  have hvalid := reachable_valid hreach
  obtain ⟨result, hadd⟩ := hwrites.same
  rcases add_cases hadd with ⟨hfree, hsame⟩ | ⟨hfree, memory, hextend⟩
  · apply flushOut_begin_ne hvalid hfree hpos hlength
    rw [← begin_commit, hsame]
  · have hsize : buffer.size =
        SizeT.add buffer.size (min data.length buffer.hasfree) :=
      (size_commit data).symm.trans (congrArg size hextend)
    have hlt := hvalid.size_lt
    have hroom := hasfree_lt hvalid
    rw [SizeT.add] at hsize
    omega

theorem not_writesAsAdd_twoStored : ¬ twoStored.WritesAsAdd [3] :=
  not_writesAsAdd reachable_twoStored (by decide) (by decide)

/-- `add` counts `size` up to three, `flush_out` takes the first byte away. -/
theorem not_all_writesAsAdd : ¬ ∀ buffer : CircularBuffer ℕ,
    (system ℕ).Reachable buffer → ∀ data : List ℕ, 0 < data.length →
      data.length ≤ buffer.watchOut.1 → buffer.WritesAsAdd data := by
  intro hwrites
  obtain ⟨result, hadd⟩ :=
    (hwrites twoStored reachable_twoStored [3] (by decide) (by decide)).same
  have hsize : (twoStored.add [3]).map (fun next => next.1.size) = some 3 := by
    decide
  rw [hadd, Option.map_some, size_commit] at hsize
  exact absurd hsize (by decide)

end Sensor.CircularBuffer
