import Sensor.Base.CircularBuffer
import Sensor.Core.BoundedFifo

/-!
# The circular buffer as a bounded queue of bytes

`begin == end` stands for the empty buffer only, and `distance` subtracts
`from + to` where `to` lies before `from`.  So the observers `hasfilled` and
`hasfree` tell the truth only while the bytes stored start or end at the start
of the allocation; as long as they do, and no call moves so many bytes that its
`int` result or a `size_t` sum overflows, the buffer is a bounded queue.
-/

namespace Sensor.CircularBuffer

open Region

variable {Byte : Type*} {capacity : ℕ}

/-! ## What the buffer promises -/

/-- What a call does to the bounded queue: the queue after it, the number of
bytes moved and the bytes handed out. -/
def Call.spec (fifo : BoundedFifo Byte capacity) :
    Call Byte → BoundedFifo Byte capacity × ℕ × List Byte
  | .add data => (fifo.add data, min data.length fifo.free, [])
  | .get sz => (fifo.discard sz, (fifo.pick sz).length, fifo.pick sz)
  | .pick sz => (fifo, (fifo.pick sz).length, fifo.pick sz)

/-- The observers and the field `size` tell how much is stored. -/
structure Observes (buffer : CircularBuffer Byte)
    (fifo : BoundedFifo Byte capacity) : Prop where
  hasfilled : buffer.hasfilled = fifo.filled
  size : buffer.size = fifo.filled
  hasfree : buffer.hasfree = fifo.free

/-- In every state of the run the observers are right, and every call stays
inside the allocation and answers as the bounded queue does. -/
def Refines (buffer : CircularBuffer Byte) (fifo : BoundedFifo Byte capacity) :
    List (Call Byte) → Prop
  | [] => buffer.Observes fifo
  | call :: calls =>
      buffer.Observes fifo ∧
        ∃ next, buffer.call call =
            some (next, ((call.spec fifo).2.1 : ℤ), (call.spec fifo).2.2) ∧
          next.Refines (call.spec fifo).1 calls

/-! ## When it keeps the promise -/

/-- `filled` bytes from `start` on are observed rightly: there are none, or
there is room left and they start or end at the start of the allocation.  (In
an allocation of more than `2 ^ 63` cells the middle of the `size_t` range
works as well.) -/
def Fits (capacity start filled : ℕ) : Prop :=
  filled = 0 ∨ (filled < capacity ∧
    2 * min start ((start + filled) % capacity) % 2 ^ 64 = 0)

/-- Moving `count` bytes at `place` overflows neither the `int` result nor the
`size_t` sum. -/
def Moves (place count : ℕ) : Prop :=
  count < 2 ^ 31 ∧ place + count < 2 ^ 64

/-- The condition on a run of calls, where `start` is the number of bytes taken
so far modulo the capacity and `filled` the number stored. -/
def Meets (capacity start filled : ℕ) : List (Call Byte) → Prop
  | [] => True
  | .add data :: calls =>
      let count := min data.length (capacity - filled)
      Moves ((start + filled) % capacity) count ∧
        Fits capacity start (filled + count) ∧
        Meets capacity start (filled + count) calls
  | .get sz :: calls =>
      let count := min sz filled
      Moves start count ∧
        Fits capacity ((start + count) % capacity) (filled - count) ∧
        Meets capacity ((start + count) % capacity) (filled - count) calls
  | .pick sz :: calls =>
      min sz filled < 2 ^ 31 ∧ Meets capacity start filled calls

/-! ## The bytes a state stores -/

/-- The state stores the bytes of the queue from `start` on. -/
structure Represents (buffer : CircularBuffer Byte) (start : ℕ)
    (fifo : BoundedFifo Byte capacity) : Prop where
  capacity_eq : buffer.capacity = capacity
  capacity_lt : capacity < 2 ^ 64
  start_lt : start < capacity
  begin_eq : buffer.begin = start
  end_eq : buffer.end_ = (start + fifo.filled) % capacity
  size_eq : buffer.size = fifo.filled
  stored_eq : ringRead buffer.buffer capacity start fifo.filled = fifo.stored

/-- Where the bytes end, told apart by whether they pass the end of the
allocation. -/
theorem end_cases {start filled : ℕ} (hstart : start < capacity)
    (hfilled : filled ≤ capacity) :
    (start + filled < capacity ∧
        (start + filled) % capacity = start + filled) ∨
      (capacity ≤ start + filled ∧
        (start + filled) % capacity = start + filled - capacity) := by
  rcases Nat.lt_or_ge (start + filled) capacity with hlt | hge
  · exact .inl ⟨hlt, Nat.mod_eq_of_lt hlt⟩
  · right
    rw [Nat.mod_eq_sub_mod hge, Nat.mod_eq_of_lt (by omega)]
    exact ⟨hge, rfl⟩

variable {buffer : CircularBuffer Byte} {start : ℕ}
variable {fifo : BoundedFifo Byte capacity}

theorem Represents.new (hpos : 0 < capacity) (hlt : capacity < 2 ^ 64)
    (heap : ℕ → Byte) :
    (new capacity heap).Represents 0
      (BoundedFifo.empty : BoundedFifo Byte capacity) where
  capacity_eq := rfl
  capacity_lt := hlt
  start_lt := hpos
  begin_eq := rfl
  end_eq := by simp [CircularBuffer.new, BoundedFifo.empty, BoundedFifo.filled]
  size_eq := rfl
  stored_eq := rfl

theorem distance_of_lt {from_ to_ size : ℕ} (hlt : from_ < to_)
    (hto : to_ < 2 ^ 64) : distance from_ to_ size = to_ - from_ := by
  rw [distance, if_pos hlt, SizeT.sub_of_le hlt.le hto]

/-- The distance around the end of the allocation is right at its start only. -/
theorem distance_eq_iff {from_ to_ size : ℕ} (hle : to_ ≤ from_)
    (hfrom : from_ < size) (hsize : size < 2 ^ 64) :
    distance from_ to_ size = size - from_ + to_ ↔ 2 * to_ % 2 ^ 64 = 0 := by
  rw [distance, if_neg (Nat.not_lt.mpr hle), SizeT.sub, SizeT.add]
  omega

theorem contDistance_of_lt {from_ to_ size : ℕ} (hlt : from_ < to_)
    (hto : to_ < 2 ^ 64) : contDistance from_ to_ size = to_ - from_ := by
  rw [contDistance, if_pos hlt, SizeT.sub_of_le hlt.le hto]

theorem contDistance_of_le {from_ to_ size : ℕ} (hle : to_ ≤ from_)
    (hfrom : from_ ≤ size) (hsize : size < 2 ^ 64) :
    contDistance from_ to_ size = size - from_ := by
  rw [contDistance, if_neg (Nat.not_lt.mpr hle), SizeT.sub_of_le hfrom hsize]

/-- The observers are right exactly where the bytes stored fit. -/
theorem Represents.observes_iff (hrep : buffer.Represents start fifo) :
    buffer.Observes fifo ↔ Fits capacity start fifo.filled := by
  have hstart := hrep.start_lt
  have hcapacity := hrep.capacity_lt
  have hle := fifo.filled_le
  have hobserves : buffer.Observes fifo ↔
      buffer.hasfilled = fifo.filled ∧ buffer.hasfree = fifo.free :=
    ⟨fun ⟨hfilled, _, hfree⟩ => ⟨hfilled, hfree⟩,
      fun ⟨hfilled, hfree⟩ => ⟨hfilled, hrep.size_eq, hfree⟩⟩
  rw [hobserves, CircularBuffer.hasfilled, CircularBuffer.hasfree,
    hrep.capacity_eq, hrep.begin_eq, hrep.end_eq, Fits, BoundedFifo.free]
  rcases Nat.eq_zero_or_pos fifo.filled with hzero | hpos
  · simp [hzero, Nat.mod_eq_of_lt hstart]
  rcases end_cases hstart hle with ⟨hcase, hend⟩ | ⟨hcase, hend⟩
  · have hdistance : distance (start + fifo.filled) start capacity =
        capacity - (start + fifo.filled) + start ↔
          2 * start % 2 ^ 64 = 0 :=
      distance_eq_iff (Nat.le_add_right start _) hcase hcapacity
    have hroom : capacity - (start + fifo.filled) + start =
        capacity - fifo.filled := by omega
    rw [hroom] at hdistance
    rw [hend, if_pos (by omega), if_pos (by omega),
      distance_of_lt (by omega) (by omega), hdistance,
      Nat.min_eq_left (by omega)]
    omega
  · rcases Nat.lt_or_ge fifo.filled capacity with hlt | hfull
    · have hdistance : distance start (start + fifo.filled - capacity)
          capacity = capacity - start + (start + fifo.filled - capacity) ↔
            2 * (start + fifo.filled - capacity) % 2 ^ 64 = 0 :=
        distance_eq_iff (by omega) hstart hcapacity
      have hroom : capacity - start + (start + fifo.filled - capacity) =
          fifo.filled := by omega
      rw [hroom] at hdistance
      rw [hend, if_pos (by omega), if_pos (by omega), hdistance,
        distance_of_lt (by omega) (by omega), Nat.min_eq_right (by omega)]
      omega
    · rw [hend, if_neg (by omega)]
      omega

/-! ## One call -/

/-- The first piece of a copy of `count` bytes at `place`: all of them, or
those up to the end of the allocation. -/
theorem contDistance_cases {place other count : ℕ} (hplace : place < capacity)
    (hother : other < capacity) (hcapacity : capacity < 2 ^ 64)
    (hcount : place < other → count ≤ other - place) :
    (count ≤ contDistance place other capacity ∧ place + count ≤ capacity) ∨
      (contDistance place other capacity = capacity - place ∧
        capacity - place < count) := by
  rcases Nat.lt_or_ge place other with hlt | hge
  · left
    have hle := hcount hlt
    rw [contDistance_of_lt hlt (by omega)]
    omega
  · rw [contDistance_of_le hge hplace.le hcapacity]
    omega

/-- The two pieces of some bytes that reach over the end fit behind `place` and
at the start. -/
theorem length_pieces_le {place count : ℕ} (hplace : place < capacity)
    (hcount : count ≤ capacity) (data : List Byte) :
    place + (data.take (capacity - place)).length ≤ capacity ∧
      0 + ((data.drop (capacity - place)).take
        (count - (capacity - place))).length ≤ capacity := by
  rw [List.length_take, List.length_take]
  omega

/-- What `add` does with the number of free bytes it finds, as long as that
does not reach into the bytes stored. -/
theorem add_eq (hbegin : buffer.begin < buffer.capacity)
    (hend : buffer.end_ < buffer.capacity) (hcapacity : buffer.capacity < 2 ^ 64)
    {data : List Byte} {count : ℕ} (hfree : buffer.hasfree ≠ 0)
    (hcount : min data.length buffer.hasfree = count)
    (hle : count ≤ buffer.capacity)
    (hroom : buffer.end_ < buffer.begin → count ≤ buffer.begin - buffer.end_) :
    ∃ memory,
      RingStore buffer.buffer memory buffer.capacity buffer.end_
        (data.take count) ∧
      buffer.add data = some
        (({ buffer with buffer := memory } : CircularBuffer Byte).extend
          count) := by
  have hsz : (if data.length > buffer.hasfree then buffer.hasfree
      else data.length) = count := by
    split <;> omega
  have hlength : (data.take count).length = count := by
    rw [List.length_take]
    omega
  rw [CircularBuffer.add, if_neg hfree, hsz]
  rcases contDistance_cases hend hbegin hcapacity hroom with
    ⟨hone, hinside⟩ | ⟨hfirst, htwo⟩
  · refine ⟨_, .of_write (by rw [hlength]; exact hinside), ?_⟩
    simp only [Nat.min_eq_right hone, memcpyTo, hlength, if_pos hinside,
      Option.bind_some, Nat.lt_irrefl, if_false]
  · refine ⟨_, .of_write_write hend ?_ ?_, ?_⟩
    · rw [hlength]
      exact hle
    · rw [hlength]
      omega
    · have hdone : min (contDistance buffer.end_ buffer.begin buffer.capacity)
          count = buffer.capacity - buffer.end_ := by
        rw [hfirst]
        exact Nat.min_eq_left htwo.le
      have hsum : buffer.capacity - buffer.end_ +
          (count - (buffer.capacity - buffer.end_)) = count :=
        Nat.add_sub_cancel' htwo.le
      have htake : (data.take count).take (buffer.capacity - buffer.end_) =
          data.take (buffer.capacity - buffer.end_) := by
        rw [List.take_take, Nat.min_eq_left htwo.le]
      obtain ⟨hfits, hrest⟩ := length_pieces_le hend hle data
      simp only [hdone, memcpyTo, if_pos hfits, Option.bind_some, if_pos htwo,
        if_pos hrest, Option.map_some, hsum, htake, List.drop_take]

/-- What `pick` does with the number of filled bytes it finds. -/
theorem pick_eq (hbegin : buffer.begin < buffer.capacity)
    (hend : buffer.end_ < buffer.capacity) (hcapacity : buffer.capacity < 2 ^ 64)
    {sz count : ℕ} (hfilled : buffer.hasfilled ≠ 0)
    (hcount : min sz buffer.hasfilled = count) (hle : count ≤ buffer.capacity)
    (hroom : buffer.begin < buffer.end_ → count ≤ buffer.end_ - buffer.begin) :
    buffer.pick sz = some
      (ringRead buffer.buffer buffer.capacity buffer.begin count,
        SizeT.toInt count) := by
  have hsz : (if sz > buffer.hasfilled then buffer.hasfilled else sz) =
      count := by
    split <;> omega
  rw [CircularBuffer.pick, if_neg hfilled, hsz]
  rcases contDistance_cases hbegin hend hcapacity hroom with
    ⟨hone, hinside⟩ | ⟨hfirst, htwo⟩
  · rw [ringRead_eq_read hinside]
    simp only [Nat.min_eq_right hone, memcpyFrom, if_pos hinside,
      Option.bind_some, Nat.lt_irrefl, if_false]
  · have hdone : min (contDistance buffer.begin buffer.end_ buffer.capacity)
        count = buffer.capacity - buffer.begin := by
      rw [hfirst]
      exact Nat.min_eq_left htwo.le
    have hsum : buffer.capacity - buffer.begin +
        (count - (buffer.capacity - buffer.begin)) = count :=
      Nat.add_sub_cancel' htwo.le
    have hfits : buffer.begin + (buffer.capacity - buffer.begin) ≤
        buffer.capacity := by omega
    have hrest : 0 + (count - (buffer.capacity - buffer.begin)) ≤
        buffer.capacity := by omega
    rw [ringRead_eq_read_append hbegin hle (by omega)]
    simp only [hdone, memcpyFrom, if_pos hfits, Option.bind_some, if_pos htwo,
      if_pos hrest, Option.map_some, hsum]

theorem Represents.room (hrep : buffer.Represents start fifo)
    (hfits : Fits capacity start fifo.filled) : fifo.filled < capacity := by
  have hstart := hrep.start_lt
  rcases hfits with hzero | ⟨hlt, -⟩
  · omega
  · exact hlt

theorem Represents.size_t_capacity (hrep : buffer.Represents start fifo) :
    buffer.capacity < 2 ^ 64 := by
  rw [hrep.capacity_eq]
  exact hrep.capacity_lt

theorem Represents.begin_lt (hrep : buffer.Represents start fifo) :
    buffer.begin < buffer.capacity := by
  rw [hrep.begin_eq, hrep.capacity_eq]
  exact hrep.start_lt

theorem Represents.end_lt (hrep : buffer.Represents start fifo) :
    buffer.end_ < buffer.capacity := by
  have hstart := hrep.start_lt
  rw [hrep.end_eq, hrep.capacity_eq]
  exact Nat.mod_lt _ (by omega)

/-- In a state that fits, `add` stores the bytes there is room for. -/
theorem Represents.add_eq (hrep : buffer.Represents start fifo)
    (hfits : Fits capacity start fifo.filled) (data : List Byte) :
    ∃ memory,
      RingStore buffer.buffer memory capacity
        ((start + fifo.filled) % capacity) (data.take fifo.free) ∧
      buffer.add data = some
        (({ buffer with buffer := memory } : CircularBuffer Byte).extend
          (min data.length fifo.free)) := by
  have hstart := hrep.start_lt
  have hroom := hrep.room hfits
  have hfree : buffer.hasfree = fifo.free :=
    (hrep.observes_iff.mpr hfits).hasfree
  have htake : data.take fifo.free = data.take (min data.length fifo.free) := by
    rw [List.take_eq_take_iff]
    omega
  rw [htake, ← hfree, ← hrep.end_eq, ← hrep.capacity_eq]
  apply CircularBuffer.add_eq hrep.begin_lt hrep.end_lt hrep.size_t_capacity _
    rfl
  · rw [hfree, hrep.capacity_eq, BoundedFifo.free]
    omega
  · intro hlt
    rw [hrep.begin_eq, hrep.end_eq] at hlt ⊢
    rw [hfree, BoundedFifo.free]
    rcases end_cases hstart hroom.le with ⟨hcase, hend⟩ | ⟨hcase, hend⟩ <;>
      rw [hend] at hlt ⊢ <;> omega
  · rw [hfree, BoundedFifo.free]
    omega

/-- In a state that fits, `pick` reads the oldest bytes. -/
theorem Represents.pick_eq (hrep : buffer.Represents start fifo)
    (hfits : Fits capacity start fifo.filled) (sz : ℕ) :
    buffer.pick sz =
      some (fifo.pick sz, SizeT.toInt (fifo.pick sz).length) := by
  have hstart := hrep.start_lt
  have hroom := hrep.room hfits
  have hfilled : buffer.hasfilled = fifo.filled :=
    (hrep.observes_iff.mpr hfits).hasfilled
  have hpick : fifo.pick sz =
      ringRead buffer.buffer capacity start (min sz fifo.filled) := by
    rw [BoundedFifo.pick, ← hrep.stored_eq,
      ← take_ringRead (Nat.min_le_right sz fifo.filled), List.take_eq_take_iff,
      length_ringRead]
    omega
  rcases Nat.eq_zero_or_pos fifo.filled with hzero | hpos
  · have hnil : fifo.pick sz = [] := by
      rw [hpick, hzero, Nat.min_zero, ringRead_zero]
    rw [CircularBuffer.pick, hfilled, if_pos hzero, hnil]
    rfl
  · rw [fifo.length_pick, hpick, ← hfilled, ← hrep.begin_eq,
      ← hrep.capacity_eq]
    apply CircularBuffer.pick_eq hrep.begin_lt hrep.end_lt
      hrep.size_t_capacity _ rfl
    · rw [hfilled, hrep.capacity_eq]
      omega
    · intro hlt
      rw [hrep.begin_eq, hrep.end_eq] at hlt ⊢
      rw [hfilled]
      rcases end_cases hstart hroom.le with ⟨hcase, hend⟩ | ⟨hcase, hend⟩ <;>
        rw [hend] at hlt ⊢ <;> omega
    · omega

/-- `extend` behind the bytes stored, where no sum overflows. -/
theorem Represents.extend (hrep : buffer.Represents start fifo)
    {data : List Byte} {memory : ℕ → Byte}
    (hstore : RingStore buffer.buffer memory capacity
      ((start + fifo.filled) % capacity) (data.take fifo.free))
    (hmoves : Moves ((start + fifo.filled) % capacity)
      (min data.length fifo.free)) :
    Represents (({ buffer with buffer := memory } :
      CircularBuffer Byte).extend (min data.length fifo.free)).1 start
      (fifo.add data) where
  capacity_eq := hrep.capacity_eq
  capacity_lt := hrep.capacity_lt
  start_lt := hrep.start_lt
  begin_eq := hrep.begin_eq
  end_eq := by
    simp only [CircularBuffer.extend, hrep.end_eq, hrep.capacity_eq]
    rw [SizeT.add_of_lt hmoves.2, fifo.filled_add, Nat.mod_add_mod,
      Nat.add_assoc]
  size_eq := by
    have hle := fifo.filled_le
    have hcapacity := hrep.capacity_lt
    simp only [CircularBuffer.extend, hrep.size_eq]
    rw [fifo.filled_add, SizeT.add_of_lt]
    rw [BoundedFifo.free]
    omega
  stored_eq := by
    have hle := fifo.filled_le
    have hlength : min data.length fifo.free =
        (data.take fifo.free).length := by
      rw [List.length_take, Nat.min_comm]
    have hroom : fifo.filled + (data.take fifo.free).length ≤ capacity := by
      rw [← hlength, BoundedFifo.free]
      omega
    have happend := hstore.ringRead_append hroom
    rw [hrep.stored_eq] at happend
    rw [fifo.filled_add, hlength]
    exact happend

/-- A sum that overflows leaves an `end` the observers give away. -/
theorem Represents.not_observes_extend (hrep : buffer.Represents start fifo)
    {data : List Byte} {memory : ℕ → Byte}
    (hint : min data.length fifo.free < 2 ^ 31)
    (hover : 2 ^ 64 ≤
      (start + fifo.filled) % capacity + min data.length fifo.free) :
    ¬ Observes (({ buffer with buffer := memory } :
      CircularBuffer Byte).extend (min data.length fifo.free)).1
      (fifo.add data) := by
  rintro ⟨hfilled, -, -⟩
  have hstart := hrep.start_lt
  have hcapacity := hrep.capacity_lt
  have hle := fifo.filled_le
  have hcount : min data.length fifo.free ≤ capacity - fifo.filled :=
    Nat.min_le_right _ _
  rw [fifo.filled_add] at hfilled
  simp only [CircularBuffer.hasfilled, CircularBuffer.extend, distance,
    SizeT.sub, SizeT.add, hrep.capacity_eq, hrep.begin_eq, hrep.end_eq]
    at hfilled
  generalize min data.length fifo.free = count at *
  rcases end_cases hstart hle with ⟨hcase, hend⟩ | ⟨hcase, hend⟩
  · rw [hend] at hover hfilled
    have hwrap : (start + fifo.filled + count) % 2 ^ 64 % capacity =
        start + fifo.filled + count - 2 ^ 64 := by
      rw [Nat.mod_eq_sub_mod hover, Nat.mod_eq_of_lt (by omega),
        Nat.mod_eq_of_lt (by omega)]
    rw [hwrap, if_pos (by omega), if_neg (by omega)] at hfilled
    omega
  · rw [hend] at hover
    omega

/-- Taking bytes from the front changes `begin` and `size` also where it takes
none. -/
theorem Represents.consume_eq (hrep : buffer.Represents start fifo)
    (count : ℕ) :
    buffer.consume count = { buffer with
      begin := SizeT.add buffer.begin count % buffer.capacity
      size := SizeT.sub buffer.size count } := by
  have hcapacity := hrep.capacity_lt
  have hstart := hrep.start_lt
  have hle := fifo.filled_le
  rw [CircularBuffer.consume]
  split
  case isTrue => rfl
  case isFalse hzero =>
    have hnone : count = 0 := by omega
    have hbegin : SizeT.add buffer.begin 0 % buffer.capacity =
        buffer.begin := by
      rw [SizeT.add_of_lt (by rw [hrep.begin_eq]; omega), Nat.add_zero,
        Nat.mod_eq_of_lt hrep.begin_lt]
    have hsize : SizeT.sub buffer.size 0 = buffer.size :=
      SizeT.sub_of_le (Nat.zero_le _) (by rw [hrep.size_eq]; omega)
    rw [hnone, hbegin, hsize]

/-- Taking bytes from the front, where no sum overflows. -/
theorem Represents.consume (hrep : buffer.Represents start fifo) {sz : ℕ}
    (hmoves : Moves start (min sz fifo.filled)) :
    (buffer.consume (min sz fifo.filled)).Represents
      ((start + min sz fifo.filled) % capacity) (fifo.discard sz) := by
  have hstart := hrep.start_lt
  have hcapacity := hrep.capacity_lt
  have hle := fifo.filled_le
  have hsame : fifo.stored.drop sz =
      fifo.stored.drop (min sz fifo.filled) := by
    rcases Nat.le_total sz fifo.filled with hsz | hsz
    · rw [Nat.min_eq_left hsz]
    · rw [Nat.min_eq_right hsz, List.drop_of_length_le hsz,
        List.drop_of_length_le (Nat.le_refl fifo.filled)]
  have hleft : fifo.filled - sz = fifo.filled - min sz fifo.filled := by omega
  have hcount : min sz fifo.filled ≤ fifo.filled := Nat.min_le_right _ _
  rw [hrep.consume_eq]
  exact {
    capacity_eq := hrep.capacity_eq
    capacity_lt := hcapacity
    start_lt := Nat.mod_lt _ (by omega)
    begin_eq := by
      simp only [hrep.begin_eq, hrep.capacity_eq]
      rw [SizeT.add_of_lt hmoves.2]
    end_eq := by
      simp only [hrep.end_eq]
      rw [fifo.filled_discard, hleft, Nat.mod_add_mod]
      congr 1
      omega
    size_eq := by
      simp only [hrep.size_eq]
      rw [fifo.filled_discard, hleft, SizeT.sub_of_le hcount (by omega)]
    stored_eq := by
      rw [fifo.filled_discard, hleft, ← drop_ringRead, hrep.stored_eq]
      exact hsame.symm }

theorem Represents.not_observes_consume (hrep : buffer.Represents start fifo)
    {sz : ℕ} (hint : min sz fifo.filled < 2 ^ 31)
    (hover : 2 ^ 64 ≤ start + min sz fifo.filled) :
    ¬ (buffer.consume (min sz fifo.filled)).Observes (fifo.discard sz) := by
  rintro ⟨hfilled, -, -⟩
  have hstart := hrep.start_lt
  have hcapacity := hrep.capacity_lt
  have hle := fifo.filled_le
  have hcount : min sz fifo.filled ≤ fifo.filled := Nat.min_le_right _ _
  have hleft : fifo.filled - sz = fifo.filled - min sz fifo.filled := by omega
  rw [fifo.filled_discard, hleft, hrep.consume_eq] at hfilled
  simp only [CircularBuffer.hasfilled, distance, SizeT.sub, SizeT.add,
    hrep.capacity_eq, hrep.begin_eq, hrep.end_eq] at hfilled
  generalize min sz fifo.filled = count at *
  have hwrap : (start + count) % 2 ^ 64 % capacity =
      start + count - 2 ^ 64 := by
    rw [Nat.mod_eq_sub_mod hover, Nat.mod_eq_of_lt (by omega),
      Nat.mod_eq_of_lt (by omega)]
  rcases end_cases hstart hle with ⟨hcase, hend⟩ | ⟨hcase, hend⟩
  · omega
  · rw [hwrap, hend, if_pos (by omega), if_pos (by omega)] at hfilled
    omega

/-! ## Runs -/

theorem Refines.observes {calls : List (Call Byte)}
    (hrefines : buffer.Refines fifo calls) : buffer.Observes fifo := by
  cases calls with
  | nil => exact hrefines
  | cons call calls => exact hrefines.1

/-- A call that moves `count` bytes refines the queue exactly if it moves them
without overflow and the state behind it does. -/
theorem exists_call_iff {given next : CircularBuffer Byte} {call : Call Byte}
    {after : BoundedFifo Byte capacity} (place : ℕ) {count : ℕ}
    {bytes : List Byte}
    (hcall : buffer.call call = some (given, SizeT.toInt count, bytes))
    (hnext : count < 2 ^ 31 → given = next)
    (hover : count < 2 ^ 31 → 2 ^ 64 ≤ place + count → ¬ next.Observes after)
    {calls : List (Call Byte)} :
    (∃ next, buffer.call call = some (next, (count : ℤ), bytes) ∧
        next.Refines after calls) ↔
      Moves place count ∧ next.Refines after calls := by
  constructor
  · rintro ⟨other, heq, hrefines⟩
    rw [hcall] at heq
    simp only [Option.some.injEq, Prod.mk.injEq, and_true] at heq
    obtain ⟨rfl, hresult⟩ := heq
    have hint := SizeT.toInt_eq_iff.mp hresult
    rw [hnext hint] at hrefines
    refine ⟨⟨hint, ?_⟩, hrefines⟩
    by_contra hsum
    exact hover hint (Nat.not_lt.mp hsum) hrefines.observes
  · rintro ⟨⟨hint, -⟩, hrefines⟩
    refine ⟨next, ?_, hrefines⟩
    rw [hcall, hnext hint, SizeT.toInt_eq_iff.mpr hint]

/-- From a state that stores the bytes of the queue, the buffer refines the
queue over a run exactly if the bytes stored fit now and after every call. -/
theorem Represents.refines_iff (hrep : buffer.Represents start fifo)
    (calls : List (Call Byte)) :
    buffer.Refines fifo calls ↔
      Fits capacity start fifo.filled ∧
        Meets capacity start fifo.filled calls := by
  induction calls generalizing buffer start fifo with
  | nil => simp only [Refines, hrep.observes_iff, Meets, and_true]
  | cons call calls ih =>
      rw [Refines, hrep.observes_iff]
      apply and_congr_right
      intro hfits
      cases call with
      | add data =>
          obtain ⟨memory, hstore, hadd⟩ := hrep.add_eq hfits data
          have hcall : buffer.call (.add data) = some
              ((({ buffer with buffer := memory } : CircularBuffer Byte).extend
                (min data.length fifo.free)).1,
              SizeT.toInt (min data.length fifo.free), []) := by
            rw [CircularBuffer.call, hadd]
            rfl
          rw [Call.spec, exists_call_iff _ hcall (fun _ => rfl)
            (fun hint hover => hrep.not_observes_extend hint hover), Meets]
          apply and_congr_right
          intro hmoves
          rw [ih (hrep.extend hstore hmoves), fifo.filled_add]
          rfl
      | get sz =>
          have hcall : buffer.call (.get sz) = some
              (buffer.consume
                (SizeT.ofInt (SizeT.toInt (min sz fifo.filled))),
              SizeT.toInt (min sz fifo.filled), fifo.pick sz) := by
            rw [CircularBuffer.call, CircularBuffer.get, hrep.pick_eq hfits,
              fifo.length_pick]
            simp only [Option.map_some, SizeT.toInt_ofInt_toInt]
          have hnext : min sz fifo.filled < 2 ^ 31 →
              buffer.consume
                  (SizeT.ofInt (SizeT.toInt (min sz fifo.filled))) =
                buffer.consume (min sz fifo.filled) := by
            intro hint
            rw [SizeT.toInt_eq_iff.mpr hint, SizeT.ofInt_natCast (by omega)]
          have hleft : fifo.filled - sz =
              fifo.filled - min sz fifo.filled := by omega
          rw [Call.spec, fifo.length_pick, exists_call_iff _ hcall hnext
            (fun hint hover => hrep.not_observes_consume hint hover), Meets]
          apply and_congr_right
          intro hmoves
          rw [ih (hrep.consume hmoves), fifo.filled_discard, hleft]
      | pick sz =>
          have hcall : buffer.call (.pick sz) = some
              (buffer, SizeT.toInt (min sz fifo.filled), fifo.pick sz) := by
            rw [CircularBuffer.call, hrep.pick_eq hfits, fifo.length_pick]
            rfl
          rw [Call.spec, fifo.length_pick, exists_call_iff 0 hcall
            (fun _ => rfl) (fun hint hover => by omega), ih hrep, Meets]
          simp only [Moves, hfits, true_and]
          apply and_congr_left
          intro _
          omega

/-- A new buffer refines the bounded queue over a run of calls exactly if the
run meets the condition. -/
theorem new_refines_iff (hpos : 0 < capacity) (hlt : capacity < 2 ^ 64)
    (heap : ℕ → Byte) (calls : List (Call Byte)) :
    (new capacity heap).Refines (BoundedFifo.empty : BoundedFifo Byte capacity)
      calls ↔ Meets capacity 0 0 calls := by
  rw [(Represents.new hpos hlt heap).refines_iff]
  exact and_iff_right (.inl rfl)

/-- Four cells: two bytes go in and out, and then two more. -/
theorem new_refines_iff_fourCells :
    (new 4 fun _ => (0 : ℕ)).Refines (BoundedFifo.empty : BoundedFifo ℕ 4)
      [.add [1, 2], .get 2, .add [3, 4], .pick 1, .get 5] := by
  rw [new_refines_iff (by decide) (by decide)]
  simp [Meets, Moves, Fits]

/-- A buffer that is full reports that it is empty. -/
theorem not_new_refines : ¬ ∀ (capacity : ℕ) (heap : ℕ → ℕ)
    (calls : List (Call ℕ)), 0 < capacity → capacity < 2 ^ 64 →
      (new capacity heap).Refines (BoundedFifo.empty : BoundedFifo ℕ capacity)
        calls := by
  intro hrefines
  have hobserves := (hrefines 4 (fun _ => 0) [.add [1, 2, 3, 4]] (by decide)
    (by decide)).2
  obtain ⟨next, hcall, hnext⟩ := hobserves
  have hfilled := hnext.observes.hasfilled
  have hadd : (new 4 fun _ => 0).call (.add [1, 2, 3, 4]) =
      some (next, 4, []) := hcall
  have hzero : ((new 4 fun _ => 0).call (.add [1, 2, 3, 4])).map
      (fun result => result.1.hasfilled) = some 0 := by decide
  rw [hadd, Option.map_some, hfilled] at hzero
  cases hzero

end Sensor.CircularBuffer
