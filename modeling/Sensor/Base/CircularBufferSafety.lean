import Sensor.Base.CircularBufferFifo
import Sensor.Core.Logged

/-!
# Where the circular buffer reads and writes

`distance` subtracts `from + to`, which passes `capacity` where the bytes (or
the free cells) lie across the end of the allocation far from both ends of it;
the two flush operations wrap `begin` only where `sz` passes the end, not where
it reaches it; and `size` runs away from the bytes stored.  As long as no call
meets one of these, every operation stays inside the allocation.
-/

namespace Sensor.CircularBuffer

open Logged

variable {Byte : Type*}

/-! ## The operations with a log of what they do -/

/-- What is logged: a subtraction of `size_t` values, a `memcpy` into or out of
the allocation, and a region handed out. -/
inductive Access where
  | sub (left right : ℕ)
  | copy (offset length : ℕ)
  | region (offset length : ℕ)

/-- The subtraction does not underflow; the cells lie in the allocation. -/
def Access.Fine (capacity : ℕ) : Access → Prop
  | .sub left right => right ≤ left
  | .copy offset length => ∀ index < length, offset + index < capacity
  | .region offset length => ∀ index < length, offset + index < capacity

namespace Traced

def sub (left right : ℕ) : Logged Access ℕ :=
  tell (.sub left right) (some (SizeT.sub left right))

def distance (from_ to_ size : ℕ) : Logged Access ℕ :=
  if from_ < to_ then sub to_ from_
  else sub size (SizeT.add from_ to_)

def contDistance (from_ to_ size : ℕ) : Logged Access ℕ :=
  if from_ < to_ then sub to_ from_
  else sub size from_

def hasfilled (self : CircularBuffer Byte) : Logged Access ℕ :=
  if self.begin ≠ self.end_ then
    distance self.begin self.end_ self.capacity
  else pure 0

def hasfree (self : CircularBuffer Byte) : Logged Access ℕ :=
  if self.begin ≠ self.end_ then
    distance self.end_ self.begin self.capacity
  else pure self.capacity

def memcpyTo (self : CircularBuffer Byte) (offset : ℕ) (data : List Byte) :
    Logged Access (CircularBuffer Byte) :=
  tell (.copy offset data.length) (self.memcpyTo offset data)

def memcpyFrom (self : CircularBuffer Byte) (offset length : ℕ) :
    Logged Access (List Byte) :=
  tell (.copy offset length) (self.memcpyFrom offset length)

def add (self : CircularBuffer Byte) (data : List Byte) :
    Logged Access (CircularBuffer Byte × ℤ) :=
  (hasfree self).bind fun free =>
    if free = 0 then
      pure (self, 0)
    else
      let sz := if data.length > free then free else data.length
      (contDistance self.end_ self.begin self.capacity).bind fun contLen =>
        let done := min contLen sz
        (memcpyTo self self.end_ (data.take done)).bind fun self =>
          if done < sz then
            (tell (.sub sz done) (some (sz - done))).bind fun left =>
              (memcpyTo self 0 ((data.drop done).take left)).map fun self =>
                self.extend (done + left)
          else pure (self.extend done)

def pick (self : CircularBuffer Byte) (sz : ℕ) :
    Logged Access (List Byte × ℤ) :=
  (hasfilled self).bind fun filled =>
    if filled = 0 then
      pure ([], 0)
    else
      let sz := if sz > filled then filled else sz
      (contDistance self.begin self.end_ self.capacity).bind fun contLen =>
        let done := min contLen sz
        (memcpyFrom self self.begin done).bind fun first =>
          if done < sz then
            (tell (.sub sz done) (some (sz - done))).bind fun left =>
              (memcpyFrom self 0 left).map fun second =>
                (first ++ second, SizeT.toInt (done + left))
          else pure (first, SizeT.toInt done)

def consume (self : CircularBuffer Byte) (done : ℕ) :
    Logged Access (CircularBuffer Byte) :=
  if done ≠ 0 then
    (sub self.size done).map fun size =>
      { self with
        begin := SizeT.add self.begin done % self.capacity
        size }
  else pure self

def get (self : CircularBuffer Byte) (sz : ℕ) :
    Logged Access (CircularBuffer Byte × List Byte × ℤ) :=
  (pick self sz).bind fun (bytes, result) =>
    let done := SizeT.ofInt result
    (consume self done).map fun next => (next, bytes, SizeT.toInt done)

def watchIn (self : CircularBuffer Byte) : Logged Access (ℕ × Option ℕ) :=
  (contDistance self.begin self.end_ self.capacity).bind fun contDist =>
    if contDist ≠ 0 then
      tell (.region self.begin contDist) (some (contDist, some self.begin))
    else pure (contDist, none)

def watchOut (self : CircularBuffer Byte) : Logged Access (ℕ × Option ℕ) :=
  (contDistance self.end_ self.begin self.capacity).bind fun contDist =>
    if contDist ≠ 0 then
      tell (.region self.end_ contDist) (some (contDist, some self.end_))
    else pure (contDist, none)

def flushIn (self : CircularBuffer Byte) (sz : ℕ) :
    Logged Access (CircularBuffer Byte) :=
  if sz = 0 ∨ sz ≥ self.size then
    pure { self with begin := self.end_ }
  else
    (contDistance self.begin self.end_ self.capacity).bind fun cont =>
      if sz > cont then
        (sub sz cont).map fun begin => { self with begin }
      else pure { self with begin := SizeT.add self.begin sz }

def flushOut (self : CircularBuffer Byte) (sz : ℕ) :
    Logged Access (CircularBuffer Byte) :=
  if sz = 0 ∨ sz ≥ self.size then
    pure { self with begin := self.end_ }
  else
    (contDistance self.begin self.end_ self.capacity).bind fun cont =>
      if sz > cont then
        (sub sz cont).map fun begin => { self with begin }
      else pure { self with begin := SizeT.add self.begin sz }

def call (self : CircularBuffer Byte) :
    Call Byte → Logged Access (CircularBuffer Byte)
  | .add data => (add self data).map fun (next, _) => next
  | .get sz => (get self sz).map fun (next, _) => next
  | .pick sz => (pick self sz).map fun _ => self

def after (self : CircularBuffer Byte) :
    Op Byte → Logged Access (CircularBuffer Byte)
  | .call op => call self op
  | .watchIn => (watchIn self).map fun _ => self
  | .watchOut => (watchOut self).map fun _ => self
  | .flushIn sz => flushIn self sz
  | .flushOut sz => flushOut self sz

/-! ### The log changes nothing -/

variable {self : CircularBuffer Byte}

@[simp]
theorem value_sub {left right : ℕ} :
    (sub left right).value = some (SizeT.sub left right) := rfl

@[simp]
theorem value_distance {from_ to_ size : ℕ} :
    (distance from_ to_ size).value =
      some (CircularBuffer.distance from_ to_ size) := by
  rw [distance, CircularBuffer.distance]
  split <;> rfl

@[simp]
theorem value_contDistance {from_ to_ size : ℕ} :
    (contDistance from_ to_ size).value =
      some (CircularBuffer.contDistance from_ to_ size) := by
  rw [contDistance, CircularBuffer.contDistance]
  split <;> rfl

@[simp]
theorem value_hasfilled : (hasfilled self).value = some self.hasfilled := by
  rw [hasfilled, CircularBuffer.hasfilled]
  split
  · exact value_distance
  · rfl

@[simp]
theorem value_hasfree : (hasfree self).value = some self.hasfree := by
  rw [hasfree, CircularBuffer.hasfree]
  split
  · exact value_distance
  · rfl

theorem value_add {data : List Byte} :
    (add self data).value = self.add data := by
  rw [add, CircularBuffer.add, value_bind, value_hasfree, Option.bind_some]
  split
  · rfl
  · simp only [value_bind, value_contDistance, Option.bind_some, memcpyTo,
      value_tell]
    congr 1
    funext next
    rw [apply_ite value]
    congr 1

theorem value_pick {sz : ℕ} : (pick self sz).value = self.pick sz := by
  rw [pick, CircularBuffer.pick, value_bind, value_hasfilled, Option.bind_some]
  split
  · rfl
  · simp only [value_bind, value_contDistance, Option.bind_some, memcpyFrom,
      value_tell]
    congr 1
    funext first
    rw [apply_ite value]
    congr 1

theorem value_consume {done : ℕ} :
    (consume self done).value = some (self.consume done) := by
  rw [consume, CircularBuffer.consume]
  split <;> rfl

theorem value_get {sz : ℕ} : (get self sz).value = self.get sz := by
  rw [get, CircularBuffer.get, value_bind, value_pick, Option.map_eq_bind]
  congr 1
  funext picked
  rw [value_map, value_consume]
  rfl

theorem value_watchIn : (watchIn self).value = some self.watchIn := by
  rw [watchIn, CircularBuffer.watchIn, value_bind, value_contDistance,
    Option.bind_some]
  split <;> rfl

theorem value_watchOut : (watchOut self).value = some self.watchOut := by
  rw [watchOut, CircularBuffer.watchOut, value_bind, value_contDistance,
    Option.bind_some]
  split <;> rfl

theorem value_flushIn {sz : ℕ} :
    (flushIn self sz).value = some (self.flushIn sz) := by
  rw [flushIn, CircularBuffer.flushIn]
  split
  · rfl
  · simp only [value_bind, value_contDistance, Option.bind_some,
      apply_ite value, apply_ite some]
    rfl

theorem value_flushOut {sz : ℕ} :
    (flushOut self sz).value = some (self.flushOut sz) := value_flushIn

theorem value_after {op : Op Byte} : (after self op).value = self.after op := by
  cases op with
  | call op =>
      cases op with
      | add data =>
          simp only [after, call, CircularBuffer.after, CircularBuffer.call,
            value_map, value_add, Option.map_map]
          rfl
      | get sz =>
          simp only [after, call, CircularBuffer.after, CircularBuffer.call,
            value_map, value_get, Option.map_map]
          rfl
      | pick sz =>
          simp only [after, call, CircularBuffer.after, CircularBuffer.call,
            value_map, value_pick, Option.map_map]
          rfl
  | watchIn =>
      simp only [after, CircularBuffer.after, value_map, value_watchIn,
        Option.map_some]
  | watchOut =>
      simp only [after, CircularBuffer.after, value_map, value_watchOut,
        Option.map_some]
  | flushIn sz => exact value_flushIn
  | flushOut sz => exact value_flushOut

end Traced

/-! ## The fields in every state -/

section Fields

variable {buffer next : CircularBuffer Byte}

/-- The fields are `size_t` values, and `end` is an offset in the allocation. -/
structure Valid (buffer : CircularBuffer Byte) : Prop where
  capacity_lt : buffer.capacity < 2 ^ 64
  begin_lt : buffer.begin < 2 ^ 64
  size_lt : buffer.size < 2 ^ 64
  end_lt : buffer.end_ < buffer.capacity

theorem Valid.new {capacity : ℕ} (hpos : 0 < capacity)
    (hcapacity : capacity < 2 ^ 64) (heap : ℕ → Byte) :
    (new capacity heap).Valid where
  capacity_lt := hcapacity
  begin_lt := by simp [CircularBuffer.new]
  size_lt := by simp [CircularBuffer.new]
  end_lt := hpos

theorem size_t_lt (value : ℕ) : value % 2 ^ 64 < 2 ^ 64 :=
  Nat.mod_lt _ (by decide)

/-- What `add` leaves behind. -/
theorem add_cases {data : List Byte} {result : ℤ}
    (hadd : buffer.add data = some (next, result)) :
    (buffer.hasfree = 0 ∧ next = buffer) ∨
      (buffer.hasfree ≠ 0 ∧ ∃ memory, next =
        (({ buffer with buffer := memory } : CircularBuffer Byte).extend
          (min data.length buffer.hasfree)).1) := by
  rw [add] at hadd
  split at hadd
  case isTrue hzero =>
    cases hadd
    exact .inl ⟨hzero, rfl⟩
  case isFalse hfree =>
    refine .inr ⟨hfree, ?_⟩
    dsimp only at hadd
    have hsz : (if data.length > buffer.hasfree then buffer.hasfree
        else data.length) = min data.length buffer.hasfree := by
      split <;> omega
    rw [hsz] at hadd
    obtain ⟨first, hfirst, hrest⟩ := Option.bind_eq_some_iff.mp hadd
    obtain ⟨-, hfirst⟩ := Option.ite_none_right_eq_some.mp hfirst
    cases hfirst
    split at hrest
    case isTrue htwo =>
      obtain ⟨second, hsecond, hnext⟩ := Option.map_eq_some_iff.mp hrest
      obtain ⟨-, hsecond⟩ := Option.ite_none_right_eq_some.mp hsecond
      cases hsecond
      rw [Nat.add_sub_cancel' htwo.le] at hnext
      cases hnext
      exact ⟨_, rfl⟩
    case isFalse hone =>
      rw [Nat.le_antisymm (Nat.min_le_right _ _) (Nat.not_lt.mp hone)] at hrest
      cases hrest
      exact ⟨_, rfl⟩

/-- What `get` leaves behind. -/
theorem get_cases {sz : ℕ} {bytes : List Byte} {result : ℤ}
    (hget : buffer.get sz = some (next, bytes, result)) :
    ∃ done < 2 ^ 64, next = buffer.consume done := by
  obtain ⟨picked, -, hnext⟩ := Option.map_eq_some_iff.mp hget
  cases hnext
  refine ⟨SizeT.ofInt picked.2, ?_, rfl⟩
  rw [SizeT.ofInt]
  omega

theorem Valid.setBegin (hvalid : buffer.Valid) {begin : ℕ}
    (hbegin : begin < 2 ^ 64) :
    ({ buffer with begin } : CircularBuffer Byte).Valid where
  capacity_lt := hvalid.capacity_lt
  begin_lt := hbegin
  size_lt := hvalid.size_lt
  end_lt := hvalid.end_lt

theorem Valid.flushIn (hvalid : buffer.Valid) (sz : ℕ) :
    (buffer.flushIn sz).Valid ∧
      (buffer.flushIn sz).capacity = buffer.capacity := by
  have hend := hvalid.end_lt
  have hcapacity := hvalid.capacity_lt
  rw [CircularBuffer.flushIn]
  split
  · exact ⟨hvalid.setBegin (by omega), rfl⟩
  · simp only
    split
    · exact ⟨hvalid.setBegin (size_t_lt _), rfl⟩
    · exact ⟨hvalid.setBegin (size_t_lt _), rfl⟩

theorem Valid.after (hvalid : buffer.Valid) {op : Op Byte}
    (hafter : buffer.after op = some next) :
    next.Valid ∧ next.capacity = buffer.capacity := by
  have hpos : 0 < buffer.capacity := Nat.zero_lt_of_lt hvalid.end_lt
  cases op with
  | call call =>
      obtain ⟨answer, hcall, rfl⟩ := Option.map_eq_some_iff.mp hafter
      cases call with
      | add data =>
          obtain ⟨⟨next, result⟩, hadd, rfl⟩ := Option.map_eq_some_iff.mp hcall
          rcases add_cases hadd with ⟨-, rfl⟩ | ⟨-, memory, rfl⟩
          · exact ⟨hvalid, rfl⟩
          · exact ⟨⟨hvalid.capacity_lt, hvalid.begin_lt, size_t_lt _,
              Nat.mod_lt _ hpos⟩, rfl⟩
      | get sz =>
          obtain ⟨⟨next, bytes, result⟩, hget, rfl⟩ :=
            Option.map_eq_some_iff.mp hcall
          obtain ⟨done, -, rfl⟩ := get_cases hget
          simp only [consume]
          split
          · exact ⟨⟨hvalid.capacity_lt,
              (Nat.mod_lt _ hpos).trans hvalid.capacity_lt, size_t_lt _,
              hvalid.end_lt⟩, rfl⟩
          · exact ⟨hvalid, rfl⟩
      | pick sz =>
          obtain ⟨picked, -, rfl⟩ := Option.map_eq_some_iff.mp hcall
          exact ⟨hvalid, rfl⟩
  | watchIn =>
      cases hafter
      exact ⟨hvalid, rfl⟩
  | watchOut =>
      cases hafter
      exact ⟨hvalid, rfl⟩
  | flushIn sz =>
      cases hafter
      exact hvalid.flushIn sz
  | flushOut sz =>
      cases hafter
      exact hvalid.flushIn sz

end Fields

/-! ## What the buffer promises -/

/-- The indices lie in the allocation. -/
structure Inside (buffer : CircularBuffer Byte) : Prop where
  begin_lt : buffer.begin < buffer.capacity
  end_lt : buffer.end_ < buffer.capacity

/-- In every state of the run the indices lie in the allocation, and every
operation does only what is fine. -/
def Safe (buffer : CircularBuffer Byte) : List (Op Byte) → Prop
  | [] => buffer.Inside
  | op :: ops =>
      buffer.Inside ∧
        (Traced.after buffer op).Succeeds (Access.Fine buffer.capacity)
          fun next => next.Safe ops

/-! ## When it keeps the promise -/

/-- `distance` subtracts no more than there is; no bytes at all are not
measured. -/
def Measures (from_ to_ size : ℕ) : Prop :=
  from_ = to_ ∨ from_ < to_ ∨ SizeT.add from_ to_ ≤ size

/-- What `distance` finds where it measures. -/
def span (from_ to_ size : ℕ) : ℕ :=
  if from_ = to_ then 0
  else if from_ < to_ then to_ - from_
  else size - SizeT.add from_ to_

/-- The number of bytes a call of `get(data, sz)` counts as taken, which went
through an `int`. -/
def taken (buffer : CircularBuffer Byte) (sz : ℕ) : ℕ :=
  SizeT.ofInt (SizeT.toInt
    (min sz (span buffer.begin buffer.end_ buffer.capacity)))

/-- Moving `begin` by `sz` leaves it in the allocation: all bytes go, or `begin`
stays before the end of the allocation, or wraps around it. -/
def Flushes (buffer : CircularBuffer Byte) (sz : ℕ) : Prop :=
  let cont := contDistance buffer.begin buffer.end_ buffer.capacity
  sz = 0 ∨ buffer.size ≤ sz ∨
    (sz ≤ cont ∧ (buffer.begin < buffer.end_ ∨ sz < cont)) ∨
      (cont < sz ∧ sz < buffer.capacity + cont)

/-- The condition on an operation and the state before it. -/
def Op.Meets (buffer : CircularBuffer Byte) : Op Byte → Prop
  | .call (.add _) => Measures buffer.end_ buffer.begin buffer.capacity
  | .call (.pick _) => Measures buffer.begin buffer.end_ buffer.capacity
  | .call (.get sz) =>
      Measures buffer.begin buffer.end_ buffer.capacity ∧
        buffer.taken sz ≤ buffer.size
  | .watchIn => True
  | .watchOut => True
  | .flushIn sz => buffer.Flushes sz
  | .flushOut sz => buffer.Flushes sz

/-- Every operation of the run meets its condition. -/
def MeetsAll (buffer : CircularBuffer Byte) : List (Op Byte) → Prop
  | [] => True
  | op :: ops =>
      op.Meets buffer ∧
        ∀ next, buffer.after op = some next → next.MeetsAll ops

instance {from_ to_ size : ℕ} : Decidable (Measures from_ to_ size) :=
  inferInstanceAs (Decidable (_ ∨ _ ∨ _))

instance (buffer : CircularBuffer Byte) (sz : ℕ) :
    Decidable (buffer.Flushes sz) :=
  inferInstanceAs (Decidable (_ ∨ _ ∨ (_ ∧ (_ ∨ _)) ∨ (_ ∧ _)))

instance (buffer : CircularBuffer Byte) (op : Op Byte) :
    Decidable (op.Meets buffer) :=
  match op with
  | .call (.add _) => inferInstanceAs (Decidable (Measures _ _ _))
  | .call (.pick _) => inferInstanceAs (Decidable (Measures _ _ _))
  | .call (.get _) => inferInstanceAs (Decidable (Measures _ _ _ ∧ _ ≤ _))
  | .watchIn => inferInstanceAs (Decidable True)
  | .watchOut => inferInstanceAs (Decidable True)
  | .flushIn sz => inferInstanceAs (Decidable (buffer.Flushes sz))
  | .flushOut sz => inferInstanceAs (Decidable (buffer.Flushes sz))

instance MeetsAll.decidable (buffer : CircularBuffer Byte) :
    (ops : List (Op Byte)) → Decidable (buffer.MeetsAll ops)
  | [] => inferInstanceAs (Decidable True)
  | op :: ops =>
      match hafter : buffer.after op with
      | none => decidable_of_iff (op.Meets buffer) (by simp [MeetsAll, hafter])
      | some next =>
          have := MeetsAll.decidable next ops
          decidable_of_iff (op.Meets buffer ∧ next.MeetsAll ops)
            (by simp [MeetsAll, hafter])

/-! ## One operation -/

section Operation

variable {buffer : CircularBuffer Byte} {capacity : ℕ}

theorem succeeds_sub {Post : ℕ → Prop} {left right : ℕ} :
    (Traced.sub left right).Succeeds (Access.Fine capacity) Post ↔
      right ≤ left ∧ Post (SizeT.sub left right) := by
  simp [Traced.sub, Access.Fine]

theorem succeeds_contDistance {Post : ℕ → Prop} {from_ to_ : ℕ}
    (hfrom : from_ < capacity) :
    (Traced.contDistance from_ to_ capacity).Succeeds (Access.Fine capacity)
        Post ↔ Post (contDistance from_ to_ capacity) := by
  rw [Traced.contDistance, contDistance]
  split
  case isTrue hlt => simp [succeeds_sub, hlt.le]
  case isFalse => simp [succeeds_sub, hfrom.le]

theorem succeeds_distance {Post : ℕ → Prop} {from_ to_ : ℕ} :
    (Traced.distance from_ to_ capacity).Succeeds (Access.Fine capacity) Post ↔
      (from_ < to_ ∨ SizeT.add from_ to_ ≤ capacity) ∧
        Post (distance from_ to_ capacity) := by
  rw [Traced.distance, distance]
  split
  case isTrue hlt => simp [succeeds_sub, hlt, hlt.le]
  case isFalse hge => simp [succeeds_sub, hge]

theorem succeeds_hasfilled {Post : ℕ → Prop} :
    (Traced.hasfilled buffer).Succeeds (Access.Fine buffer.capacity) Post ↔
      Measures buffer.begin buffer.end_ buffer.capacity ∧
        Post buffer.hasfilled := by
  rw [Traced.hasfilled, CircularBuffer.hasfilled, Measures]
  split
  case isTrue hne => rw [succeeds_distance, or_iff_right hne]
  case isFalse heq => simp [not_not.mp heq]

theorem succeeds_hasfree {Post : ℕ → Prop} :
    (Traced.hasfree buffer).Succeeds (Access.Fine buffer.capacity) Post ↔
      Measures buffer.end_ buffer.begin buffer.capacity ∧
        Post buffer.hasfree := by
  rw [Traced.hasfree, CircularBuffer.hasfree, Measures]
  split
  case isTrue hne => rw [succeeds_distance, or_iff_right (Ne.symm hne)]
  case isFalse heq => simp [not_not.mp heq]

theorem fine_copy {offset length : ℕ} (hinside : offset + length ≤ capacity) :
    Access.Fine capacity (.copy offset length) := by
  intro index hindex
  omega

theorem succeeds_memcpyTo {Post : CircularBuffer Byte → Prop} {offset : ℕ}
    {data : List Byte} (hcapacity : buffer.capacity = capacity)
    (hinside : offset + data.length ≤ capacity) :
    (Traced.memcpyTo buffer offset data).Succeeds (Access.Fine capacity) Post ↔
      Post { buffer with buffer := Region.write buffer.buffer offset data } := by
  have hfine := fine_copy hinside
  simp [Traced.memcpyTo, hfine, memcpyTo, hcapacity, hinside]

theorem succeeds_memcpyFrom {Post : List Byte → Prop} {offset length : ℕ}
    (hinside : offset + length ≤ buffer.capacity) :
    (Traced.memcpyFrom buffer offset length).Succeeds
        (Access.Fine buffer.capacity) Post ↔
      Post (Region.read buffer.buffer offset length) := by
  have hfine := fine_copy hinside
  simp [Traced.memcpyFrom, hfine, memcpyFrom, hinside]

theorem hasfilled_of_measures
    (hmeasures : Measures buffer.begin buffer.end_ buffer.capacity)
    (hin : buffer.Inside) (hcapacity : buffer.capacity < 2 ^ 64) :
    buffer.hasfilled = span buffer.begin buffer.end_ buffer.capacity := by
  have hend := hin.end_lt
  rw [hasfilled, span, ite_not]
  split
  · rfl
  case isFalse hne =>
    rw [distance]
    split
    case isTrue hlt => rw [SizeT.sub_of_le hlt.le (by omega)]
    case isFalse hge =>
      have hle : SizeT.add buffer.begin buffer.end_ ≤ buffer.capacity := by
        rcases hmeasures with heq | hlt | hle
        · exact absurd heq hne
        · exact absurd hlt hge
        · exact hle
      rw [SizeT.sub_of_le hle hcapacity]

theorem hasfree_of_measures
    (hmeasures : Measures buffer.end_ buffer.begin buffer.capacity)
    (hin : buffer.Inside) (hcapacity : buffer.capacity < 2 ^ 64) :
    buffer.hasfree ≤ buffer.capacity ∧ (buffer.end_ < buffer.begin →
      buffer.hasfree = buffer.begin - buffer.end_) := by
  have hbegin := hin.begin_lt
  rw [hasfree]
  split
  case isFalse heq => exact ⟨le_rfl, fun hlt => absurd hlt (by omega)⟩
  case isTrue hne =>
    rw [distance]
    split
    case isTrue hlt =>
      rw [SizeT.sub_of_le hlt.le (by omega)]
      exact ⟨by omega, fun _ => rfl⟩
    case isFalse hge =>
      have hle : SizeT.add buffer.end_ buffer.begin ≤ buffer.capacity := by
        rcases hmeasures with heq | hlt | hle
        · exact absurd heq.symm hne
        · exact absurd hlt hge
        · exact hle
      rw [SizeT.sub_of_le hle hcapacity]
      exact ⟨Nat.sub_le _ _, fun hlt => absurd hlt hge⟩

theorem Inside.store (hin : buffer.Inside) (memory : ℕ → Byte) :
    ({ buffer with buffer := memory } : CircularBuffer Byte).Inside where
  begin_lt := hin.begin_lt
  end_lt := hin.end_lt

theorem Inside.extend (hin : buffer.Inside) (done : ℕ) :
    (buffer.extend done).1.Inside where
  begin_lt := hin.begin_lt
  end_lt := Nat.mod_lt _ (Nat.zero_lt_of_lt hin.end_lt)

theorem Inside.add (hin : buffer.Inside) (hcapacity : buffer.capacity < 2 ^ 64)
    (hmeasures : Measures buffer.end_ buffer.begin buffer.capacity)
    {data : List Byte} :
    (Traced.add buffer data).Succeeds (Access.Fine buffer.capacity)
      fun next => next.1.Inside := by
  obtain ⟨hle, hroom⟩ := hasfree_of_measures hmeasures hin hcapacity
  rw [Traced.add, succeeds_bind, succeeds_hasfree]
  refine ⟨hmeasures, ?_⟩
  split
  · rw [succeeds_pure]
    exact hin
  · generalize hcount : (if data.length > buffer.hasfree then buffer.hasfree
      else data.length) = count
    have hsz : count ≤ buffer.hasfree ∧ count ≤ data.length := by
      split at hcount <;> omega
    rw [succeeds_bind, succeeds_contDistance hin.end_lt]
    rcases contDistance_cases hin.end_lt hin.begin_lt hcapacity
      (fun hlt => hroom hlt ▸ hsz.1) with ⟨hone, hinside⟩ | ⟨hfirst, htwo⟩
    · have hfits : buffer.end_ + (data.take count).length ≤
          buffer.capacity := by
        rw [List.length_take]
        omega
      rw [Nat.min_eq_right hone, succeeds_bind, succeeds_memcpyTo rfl hfits,
        if_neg (Nat.lt_irrefl count), succeeds_pure]
      exact (hin.store _).extend _
    · obtain ⟨hfits, hrest⟩ :=
        length_pieces_le hin.end_lt (hsz.1.trans hle) data
      rw [hfirst, Nat.min_eq_left htwo.le, succeeds_bind,
        succeeds_memcpyTo rfl hfits, if_pos htwo, succeeds_bind, succeeds_tell]
      refine ⟨htwo.le, _, rfl, ?_⟩
      rw [succeeds_map]
      apply (succeeds_memcpyTo _ hrest).mpr
      · exact ((hin.store _).store _).extend _
      · rfl

theorem span_le (hin : buffer.Inside) :
    span buffer.begin buffer.end_ buffer.capacity ≤ buffer.capacity := by
  have hend := hin.end_lt
  rw [span]
  split
  · exact Nat.zero_le _
  · split <;> omega

/-- `pick` reads in the allocation, and its result is the number of bytes. -/
theorem Inside.pick (hin : buffer.Inside) (hcapacity : buffer.capacity < 2 ^ 64)
    (hmeasures : Measures buffer.begin buffer.end_ buffer.capacity) {sz : ℕ} :
    (Traced.pick buffer sz).Succeeds (Access.Fine buffer.capacity)
      fun picked => picked.2 = SizeT.toInt
        (min sz (span buffer.begin buffer.end_ buffer.capacity)) := by
  have hspan := span_le hin
  have hfilled := hasfilled_of_measures hmeasures hin hcapacity
  rw [Traced.pick, succeeds_bind, succeeds_hasfilled, hfilled]
  refine ⟨hmeasures, ?_⟩
  split
  case isTrue hzero =>
    rw [succeeds_pure, hzero, Nat.min_zero]
    rfl
  case isFalse =>
    generalize hcount :
      (if sz > span buffer.begin buffer.end_ buffer.capacity then
        span buffer.begin buffer.end_ buffer.capacity else sz) = count
    have hmin : min sz (span buffer.begin buffer.end_ buffer.capacity) =
        count := by
      split at hcount <;> omega
    have hroom : buffer.begin < buffer.end_ →
        count ≤ buffer.end_ - buffer.begin := by
      intro hlt
      rw [span, if_neg hlt.ne, if_pos hlt] at hmin
      omega
    rw [hmin, succeeds_bind, succeeds_contDistance hin.begin_lt]
    rcases contDistance_cases hin.begin_lt hin.end_lt hcapacity hroom with
      ⟨hone, hinside⟩ | ⟨hfirst, htwo⟩
    · rw [Nat.min_eq_right hone, succeeds_bind, succeeds_memcpyFrom hinside,
        if_neg (Nat.lt_irrefl count), succeeds_pure]
    · have hbegin := hin.begin_lt
      have hfits : buffer.begin + (buffer.capacity - buffer.begin) ≤
          buffer.capacity := by omega
      have hrest : 0 + (count - (buffer.capacity - buffer.begin)) ≤
          buffer.capacity := by omega
      rw [hfirst, Nat.min_eq_left htwo.le, succeeds_bind,
        succeeds_memcpyFrom hfits, if_pos htwo, succeeds_bind, succeeds_tell]
      refine ⟨htwo.le, _, rfl, ?_⟩
      rw [succeeds_map, succeeds_memcpyFrom hrest,
        Nat.add_sub_cancel' htwo.le]

theorem Inside.succeeds_add_iff (hin : buffer.Inside)
    (hcapacity : buffer.capacity < 2 ^ 64) {data : List Byte} :
    ((Traced.add buffer data).Succeeds (Access.Fine buffer.capacity)
      fun next => next.1.Inside) ↔
        Measures buffer.end_ buffer.begin buffer.capacity := by
  refine ⟨fun hadd => ?_, fun hmeasures => hin.add hcapacity hmeasures⟩
  rw [Traced.add, succeeds_bind, succeeds_hasfree] at hadd
  exact hadd.1

theorem Inside.succeeds_pick_iff (hin : buffer.Inside)
    (hcapacity : buffer.capacity < 2 ^ 64) {sz : ℕ} :
    ((Traced.pick buffer sz).Succeeds (Access.Fine buffer.capacity)
      fun _ => True) ↔
        Measures buffer.begin buffer.end_ buffer.capacity := by
  refine ⟨fun hpick => ?_, fun hmeasures => ?_⟩
  · rw [Traced.pick, succeeds_bind, succeeds_hasfilled] at hpick
    exact hpick.1
  · exact (hin.pick hcapacity hmeasures).mono fun _ _ => trivial

theorem Inside.succeeds_consume_iff (hin : buffer.Inside) {done : ℕ} :
    ((Traced.consume buffer done).Succeeds (Access.Fine buffer.capacity)
      fun next => next.Inside) ↔ done ≤ buffer.size := by
  rw [Traced.consume]
  split
  case isTrue =>
    rw [succeeds_map, succeeds_sub, and_iff_left_iff_imp]
    intro _
    exact ⟨Nat.mod_lt _ (Nat.zero_lt_of_lt hin.end_lt), hin.end_lt⟩
  case isFalse hzero =>
    rw [succeeds_pure, not_not.mp hzero]
    exact ⟨fun _ => Nat.zero_le _, fun _ => hin⟩

theorem Inside.succeeds_get_iff (hin : buffer.Inside)
    (hcapacity : buffer.capacity < 2 ^ 64) {sz : ℕ} :
    ((Traced.get buffer sz).Succeeds (Access.Fine buffer.capacity)
      fun next => next.1.Inside) ↔
        Measures buffer.begin buffer.end_ buffer.capacity ∧
          buffer.taken sz ≤ buffer.size := by
  have hget : ((Traced.get buffer sz).Succeeds (Access.Fine buffer.capacity)
      fun next => next.1.Inside) ↔
        (Traced.pick buffer sz).Succeeds (Access.Fine buffer.capacity)
          fun picked => SizeT.ofInt picked.2 ≤ buffer.size := by
    simp only [Traced.get, succeeds_bind, succeeds_map,
      hin.succeeds_consume_iff]
  rw [hget]
  constructor
  · intro hsucceeds
    have hmeasures := (hin.succeeds_pick_iff hcapacity).mp
      (hsucceeds.mono fun _ _ => trivial)
    obtain ⟨picked, htaken, hresult⟩ :=
      hsucceeds.exists_and (hin.pick hcapacity hmeasures)
    rw [hresult] at htaken
    exact ⟨hmeasures, htaken⟩
  · rintro ⟨hmeasures, htaken⟩
    refine (hin.pick hcapacity hmeasures).mono fun picked hresult => ?_
    rw [hresult]
    exact htaken

/-- A region handed out lies in the allocation. -/
theorem succeeds_region {from_ to_ : ℕ}
    (hfrom : from_ < capacity) (hto : to_ < capacity)
    (hcapacity : capacity < 2 ^ 64) :
    ((Traced.contDistance from_ to_ capacity).bind fun contDist =>
        if contDist ≠ 0 then
          tell (.region from_ contDist) (some (contDist, some from_))
        else pure (contDist, none)).Succeeds (Access.Fine capacity)
      fun _ => True := by
  have hinside : ∀ index < contDistance from_ to_ capacity,
      from_ + index < capacity := by
    intro index hindex
    rcases Nat.lt_or_ge from_ to_ with hlt | hge
    · rw [contDistance_of_lt hlt (by omega)] at hindex
      omega
    · rw [contDistance_of_le hge hfrom.le hcapacity] at hindex
      omega
  rw [succeeds_bind, succeeds_contDistance hfrom]
  split
  · rw [succeeds_tell]
    exact ⟨hinside, _, rfl, trivial⟩
  · rw [succeeds_pure]
    trivial

theorem Inside.succeeds_flushIn_iff (hin : buffer.Inside)
    (hvalid : buffer.Valid) {sz : ℕ} :
    ((Traced.flushIn buffer sz).Succeeds (Access.Fine buffer.capacity)
      fun next => next.Inside) ↔ buffer.Flushes sz := by
  have hbegin := hin.begin_lt
  have hend := hin.end_lt
  have hcapacity := hvalid.capacity_lt
  have hinside : ∀ begin, ({ buffer with begin } : CircularBuffer Byte).Inside ↔
      begin < buffer.capacity :=
    fun begin => ⟨fun hnext => hnext.begin_lt, fun hlt => ⟨hlt, hend⟩⟩
  rw [Traced.flushIn, Flushes]
  split
  case isTrue hall =>
    rw [succeeds_pure, hinside]
    exact iff_of_true hend (hall.elim .inl fun hsize => .inr (.inl hsize))
  case isFalse hsome =>
    have hsz : sz < 2 ^ 64 := by
      have hsize := hvalid.size_lt
      omega
    rw [succeeds_bind, succeeds_contDistance hbegin]
    generalize hcont :
      contDistance buffer.begin buffer.end_ buffer.capacity = cont
    have hreach : (buffer.begin < buffer.end_ ∧
        buffer.begin + cont = buffer.end_) ∨
          (buffer.end_ ≤ buffer.begin ∧
            buffer.begin + cont = buffer.capacity) := by
      rcases Nat.lt_or_ge buffer.begin buffer.end_ with hlt | hge
      · rw [contDistance_of_lt hlt (by omega)] at hcont
        omega
      · rw [contDistance_of_le hge hbegin.le hcapacity] at hcont
        omega
    split
    case isTrue hpast =>
      rw [succeeds_map, succeeds_sub, hinside, SizeT.sub_of_le hpast.le hsz]
      omega
    case isFalse hbefore =>
      rw [succeeds_pure, hinside, SizeT.add_of_lt (by omega)]
      omega

/-- An operation that meets its condition does only what is fine, and leaves the
indices in the allocation. -/
theorem Inside.succeeds_after_iff (hin : buffer.Inside) (hvalid : buffer.Valid)
    {op : Op Byte} :
    ((Traced.after buffer op).Succeeds (Access.Fine buffer.capacity)
      fun next => next.Inside) ↔ op.Meets buffer := by
  have hcapacity := hvalid.capacity_lt
  cases op with
  | call call =>
      cases call with
      | add data =>
          rw [Traced.after, Traced.call, succeeds_map]
          exact hin.succeeds_add_iff hcapacity
      | get sz =>
          rw [Traced.after, Traced.call, succeeds_map]
          exact hin.succeeds_get_iff hcapacity
      | pick sz =>
          rw [Traced.after, Traced.call, succeeds_map, Op.Meets,
            ← hin.succeeds_pick_iff hcapacity]
          exact ⟨fun hpick => hpick.mono fun _ _ => trivial,
            fun hpick => hpick.mono fun _ _ => hin⟩
  | watchIn =>
      rw [Traced.after, succeeds_map, Op.Meets, iff_true]
      exact (succeeds_region hin.begin_lt hin.end_lt hcapacity).mono
        fun _ _ => hin
  | watchOut =>
      rw [Traced.after, succeeds_map, Op.Meets, iff_true]
      exact (succeeds_region hin.end_lt hin.begin_lt hcapacity).mono
        fun _ _ => hin
  | flushIn sz => exact hin.succeeds_flushIn_iff hvalid
  | flushOut sz => exact hin.succeeds_flushIn_iff hvalid

end Operation

/-! ## The main result -/

section Runs

variable {buffer : CircularBuffer Byte}

theorem Safe.inside {ops : List (Op Byte)} (hsafe : buffer.Safe ops) :
    buffer.Inside := by
  cases ops with
  | nil => exact hsafe
  | cons op ops => exact hsafe.1

theorem Inside.safe_iff (hin : buffer.Inside) (hvalid : buffer.Valid)
    {ops : List (Op Byte)} : buffer.Safe ops ↔ buffer.MeetsAll ops := by
  induction ops generalizing buffer with
  | nil => exact iff_of_true hin trivial
  | cons op ops ih =>
      rw [Safe, MeetsAll, ← hin.succeeds_after_iff hvalid]
      constructor
      · rintro ⟨-, hsucceeds⟩
        refine ⟨hsucceeds.mono fun next hsafe => hsafe.inside, ?_⟩
        intro next hafter
        obtain ⟨value, hvalue, hsafe⟩ := hsucceeds.2
        rw [Traced.value_after, hafter, Option.some.injEq] at hvalue
        subst hvalue
        exact (ih hsafe.inside (hvalid.after hafter).1).mp hsafe
      · rintro ⟨⟨hfine, next, hvalue, hnext⟩, hmeets⟩
        refine ⟨hin, hfine, next, hvalue, ?_⟩
        rw [Traced.value_after] at hvalue
        exact (ih hnext (hvalid.after hvalue).1).mpr (hmeets next hvalue)

/-- A new buffer stays inside its allocation in a run of operations if and only
if every operation meets its condition. -/
theorem new_safe_iff {capacity : ℕ} (hpos : 0 < capacity)
    (hcapacity : capacity < 2 ^ 64) (heap : ℕ → Byte) (ops : List (Op Byte)) :
    (new capacity heap).Safe ops ↔ (new capacity heap).MeetsAll ops :=
  Inside.safe_iff ⟨hpos, hpos⟩ (.new hpos hcapacity heap)

/-- Four cells, through which six bytes pass by copies and by regions. -/
theorem new_safe_iff_fourCells : (new 4 fun _ => 0).Safe
    [.call (.add [1, 2, 3]), .watchIn, .call (.get 3), .call (.add [4]),
      .watchOut, .flushIn 1, .call (.add [5, 6]), .call (.pick 2)] :=
  (new_safe_iff (by decide) (by decide) _ _).mpr (by decide)

/-- Three bytes in, two out: the next call computes `4 - (3 + 2)`. -/
theorem not_new_safe : ¬ ∀ (capacity : ℕ) (heap : ℕ → ℕ) (ops : List (Op ℕ)),
    0 < capacity → capacity < 2 ^ 64 → (new capacity heap).Safe ops := by
  intro hsafe
  have hrun := hsafe 4 (fun _ => 0)
    [.call (.add [1, 2, 3]), .call (.get 2), .call (.add [4])] (by decide)
    (by decide)
  have hin : (new 4 fun _ => 0 : CircularBuffer ℕ).Inside :=
    ⟨by decide, by decide⟩
  rw [hin.safe_iff (.new (by decide) (by decide) _)] at hrun
  revert hrun
  decide

end Runs

end Sensor.CircularBuffer
