import Sensor.Core.LinkedChain
import Sensor.Queue.MpscQueue

/-!
# The invariant of the allocating queue

The nodes form a chain from `head` to `tail` with a gap for every producer
between its exchange and its link.  Every node of the chain, every node a
producer still pushes and the old dummy the consumer is about to delete is
live, and no other node is.
-/

namespace Sensor.MpscQueue

variable {Addr Data Producer : Type*}

/-- The link a producer still has to store. -/
def PushPc.link : PushPc Addr Data → Option (Addr × Addr)
  | .linkPrev next prev => some (prev, next)
  | _ => none

/-- What a producer relies on: until its exchange its node is outside the
chain. -/
def PushPc.Valid (memory : Memory Addr Data) (chain : List Addr) :
    PushPc Addr Data → Prop
  | .writeData next _ => next ∉ chain
  | .clearNext next => next ∉ chain
  | .exchange next => next ∉ chain ∧ memory.next next = none
  | .linkPrev _ _ => True

/-- The old dummy, once `pop` has moved `head` past it. -/
def PopPc.detached : PopPc Addr Data → Option Addr
  | .readData h _ => some h
  | .deleteHead h _ => some h
  | _ => none

/-- The value `pop` has taken out of the chain and not returned yet. -/
def PopPc.held (memory : Memory Addr Data) : PopPc Addr Data → List Data
  | .readData _ next => [memory.data next]
  | .deleteHead _ data => [data]
  | _ => []

/-- What the consumer relies on inside `pop`. -/
def PopPc.Valid (memory : Memory Addr Data) : PopPc Addr Data → Prop
  | .loadHead => True
  | .loadNext h => h = memory.head
  | .storeHead h next => h = memory.head ∧ memory.next h = some next
  | .readData _ next => next = memory.head
  | .deleteHead _ _ => True

/-- The values of the nodes behind the dummy. -/
def stored (memory : Memory Addr Data) (chain : List Addr) : List Data :=
  chain.tail.map memory.data

/-- The values the consumer holds in its locals. -/
def held (memory : Memory Addr Data) :
    Option (PopPc Addr Data) → List Data
  | some pc => pc.held memory
  | none => []

/-- The invariant of the queue, with the chain its nodes form. -/
structure Invariant [DecidableEq Addr] (state : State Addr Data Producer)
    (chain : List Addr) : Prop where
  head : chain.head? = some state.memory.head
  tail : chain.getLast? = some state.memory.tail
  linked : LinkedChain state.memory.next
    (PendingLink PushPc.link state.producer) chain
  chain_live : ∀ node ∈ chain, state.memory.live node = true
  producer_live : ∀ thread pc, state.producer thread = some pc →
    state.memory.live pc.node = true
  producer_valid : ∀ thread pc, state.producer thread = some pc →
    pc.Valid state.memory chain
  producer_unique : ∀ left right leftPc rightPc,
    state.producer left = some leftPc → state.producer right = some rightPc →
      leftPc.node = rightPc.node → left = right
  consumer_valid : ∀ pc, state.consumer = some pc → pc.Valid state.memory
  detached : ∀ pc node, state.consumer = some pc → pc.detached = some node →
    node ∉ chain ∧ state.memory.live node = true ∧
      ∀ thread push, state.producer thread = some push → push.node ≠ node
  live_owned : ∀ node, state.memory.live node = true → node ∈ chain ∨
    (∃ thread pc, state.producer thread = some pc ∧ pc.node = node) ∨
      ∃ pc, state.consumer = some pc ∧ pc.detached = some node
  fifo : state.pushed = state.popped ++
    held state.memory state.consumer ++ stored state.memory chain
  balance : ∀ node, state.allocated.count node = state.deleted.count node +
    (if state.memory.live node then 1 else 0)

variable [DecidableEq Addr]

/-! ## One step of `push` -/

section Push

variable {memory : Memory Addr Data} {chain : List Addr}
variable {pending : Addr → Addr → Prop} {pc : PushPc Addr Data}

/-- The chain after a step of `push`. -/
def chainAfter (chain : List Addr) : PushPc Addr Data → List Addr
  | .exchange next => chain ++ [next]
  | _ => chain

/-- The gaps after a step of `push`. -/
def pendingAfter (pending : Addr → Addr → Prop) (memory : Memory Addr Data)
    (pc : PushPc Addr Data) (left right : Addr) : Prop :=
  match pc with
  | .exchange next => pending left right ∨ (left = memory.tail ∧ right = next)
  | .linkPrev _ prev => pending left right ∧ left ≠ prev
  | _ => pending left right

omit [DecidableEq Addr] in
theorem mem_chainAfter {node : Addr} (hnode : node ∈ chainAfter chain pc) :
    node ∈ chain ∨ node = pc.node := by
  cases pc with
  | exchange next => simpa [chainAfter, PushPc.node] using hnode
  | _ => exact .inl hnode

omit [DecidableEq Addr] in
theorem subset_chainAfter {node : Addr} (hnode : node ∈ chain) :
    node ∈ chainAfter chain pc := by
  cases pc with
  | exchange next => exact List.mem_append_left _ hnode
  | _ => exact hnode

theorem pushStep_head : (pushStep memory pc).1.head = memory.head := by
  cases pc <;> rfl

theorem pushStep_live : (pushStep memory pc).1.live = memory.live := by
  cases pc <;> rfl

theorem pushStep_node {pc' : PushPc Addr Data}
    (hpc : (pushStep memory pc).2 = some pc') : pc'.node = pc.node := by
  cases pc <;> cases hpc <;> rfl

/-- The values of the chain are not written. -/
theorem pushStep_data (hvalid : pc.Valid memory chain) {node : Addr}
    (hnode : node ∈ chain) :
    (pushStep memory pc).1.data node = memory.data node := by
  cases pc with
  | writeData next data =>
      exact Function.update_of_ne (ne_of_mem_of_not_mem hnode hvalid) _ _
  | _ => rfl

theorem pushStep_linked (hchain : LinkedChain memory.next pending chain)
    (htail : chain.getLast? = some memory.tail)
    (hvalid : pc.Valid memory chain) {pending' : Addr → Addr → Prop}
    (hgap : ∀ prev node, pc.link = some (prev, node) → pending prev node)
    (hpending : ∀ left right,
      pending' left right ↔ pendingAfter pending memory pc left right) :
    LinkedChain (pushStep memory pc).1.next pending' (chainAfter chain pc) := by
  cases pc with
  | writeData next data => exact hchain.congr_pending hpending
  | clearNext next =>
      exact (hchain.store_outside hvalid none).congr_pending hpending
  | exchange next => exact hchain.exchange htail hvalid.1 hvalid.2 hpending
  | linkPrev next prev => exact hchain.link (hgap prev next rfl) hpending

/-- A link found in the chain stays. -/
theorem pushStep_next_of_some
    (hchain : LinkedChain memory.next pending chain)
    (hvalid : pc.Valid memory chain)
    (hgap : ∀ prev node, pc.link = some (prev, node) → pending prev node)
    {node second : Addr} (hnode : node ∈ chain)
    (hnext : memory.next node = some second) :
    (pushStep memory pc).1.next node = some second := by
  cases pc with
  | writeData next data => exact hnext
  | clearNext next =>
      have hne : node ≠ next := ne_of_mem_of_not_mem hnode hvalid
      simpa [pushStep, Function.update_of_ne hne] using hnext
  | exchange next => exact hnext
  | linkPrev next prev =>
      have hne : node ≠ prev := by
        rintro rfl
        have hopen := (hchain.gap _ _ (hgap node next rfl)).2
        rw [hnext] at hopen
        cases hopen
      simpa [pushStep, Function.update_of_ne hne] using hnext

theorem pushStep_valid (hvalid : pc.Valid memory chain)
    {pc' : PushPc Addr Data} (hpc : (pushStep memory pc).2 = some pc') :
    pc'.Valid (pushStep memory pc).1 (chainAfter chain pc) := by
  cases pc with
  | writeData next data =>
      cases hpc
      exact hvalid
  | clearNext next =>
      cases hpc
      exact ⟨hvalid, by simp [pushStep]⟩
  | exchange next =>
      cases hpc
      trivial
  | linkPrev next prev => cases hpc

/-- A producer with another node is not disturbed. -/
theorem PushPc.Valid.pushStep
    (hchain : LinkedChain memory.next pending chain)
    (hgap : ∀ prev node, pc.link = some (prev, node) → pending prev node)
    {other : PushPc Addr Data} (hother : other.Valid memory chain)
    (hne : other.node ≠ pc.node) :
    other.Valid (pushStep memory pc).1 (chainAfter chain pc) := by
  have houtside : other.node ∉ chain →
      other.node ∉ chainAfter chain pc := fun hout hmem =>
    (mem_chainAfter hmem).elim hout hne
  cases other with
  | writeData next data => exact houtside hother
  | clearNext next => exact houtside hother
  | exchange next =>
      refine ⟨houtside hother.1, ?_⟩
      cases pc with
      | writeData _ _ => exact hother.2
      | clearNext node =>
          have hnext : next ≠ node := hne
          simpa [MpscQueue.pushStep, Function.update_of_ne hnext] using hother.2
      | exchange _ => exact hother.2
      | linkPrev node prev =>
          have hprev : prev ∈ chain :=
            (hchain.gap _ _ (hgap prev node rfl)).1.left_mem
          have hnext : next ≠ prev := fun heq => hother.1 (heq ▸ hprev)
          simpa [MpscQueue.pushStep, Function.update_of_ne hnext] using hother.2
  | linkPrev next prev => trivial

end Push

/-! ## The steps of the system -/

variable {state next : State Addr Data Producer} {chain : List Addr}

theorem Invariant.head_mem (hinv : Invariant state chain) :
    state.memory.head ∈ chain :=
  List.mem_of_head? hinv.head

/-- The values the consumer holds depend on the dummy's value only. -/
theorem Invariant.held_congr (hinv : Invariant state chain)
    {memory : Memory Addr Data}
    (hdata : ∀ node ∈ chain, memory.data node = state.memory.data node) :
    held memory state.consumer = held state.memory state.consumer := by
  cases hpc : state.consumer with
  | none => rfl
  | some pc =>
      have hvalid := hinv.consumer_valid pc hpc
      cases pc with
      | readData h next =>
          have hnext : next = state.memory.head := hvalid
          simp [held, PopPc.held, hdata next (hnext ▸ hinv.head_mem)]
      | _ => rfl

omit [DecidableEq Addr] in
theorem stored_congr {memory memory' : Memory Addr Data}
    (hdata : ∀ node ∈ chain, memory'.data node = memory.data node) :
    stored memory' chain = stored memory chain :=
  List.map_congr_left fun node hnode => hdata node (List.mem_of_mem_tail hnode)

/-- The values behind the dummy after a step of `push`. -/
theorem stored_chainAfter {memory : Memory Addr Data} {pc : PushPc Addr Data}
    {head : Addr} (hhead : chain.head? = some head)
    (hdata : ∀ node ∈ chain,
      (pushStep memory pc).1.data node = memory.data node) :
    stored (pushStep memory pc).1 (chainAfter chain pc) =
      recordPush memory (stored memory chain) pc := by
  have hold := stored_congr hdata
  cases pc with
  | exchange next =>
      cases chain with
      | nil => cases hhead
      | cons first rest => simp [stored, chainAfter, recordPush, pushStep]
  | _ => exact hold

omit [DecidableEq Addr] in
theorem recordPush_append {memory : Memory Addr Data} {pc : PushPc Addr Data}
    (front back : List Data) :
    recordPush memory (front ++ back) pc =
      front ++ recordPush memory back pc := by
  cases pc <;> simp [recordPush]

section Producers

variable [DecidableEq Producer]

/-- The gaps after a producer's step. -/
theorem Invariant.pending_producer (hinv : Invariant state chain)
    {thread : Producer} {pc : PushPc Addr Data}
    (hthread : state.producer thread = some pc) (left right : Addr) :
    PendingLink PushPc.link (Function.update state.producer thread
        (pushStep state.memory pc).2) left right ↔
      pendingAfter (PendingLink PushPc.link state.producer) state.memory pc
        left right := by
  cases pc with
  | writeData node data =>
      apply PendingLink.update_of_none <;> simp [hthread, pushStep, PushPc.link]
  | clearNext node =>
      apply PendingLink.update_of_none <;> simp [hthread, pushStep, PushPc.link]
  | exchange node =>
      apply PendingLink.update_open <;> simp [hthread, PushPc.link]
  | linkPrev node prev =>
      have hgap := hinv.linked.gap prev node ⟨thread, _, hthread, rfl⟩
      apply PendingLink.update_close
      · rintro pc pair hpc hlink
        rw [hthread] at hpc
        cases hpc
        cases hlink
        rfl
      · simp [pushStep]
      · rintro other pc ⟨first, second⟩ hne hother hlink rfl
        have hgap' := hinv.linked.gap first second ⟨other, pc, hother, hlink⟩
        have heq := Adjacent.right_unique hinv.linked.nodup hgap.1 hgap'.1
        apply hne
        apply hinv.producer_unique other thread pc _ hother hthread
        cases pc <;> cases hlink
        exact heq.symm

/-- A node that is live stays in the chain or with a call when a producer
allocates another one. -/
theorem Invariant.live_owned_allocate [Inhabited Data]
    (hinv : Invariant state chain) {thread : Producer} {node : Addr}
    {data : Data} (hthread : state.producer thread = none) {other : Addr}
    (hother : (state.memory.allocate node).live other = true) :
    other ∈ chain ∨
      (∃ owner own, Function.update state.producer thread
        (some (.writeData node data)) owner = some own ∧ own.node = other) ∨
      ∃ consumer, state.consumer = some consumer ∧
        consumer.detached = some other := by
  by_cases heq : other = node
  · subst heq
    exact .inr (.inl ⟨thread, _, Function.update_self .., rfl⟩)
  · have hold : state.memory.live other = true := by
      simpa [Memory.allocate, heq] using hother
    rcases hinv.live_owned other hold with hmem | ⟨owner, pc, hpc, hnode⟩ | hpop
    · exact .inl hmem
    · refine .inr (.inl ⟨owner, pc, ?_, hnode⟩)
      have hne : owner ≠ thread := by
        rintro rfl
        rw [hthread] at hpc
        cases hpc
      simpa [hne] using hpc
    · exact .inr (.inr hpop)

theorem Invariant.callPush [Inhabited Data] (hinv : Invariant state chain)
    {thread : Producer} {node : Addr} {data : Data}
    (hstep : callPush state thread node data = some next) :
    Invariant next chain := by
  simp only [MpscQueue.callPush] at hstep
  split at hstep
  case isFalse => cases hstep
  case isTrue hidle =>
  obtain ⟨hthread, hfree⟩ := hidle
  cases hstep
  have hlive_ne : ∀ other, state.memory.live other = true → other ≠ node := by
    rintro other hlive rfl
    rw [hfree] at hlive
    cases hlive
  have houtside : node ∉ chain := fun hmem =>
    hlive_ne node (hinv.chain_live node hmem) rfl
  have hlive : ∀ other, state.memory.live other = true →
      (state.memory.allocate node).live other = true := by
    intro other hother
    simp [Memory.allocate, hlive_ne other hother, hother]
  have hdata : ∀ other ∈ chain,
      (state.memory.allocate node).data other = state.memory.data other := by
    intro other hmem
    simp [Memory.allocate, ne_of_mem_of_not_mem hmem houtside]
  have hnext : ∀ other, state.memory.live other = true →
      (state.memory.allocate node).next other = state.memory.next other := by
    intro other hother
    simp [Memory.allocate, hlive_ne other hother]
  exact {
    head := hinv.head
    tail := hinv.tail
    linked := (hinv.linked.store_outside houtside none).congr_pending
      fun left right => PendingLink.update_of_none (by simp [hthread])
        (by simp [PushPc.link])
    chain_live := fun other hmem => hlive other (hinv.chain_live other hmem)
    producer_live := fun other pc hpc => by
      rcases update_eq_some_iff.mp hpc with ⟨-, hvalue⟩ | ⟨-, hother⟩
      · cases hvalue
        simp [Memory.allocate, PushPc.node]
      · exact hlive _ (hinv.producer_live other pc hother)
    producer_valid := fun other pc hpc => by
      rcases update_eq_some_iff.mp hpc with ⟨-, hvalue⟩ | ⟨-, hother⟩
      · cases hvalue
        exact houtside
      · have hvalid := hinv.producer_valid other pc hother
        cases pc with
        | exchange pushing =>
            have hpushing := hnext pushing (hinv.producer_live other _ hother)
            exact ⟨hvalid.1, hpushing.trans hvalid.2⟩
        | _ => exact hvalid
    producer_unique := update_unique hinv.producer_unique (by
      rintro pc other otherPc ⟨⟩ - hother
      exact hlive_ne _ (hinv.producer_live other otherPc hother))
    consumer_valid := fun pc hpc => by
      have hvalid := hinv.consumer_valid pc hpc
      cases pc with
      | storeHead h second =>
          refine ⟨hvalid.1, ?_⟩
          rw [hnext h]
          · exact hvalid.2
          · exact hinv.chain_live h (hvalid.1 ▸ hinv.head_mem)
      | _ => exact hvalid
    detached := fun pc old hpc hold => by
      obtain ⟨hout, hlive_old, hother⟩ := hinv.detached pc old hpc hold
      refine ⟨hout, hlive old hlive_old, ?_⟩
      intro other push hpush
      rcases update_eq_some_iff.mp hpush with ⟨-, hvalue⟩ | ⟨-, hpushing⟩
      · cases hvalue
        exact (hlive_ne old hlive_old).symm
      · exact hother other push hpushing
    live_owned := fun _ hother => hinv.live_owned_allocate hthread hother
    fifo := by
      rw [stored_congr hdata, hinv.held_congr hdata]
      exact hinv.fifo
    balance := fun other => by
      have hbalance := hinv.balance other
      by_cases heq : other = node
      · subst heq
        simp [hfree] at hbalance
        simp [Memory.allocate, hbalance]
      · simpa [Memory.allocate, heq, Ne.symm heq] using hbalance }

/-- A node that is live stays in the chain or with a call when a producer takes
a step. -/
theorem Invariant.live_owned_producer (hinv : Invariant state chain)
    {thread : Producer} {pc : PushPc Addr Data}
    (hthread : state.producer thread = some pc) {node : Addr}
    (hnode : state.memory.live node = true) :
    node ∈ chainAfter chain pc ∨
      (∃ owner own, Function.update state.producer thread
        (pushStep state.memory pc).2 owner = some own ∧ own.node = node) ∨
      ∃ consumer, state.consumer = some consumer ∧
        consumer.detached = some node := by
  rcases hinv.live_owned node hnode with hmem | ⟨owner, own, hown, hnode⟩ | hpop
  · exact .inl (subset_chainAfter hmem)
  · by_cases heq : owner = thread
    · subst heq
      rw [hthread] at hown
      cases hown
      cases hafter : (pushStep state.memory pc).2 with
      | some pc' =>
          refine .inr (.inl ⟨owner, pc', Function.update_self .., ?_⟩)
          rw [pushStep_node hafter, hnode]
      | none =>
          refine .inl ?_
          cases pc with
          | linkPrev own prev =>
              have hadj :=
                (hinv.linked.gap prev own ⟨owner, _, hthread, rfl⟩).1
              exact hnode ▸ hadj.right_mem
          | _ => cases hafter
    · exact .inr (.inl ⟨owner, own, by simpa [heq] using hown, hnode⟩)
  · exact .inr (.inr hpop)

theorem Invariant.producerStep (hinv : Invariant state chain)
    {thread : Producer} {pc : PushPc Addr Data}
    (hthread : state.producer thread = some pc)
    (hstep : producerStep state thread = some next) :
    Invariant next (chainAfter chain pc) := by
  simp only [MpscQueue.producerStep, hthread, Option.map_some,
    Option.some.injEq] at hstep
  subst hstep
  have hvalid := hinv.producer_valid thread pc hthread
  have hlive := hinv.producer_live thread pc hthread
  have hgap : ∀ prev node, pc.link = some (prev, node) →
      PendingLink PushPc.link state.producer prev node :=
    fun prev node hlink => ⟨thread, pc, hthread, hlink⟩
  have hdata : ∀ node ∈ chain,
      (pushStep state.memory pc).1.data node = state.memory.data node :=
    fun node hnode => pushStep_data hvalid hnode
  exact {
    head := by
      rw [pushStep_head]
      cases pc <;> simp [chainAfter, hinv.head]
    tail := by
      cases pc <;> simp [chainAfter, pushStep, hinv.tail]
    linked := pushStep_linked hinv.linked hinv.tail hvalid hgap
      (hinv.pending_producer hthread)
    chain_live := fun node hmem => by
      rw [pushStep_live]
      rcases mem_chainAfter hmem with hold | heq
      · exact hinv.chain_live node hold
      · exact heq ▸ hlive
    producer_live := fun other otherPc hpc => by
      rw [pushStep_live]
      rcases update_eq_some_iff.mp hpc with ⟨-, hvalue⟩ | ⟨-, hother⟩
      · rw [pushStep_node hvalue]
        exact hlive
      · exact hinv.producer_live other otherPc hother
    producer_valid := fun other otherPc hpc => by
      rcases update_eq_some_iff.mp hpc with ⟨-, hvalue⟩ | ⟨hne, hother⟩
      · exact pushStep_valid hvalid hvalue
      · apply (hinv.producer_valid other otherPc hother).pushStep
          hinv.linked hgap
        intro heq
        exact hne (hinv.producer_unique _ _ _ _ hother hthread heq)
    producer_unique := update_unique hinv.producer_unique (by
      intro newPc other otherPc hvalue hne hother heq
      rw [pushStep_node hvalue] at heq
      exact hne (hinv.producer_unique _ _ _ _ hother hthread heq))
    consumer_valid := fun consumer hconsumer => by
      have hold := hinv.consumer_valid consumer hconsumer
      cases consumer with
      | loadHead => trivial
      | loadNext h => exact hold.trans pushStep_head.symm
      | storeHead h second =>
          refine ⟨hold.1.trans pushStep_head.symm, ?_⟩
          exact pushStep_next_of_some hinv.linked hvalid hgap
            (hold.1 ▸ hinv.head_mem) hold.2
      | readData h second => exact hold.trans pushStep_head.symm
      | deleteHead h data => trivial
    detached := fun consumer old hconsumer hold => by
      obtain ⟨hout, hlive_old, hother⟩ := hinv.detached consumer old hconsumer hold
      refine ⟨?_, by rw [pushStep_live]; exact hlive_old, ?_⟩
      · intro hmem
        rcases mem_chainAfter hmem with hmem | heq
        · exact hout hmem
        · exact hother thread pc hthread heq.symm
      · intro other push hpush
        rcases update_eq_some_iff.mp hpush with ⟨-, hvalue⟩ | ⟨-, hpushing⟩
        · rw [pushStep_node hvalue]
          exact hother thread pc hthread
        · exact hother other push hpushing
    live_owned := fun node hnode => by
      rw [pushStep_live] at hnode
      exact hinv.live_owned_producer hthread hnode
    fifo := by
      have hheld := hinv.held_congr hdata
      have hstored := stored_chainAfter hinv.head hdata
      change recordPush state.memory state.pushed pc =
        state.popped ++ held (pushStep state.memory pc).1 state.consumer ++
          stored (pushStep state.memory pc).1 (chainAfter chain pc)
      rw [hinv.fifo, recordPush_append, hheld, hstored]
    balance := fun node => by
      rw [pushStep_live]
      exact hinv.balance node }

end Producers

/-! ### The consumer -/

/-- The consumer moves inside `pop` and keeps what it detached and holds. -/
theorem Invariant.move (hinv : Invariant state chain)
    (consumer : Option (PopPc Addr Data))
    (hvalid : ∀ pc, consumer = some pc → pc.Valid state.memory)
    (hdetached : consumer.bind PopPc.detached =
      state.consumer.bind PopPc.detached)
    (hheld : held state.memory consumer = held state.memory state.consumer) :
    Invariant { state with consumer } chain := by
  have hiff : ∀ node, (∃ pc, consumer = some pc ∧ pc.detached = some node) ↔
      ∃ pc, state.consumer = some pc ∧ pc.detached = some node := by
    intro node
    rw [← Option.bind_eq_some_iff, ← Option.bind_eq_some_iff, hdetached]
  exact { hinv with
    consumer_valid := hvalid
    detached := fun pc node hpc hnode => by
      obtain ⟨old, hold, hdrop⟩ := (hiff node).mp ⟨pc, hpc, hnode⟩
      exact hinv.detached old node hold hdrop
    live_owned := fun node hlive => by
      rw [hiff node]
      exact hinv.live_owned node hlive
    fifo := by
      rw [hheld]
      exact hinv.fifo }

theorem Invariant.chain_eq (hinv : Invariant state chain) :
    ∃ rest, chain = state.memory.head :: rest :=
  List.head?_eq_some_iff.mp hinv.head

/-- No producer is pushing the dummy. -/
theorem Invariant.producer_ne_head (hinv : Invariant state chain)
    {thread : Producer} {pc : PushPc Addr Data}
    (hthread : state.producer thread = some pc) :
    pc.node ≠ state.memory.head := by
  intro heq
  have hvalid := hinv.producer_valid thread pc hthread
  have hmem := hinv.head_mem
  rw [← heq] at hmem
  obtain ⟨rest, hchain⟩ := hinv.chain_eq
  cases pc with
  | writeData node data => exact hvalid hmem
  | clearNext node => exact hvalid hmem
  | exchange node => exact hvalid.1 hmem
  | linkPrev node prev =>
      have hadj := (hinv.linked.gap prev node ⟨thread, _, hthread, rfl⟩).1
      have hnodup := hinv.linked.nodup
      rw [hchain] at hadj hnodup
      have hrest : node ∈ rest := by
        rcases Adjacent.cons_iff.mp hadj with ⟨-, hfirst⟩ | hlater
        · exact List.mem_of_head? hfirst
        · exact hlater.right_mem
      have hnode : node = state.memory.head := heq
      exact (List.nodup_cons.mp hnodup).1 (hnode ▸ hrest)

/-- `head.store(next)`: the dummy leaves the chain and the consumer holds the
value of the next node. -/
theorem Invariant.storeHead (hinv : Invariant state chain) {h second : Addr}
    (hpc : state.consumer = some (.storeHead h second)) :
    Invariant { state with
      memory := { state.memory with head := second }
      consumer := some (.readData h second) } chain.tail := by
  obtain ⟨rfl, hnext⟩ := hinv.consumer_valid _ hpc
  obtain ⟨rest, hchain⟩ := hinv.chain_eq
  have hlinked := hinv.linked
  have hlast := hinv.tail
  have hfifo := hinv.fifo
  rw [hchain] at hlinked hlast hfifo
  have hnotMem := (List.nodup_cons.mp hlinked.nodup).1
  have hfirst := hlinked.second_of_next hnext
  have hsub : ∀ node, node ∉ chain → node ∉ rest := by
    intro node hout hmem
    rw [hchain] at hout
    exact hout (List.mem_cons_of_mem _ hmem)
  have htail : chain.tail = rest := by rw [hchain, List.tail_cons]
  rw [htail]
  obtain ⟨later, hrest⟩ : ∃ later, rest = second :: later := by
    cases rest with
    | nil => cases hfirst
    | cons first later => exact ⟨later, by simpa using hfirst⟩
  exact {
    head := hfirst
    tail := by
      rw [hrest] at hlast ⊢
      simpa using hlast
    linked := hlinked.advance hnext
    chain_live := fun node hmem => by
      apply hinv.chain_live
      rw [hchain]
      exact List.mem_cons_of_mem _ hmem
    producer_live := hinv.producer_live
    producer_valid := fun thread pc hthread => by
      have hvalid := hinv.producer_valid thread pc hthread
      cases pc with
      | writeData node data => exact hsub _ hvalid
      | clearNext node => exact hsub _ hvalid
      | exchange node => exact ⟨hsub _ hvalid.1, hvalid.2⟩
      | linkPrev node prev => trivial
    producer_unique := hinv.producer_unique
    consumer_valid := by
      rintro pc ⟨⟩
      rfl
    detached := by
      rintro pc node ⟨⟩ ⟨⟩
      exact ⟨hnotMem, hinv.chain_live _ hinv.head_mem, fun thread push hpush =>
        hinv.producer_ne_head hpush⟩
    live_owned := fun node hlive => by
      rcases hinv.live_owned node hlive with hmem | hproducer | ⟨pc, hold, hdrop⟩
      · rw [hchain] at hmem
        rcases List.mem_cons.mp hmem with rfl | hlater
        · exact .inr (.inr ⟨_, rfl, rfl⟩)
        · exact .inl hlater
      · exact .inr (.inl hproducer)
      · rw [hpc] at hold
        cases hold
        cases hdrop
    fifo := by
      rw [hpc] at hfifo
      simpa [held, PopPc.held, stored, hrest] using hfifo
    balance := hinv.balance }

/-- `delete h; return true`. -/
theorem Invariant.deleteHead (hinv : Invariant state chain) {h : Addr}
    {data : Data} (hpc : state.consumer = some (.deleteHead h data)) :
    Invariant { state with
      memory := state.memory.delete h
      consumer := none
      popped := state.popped ++ [data]
      deleted := state.deleted ++ [h] } chain := by
  obtain ⟨hout, hlive_h, hproducer⟩ := hinv.detached _ h hpc rfl
  exact {
    head := hinv.head
    tail := hinv.tail
    linked := hinv.linked
    chain_live := fun node hmem => by
      have hne := ne_of_mem_of_not_mem hmem hout
      simpa [Memory.delete, hne] using hinv.chain_live node hmem
    producer_live := fun thread pc hthread => by
      have hne := hproducer thread pc hthread
      simpa [Memory.delete, hne] using hinv.producer_live thread pc hthread
    producer_valid := hinv.producer_valid
    producer_unique := hinv.producer_unique
    consumer_valid := by simp
    detached := by simp
    live_owned := fun node hlive => by
      have hne : node ≠ h := by
        rintro rfl
        simp [Memory.delete] at hlive
      have hold : state.memory.live node = true := by
        simpa [Memory.delete, hne] using hlive
      rcases hinv.live_owned node hold with hmem | hother | ⟨pc, hpop, hdrop⟩
      · exact .inl hmem
      · exact .inr (.inl hother)
      · rw [hpc] at hpop
        cases hpop
        exact absurd (Option.some.inj hdrop).symm hne
    fifo := by
      have hfifo := hinv.fifo
      rw [hpc] at hfifo
      have hstored : stored (state.memory.delete h) chain =
        stored state.memory chain := rfl
      simpa [held, PopPc.held, hstored] using hfifo
    balance := fun node => by
      have hbalance := hinv.balance node
      by_cases heq : node = h
      · subst heq
        simpa [Memory.delete, hlive_h] using hbalance
      · simpa [Memory.delete, heq, Ne.symm heq] using hbalance }

theorem Invariant.consumerStep (hinv : Invariant state chain)
    {pc : PopPc Addr Data} (hpc : state.consumer = some pc)
    (hstep : consumerStep state = some next) :
    ∃ chain', Invariant next chain' := by
  have hvalid := hinv.consumer_valid pc hpc
  simp only [MpscQueue.consumerStep, hpc, Option.map_some,
    Option.some.injEq] at hstep
  cases pc with
  | loadHead =>
      simp only [popStep] at hstep
      subst hstep
      refine ⟨chain, hinv.move (some (.loadNext _)) ?_ ?_ ?_⟩
      · rintro pc ⟨⟩
        rfl
      · simp [hpc, PopPc.detached]
      · simp [hpc, held, PopPc.held]
  | loadNext h =>
      cases hnext : state.memory.next h with
      | none =>
          simp only [popStep, hnext] at hstep
          subst hstep
          refine ⟨chain, ?_⟩
          simp only [Option.toList_none, List.append_nil, PopPc.deletes]
          apply hinv.move none
          · simp
          · simp [hpc, PopPc.detached]
          · simp [hpc, held, PopPc.held]
      | some second =>
          simp only [popStep, hnext] at hstep
          subst hstep
          refine ⟨chain, hinv.move (some (.storeHead h second)) ?_ ?_ ?_⟩
          · rintro pc ⟨⟩
            exact ⟨hvalid, hnext⟩
          · simp [hpc, PopPc.detached]
          · simp [hpc, held, PopPc.held]
  | storeHead h second =>
      simp only [popStep] at hstep
      subst hstep
      exact ⟨chain.tail, hinv.storeHead hpc⟩
  | readData h second =>
      simp only [popStep] at hstep
      subst hstep
      refine ⟨chain, hinv.move (some (.deleteHead h _)) ?_ ?_ ?_⟩
      · rintro pc ⟨⟩
        trivial
      · simp [hpc, PopPc.detached]
      · simp [hpc, held, PopPc.held]
  | deleteHead h data =>
      simp only [popStep] at hstep
      subst hstep
      exact ⟨chain, hinv.deleteHead hpc⟩

/-! ## Every reachable state -/

theorem Invariant.initial [Inhabited Data] (dummy : Addr)
    (next : Addr → Option Addr) (data : Addr → Data) :
    Invariant (State.initial dummy next data : State Addr Data Producer)
      [dummy] where
  head := rfl
  tail := rfl
  linked := LinkedChain.singleton
    (by simp [State.initial, Memory.new, Memory.allocate])
    (by simp [PendingLink, State.initial])
  chain_live := by simp [State.initial, Memory.new, Memory.allocate]
  producer_live := by simp [State.initial]
  producer_valid := by simp [State.initial]
  producer_unique := by simp [State.initial]
  consumer_valid := by simp [State.initial]
  detached := by simp [State.initial]
  live_owned := fun node hlive => by
    left
    by_contra hne
    simp only [List.mem_singleton] at hne
    simp [State.initial, Memory.new, Memory.allocate, hne] at hlive
  fifo := rfl
  balance := fun node => by
    by_cases heq : node = dummy
    · simp [State.initial, Memory.new, Memory.allocate, heq]
    · simp [State.initial, Memory.new, Memory.allocate, heq, Ne.symm heq]

theorem reachable_invariant [Inhabited Data] [DecidableEq Producer]
    (hreach : (system Addr Data Producer).Reachable state) :
    ∃ chain, Invariant state chain := by
  apply hreach.invariant
  · rintro start ⟨dummy, next, data, rfl⟩
    exact ⟨[dummy], Invariant.initial dummy next data⟩
  · rintro start label final ⟨chain, hinv⟩ hstep
    cases label with
    | callPush thread node data => exact ⟨chain, hinv.callPush hstep⟩
    | push thread =>
        obtain ⟨pc, hpc, -⟩ := Option.map_eq_some_iff.mp hstep
        exact ⟨_, hinv.producerStep hpc hstep⟩
    | callPop =>
        have hcall : callPop start = some final := hstep
        cases hpc : start.consumer with
        | some pc => simp [callPop, hpc] at hcall
        | none =>
            simp only [callPop, hpc, Option.some.injEq] at hcall
            subst hcall
            refine ⟨chain, hinv.move (some .loadHead) ?_ ?_ ?_⟩
            · rintro pc ⟨⟩
              trivial
            · simp [hpc, PopPc.detached]
            · simp [hpc, held, PopPc.held]
    | pop =>
        obtain ⟨pc, hpc, -⟩ := Option.map_eq_some_iff.mp hstep
        exact hinv.consumerStep hpc hstep

end Sensor.MpscQueue
