import Sensor.Core.LinkedChain
import Sensor.Queue.IntMpscQueue

/-!
# The invariant of the intrusive queue

Between a `tail.exchange` and the store that links it the list is cut, and
several producers may have cut it at once.  The invariant names the chain the
nodes would form once every pending link is stored: it starts at `head`, ends
at `tail`, and its client nodes are the ones pushed and not yet returned.
-/

namespace Sensor.IntMpscQueue

variable {Node Producer : Type*}

/-- Some thread has exchanged `right` in after `left` and must still link it. -/
def Pending (producer : Producer → Option (PushPc Node))
    (consumer : Option (PopPc Node)) (left right : NodePtr Node) : Prop :=
  (∃ thread, producer thread = some (.linkPrev right left)) ∨
    ∃ h, consumer = some (.pushStub h (.linkPrev right left))

theorem pending_consumer {producer : Producer → Option (PushPc Node)}
    {old new : Option (PopPc Node)} {left right : NodePtr Node}
    (hold : ∀ h next prev, old ≠ some (.pushStub h (.linkPrev next prev)))
    (hnew : ∀ h next prev, new ≠ some (.pushStub h (.linkPrev next prev))) :
    Pending producer new left right ↔ Pending producer old left right := by
  simp [Pending, hold, hnew]

section Update

variable [DecidableEq Producer]

theorem pending_update {producer : Producer → Option (PushPc Node)}
    {consumer : Option (PopPc Node)} {thread : Producer}
    {value : Option (PushPc Node)} {left right : NodePtr Node} :
    Pending (Function.update producer thread value) consumer left right ↔
      value = some (.linkPrev right left) ∨
        (∃ other, other ≠ thread ∧
          producer other = some (.linkPrev right left)) ∨
        ∃ h, consumer = some (.pushStub h (.linkPrev right left)) := by
  simp only [Pending, update_eq_some_iff]
  constructor
  · rintro (⟨other, ⟨-, hvalue⟩ | hother⟩ | hstub)
    · exact .inl hvalue
    · exact .inr (.inl ⟨other, hother⟩)
    · exact .inr (.inr hstub)
  · rintro (hvalue | ⟨other, hother⟩ | hstub)
    · exact .inl ⟨thread, .inl ⟨rfl, hvalue⟩⟩
    · exact .inl ⟨other, .inr hother⟩
    · exact .inr hstub

/-- Replacing the state of a thread that has no pending link by another such
state leaves the gaps alone. -/
theorem pending_update_of_not_link {producer : Producer → Option (PushPc Node)}
    {consumer : Option (PopPc Node)} {thread : Producer}
    {value : Option (PushPc Node)} {left right : NodePtr Node}
    (hold : ∀ next prev, producer thread ≠ some (.linkPrev next prev))
    (hnew : ∀ next prev, value ≠ some (.linkPrev next prev)) :
    Pending (Function.update producer thread value) consumer left right ↔
      Pending producer consumer left right := by
  rw [pending_update, Pending]
  constructor
  · rintro (hvalue | ⟨other, -, hother⟩ | hstub)
    · exact absurd hvalue (hnew _ _)
    · exact .inl ⟨other, hother⟩
    · exact .inr hstub
  · rintro (⟨other, hother⟩ | hstub)
    · refine .inr (.inl ⟨other, ?_, hother⟩)
      rintro rfl
      exact hold _ _ hother
    · exact .inr (.inr hstub)

end Update

variable [DecidableEq Node]

/-- What a thread inside `push` relies on: until its exchange the node is its
own. -/
def PushPc.Valid (memory : Memory Node) (chain : List (NodePtr Node)) :
    PushPc Node → Prop
  | .clearNext next => next ∉ chain
  | .exchange next => next ∉ chain ∧ memory.next next = none
  | .linkPrev _ _ => True

/-- What the consumer relies on inside `pop`: its `h` is the head, and the
stub is out of the chain whenever it is about to push it. -/
def PopPc.Valid (memory : Memory Node) (chain : List (NodePtr Node)) :
    PopPc Node → Prop
  | .loadHead => True
  | .loadNext h => h = memory.head
  | .skipStub n => memory.head = .stub ∧ memory.next .stub = some n
  | .reloadNext h => h = memory.head ∧ h ≠ .stub
  | .takeHead h n => h = memory.head ∧ h ≠ .stub ∧ memory.next h = some n
  | .loadTail h => h = memory.head ∧ h ≠ .stub
  | .pushStub h pc =>
      h = memory.head ∧ h ≠ .stub ∧ pc.node = .stub ∧ pc.Valid memory chain
  | .lastNext h => h = memory.head ∧ h ≠ .stub

/-- The invariant of the queue, with the chain its nodes form. -/
structure Invariant (state : State Node Producer)
    (chain : List (NodePtr Node)) : Prop where
  head : chain.head? = some state.memory.head
  tail : chain.getLast? = some state.memory.tail
  linked : LinkedChain state.memory.next
    (Pending state.producer state.consumer) chain
  producer_valid : ∀ thread pc, state.producer thread = some pc →
    pc.Valid state.memory chain
  producer_node : ∀ thread pc, state.producer thread = some pc →
    ∃ node, pc.node = .client node ∧ state.inUse node = true
  producer_unique : ∀ left right leftPc rightPc,
    state.producer left = some leftPc → state.producer right = some rightPc →
      leftPc.node = rightPc.node → left = right
  chain_inUse : ∀ node, .client node ∈ chain → state.inUse node = true
  consumer_valid : ∀ pc, state.consumer = some pc →
    pc.Valid state.memory chain
  fifo : state.pushed = state.returned ++ chain.filter (· ≠ .stub)
  returned_client : .stub ∉ state.returned

/-! ## One step of `push`, by whichever thread -/

section Push

variable {memory : Memory Node} {chain : List (NodePtr Node)}
variable {pending : NodePtr Node → NodePtr Node → Prop} {pc : PushPc Node}

/-- The gaps after a step of `push`. -/
def pendingAfter (pending : NodePtr Node → NodePtr Node → Prop)
    (memory : Memory Node) (pc : PushPc Node) (left right : NodePtr Node) :
    Prop :=
  match pc with
  | .clearNext _ => pending left right
  | .exchange next => pending left right ∨ (left = memory.tail ∧ right = next)
  | .linkPrev _ prev => pending left right ∧ left ≠ prev

theorem pushStep_head : (pushStep memory pc).1.head = memory.head := by
  cases pc <;> rfl

omit [DecidableEq Node] in
theorem mem_recordPush {node : NodePtr Node}
    (hnode : node ∈ recordPush chain pc) : node ∈ chain ∨ node = pc.node := by
  cases pc with
  | clearNext next => exact .inl hnode
  | exchange next => simpa [recordPush, PushPc.node] using hnode
  | linkPrev next prev => exact .inl hnode

omit [DecidableEq Node] in
theorem head?_recordPush {head : NodePtr Node}
    (hhead : chain.head? = some head) :
    (recordPush chain pc).head? = some head := by
  cases pc <;> simp [recordPush, hhead]

theorem getLast?_recordPush (htail : chain.getLast? = some memory.tail) :
    (recordPush chain pc).getLast? = some (pushStep memory pc).1.tail := by
  cases pc <;> simp [recordPush, pushStep, htail]

/-- A link found in the chain stays. -/
theorem pushStep_next_of_some
    (hchain : LinkedChain memory.next pending chain)
    (hvalid : pc.Valid memory chain)
    (hpending : ∀ next prev, pc = .linkPrev next prev → pending prev next)
    {node second : NodePtr Node} (hnode : node ∈ chain)
    (hnext : memory.next node = some second) :
    (pushStep memory pc).1.next node = some second := by
  cases pc with
  | clearNext next =>
      have hne : node ≠ next := ne_of_mem_of_not_mem hnode hvalid
      simpa [pushStep, Function.update_of_ne hne] using hnext
  | exchange next => exact hnext
  | linkPrev next prev =>
      have hne : node ≠ prev := by
        rintro rfl
        have hopen := (hchain.gap _ _ (hpending next node rfl)).2
        rw [hnext] at hopen
        cases hopen
      simpa [pushStep, Function.update_of_ne hne] using hnext

/-- The `next` field of a node outside the chain is written only by the thread
that pushes it. -/
theorem pushStep_next_outside
    (hchain : LinkedChain memory.next pending chain)
    (hpending : ∀ next prev, pc = .linkPrev next prev → pending prev next)
    {node : NodePtr Node} (hnode : node ∉ chain) (hother : node ≠ pc.node) :
    (pushStep memory pc).1.next node = memory.next node := by
  cases pc with
  | clearNext next => exact Function.update_of_ne hother _ _
  | exchange next => rfl
  | linkPrev next prev =>
      have hprev : prev ∈ chain :=
        (hchain.gap _ _ (hpending next prev rfl)).1.left_mem
      have hne : node ≠ prev := fun heq => hnode (heq ▸ hprev)
      simp [pushStep, Function.update_of_ne hne]

/-- A step of `push` keeps the chain well formed. -/
theorem pushStep_linked
    (hchain : LinkedChain memory.next pending chain)
    (htail : chain.getLast? = some memory.tail)
    (hvalid : pc.Valid memory chain)
    (hpending : ∀ next prev, pc = .linkPrev next prev → pending prev next) :
    LinkedChain (pushStep memory pc).1.next (pendingAfter pending memory pc)
      (recordPush chain pc) := by
  cases pc with
  | clearNext next => exact hchain.store_outside hvalid none
  | exchange next =>
      exact hchain.exchange htail hvalid.1 hvalid.2 fun _ _ => Iff.rfl
  | linkPrev next prev =>
      exact hchain.link (hpending next prev rfl) fun _ _ => Iff.rfl

/-- The thread that pushes is in a valid place again after its step. -/
theorem pushStep_valid (hvalid : pc.Valid memory chain) {pc' : PushPc Node}
    (hpc : (pushStep memory pc).2 = some pc') :
    pc'.Valid (pushStep memory pc).1 (recordPush chain pc) := by
  cases pc with
  | clearNext next =>
      cases hpc
      exact ⟨hvalid, by simp [pushStep]⟩
  | exchange next =>
      cases hpc
      trivial
  | linkPrev next prev => cases hpc

theorem pushStep_node {pc' : PushPc Node}
    (hpc : (pushStep memory pc).2 = some pc') : pc'.node = pc.node := by
  cases pc <;> cases hpc <;> rfl

/-- A thread pushing another node is not disturbed. -/
theorem PushPc.Valid.pushStep
    (hchain : LinkedChain memory.next pending chain)
    (hpending : ∀ next prev, pc = .linkPrev next prev → pending prev next)
    {other : PushPc Node} (hother : other.Valid memory chain)
    (hne : other.node ≠ pc.node) :
    other.Valid (pushStep memory pc).1 (recordPush chain pc) := by
  cases other with
  | clearNext next =>
      intro hmem
      rcases mem_recordPush hmem with hold | heq
      · exact hother hold
      · exact hne heq
  | exchange next =>
      constructor
      · intro hmem
        rcases mem_recordPush hmem with hold | heq
        · exact hother.1 hold
        · exact hne heq
      · rw [pushStep_next_outside hchain hpending hother.1 hne]
        exact hother.2
  | linkPrev next prev => trivial

/-- A producer's step does not disturb the consumer. -/
theorem PopPc.Valid.pushStep
    (hchain : LinkedChain memory.next pending chain)
    (hhead : memory.head ∈ chain)
    (hvalid : pc.Valid memory chain)
    (hpending : ∀ next prev, pc = .linkPrev next prev → pending prev next)
    (hnode : pc.node ≠ .stub)
    {consumer : PopPc Node} (hconsumer : consumer.Valid memory chain) :
    consumer.Valid (pushStep memory pc).1 (recordPush chain pc) := by
  cases consumer with
  | loadHead => trivial
  | loadNext h => exact hconsumer.trans pushStep_head.symm
  | skipStub n =>
      refine ⟨pushStep_head.trans hconsumer.1, ?_⟩
      exact pushStep_next_of_some hchain hvalid hpending
        (hconsumer.1 ▸ hhead) hconsumer.2
  | reloadNext h => exact ⟨hconsumer.1.trans pushStep_head.symm, hconsumer.2⟩
  | takeHead h n =>
      refine ⟨hconsumer.1.trans pushStep_head.symm, hconsumer.2.1, ?_⟩
      exact pushStep_next_of_some hchain hvalid hpending
        (hconsumer.1 ▸ hhead) hconsumer.2.2
  | loadTail h => exact ⟨hconsumer.1.trans pushStep_head.symm, hconsumer.2⟩
  | pushStub h stubPc =>
      refine ⟨hconsumer.1.trans pushStep_head.symm, hconsumer.2.1,
        hconsumer.2.2.1, ?_⟩
      apply hconsumer.2.2.2.pushStep hchain hpending
      rw [hconsumer.2.2.1]
      exact hnode.symm
  | lastNext h => exact ⟨hconsumer.1.trans pushStep_head.symm, hconsumer.2⟩

end Push

/-! ## The steps of the system -/

variable {state next : State Node Producer} {chain : List (NodePtr Node)}

theorem Invariant.head_mem (hinv : Invariant state chain) :
    state.memory.head ∈ chain :=
  List.mem_of_head? hinv.head

theorem Invariant.chain_eq (hinv : Invariant state chain) :
    ∃ rest, chain = state.memory.head :: rest :=
  List.head?_eq_some_iff.mp hinv.head

/-- Only one thread waits to store into a given `prev`. -/
theorem Invariant.linkPrev_unique (hinv : Invariant state chain)
    {thread : Producer} {node prev left right : NodePtr Node}
    (hthread : state.producer thread = some (.linkPrev node prev))
    (hother : (∃ other, other ≠ thread ∧
        state.producer other = some (.linkPrev right left)) ∨
      ∃ h, state.consumer = some (.pushStub h (.linkPrev right left))) :
    left ≠ prev := by
  rintro rfl
  have hgap := hinv.linked.gap left node (.inl ⟨thread, hthread⟩)
  have hgap' := hinv.linked.gap left right (by
    rcases hother with ⟨other, -, hother⟩ | hstub
    · exact .inl ⟨other, hother⟩
    · exact .inr hstub)
  have heq := Adjacent.right_unique hinv.linked.nodup hgap.1 hgap'.1
  rcases hother with ⟨other, hne, hother⟩ | ⟨h, hstub⟩
  · exact hne (hinv.producer_unique _ _ _ _ hother hthread heq.symm)
  · have hvalid := hinv.consumer_valid _ hstub
    obtain ⟨pushing, hnode, -⟩ := hinv.producer_node _ _ hthread
    have hstubNode : right = NodePtr.stub := hvalid.2.2.1
    have hclient : node = NodePtr.client pushing := hnode
    rw [hclient, hstubNode] at heq
    cases heq

theorem Invariant.initial (heap : NodePtr Node → Option (NodePtr Node)) :
    Invariant (State.initial heap : State Node Producer) [.stub] where
  head := rfl
  tail := rfl
  linked := LinkedChain.singleton (by simp [State.initial, Memory.new])
    (by simp [Pending, State.initial])
  producer_valid := by simp [State.initial]
  producer_node := by simp [State.initial]
  producer_unique := by simp [State.initial]
  chain_inUse := by simp
  consumer_valid := by simp [State.initial]
  fifo := rfl
  returned_client := by simp [State.initial]

section Producers

variable [DecidableEq Producer]

theorem Invariant.callPush (hinv : Invariant state chain) {thread : Producer}
    {node : Node} (hstep : callPush state thread node = some next) :
    Invariant next chain := by
  simp only [IntMpscQueue.callPush] at hstep
  split at hstep
  case isFalse => cases hstep
  case isTrue hidle =>
  obtain ⟨hthread, hfree⟩ := hidle
  cases hstep
  have houtside : NodePtr.client node ∉ chain := fun hmem => by
    have hused := hinv.chain_inUse node hmem
    rw [hfree] at hused
    cases hused
  have hold : ∀ other, state.inUse other = true →
      Function.update state.inUse node true other = true := by
    intro other hused
    by_cases heq : other = node <;> simp [heq, hused]
  exact {
    head := hinv.head
    tail := hinv.tail
    linked := hinv.linked.congr_pending fun left right =>
      pending_update_of_not_link (by simp [hthread]) (by simp)
    producer_valid := fun other pc hpc => by
      rcases update_eq_some_iff.mp hpc with ⟨-, hvalue⟩ | ⟨-, hother⟩
      · cases hvalue
        exact houtside
      · exact hinv.producer_valid other pc hother
    producer_node := fun other pc hpc => by
      rcases update_eq_some_iff.mp hpc with ⟨-, hvalue⟩ | ⟨-, hother⟩
      · cases hvalue
        exact ⟨node, rfl, by simp⟩
      · obtain ⟨pushing, hnode, hused⟩ := hinv.producer_node other pc hother
        exact ⟨pushing, hnode, hold pushing hused⟩
    producer_unique := update_unique hinv.producer_unique (by
      intro pc other otherPc hvalue _ hother heq
      cases hvalue
      obtain ⟨pushing, hnode, hused⟩ := hinv.producer_node other otherPc hother
      rw [hnode] at heq
      cases heq
      rw [hfree] at hused
      cases hused)
    chain_inUse := fun other hmem => hold other (hinv.chain_inUse other hmem)
    consumer_valid := hinv.consumer_valid
    fifo := hinv.fifo
    returned_client := hinv.returned_client }

theorem Invariant.pendingAfter_producer (hinv : Invariant state chain)
    {thread : Producer} {pc : PushPc Node}
    (hthread : state.producer thread = some pc) (left right : NodePtr Node) :
    Pending (Function.update state.producer thread
        (pushStep state.memory pc).2) state.consumer left right ↔
      pendingAfter (Pending state.producer state.consumer) state.memory pc
        left right := by
  cases pc with
  | clearNext node =>
      exact pending_update_of_not_link (by simp [hthread])
        (by simp [pushStep])
  | exchange node =>
      rw [pending_update]
      simp only [pushStep, pendingAfter, Pending, Option.some.injEq,
        PushPc.linkPrev.injEq]
      constructor
      · rintro (⟨rfl, rfl⟩ | ⟨other, -, hother⟩ | hstub)
        · exact .inr ⟨rfl, rfl⟩
        · exact .inl (.inl ⟨other, hother⟩)
        · exact .inl (.inr hstub)
      · rintro ((⟨other, hother⟩ | hstub) | ⟨rfl, rfl⟩)
        · refine .inr (.inl ⟨other, ?_, hother⟩)
          rintro rfl
          rw [hthread] at hother
          cases hother
        · exact .inr (.inr hstub)
        · exact .inl ⟨rfl, rfl⟩
  | linkPrev node prev =>
      rw [pending_update]
      simp only [pushStep, pendingAfter, reduceCtorEq, false_or]
      constructor
      · intro hother
        refine ⟨?_, hinv.linkPrev_unique hthread hother⟩
        rcases hother with ⟨other, -, hother⟩ | hstub
        · exact .inl ⟨other, hother⟩
        · exact .inr hstub
      · rintro ⟨⟨other, hother⟩ | hstub, hne⟩
        · refine .inl ⟨other, ?_, hother⟩
          rintro rfl
          rw [hthread] at hother
          cases hother
          exact hne rfl
        · exact .inr hstub

theorem Invariant.producerStep (hinv : Invariant state chain)
    {thread : Producer} {pc : PushPc Node}
    (hthread : state.producer thread = some pc)
    (hstep : producerStep state thread = some next) :
    Invariant next (recordPush chain pc) := by
  simp only [IntMpscQueue.producerStep, hthread, Option.map_some,
    Option.some.injEq] at hstep
  subst hstep
  have hvalid := hinv.producer_valid thread pc hthread
  obtain ⟨node, hnode, hused⟩ := hinv.producer_node thread pc hthread
  have hpending : ∀ next prev, pc = .linkPrev next prev →
      Pending state.producer state.consumer prev next := by
    rintro next prev rfl
    exact .inl ⟨thread, hthread⟩
  exact {
    head := by
      rw [pushStep_head]
      exact head?_recordPush hinv.head
    tail := getLast?_recordPush hinv.tail
    linked := (pushStep_linked hinv.linked hinv.tail hvalid
      hpending).congr_pending (hinv.pendingAfter_producer hthread)
    producer_valid := fun other otherPc hpc => by
      rcases update_eq_some_iff.mp hpc with ⟨-, hvalue⟩ | ⟨hne, hother⟩
      · exact pushStep_valid hvalid hvalue
      · apply (hinv.producer_valid other otherPc hother).pushStep
          hinv.linked hpending
        intro heq
        exact hne (hinv.producer_unique _ _ _ _ hother hthread heq)
    producer_node := fun other otherPc hpc => by
      rcases update_eq_some_iff.mp hpc with ⟨-, hvalue⟩ | ⟨-, hother⟩
      · exact ⟨node, (pushStep_node hvalue).trans hnode, hused⟩
      · exact hinv.producer_node other otherPc hother
    producer_unique := update_unique hinv.producer_unique (by
      intro newPc other otherPc hvalue hne hother heq
      rw [pushStep_node hvalue] at heq
      exact hne (hinv.producer_unique _ _ _ _ hother hthread heq))
    chain_inUse := fun other hmem => by
      rcases mem_recordPush hmem with hold | heq
      · exact hinv.chain_inUse other hold
      · rw [hnode] at heq
        cases heq
        exact hused
    consumer_valid := fun consumer hconsumer =>
      (hinv.consumer_valid consumer hconsumer).pushStep hinv.linked
        hinv.head_mem hvalid hpending (by simp [hnode])
    fifo := by
      cases pc with
      | clearNext _ => exact hinv.fifo
      | exchange _ =>
          cases hnode
          simp [recordPush, hinv.fifo]
      | linkPrev _ _ => exact hinv.fifo
    returned_client := hinv.returned_client }

end Producers

/-! ### The consumer -/

/-- The consumer moves inside `pop` without touching the shared words. -/
theorem Invariant.move (hinv : Invariant state chain)
    (consumer : Option (PopPc Node))
    (hold : ∀ h next prev,
      state.consumer ≠ some (.pushStub h (.linkPrev next prev)))
    (hnew : ∀ h next prev,
      consumer ≠ some (.pushStub h (.linkPrev next prev)))
    (hvalid : ∀ pc, consumer = some pc → pc.Valid state.memory chain) :
    Invariant { state with consumer } chain where
  head := hinv.head
  tail := hinv.tail
  linked := hinv.linked.congr_pending fun _ _ => pending_consumer hold hnew
  producer_valid := hinv.producer_valid
  producer_node := hinv.producer_node
  producer_unique := hinv.producer_unique
  chain_inUse := hinv.chain_inUse
  consumer_valid := hvalid
  fifo := hinv.fifo
  returned_client := hinv.returned_client

/-- No producer is pushing the node at the head of the chain. -/
theorem Invariant.producer_ne_head (hinv : Invariant state chain)
    {thread : Producer} {pc : PushPc Node}
    (hthread : state.producer thread = some pc) :
    pc.node ≠ state.memory.head := by
  intro heq
  have hvalid := hinv.producer_valid thread pc hthread
  obtain ⟨rest, hchain⟩ := hinv.chain_eq
  cases pc with
  | clearNext node =>
      have hnode : node = state.memory.head := heq
      exact hvalid (hnode ▸ hinv.head_mem)
  | exchange node =>
      have hnode : node = state.memory.head := heq
      exact hvalid.1 (hnode ▸ hinv.head_mem)
  | linkPrev node prev =>
      have hgap := (hinv.linked.gap prev node (.inl ⟨thread, hthread⟩)).1
      have hnodup := hinv.linked.nodup
      rw [hchain] at hgap hnodup
      have hmem : node ∈ rest := by
        rcases Adjacent.cons_iff.mp hgap with ⟨-, hfirst⟩ | hlater
        · exact List.mem_of_head? hfirst
        · exact hlater.right_mem
      have hnode : node = state.memory.head := heq
      exact (List.nodup_cons.mp hnodup).1 (hnode ▸ hmem)

/-- The head moves to the node it is linked to, and the old head leaves the
chain. -/
theorem Invariant.advance (hinv : Invariant state chain)
    {second : NodePtr Node} {returned : List (NodePtr Node)}
    {inUse : Node → Bool} (consumer : Option (PopPc Node))
    (hsecond : state.memory.next state.memory.head = some second)
    (hold : ∀ h next prev,
      state.consumer ≠ some (.pushStub h (.linkPrev next prev)))
    (hnew : ∀ h next prev,
      consumer ≠ some (.pushStub h (.linkPrev next prev)))
    (hvalid : ∀ pc, consumer = some pc → pc.Valid
      { state.memory with head := second } chain.tail)
    (hreturned : returned ++ chain.tail.filter (· ≠ .stub) =
      state.returned ++ chain.filter (· ≠ .stub))
    (hclient : .stub ∉ returned)
    (hinUse : ∀ node, .client node ≠ state.memory.head →
      inUse node = state.inUse node) :
    Invariant { state with
      memory := { state.memory with head := second }
      consumer, returned, inUse } chain.tail := by
  obtain ⟨rest, hchain⟩ := hinv.chain_eq
  have hlinked := hinv.linked
  have htail := hinv.tail
  have hnodup := hinv.linked.nodup
  rw [hchain] at hlinked htail hnodup
  have hfirst : rest.head? = some second := hlinked.second_of_next hsecond
  have hrest : chain.tail = rest := by rw [hchain, List.tail_cons]
  have hsub : ∀ node, node ∉ chain → node ∉ rest := by
    intro node hout hmem
    rw [hchain] at hout
    exact hout (List.mem_cons_of_mem _ hmem)
  rw [hrest] at hvalid hreturned ⊢
  exact {
    head := hfirst
    tail := by
      cases rest with
      | nil => cases hfirst
      | cons first later => simpa using htail
    linked := (hlinked.advance hsecond).congr_pending fun _ _ =>
      pending_consumer hold hnew
    producer_valid := fun thread pc hthread => by
      have hold := hinv.producer_valid thread pc hthread
      cases pc with
      | clearNext node => exact hsub _ hold
      | exchange node => exact ⟨hsub _ hold.1, hold.2⟩
      | linkPrev node prev => trivial
    producer_node := fun thread pc hthread => by
      obtain ⟨node, hnode, hused⟩ := hinv.producer_node thread pc hthread
      refine ⟨node, hnode, ?_⟩
      have hne := hinv.producer_ne_head hthread
      rw [hnode] at hne
      exact (hinUse node hne).trans hused
    producer_unique := hinv.producer_unique
    chain_inUse := fun node hmem => by
      have hne := ne_of_mem_of_not_mem hmem (List.nodup_cons.mp hnodup).1
      refine (hinUse node hne).trans (hinv.chain_inUse node ?_)
      rw [hchain]
      exact List.mem_cons_of_mem _ hmem
    consumer_valid := hvalid
    fifo := hinv.fifo.trans hreturned.symm
    returned_client := hclient }

/-- No producer pushes the stub. -/
theorem Invariant.producer_ne_stub (hinv : Invariant state chain)
    {thread : Producer} {pc : PushPc Node}
    (hthread : state.producer thread = some pc) : pc.node ≠ .stub := by
  obtain ⟨node, hnode, -⟩ := hinv.producer_node thread pc hthread
  simp [hnode]

theorem Invariant.pendingAfter_consumer (hinv : Invariant state chain)
    {h : NodePtr Node} {pc : PushPc Node} {consumer : Option (PopPc Node)}
    (hpc : state.consumer = some (.pushStub h pc))
    (hnew : ∀ next prev,
      (∃ h, consumer = some (.pushStub h (.linkPrev next prev))) ↔
        (pushStep state.memory pc).2 = some (.linkPrev next prev))
    (left right : NodePtr Node) :
    Pending state.producer consumer left right ↔
      pendingAfter (Pending state.producer state.consumer) state.memory pc
        left right := by
  rw [Pending, hnew]
  cases pc with
  | clearNext node => simp [pushStep, pendingAfter, Pending, hpc]
  | exchange node =>
      simp [pushStep, pendingAfter, Pending, hpc, and_comm, eq_comm]
  | linkPrev node prev =>
      simp only [pushStep, pendingAfter, Pending, hpc, reduceCtorEq, or_false,
        Option.some.injEq, PopPc.pushStub.injEq, PushPc.linkPrev.injEq]
      constructor
      · rintro ⟨thread, hthread⟩
        refine ⟨.inl ⟨thread, hthread⟩, ?_⟩
        rintro rfl
        have hgap := hinv.linked.gap left right (.inl ⟨thread, hthread⟩)
        have hgap' := hinv.linked.gap left node (.inr ⟨h, hpc⟩)
        have heq := Adjacent.right_unique hinv.linked.nodup hgap.1 hgap'.1
        have hstub : node = .stub := (hinv.consumer_valid _ hpc).2.2.1
        exact hinv.producer_ne_stub hthread (heq.trans hstub)
      · rintro ⟨hthread | ⟨_, -, -, rfl⟩, hne⟩
        · exact hthread
        · exact absurd rfl hne

/-- A step of `push(&stub)` inside `pop`. -/
theorem Invariant.pushStub (hinv : Invariant state chain)
    {h : NodePtr Node} {pc : PushPc Node} (consumer : Option (PopPc Node))
    (hpc : state.consumer = some (.pushStub h pc))
    (hnew : ∀ next prev,
      (∃ h, consumer = some (.pushStub h (.linkPrev next prev))) ↔
        (pushStep state.memory pc).2 = some (.linkPrev next prev))
    (hvalid : ∀ pc', consumer = some pc' → pc'.Valid
      (pushStep state.memory pc).1 (recordPush chain pc)) :
    Invariant { state with memory := (pushStep state.memory pc).1, consumer }
      (recordPush chain pc) := by
  obtain ⟨-, -, hstub, hpush⟩ := hinv.consumer_valid _ hpc
  have hpending : ∀ next prev, pc = .linkPrev next prev →
      Pending state.producer state.consumer prev next := by
    rintro next prev rfl
    exact .inr ⟨h, hpc⟩
  exact {
    head := by
      rw [pushStep_head]
      exact head?_recordPush hinv.head
    tail := getLast?_recordPush hinv.tail
    linked := (pushStep_linked hinv.linked hinv.tail hpush
      hpending).congr_pending (hinv.pendingAfter_consumer hpc hnew)
    producer_valid := fun thread other hthread => by
      apply (hinv.producer_valid thread other hthread).pushStep
        hinv.linked hpending
      rw [hstub]
      exact hinv.producer_ne_stub hthread
    producer_node := hinv.producer_node
    producer_unique := hinv.producer_unique
    chain_inUse := fun node hmem => by
      rcases mem_recordPush hmem with hold | heq
      · exact hinv.chain_inUse node hold
      · rw [hstub] at heq
        cases heq
    consumer_valid := hvalid
    fifo := by
      refine hinv.fifo.trans ?_
      cases pc with
      | clearNext _ => rfl
      | exchange _ =>
          cases hstub
          simp [recordPush]
      | linkPrev _ _ => rfl
    returned_client := hinv.returned_client }

/-- The tail is the head: the chain is one node, and not the stub. -/
theorem Invariant.stub_notMem (hinv : Invariant state chain)
    (htail : state.memory.tail = state.memory.head)
    (hhead : state.memory.head ≠ .stub) : .stub ∉ chain := by
  obtain ⟨rest, hchain⟩ := hinv.chain_eq
  have hlast := hinv.tail
  have hnodup := hinv.linked.nodup
  rw [hchain] at hlast hnodup ⊢
  cases rest with
  | nil => simpa using hhead.symm
  | cons second later =>
      have hmem : state.memory.tail ∈ second :: later := by
        rw [List.getLast?_cons_cons] at hlast
        exact List.mem_of_getLast? hlast
      rw [htail] at hmem
      exact absurd hmem (List.nodup_cons.mp hnodup).1

omit [DecidableEq Node] in
/-- The test `if (n)` that leads to returning `h`. -/
theorem takeOr_valid {h : NodePtr Node} {otherwise : PopResult Node}
    {pc : PopPc Node} {memory : Memory Node}
    (hhead : h = memory.head) (hstub : h ≠ .stub)
    (hotherwise : ∀ pc, otherwise = .running pc → pc.Valid memory chain)
    (htake : takeOr h (memory.next h) otherwise = .running pc) :
    pc.Valid memory chain := by
  cases hnext : memory.next h with
  | none =>
      rw [hnext] at htake
      exact hotherwise pc htake
  | some n =>
      rw [hnext] at htake
      cases htake
      exact ⟨hhead, hstub, hnext⟩

/-- A step of `pop` that only reads: it moves to a place whose locals are true,
or returns `nullptr`. -/
theorem Invariant.readStep (hinv : Invariant state chain)
    (result : PopResult Node) {pc : PopPc Node} (hpc : state.consumer = some pc)
    (hpop : popStep state.memory pc = (state.memory, result))
    (hold : ∀ h push, pc ≠ .pushStub h push)
    (hrunning : ∀ pc', result = .running pc' →
      pc'.Valid state.memory chain ∧
        ∀ h next prev, pc' ≠ .pushStub h (.linkPrev next prev))
    (hdone : ∀ pointer, result = .done pointer → pointer = none)
    (hstep : consumerStep state = some next) : Invariant next chain := by
  have hlink : ∀ h next prev,
      state.consumer ≠ some (.pushStub h (.linkPrev next prev)) := by
    intro h next prev heq
    rw [hpc] at heq
    exact hold _ _ (Option.some.inj heq)
  simp only [consumerStep, hpc, Option.map_some, hpop,
    Option.some.injEq] at hstep
  cases result with
  | running pc' =>
      obtain ⟨hvalid, hnew⟩ := hrunning pc' rfl
      subst hstep
      exact hinv.move (some pc') hlink (by simpa using hnew)
        (by simpa using hvalid)
  | done pointer =>
      have hnone := hdone pointer rfl
      subst hnone hstep
      simp only [Option.toList_none, List.append_nil, release]
      exact hinv.move none hlink (by simp) (by simp)

omit [DecidableEq Node] in
theorem takeOr_ne_link {h : NodePtr Node} {n : Option (NodePtr Node)}
    {otherwise : PopResult Node} {pc : PopPc Node}
    (hotherwise : ∀ pc, otherwise = .running pc → ∀ h push, pc ≠ .pushStub h push)
    (htake : takeOr h n otherwise = .running pc) (h' : NodePtr Node)
    (push : PushPc Node) : pc ≠ .pushStub h' push := by
  cases n with
  | none => exact hotherwise pc htake h' push
  | some n =>
      cases htake
      simp

omit [DecidableEq Node] in
theorem takeOr_ne_done {h : NodePtr Node} {n : Option (NodePtr Node)}
    {otherwise : PopResult Node} {pointer : Option (NodePtr Node)}
    (hotherwise : ∀ pointer, otherwise = .done pointer → pointer = none)
    (htake : takeOr h n otherwise = .done pointer) : pointer = none := by
  cases n with
  | none => exact hotherwise pointer htake
  | some n => cases htake

/-- `n = h->next; if (n) ...` at a head that is not the stub. -/
theorem Invariant.takeOrStep (hinv : Invariant state chain) {pc : PopPc Node}
    {h : NodePtr Node} {otherwise : PopResult Node}
    (hpc : state.consumer = some pc)
    (hpop : popStep state.memory pc =
      (state.memory, takeOr h (state.memory.next h) otherwise))
    (hold : ∀ h push, pc ≠ .pushStub h push)
    (hhead : h = state.memory.head) (hstub : h ≠ .stub)
    (hotherwise : otherwise = .running (.loadTail h) ∨
      otherwise = .done none)
    (hstep : consumerStep state = some next) : Invariant next chain := by
  apply hinv.readStep (takeOr h _ otherwise) hpc hpop hold _ _ hstep
  · intro pc' htake
    constructor
    · apply takeOr_valid hhead hstub _ htake
      rintro other hother
      rcases hotherwise with rfl | rfl <;> cases hother
      exact ⟨hhead, hstub⟩
    · intro h' next prev
      apply takeOr_ne_link _ htake
      rintro other hother
      rcases hotherwise with rfl | rfl <;> cases hother
      simp
  · intro pointer
    apply takeOr_ne_done
    rintro other hother
    rcases hotherwise with rfl | rfl <;> cases hother
    rfl

theorem Invariant.second_of_next (hinv : Invariant state chain)
    {rest : List (NodePtr Node)} (hchain : chain = state.memory.head :: rest)
    {second : NodePtr Node}
    (hsecond : state.memory.next state.memory.head = some second) :
    rest.head? = some second := by
  have hlinked := hinv.linked
  rw [hchain] at hlinked
  exact hlinked.second_of_next hsecond

theorem release_of_ne {inUse : Node → Bool} {pointer : NodePtr Node}
    {node : Node} (hne : .client node ≠ pointer) :
    release inUse (some pointer) node = inUse node := by
  cases pointer with
  | stub => rfl
  | client other =>
      have hnode : node ≠ other := fun heq => hne (congrArg _ heq)
      simp [release, hnode]

/-- The stub at the head is left behind. -/
theorem Invariant.skipStub (hinv : Invariant state chain) {n : NodePtr Node}
    (hpc : state.consumer = some (.skipStub n))
    (hstep : consumerStep state = some next) : Invariant next chain.tail := by
  obtain ⟨hhead, hnext⟩ := hinv.consumer_valid _ hpc
  simp only [IntMpscQueue.consumerStep, hpc, Option.map_some, popStep,
    Option.some.injEq] at hstep
  subst hstep
  have hsecond : state.memory.next state.memory.head = some n := by
    rw [hhead]
    exact hnext
  obtain ⟨rest, hchain⟩ := hinv.chain_eq
  have hnodup := hinv.linked.nodup
  rw [hchain, hhead] at hnodup
  apply hinv.advance (some (.reloadNext n)) hsecond
    (by simp [hpc]) (by simp)
  · rintro pc ⟨⟩
    refine ⟨rfl, ?_⟩
    rintro rfl
    exact (List.nodup_cons.mp hnodup).1
      (List.mem_of_head? (hinv.second_of_next hchain hsecond))
  · simp [hchain, hhead]
  · exact hinv.returned_client
  · exact fun _ _ => rfl

/-- The head is taken out and returned. -/
theorem Invariant.takeHead (hinv : Invariant state chain) {h n : NodePtr Node}
    (hpc : state.consumer = some (.takeHead h n))
    (hstep : consumerStep state = some next) : Invariant next chain.tail := by
  obtain ⟨rfl, hstub, hnext⟩ := hinv.consumer_valid _ hpc
  simp only [IntMpscQueue.consumerStep, hpc, Option.map_some, popStep,
    Option.some.injEq] at hstep
  subst hstep
  obtain ⟨rest, hchain⟩ := hinv.chain_eq
  apply hinv.advance none hnext (by simp [hpc]) (by simp) (by simp)
  · simp [hchain, hstub]
  · simpa [hinv.returned_client] using Ne.symm hstub
  · intro node hne
    exact release_of_ne hne

/-- The consumer pushes the stub behind the last node. -/
theorem Invariant.pushStubStep (hinv : Invariant state chain)
    {h : NodePtr Node} {push : PushPc Node}
    (hpc : state.consumer = some (.pushStub h push))
    (hstep : consumerStep state = some next) :
    Invariant next (recordPush chain push) := by
  obtain ⟨hhead, hstub, hnode, hpush⟩ := hinv.consumer_valid _ hpc
  have hhead' : h = (pushStep state.memory push).1.head :=
    hhead.trans pushStep_head.symm
  cases hafter : (pushStep state.memory push).2 with
  | some push' =>
      have hpop : popStep state.memory (.pushStub h push) =
          ((pushStep state.memory push).1, .running (.pushStub h push')) := by
        simp only [popStep]
        rw [← Prod.eta (pushStep state.memory push), hafter]
      simp only [IntMpscQueue.consumerStep, hpc, Option.map_some, hpop,
        Option.some.injEq] at hstep
      subst hstep
      apply hinv.pushStub (some (.pushStub h push')) hpc
      · simp [hafter]
      · rintro pc ⟨⟩
        exact ⟨hhead', hstub, (pushStep_node hafter).trans hnode,
          pushStep_valid hpush hafter⟩
  | none =>
      have hpop : popStep state.memory (.pushStub h push) =
          ((pushStep state.memory push).1, .running (.lastNext h)) := by
        simp only [popStep]
        rw [← Prod.eta (pushStep state.memory push), hafter]
      simp only [IntMpscQueue.consumerStep, hpc, Option.map_some, hpop,
        Option.some.injEq] at hstep
      subst hstep
      apply hinv.pushStub (some (.lastNext h)) hpc
      · simp [hafter]
      · rintro pc ⟨⟩
        exact ⟨hhead', hstub⟩

theorem Invariant.consumerStep (hinv : Invariant state chain) {pc : PopPc Node}
    (hpc : state.consumer = some pc)
    (hstep : consumerStep state = some next) :
    ∃ chain', Invariant next chain' := by
  have hvalid := hinv.consumer_valid pc hpc
  cases pc with
  | loadHead =>
      refine ⟨chain, hinv.readStep (.running (.loadNext _)) hpc rfl (by simp)
        ?_ (by simp) hstep⟩
      rintro pc' ⟨⟩
      exact ⟨rfl, by simp⟩
  | loadNext h =>
      by_cases hstub : h = .stub
      · subst hstub
        refine ⟨chain, ?_⟩
        cases hnext : state.memory.next .stub with
        | none =>
            exact hinv.readStep (.done none) hpc (by simp [popStep, hnext])
              (by simp) (by simp) (by simp) hstep
        | some n =>
            apply hinv.readStep (.running (.skipStub n)) hpc
              (by simp [popStep, hnext]) (by simp) _ (by simp) hstep
            rintro pc' ⟨⟩
            exact ⟨⟨hvalid.symm, hnext⟩, by simp⟩
      · exact ⟨chain, hinv.takeOrStep hpc (by simp [popStep, hstub]) (by simp)
          hvalid hstub (.inl rfl) hstep⟩
  | skipStub n => exact ⟨_, hinv.skipStub hpc hstep⟩
  | reloadNext h =>
      exact ⟨chain, hinv.takeOrStep hpc rfl (by simp) hvalid.1 hvalid.2
        (.inl rfl) hstep⟩
  | takeHead h n => exact ⟨_, hinv.takeHead hpc hstep⟩
  | loadTail h =>
      obtain ⟨hhead, hstub⟩ := hvalid
      refine ⟨chain, ?_⟩
      by_cases htail : state.memory.tail = h
      · apply hinv.readStep (.running (.pushStub h (.clearNext .stub))) hpc
          (by simp [popStep, htail]) (by simp) _ (by simp) hstep
        rintro pc' ⟨⟩
        refine ⟨⟨hhead, hstub, rfl, ?_⟩, by simp⟩
        exact hinv.stub_notMem (htail.trans hhead) (hhead ▸ hstub)
      · exact hinv.readStep (.done none) hpc (by simp [popStep, htail])
          (by simp) (by simp) (by simp) hstep
  | pushStub h push => exact ⟨_, hinv.pushStubStep hpc hstep⟩
  | lastNext h =>
      exact ⟨chain, hinv.takeOrStep hpc rfl (by simp) hvalid.1 hvalid.2
        (.inr rfl) hstep⟩

/-! ## Every reachable state -/

/-- Every step keeps the invariant, for the chain that results. -/
theorem Invariant.step [DecidableEq Producer]
    {label : Label Node Producer} (hinv : ∃ chain, Invariant state chain)
    (hstep : step state label = some next) :
    ∃ chain, Invariant next chain := by
  obtain ⟨chain, hinv⟩ := hinv
  cases label with
  | callPush thread node => exact ⟨chain, hinv.callPush hstep⟩
  | push thread =>
      cases hpc : state.producer thread with
      | none => simp [IntMpscQueue.step, IntMpscQueue.producerStep, hpc] at hstep
      | some pc => exact ⟨_, hinv.producerStep hpc hstep⟩
  | callPop =>
      simp only [IntMpscQueue.step, callPop] at hstep
      split at hstep
      case isFalse => cases hstep
      case isTrue hidle =>
      cases hstep
      refine ⟨chain, hinv.move (some .loadHead) (by simp [hidle])
        (by simp) ?_⟩
      rintro pc ⟨⟩
      trivial
  | pop =>
      cases hpc : state.consumer with
      | none => simp [IntMpscQueue.step, IntMpscQueue.consumerStep, hpc] at hstep
      | some pc => exact hinv.consumerStep hpc hstep

theorem reachable_invariant [DecidableEq Producer]
    (hreach : (system Node Producer).Reachable state) :
    ∃ chain, Invariant state chain := by
  apply hreach.invariant
  · rintro start ⟨heap, rfl⟩
    exact ⟨[.stub], Invariant.initial heap⟩
  · intro start label final hinv hstep
    exact Invariant.step hinv hstep

end Sensor.IntMpscQueue
