import Ece552.Ruby.SimpleNetwork
import Mathlib.Algebra.BigOperators.Group.Multiset.Basic

/-!
# What moves in the simple network

The inversion of every operation of the network, and the rules for its loops: what moving one
message keeps is kept by a wakeup of a switch (`switch_wakeup_ensures`), and what one round of a
transfer keeps by a wakeup of a throttle (`throttle_wakeup_ensures`). `route_spec` says how a
message splits over the links of a switch.
-/

namespace Ece552.Ruby

open Library

namespace SimpleNetwork

variable {M : Type} {N : SimpleNetwork} {s s' : NetworkState M} {q q' : Queue} {c : Consumer}
  {sw incoming : Nat} {vnet v : Nat} {l : MadeLink}

/-! ## Fields that operations leave alone -/

section Frame

variable {b : MessageBuffer (NetworkMessage M)} {time : Nat} {n : Int} {units : Nat}

@[simp] theorem schedule_buffers : (schedule s time c).buffers = s.buffers := rfl

@[simp] theorem schedule_now : (schedule s time c).now = s.now := rfl

@[simp] theorem schedule_pending :
    (schedule s time c).m_pending_message_count = s.m_pending_message_count := rfl

@[simp] theorem schedule_units :
    (schedule s time c).m_units_remaining = s.m_units_remaining := rfl

/-- A wakeup that is scheduled is added to the others. -/
@[simp] theorem schedule_scheduled :
    (schedule s time c).scheduled = insert (time, c) s.scheduled := rfl

/-- The buffer that is set is the new one. -/
@[simp] theorem set_buffer_same : (setBuffer s q b).buffers q = b :=
  Function.update_self ..

/-- Setting a buffer keeps the others. -/
theorem set_buffer_other (h : q' ≠ q) : (setBuffer s q b).buffers q' = s.buffers q' :=
  Function.update_of_ne h ..

@[simp] theorem set_buffer_now : (setBuffer s q b).now = s.now := rfl

/-- Setting a buffer keeps the counts of pending messages. -/
@[simp] theorem set_buffer_pending :
    (setBuffer s q b).m_pending_message_count = s.m_pending_message_count := rfl

@[simp] theorem set_buffer_units : (setBuffer s q b).m_units_remaining = s.m_units_remaining := rfl

@[simp] theorem set_buffer_scheduled : (setBuffer s q b).scheduled = s.scheduled := rfl

@[simp] theorem add_pending_buffers : (addPending s sw vnet n).buffers = s.buffers := rfl

@[simp] theorem add_pending_now : (addPending s sw vnet n).now = s.now := rfl

@[simp] theorem add_pending_units :
    (addPending s sw vnet n).m_units_remaining = s.m_units_remaining := rfl

@[simp] theorem add_pending_scheduled : (addPending s sw vnet n).scheduled = s.scheduled := rfl

@[simp] theorem set_units_buffers : (setUnits s l vnet units).buffers = s.buffers := rfl

@[simp] theorem set_units_now : (setUnits s l vnet units).now = s.now := rfl

@[simp] theorem set_units_pending :
    (setUnits s l vnet units).m_pending_message_count = s.m_pending_message_count := rfl

@[simp] theorem set_units_scheduled : (setUnits s l vnet units).scheduled = s.scheduled := rfl

@[simp] theorem store_event_info_buffers : (storeEventInfo s c vnet).buffers = s.buffers := by
  cases c <;> rfl

@[simp] theorem store_event_info_now : (storeEventInfo s c vnet).now = s.now := by
  cases c <;> rfl

@[simp] theorem store_event_info_units :
    (storeEventInfo s c vnet).m_units_remaining = s.m_units_remaining := by
  cases c <;> rfl

/-- Storing event information schedules nothing. -/
@[simp] theorem store_event_info_scheduled :
    (storeEventInfo s c vnet).scheduled = s.scheduled := by
  cases c <;> rfl

end Frame

/-! ## Inversions -/

/-- An enqueue on a buffer of the network. -/
theorem enqueue_at_ok {message : Message (NetworkMessage M)} {delta : Nat} :
    N.enqueueAt s q message delta = .ok s' ↔ ∃ e c,
      (s.buffers q).enqueue (N.clock s.now) (fun k => N.random (s.draws + k)) message delta =
        .ok e ∧ N.consumer q = some c ∧
      s' = storeEventInfo (schedule (setBuffer { s with draws := s.draws + e.draws } q e.buffer)
        e.arrival_time c) c (vnetOf q) := by
  unfold enqueueAt
  rw [bind_eq_ok]
  refine exists_congr fun e => ?_
  cases N.consumer q with
  | none => simp
  | some c => simp [pure, Except.pure, eq_comm]

/-- When a pop succeeds, and what it does. -/
theorem pop_at_ok : popAt s q = .ok s' ↔ (s.buffers q).isReady s.now = true ∧
    ∃ b, (s.buffers q).pop s.now = .ok b ∧ s' = setBuffer s q b := by
  unfold popAt MessageBuffer.pop
  cases (s.buffers q).isReady s.now with
  | false => simp [bind, Except.bind]
  | true => simp [bind, Except.bind, pure, Except.pure, eq_comm]

/-! ## The order of the links -/

/-- Two states that differ in nothing but the sizes seen last and the random numbers drawn. -/
structure Recached (s s' : NetworkState M) : Prop where
  buffers : ∀ q, ∃ t n, s'.buffers q =
    { s.buffers q with m_time_last_time_size_checked := t, m_size_last_time_size_checked := n }
  rest : s' = { s with buffers := s'.buffers, draws := s'.draws }

namespace Recached

/-- What only reads sizes may read none. -/
theorem refl (s : NetworkState M) : Recached s s := ⟨fun _ => ⟨_, _, rfl⟩, rfl⟩

/-- One after the other, sizes are read too. -/
theorem trans {s'' : NetworkState M} (h : Recached s s') (h' : Recached s' s'') :
    Recached s s'' := by
  refine ⟨fun q => ?_, ?_⟩
  · obtain ⟨t, n, hq⟩ := h.buffers q
    obtain ⟨t', n', hq'⟩ := h'.buffers q
    exact ⟨t', n', by rw [hq', hq]⟩
  · rw [h'.rest, h.rest]

variable (h : Recached s s')
include h

/-- Reading a size keeps the heap of a buffer. -/
theorem heap (q : Queue) : (s'.buffers q).m_prio_heap = (s.buffers q).m_prio_heap := by
  obtain ⟨t, n, hq⟩ := h.buffers q
  rw [hq]

theorem now : s'.now = s.now := by rw [h.rest]

theorem pending : s'.m_pending_message_count = s.m_pending_message_count := by rw [h.rest]

theorem units : s'.m_units_remaining = s.m_units_remaining := by rw [h.rest]

theorem scheduled : s'.scheduled = s.scheduled := by rw [h.rest]

end Recached

/-- `getSize` only reads a size. -/
theorem recached_get_size (s : NetworkState M) (q : Queue) :
    Recached s (setBuffer s q ((s.buffers q).getSize s.now).2) := by
  refine ⟨fun q' => ?_, rfl⟩
  by_cases hq : q' = q
  · subst hq
    rw [set_buffer_same]
    unfold MessageBuffer.getSize
    split
    · exact ⟨_, _, rfl⟩
    · exact ⟨_, _, rfl⟩
  · rw [set_buffer_other hq]
    exact ⟨_, _, rfl⟩

/-- So does the length of an out-queue. -/
theorem recached_out_queue_length (sw dest : Nat) (vnets : List Nat) :
    ∀ s : NetworkState M, Recached s (outQueueLength sw dest s vnets).2 := by
  induction vnets with
  | nil => exact fun s => .refl s
  | cons v vnets ih => exact fun s => (recached_get_size s _).trans (ih _)

/-- Measuring the links reads sizes, and keeps the links. -/
theorem recached_measure_links (N : SimpleNetwork) (sw : Nat) (links : List MadeLink) :
    ∀ s : NetworkState M, Recached s (N.measureLinks sw s links).2 ∧
      (N.measureLinks sw s links).1.map (·.m_link) = links := by
  induction links with
  | nil => exact fun s => ⟨.refl s, rfl⟩
  | cons l links ih =>
      intro s
      have hlength := recached_out_queue_length sw l.dest (List.range N.m_virtual_networks) s
      have hdraw : Recached (outQueueLength sw l.dest s (List.range N.m_virtual_networks)).2
          { (outQueueLength sw l.dest s (List.range N.m_virtual_networks)).2 with
            draws := (outQueueLength sw l.dest s (List.range N.m_virtual_networks)).2.draws + 1 } :=
        ⟨fun _ => ⟨_, _, rfl⟩, rfl⟩
      obtain ⟨hrest, hlinks⟩ := ih { (outQueueLength sw l.dest s
        (List.range N.m_virtual_networks)).2 with
          draws := (outQueueLength sw l.dest s (List.range N.m_virtual_networks)).2.draws + 1 }
      exact ⟨(hlength.trans hdraw).trans hrest, congrArg (l :: ·) hlinks⟩

/-- The links are looked at in some order, and in that of the out-ports on an ordered virtual
network or without adaptive routing. -/
theorem link_order_spec {links : List MadeLink} (h : N.linkOrder s sw vnet = (links, s')) :
    Recached s s' ∧ links.Perm (N.outLinks sw) ∧
      (N.m_ordered vnet = true → links = N.outLinks sw) := by
  unfold linkOrder at h
  split at h
  · next hadaptive =>
    obtain ⟨hcached, hlinks⟩ := recached_measure_links N sw (N.outLinks sw) s
    obtain ⟨rfl, rfl⟩ := Prod.mk.inj h
    refine ⟨hcached, ?_, fun hordered => ?_⟩
    · have hperm := (N.sort_perm (N.measureLinks sw s (N.outLinks sw)).1).map (·.m_link)
      rwa [hlinks] at hperm
    · simp [hordered] at hadaptive
  · obtain ⟨rfl, rfl⟩ := Prod.mk.inj h
    exact ⟨.refl s, .rfl, fun _ => rfl⟩

/-! ## How a message splits -/

/-- Every destination of a message goes to the first link that takes it, or is left. -/
structure RouteSpec (links : List MadeLink) (dsts : NetDest)
    (outputs : List (MadeLink × NetDest)) (left : NetDest) : Prop where
  sublist : (outputs.map Prod.fst).Sublist links
  nonempty : ∀ out ∈ outputs, out.2 ≠ ∅
  takes : ∀ out ∈ outputs, out.2 ⊆ dsts ∧ out.2 ⊆ out.1.routing_table_entry
  first : ∀ out ∈ outputs, ∀ d ∈ out.2,
    links.find? (fun l => decide (d ∈ l.routing_table_entry)) = some out.1
  split : dsts.val = left.val + (outputs.map fun out => out.2.val).sum
  cover : ∀ d ∈ dsts, d ∈ left ∨ ∃ out ∈ outputs, d ∈ out.2
  left : ∀ d ∈ left, ∀ l ∈ links, d ∉ l.routing_table_entry

/-- What `route` does with the destinations. -/
theorem route_spec (links : List MadeLink) (dsts : NetDest) :
    RouteSpec links dsts (route links dsts).1 (route links dsts).2 := by
  induction links generalizing dsts with
  | nil =>
      exact ⟨.slnil, by simp [route], by simp [route], by simp [route], by simp [route],
        fun d hd => .inl hd, fun _ _ _ hl => absurd hl List.not_mem_nil⟩
  | cons l links ih =>
      unfold route
      split
      · next hnone =>
        have hnot : ∀ d ∈ dsts, d ∉ l.routing_table_entry := fun d hd hdl =>
          Finset.eq_empty_iff_forall_notMem.mp hnone d (Finset.mem_inter.mpr ⟨hd, hdl⟩)
        have h := ih dsts
        have hleft : ∀ d ∈ (route links dsts).2, d ∈ dsts := by
          intro d hd
          have hval : d ∈ dsts.val := by
            rw [h.split]
            exact Multiset.mem_add.mpr (.inl hd)
          exact hval
        refine ⟨h.sublist.cons l, h.nonempty, h.takes, fun out hout d hd => ?_, h.split, h.cover,
          ?_⟩
        · rw [List.find?_cons_of_neg (by simpa using hnot d ((h.takes out hout).1 hd))]
          exact h.first out hout d hd
        · intro d hd l' hl'
          rcases List.mem_cons.mp hl' with rfl | hl'
          · exact hnot d (hleft d hd)
          · exact h.left d hd l' hl'
      · next hsome =>
        have h := ih (dsts \ l.routing_table_entry)
        simp only
        refine ⟨h.sublist.cons_cons l, ?_, ?_, ?_, ?_, ?_, ?_⟩
        · intro out hout
          rcases List.mem_cons.mp hout with rfl | hout
          · exact hsome
          · exact h.nonempty out hout
        · intro out hout
          rcases List.mem_cons.mp hout with rfl | hout
          · exact ⟨Finset.inter_subset_left, Finset.inter_subset_right⟩
          · exact ⟨(h.takes out hout).1.trans Finset.sdiff_subset, (h.takes out hout).2⟩
        · intro out hout d hd
          rcases List.mem_cons.mp hout with rfl | hout
          · rw [List.find?_cons_of_pos (by simpa using (Finset.mem_inter.mp hd).2)]
          · have hdl := (Finset.mem_sdiff.mp ((h.takes out hout).1 hd)).2
            rw [List.find?_cons_of_neg (by simpa using hdl)]
            exact h.first out hout d hd
        · have hparts : dsts.val = (dsts \ l.routing_table_entry).val +
              (dsts ∩ l.routing_table_entry).val := by
            have hdisj : Disjoint (dsts \ l.routing_table_entry) (dsts ∩ l.routing_table_entry) :=
              Finset.disjoint_left.mpr fun d hd hd' =>
                (Finset.mem_sdiff.mp hd).2 (Finset.mem_inter.mp hd').2
            have hunion : (dsts \ l.routing_table_entry).disjUnion
                (dsts ∩ l.routing_table_entry) hdisj = dsts := by
              rw [Finset.disjUnion_eq_union, Finset.sdiff_union_inter]
            exact (congrArg Finset.val hunion).symm
          rw [List.map_cons, List.sum_cons, hparts, h.split]
          rw [add_assoc, add_comm (List.sum _), ← add_assoc]
        · intro d hd
          by_cases hdl : d ∈ l.routing_table_entry
          · exact .inr ⟨_, List.mem_cons_self, Finset.mem_inter.mpr ⟨hd, hdl⟩⟩
          · refine (h.cover d (Finset.mem_sdiff.mpr ⟨hd, hdl⟩)).imp_right ?_
            rintro ⟨out, hout, hdout⟩
            exact ⟨out, List.mem_cons_of_mem _ hout, hdout⟩
        · intro d hd l' hl'
          rcases List.mem_cons.mp hl' with rfl | hl'
          · have hval : d ∈ (dsts \ l'.routing_table_entry).val := by
              rw [h.split]
              exact Multiset.mem_add.mpr (.inl hd)
            exact (Finset.mem_sdiff.mp hval).2
          · exact h.left d hd l' hl'

/-! ## One message -/

/-- When there is a message to peek at, and which. -/
theorem peek_ok {b : MessageBuffer (NetworkMessage M)} {now : Nat}
    {message : Message (NetworkMessage M)} :
    b.peekMsgPtr now = .ok message ↔
      ∃ node rest, b.m_prio_heap = node :: rest ∧ node.m_time ≤ now ∧ message = node.m_msgptr := by
  unfold MessageBuffer.peekMsgPtr
  cases b.m_prio_heap with
  | nil => simp
  | cons node rest =>
      by_cases h : node.m_time ≤ now
      · simp [h, eq_comm]
      · simp [h]

/-- The enqueues of a message on the intermediate queues of its links. -/
def enqueueOutputs (N : SimpleNetwork) (s : NetworkState M) (sw : Nat) (vnet : Nat)
    (message : Message (NetworkMessage M)) (outputs : List (MadeLink × NetDest)) :
    Except Fault (NetworkState M) :=
  outputs.foldlM (fun s out =>
    N.enqueueAt s (.intermediate sw out.1.dest vnet) (setInternalDestination message out.2)) s

/-- What moving the message at the head of an in-port of a switch takes. -/
structure HeadMoves (N : SimpleNetwork) (s : NetworkState M) (incoming sw : Nat) (vnet : Nat)
    (message : Message (NetworkMessage M)) (links : List MadeLink) (s₀ : NetworkState M) :
    Prop where
  head : ∃ node rest, (s.buffers (N.inQueue incoming sw vnet)).m_prio_heap = node :: rest ∧
    node.m_time ≤ s.now ∧ message = node.m_msgptr
  recached : Recached s s₀
  perm : links.Perm (N.outLinks sw)
  ordered : N.m_ordered vnet = true → links = N.outLinks sw
  all : (route links message.content.getInternalDestination).2 = ∅

/-- What moves when the head of an in-port does. -/
theorem move_head_ok {b : Bool} (h : N.moveHead s incoming sw vnet = .ok (b, s')) :
    ∃ message links s₀, HeadMoves N s incoming sw vnet message links s₀ ∧
      (((b = true ∧ ∀ out ∈ (route links message.content.getInternalDestination).1,
          (s₀.buffers (.intermediate sw out.1.dest vnet)).areNSlotsAvailable s₀.now 1 = true) ∧
        ∃ s₁ s₂, enqueueOutputs N s₀ sw vnet message
          (route links message.content.getInternalDestination).1 = .ok s₁ ∧
          popAt s₁ (N.inQueue incoming sw vnet) = .ok s₂ ∧ s' = addPending s₂ sw vnet (-1)) ∨
        b = false ∧ s' = schedule s₀ (s₀.now + 1) (.perfectSwitch sw)) := by
  unfold moveHead at h
  obtain ⟨message, hpeek, h⟩ := bind_eq_ok.mp h
  obtain ⟨links, s₀, hlinks⟩ : ∃ links s₀, N.linkOrder s sw vnet = (links, s₀) := ⟨_, _, rfl⟩
  rw [hlinks] at h
  obtain ⟨hcached, hperm, hordered⟩ := link_order_spec hlinks
  simp only [bind_eq_ok, assert_that_ok, exists_and_left, exists_const] at h
  obtain ⟨hleft, h⟩ := h
  refine ⟨message, links, s₀, ⟨peek_ok.mp hpeek, hcached, hperm, hordered,
    Finset.card_eq_zero.mp hleft⟩, ?_⟩
  split at h
  · next hslots =>
    obtain ⟨s₁, hout, s₂, hpop, h⟩ := by simpa only [bind_eq_ok] using h
    obtain ⟨rfl, rfl⟩ := Prod.mk.inj (Except.ok.inj h)
    exact .inl ⟨⟨rfl, List.all_eq_true.mp hslots⟩, s₁, s₂, hout, hpop, rfl⟩
  · obtain ⟨rfl, rfl⟩ := Prod.mk.inj (Except.ok.inj h)
    exact .inr ⟨rfl, rfl⟩

/-- What is kept by each enqueue of a message is kept by all of them. -/
theorem enqueue_outputs_ensures {F : Fault → Prop} {J : NetworkState M → Prop}
    {message : Message (NetworkMessage M)} {outputs : List (MadeLink × NetDest)}
    (henqueue : ∀ out ∈ outputs, ∀ s, J s → Ensures F J (N.enqueueAt s
      (.intermediate sw out.1.dest vnet) (setInternalDestination message out.2))) (h : J s) :
    Ensures F J (enqueueOutputs N s sw vnet message outputs) := by
  unfold enqueueOutputs
  induction outputs generalizing s with
  | nil => exact h
  | cons out outputs ih =>
      rw [List.foldlM_cons]
      refine (henqueue out List.mem_cons_self s h).bind fun s' h' => ?_
      exact ih (fun out' hout' => henqueue out' (List.mem_cons_of_mem _ hout')) h'

/-! ## The loops -/

section Loops

variable {F : Fault → Prop} {J : NetworkState M → Prop}

/-- What moving one message keeps is kept by draining a port. -/
theorem drain_port_ensures
    (hmove : ∀ s, J s → (s.buffers (N.inQueue incoming sw vnet)).isReady s.now = true →
      Ensures F (fun r => J r.2) (N.moveHead s incoming sw vnet)) {fuel : Nat} (h : J s) :
    Ensures F J (N.drainPort incoming sw vnet fuel s) := by
  induction fuel generalizing s with
  | zero => exact h
  | succ fuel ih =>
      unfold drainPort
      split
      · next hready =>
        refine (hmove s h hready).bind fun r hr => ?_
        obtain ⟨moved, s'⟩ := r
        cases moved with
        | true => exact ih hr
        | false => exact hr
      · exact h

/-- The ports of a round are in-ports. -/
theorem mem_round_robin {ports : List Nat} {counter start : Nat}
    (h : incoming ∈ (roundRobin ports.length counter start).filterMap (ports[·]?)) :
    incoming ∈ ports := by
  obtain ⟨i, -, hi⟩ := List.mem_filterMap.mp h
  exact List.mem_of_getElem? hi

/-- What every message that moves keeps, the switch keeps. -/
theorem switch_vnet_ensures (hrobin : ∀ s f, J s → J { s with m_round_robin_start := f })
    (hmove : ∀ incoming ∈ N.inPorts sw, ∀ s, J s →
      (s.buffers (N.inQueue incoming sw vnet)).isReady s.now = true →
      Ensures F (fun r => J r.2) (N.moveHead s incoming sw vnet)) (h : J s) :
    Ensures F J (N.switchVnet sw s vnet) := by
  unfold switchVnet
  simp only
  split
  · have hports : ∀ l : List Nat, (∀ incoming ∈ l, incoming ∈ N.inPorts sw) → ∀ s, J s →
        Ensures F J (l.foldlM (fun s incoming => N.drainPort incoming sw vnet
          (s.buffers (N.inQueue incoming sw vnet)).m_prio_heap.length s) s) := by
      intro l
      induction l with
      | nil => exact fun _ s h => h
      | cons incoming l ih =>
          intro hl s h
          rw [List.foldlM_cons]
          refine (drain_port_ensures (hmove incoming (hl incoming List.mem_cons_self)) h).bind ?_
          exact fun s' h' => ih (fun i hi => hl i (List.mem_cons_of_mem _ hi)) s' h'
    exact hports _ (fun incoming hin => mem_round_robin hin) _ (hrobin s _ h)
  · exact hrobin s _ h

/-- The bookkeeping of the priorities, and the virtual networks in their order. -/
theorem vnet_order_spec (s : NetworkState M) (c : Consumer) :
    (∃ f, (N.vnetOrder s c).1 = { s with m_wakeups_wo_switch := f }) ∧
      ∀ v, v ∈ (N.vnetOrder s c).2 ↔ v < N.m_virtual_networks := by
  unfold vnetOrder
  simp only
  split
  · exact ⟨⟨_, rfl⟩, fun v => List.mem_range⟩
  · exact ⟨⟨_, rfl⟩, fun v => by rw [List.mem_reverse, List.mem_range]⟩

/-- What moving one message keeps is kept by a wakeup of a switch. -/
theorem switch_wakeup_ensures (hrobin : ∀ s f, J s → J { s with m_round_robin_start := f })
    (hprio : ∀ s f, J s → J { s with m_wakeups_wo_switch := f })
    (hmove : ∀ vnet < N.m_virtual_networks, ∀ incoming ∈ N.inPorts sw, ∀ s, J s →
      (s.buffers (N.inQueue incoming sw vnet)).isReady s.now = true →
      Ensures F (fun r => J r.2) (N.moveHead s incoming sw vnet)) (h : J s) :
    Ensures F J (N.switchWakeup s sw) := by
  obtain ⟨⟨f, hstate⟩, hmem⟩ := vnet_order_spec (N := N) s (.perfectSwitch sw)
  unfold switchWakeup
  generalize N.vnetOrder s (.perfectSwitch sw) = r at hstate hmem
  obtain ⟨s₀, vnets⟩ := r
  simp only at hstate hmem
  have h₀ : J s₀ := hstate ▸ hprio s f h
  have hvnets : ∀ v ∈ vnets, v < N.m_virtual_networks := fun v hv => (hmem v).mp hv
  clear hmem hstate
  simp only
  induction vnets generalizing s₀ with
  | nil => exact h₀
  | cons v vnets ih =>
      rw [List.foldlM_cons]
      refine (switch_vnet_ensures hrobin (hmove v (hvnets v List.mem_cons_self)) h₀).bind ?_
      exact fun s' h' => ih s' h' fun v' hv' => hvnets v' (List.mem_cons_of_mem _ hv')

/-- What the start of a transfer keeps is kept by all transfers of one virtual network. -/
theorem transfer_loop_ensures (hunits : ∀ s n, J s → J (setUnits s l vnet n))
    (hstart : ∀ s, J s →
      (s.buffers (.intermediate l.src l.dest vnet)).isReady s.now = true →
      N.transferFits s l vnet = true → Ensures F J (N.startTransfer s l vnet))
    {fuel bw : Nat} (h : J s) :
    Ensures F (fun r => J r.1) (N.transferLoop l vnet fuel s bw) := by
  induction fuel generalizing s bw with
  | zero => exact h
  | succ fuel ih =>
      unfold transferLoop
      split
      · next hround =>
        have hfits := (Bool.and_eq_true _ _ ▸ hround).2
        have hround : Ensures F J (N.startIfDone s l vnet) := by
          unfold startIfDone
          split
          · next hready => exact hstart s h (Bool.and_eq_true _ _ ▸ hready).2 hfits
          · exact h
        exact hround.bind fun s' h' => ih (hunits s' _ h')
      · exact h

/-- What the start of a transfer keeps is kept by a wakeup of a throttle. -/
theorem throttle_wakeup_ensures (hprio : ∀ s f, J s → J { s with m_wakeups_wo_switch := f })
    (hunits : ∀ vnet < N.m_virtual_networks, ∀ s n, J s → J (setUnits s l vnet n))
    (hagain : ∀ s, J s → J (schedule s (s.now + 1) (.throttle l.src l.dest)))
    (hbandwidth : ¬ 0 < N.getLinkBandwidth l → F (.assertion "getLinkBandwidth() > 0"))
    (hstart : ∀ vnet < N.m_virtual_networks, ∀ s, J s →
      (s.buffers (.intermediate l.src l.dest vnet)).isReady s.now = true →
      N.transferFits s l vnet = true → Ensures F J (N.startTransfer s l vnet)) (h : J s) :
    Ensures F J (N.throttleWakeup s l) := by
  obtain ⟨⟨f, hstate⟩, hmem⟩ := vnet_order_spec (N := N) s (.throttle l.src l.dest)
  unfold throttleWakeup
  generalize N.vnetOrder s (.throttle l.src l.dest) = r at hstate hmem
  obtain ⟨s₀, vnets⟩ := r
  simp only at hstate hmem
  have h₀ : J s₀ := hstate ▸ hprio s f h
  have hassert : Ensures F (fun _ => True)
      (assertThat "getLinkBandwidth() > 0" (0 < N.getLinkBandwidth l)) := by
    unfold assertThat
    split
    · trivial
    · next hb => exact hbandwidth hb
  refine hassert.bind fun _ _ => ?_
  have hloop : ∀ vnets : List Nat, (∀ v ∈ vnets, v < N.m_virtual_networks) →
      ∀ loop : ThrottleLoop M, J loop.state →
      Ensures F (fun loop : ThrottleLoop M => J loop.state)
        (vnets.foldlM (N.throttleVnet l) loop) := by
    intro vnets
    induction vnets with
    | nil => exact fun _ loop h => h
    | cons v vnets ih =>
        intro hv loop h
        rw [List.foldlM_cons]
        have hlt : v < N.m_virtual_networks := hv v List.mem_cons_self
        have hone : Ensures F (fun loop : ThrottleLoop M => J loop.state)
            (N.throttleVnet l loop v) :=
          (transfer_loop_ensures (hunits v hlt) (hstart v hlt) h).bind fun r hr => hr
        refine hone.bind fun loop' h' => ih (fun v' hv' => ?_) loop' h'
        exact hv v' (List.mem_cons_of_mem _ hv')
  refine (hloop vnets (fun v hv => (hmem v).mp hv) _ h₀).bind fun loop hloop => ?_
  split
  · exact hloop
  · exact hagain _ hloop

end Loops

end SimpleNetwork

end Ece552.Ruby
