import Ece552.Ruby.Conservation

/-!
# The counts of the switches

A switch looks at the queues of a virtual network only if it counts a pending message there. Its
counts are right whatever the buffers, the switches and the throttles do: `Counted` holds of the
messages in the queues of each switch, so a switch that counts none has none (`Counted.none`).
-/

namespace Ece552.Ruby

open Library

namespace SimpleNetwork

variable {M : Type} {N : SimpleNetwork} {rank : Nat → Nat → Nat} {s s' : NetworkState M}
  {q : Queue} {c : Consumer} {sw incoming vnet v : Nat} {l : MadeLink}

/-! ## Consumers -/

/-- The buffer into a switch wakes this switch up. -/
theorem consumer_in_queue (hN : Wired N rank) (hin : incoming ∈ N.inPorts sw) :
    N.consumer (N.inQueue incoming sw v) = some (.perfectSwitch sw) := by
  obtain ⟨l, hl, rfl, rfl⟩ := mem_in_ports.mp hin
  replace hl := (mem_switched.mp hl).1
  unfold inQueue
  split
  · next hnode =>
    simp only [consumer]
    cases hfind : N.links.find? fun l' => l'.src = l.src with
    | none => simpa using List.find?_eq_none.mp hfind l hl
    | some l' =>
        have hsrc : l'.src = l.src := by simpa using List.find?_some hfind
        rw [Option.map_some, hN.one_in l hl l' (List.mem_of_find?_eq_some hfind) hnode hsrc]
  · rfl

/-- The buffer of a node wakes no switch up. -/
theorem consumer_from_net {node : Nat} :
    N.consumer (.fromNet node v) ≠ some (.perfectSwitch sw) := by
  simp only [consumer]
  split <;> exact fun heq => by cases heq

/-- A pending message of a switch for each message in its queues. -/
def weightFor (N : SimpleNetwork) (sw : Nat) (q : Queue) (_ : NetworkMessage M) : Int :=
  if N.consumer q = some (.perfectSwitch sw) then 1 else 0

/-- The counts of the switches are right. -/
def Counted (N : SimpleNetwork) (s : NetworkState M) : Prop :=
  ∀ sw v, s.m_pending_message_count sw v = amount (N.queues v) (N.weightFor sw) (held s)

/-- The counts are those of the messages in the buffers. -/
theorem Counted.congr (h : Counted N s)
    (hpending : s'.m_pending_message_count = s.m_pending_message_count)
    (hheld : held s' = held s) : Counted N s' := by
  intro sw v
  rw [hpending, hheld]
  exact h sw v

/-- The virtual networks have buffers of their own. -/
theorem queues_disjoint (hq : q ∈ N.queues v) (hv : vnet ≠ v) : ∀ q' ∈ N.queues vnet, q' ≠ q := by
  rintro q' hq' rfl
  exact hv ((vnet_of_mem hq').symm.trans (vnet_of_mem hq))

/-- A switch counts the messages that are put into its queues. -/
theorem Counted.enqueueAt (h : Counted N s) {message : Message (NetworkMessage M)} {delta : Nat}
    (hq : q ∈ N.queues v) (henqueue : N.enqueueAt s q message delta = .ok s') : Counted N s' := by
  obtain ⟨hadd, hframe⟩ := enqueue_at_held henqueue
  obtain ⟨e, c, -, hconsumer, rfl⟩ := enqueue_at_ok.mp henqueue
  intro sw v'
  have hstored : ∀ s : NetworkState M,
      (storeEventInfo s c (vnetOf q)).m_pending_message_count sw v' =
      s.m_pending_message_count sw v' +
        if c = .perfectSwitch sw ∧ v' = v then 1 else 0 := by
    intro s
    rw [vnet_of_mem hq]
    cases c with
    | perfectSwitch sw' =>
        by_cases heq : sw = sw' ∧ v' = v
        · obtain ⟨rfl, rfl⟩ := heq
          simp [storeEventInfo, addPending]
        · have hne : ¬ (sw' = sw ∧ v' = v) := fun h => heq ⟨h.1.symm, h.2⟩
          simp [storeEventInfo, addPending, heq, hne]
    | throttle | controller => simp [storeEventInfo]
  rw [hstored, schedule_pending, set_buffer_pending, h sw v']
  by_cases hv : v' = v
  · subst hv
    rw [amount_add hq hadd hframe]
    simp [weightFor, hconsumer]
  · rw [if_neg fun heq => hv heq.2, add_zero]
    exact (amount_congr fun q' hq' => hframe q' (queues_disjoint hq hv q' hq')).symm

/-- A switch that counts no pending message has none in its queues. -/
theorem Counted.none (h : Counted N s) (hN : Wired N rank) (hin : incoming ∈ N.inPorts sw)
    (hpending : ¬ 0 < s.m_pending_message_count sw v) :
    (s.buffers (N.inQueue incoming sw v)).m_prio_heap = [] := by
  rw [h sw v] at hpending
  have hnonneg : ∀ q ∈ N.queues v, 0 ≤ ((held s q).map (N.weightFor sw q)).sum := by
    intro q _
    refine List.sum_nonneg fun x hx => ?_
    obtain ⟨m, -, rfl⟩ := List.mem_map.mp hx
    unfold weightFor
    split <;> decide
  have hone := (Finset.single_le_sum hnonneg (in_queue_mem hin)).trans (not_lt.mp hpending)
  have hlength : ((held s (N.inQueue incoming sw v)).map
      (N.weightFor sw (N.inQueue incoming sw v))).sum =
      ((s.buffers (N.inQueue incoming sw v)).m_prio_heap.length : Int) := by
    have hweight : N.weightFor sw (N.inQueue incoming sw v) = fun _ : NetworkMessage M => 1 := by
      funext m
      simp [weightFor, consumer_in_queue hN hin]
    rw [hweight, List.map_const', List.sum_replicate]
    simp [held, MessageBuffer.contents]
  rw [hlength] at hone
  exact List.eq_nil_of_length_eq_zero (by omega)

/-- Moving the message at the head of an in-port. -/
theorem Counted.moveHead (h : Counted N s) (hN : Wired N rank) {moved : Bool}
    (hin : incoming ∈ N.inPorts sw) (hmove : N.moveHead s incoming sw vnet = .ok (moved, s')) :
    Counted N s' := by
  obtain ⟨message, links, s₀, hmoves, hcases⟩ := move_head_ok hmove
  have h₀ : Counted N s₀ := h.congr hmoves.recached.pending hmoves.recached.held
  rcases hcases with ⟨-, s₁, s₂, hout, hpop, rfl⟩ | ⟨-, rfl⟩
  swap
  · exact h₀
  have hlinks : ∀ out ∈ (route links message.content.getInternalDestination).1,
      out.1 ∈ N.links ∧ out.1.src = sw := fun out hmem =>
    mem_out_links.mp (hmoves.perm.subset ((route_spec links _).sublist.subset
      (List.mem_map.mpr ⟨out, hmem, rfl⟩)))
  have h₁ : Counted N s₁ := by
    refine (enqueue_outputs_ensures (F := fun _ => True) (J := Counted N)
      (fun out hmem s hs => ensures_of_ok fun s' hs' => hs.enqueueAt (v := vnet) ?_ hs') h₀).of_ok
      hout
    obtain ⟨hl, hsrc⟩ := hlinks out hmem
    exact hsrc ▸ intermediate_mem (throttled_of_in_port hin hl hsrc)
  obtain ⟨⟨m, hremove⟩, hframe⟩ := pop_at_held hpop
  intro sw' v'
  have hpending : (addPending s₂ sw vnet (-1)).m_pending_message_count sw' v' =
      s₁.m_pending_message_count sw' v' + if sw' = sw ∧ v' = vnet then -1 else 0 := by
    rw [← pop_at_pending hpop]
    rfl
  rw [hpending, h₁ sw' v']
  show _ = amount (N.queues v') (N.weightFor sw') (held s₂)
  by_cases hv : v' = vnet
  · subst hv
    rw [amount_remove (in_queue_mem hin) hremove hframe, weightFor, consumer_in_queue hN hin]
    by_cases hsw : sw' = sw
    · simp [hsw]
    · simp [hsw, Ne.symm hsw]
  · rw [if_neg fun heq => hv heq.2, add_zero]
    exact (amount_congr fun q' hq' =>
      hframe q' (queues_disjoint (in_queue_mem hin) hv q' hq')).symm

/-- The start of a transfer. -/
theorem Counted.startTransfer (h : Counted N s) (hN : Wired N rank) (hl : l ∈ N.throttled)
    (hstart : N.startTransfer s l vnet = .ok s') : Counted N s' := by
  unfold SimpleNetwork.startTransfer at hstart
  obtain ⟨message, -, hstart⟩ := bind_eq_ok.mp hstart
  obtain ⟨size, -, hstart⟩ := bind_eq_ok.mp hstart
  obtain ⟨s₁, henqueue, hpop⟩ := bind_eq_ok.mp hstart
  have hunits : Counted N (setUnits s l vnet (s.m_units_remaining l.src l.dest vnet + size)) :=
    h.congr rfl rfl
  have h₁ : Counted N s₁ := hunits.enqueueAt (out_queue_mem hN hl) henqueue
  obtain ⟨⟨m, hremove⟩, hframe⟩ := pop_at_held hpop
  intro sw' v'
  rw [pop_at_pending hpop, h₁ sw' v']
  by_cases hv : v' = vnet
  · subst hv
    rw [amount_remove (intermediate_mem hl) hremove hframe]
    simp [weightFor, consumer]
  · exact (amount_congr fun q' hq' =>
      hframe q' (queues_disjoint (intermediate_mem hl) hv q' hq')).symm

end SimpleNetwork

end Ece552.Ruby
