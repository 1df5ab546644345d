import Ece552.Ruby.Awake

/-!
# A switch leaves no message behind

The round robin over the in-ports of a switch visits all of them, and each is drained until nothing
that has arrived is left, or the switch is scheduled for the next cycle: `switch_wakeup_done`.
-/

namespace Ece552.Ruby

open Library

namespace SimpleNetwork

variable {M : Type} {N : SimpleNetwork} {rank : Nat → Nat → Nat} {s s' : NetworkState M}
  {q : Queue} {c : Consumer} {sw incoming vnet v : Nat} {l : MadeLink}

/-- While a consumer is at work, its wakeup is still scheduled. -/
structure Working (N : SimpleNetwork) (now : Nat) (c : Consumer) (s : NetworkState M) : Prop where
  awake : Awake N s
  counted : Counted N s
  time : s.now = now
  atWork : (now, c) ∈ s.scheduled

variable {now : Nat}

/-- A switch or throttle is still at work if its buffers stay as they are. -/
theorem Working.same (h : Working N now c s) (hN : Wired N rank) (hon : Onward s s')
    (hbuffers : s'.buffers = s.buffers) (hunits : s'.m_units_remaining = s.m_units_remaining)
    (hpending : s'.m_pending_message_count = s.m_pending_message_count) : Working N now c s' where
  awake := h.awake.same hN hon (fun q => by rw [hbuffers]) hunits
  counted := h.counted.congr hpending (by unfold held; rw [hbuffers])
  time := hon.now.trans h.time
  atWork := hon.scheduled h.atWork

/-- A message that moves leaves the switch at work. -/
theorem Working.moveHead (h : Working N now c s) (hN : Wired N rank) {b : Bool}
    (hin : incoming ∈ N.inPorts sw) (hmove : N.moveHead s incoming sw vnet = .ok (b, s')) :
    Working N now c s' := by
  obtain ⟨hon, -⟩ := move_head_onward hmove
  refine ⟨?_, h.counted.moveHead hN hin hmove, hon.now.trans h.time, hon.scheduled h.atWork⟩
  obtain ⟨message, links, s₀, hmoves, hcases⟩ := move_head_ok hmove
  have hcached := hmoves.recached
  have h₀ : Awake N s₀ := h.awake.same hN hcached.onward hcached.heap hcached.units
  rcases hcases with ⟨-, s₁, s₂, hout, hpop, rfl⟩ | ⟨-, rfl⟩
  · have h₁ : Awake N s₁ := (enqueue_outputs_ensures (F := fun _ => True) (J := Awake N)
      (fun _ _ _ hs => ensures_of_ok fun _ hs' => hs.enqueueAt hN hs') h₀).of_ok hout
    exact (h₁.popAt hN hpop).same hN ⟨rfl, subset_rfl⟩ (fun _ => rfl) rfl
  · exact h₀.same hN ⟨rfl, by simp⟩ (fun _ => rfl) rfl

/-- Nothing that has arrived at an in-port is left, or the switch wakes up again in the next
cycle. -/
def PortDone (N : SimpleNetwork) (now sw incoming v : Nat) (s : NetworkState M) : Prop :=
  (now + 1, .perfectSwitch sw) ∈ s.scheduled ∨
    ∀ node ∈ (s.buffers (N.inQueue incoming sw v)).m_prio_heap, now < node.m_time

/-- A port that is done stays done when a message of another one moves. -/
theorem PortDone.moveHead {incoming' : Nat} (h : PortDone N now sw incoming' v s)
    (hN : Wired N rank) {b : Bool}
    (hmove : N.moveHead s incoming sw vnet = .ok (b, s')) :
    PortDone N now sw incoming' v s' :=
  h.imp (fun hs => (move_head_onward hmove).1.scheduled hs) fun hlater node hnode =>
    hlater node ((move_head_heaps hN hmove).1 incoming' sw v node hnode)

/-- A port is done when its messages have moved, or the wakeup fails. -/
theorem drain_port_done (hN : Wired N rank) (hin : incoming ∈ N.inPorts sw) {fuel : Nat}
    (h : Working N now (.perfectSwitch sw) s)
    (hfuel : (s.buffers (N.inQueue incoming sw vnet)).m_prio_heap.length ≤ fuel) :
    Ensures (fun _ : Fault => True)
      (fun s' => Working N now (.perfectSwitch sw) s' ∧ PortDone N now sw incoming vnet s')
      (N.drainPort incoming sw vnet fuel s) := by
  induction fuel generalizing s with
  | zero =>
      refine ⟨h, .inr fun node hnode => ?_⟩
      rw [List.eq_nil_of_length_eq_zero (Nat.le_zero.mp hfuel)] at hnode
      exact absurd hnode List.not_mem_nil
  | succ fuel ih =>
      unfold drainPort
      split
      · refine ensures_self.bind fun r hr => ?_
        obtain ⟨moved, s'⟩ := r
        have h' := h.moveHead hN hin hr
        obtain ⟨hon, hagain⟩ := move_head_onward hr
        cases moved with
        | true =>
            have hlength := (move_head_heaps hN hr).2 rfl
            exact ih h' (by omega)
        | false => exact ⟨h', .inl (h.time ▸ hagain rfl)⟩
      · next hready =>
        exact ⟨h, .inr fun node hnode => h.time ▸ (h.awake.sorted _).later hready node hnode⟩

/-- The round robin visits every port: so many steps away is the port. -/
theorem mem_round_robin_of_steps {ports i : Nat} (hi : i < ports) {counter start : Nat}
    (h : (if start + 1 ≥ ports then i + 1 else if start < i then i - start
      else i + ports - start) ≤ counter) : i ∈ roundRobin ports counter start := by
  induction counter generalizing start with
  | zero =>
      split at h
      · omega
      · split at h <;> omega
  | succ counter ih =>
      unfold roundRobin
      simp only
      by_cases hfirst : i = if start + 1 ≥ ports then 0 else start + 1
      · rw [hfirst]
        exact List.mem_cons_self
      · refine List.mem_cons_of_mem _ (ih ?_)
        split at hfirst <;> rename_i hstart
        · rw [if_pos hstart] at h
          rw [if_pos hstart]
          split
          · omega
          · split <;> omega
        · rw [if_neg hstart] at h
          rw [if_neg hstart]
          split at h
          · split
            · omega
            · split <;> omega
          · split
            · omega
            · split <;> omega

/-- Every port has its turn. -/
theorem mem_round_robin_all {ports start i : Nat} (hi : i < ports) :
    i ∈ roundRobin ports ports start := by
  refine mem_round_robin_of_steps hi ?_
  split
  · omega
  · split <;> omega

/-- A virtual network is done when all its ports are. -/
theorem switch_vnet_done (hN : Wired N rank) (h : Working N now (.perfectSwitch sw) s) :
    Ensures (fun _ : Fault => True)
      (fun s' => Working N now (.perfectSwitch sw) s' ∧
        ∀ incoming ∈ N.inPorts sw, PortDone N now sw incoming vnet s')
      (N.switchVnet sw s vnet) := by
  unfold switchVnet
  simp only
  split
  · have hports : ∀ incoming ∈ N.inPorts sw, incoming ∈ (roundRobin (N.inPorts sw).length
        (N.inPorts sw).length (s.m_round_robin_start sw)).filterMap ((N.inPorts sw)[·]?) := by
      intro incoming hin
      obtain ⟨i, hi, hget⟩ := List.mem_iff_getElem.mp hin
      exact List.mem_filterMap.mpr ⟨i, mem_round_robin_all hi, by simp [hi, hget]⟩
    have hsub : ∀ incoming ∈ (roundRobin (N.inPorts sw).length (N.inPorts sw).length
        (s.m_round_robin_start sw)).filterMap ((N.inPorts sw)[·]?), incoming ∈ N.inPorts sw :=
      fun incoming hin => mem_round_robin hin
    revert hports hsub
    generalize (roundRobin (N.inPorts sw).length (N.inPorts sw).length
      (s.m_round_robin_start sw)).filterMap ((N.inPorts sw)[·]?) = ports
    intro hports hsub
    have hrobin : ∀ f, Working N now (.perfectSwitch sw) { s with m_round_robin_start := f } :=
      fun f => h.same hN ⟨rfl, subset_rfl⟩ rfl rfl rfl
    have hfold := fun f => Ensures.foldl_each_mem (F := fun _ : Fault => True) (l := ports)
      (I := Working N now (.perfectSwitch sw))
      (P := fun incoming s => PortDone N now sw incoming vnet s) (hrobin f)
      (fun incoming hmem s hs => drain_port_done hN (hsub incoming hmem) hs le_rfl)
      fun incoming hmem incoming' _ s hs hdone => drain_port_ensures
        (fun s hs _ => ensures_of_ok fun r hr => hs.moveHead hN (b := r.1) hr) hdone
    exact (hfold _).mono fun s' hs' =>
      ⟨hs'.1, fun incoming hin => hs'.2 incoming (hports incoming hin)⟩
  · next hpending =>
    refine ⟨h.same hN ⟨rfl, subset_rfl⟩ rfl rfl rfl, fun incoming hin => .inr fun node hnode => ?_⟩
    rw [h.counted.none hN hin hpending] at hnode
    exact absurd hnode List.not_mem_nil

/-- A wakeup of a switch leaves no message behind. -/
theorem switch_wakeup_done (hN : Wired N rank) (h : Working N now (.perfectSwitch sw) s) :
    Ensures (fun _ : Fault => True)
      (fun s' => Working N now (.perfectSwitch sw) s' ∧
        ∀ v < N.m_virtual_networks, ∀ incoming ∈ N.inPorts sw, PortDone N now sw incoming v s')
      (N.switchWakeup s sw) := by
  obtain ⟨⟨f, hstate⟩, hmem⟩ := vnet_order_spec (N := N) s (.perfectSwitch sw)
  unfold switchWakeup
  generalize N.vnetOrder s (.perfectSwitch sw) = r at hstate hmem
  obtain ⟨s₀, vnets⟩ := r
  simp only at hstate hmem ⊢
  subst hstate
  have hprio : Working N now (.perfectSwitch sw) { s with m_wakeups_wo_switch := f } :=
    h.same hN ⟨rfl, subset_rfl⟩ rfl rfl rfl
  have hfold := Ensures.foldl_each_mem (F := fun _ : Fault => True) (l := vnets)
    (f := N.switchVnet sw) (I := Working N now (.perfectSwitch sw))
    (P := fun v s => ∀ incoming ∈ N.inPorts sw, PortDone N now sw incoming v s) hprio
    (fun v _ s hs => switch_vnet_done hN hs)
    fun v _ v' _ s hs hdone => ?_
  · exact hfold.mono fun s' hs' => ⟨hs'.1, fun v hv => hs'.2 v ((hmem v).mpr hv)⟩
  · refine ensures_of_ok fun s' hs' incoming hin => ?_
    exact (switch_vnet_ensures (F := fun _ => True)
      (J := fun s => PortDone N now sw incoming v' s) (fun s f hs => hs)
      (fun _ _ s hs _ => ensures_of_ok fun r hr => hs.moveHead hN (b := r.1) hr)
      (hdone incoming hin)).of_ok hs'

end SimpleNetwork

end Ece552.Ruby
