import Ece552.Ruby.Ordering

/-!
# The channels of an ordered virtual network

What the controllers see of an ordered virtual network, step by step: a send puts packets on the
channels of its destinations, a receive takes the head of an input buffer, and between the two the
network by itself does nothing but deliver. So a protocol that runs on the simple network may be
looked at as one that runs on first-in first-out channels.
-/

namespace Ece552.Ruby

open Library

namespace SimpleNetwork

variable {M : Type} {N : SimpleNetwork} {rank : Nat → Nat → Nat} {hN : Wired N rank}
  {source : M → Nat} {v : Nat} {s s' : NetworkState M} {net : Network Nat M}

/-- The buffers of the virtual network are in order and hold what the channels hold. -/
def Carries (hN : Wired N rank) (source : M → Nat) (v : Nat) (net : Network Nat M)
    (s : NetworkState M) : Prop :=
  Ordered hN source v (fun q => Follows (hops hN v) q net) s

theorem carries_initial (hordered : N.m_ordered v = true) :
    Carries hN source v .empty (N.initial : NetworkState M) :=
  ordered_initial hordered follows_empty

/-- The message that a controller peeks at is the head of its input buffer. -/
theorem Carries.head (h : Carries hN source v net s) {node : Nat}
    {message : Message (NetworkMessage M)}
    (hpeek : (s.buffers (.fromNet node v)).peekMsgPtr s.now = .ok message) :
    net.head node = some ⟨source message.content.body, node, message.content.body⟩ := by
  obtain ⟨first, rest, hheap, -, rfl⟩ := peek_ok.mp hpeek
  have harrived : net.arrived.filter (Packet.isFor node) =
      (parcels source v s (.fromNet node v)).map fun p => ⟨p.src, node, p.msg⟩ :=
    h.history.arrivals node
  rw [parcels_from_net, MessageBuffer.contents, hheap] at harrived
  show net.arrived.find? _ = _
  rw [← List.head?_filter, harrived]
  rfl

/-- What a wakeup does to a message counter. -/
theorem process_counters (hN : Wired N rank) {c : Consumer} (h : N.process s c = .ok s') :
    CountersLe s s' := by
  obtain ⟨s₁, hwakeup, hs'⟩ := bind_eq_ok.mp h
  obtain rfl := Except.ok.inj hs'
  have hrefl : CountersLe s s := fun _ => le_rfl
  have htrans : ∀ {s₁ s₂ : NetworkState M}, CountersLe s s₁ → CountersLe s₁ s₂ →
      CountersLe s s₂ := fun h₁ h₂ q => (h₁ q).trans (h₂ q)
  show CountersLe s s₁
  cases c with
  | perfectSwitch sw =>
      exact (switch_wakeup_ensures (J := CountersLe s) (F := fun _ => True)
        (fun _ _ h => h) (fun _ _ h => h)
        (fun _ _ _ _ _ h _ => ensures_of_ok fun _ hr => htrans h (move_head_counters hN hr))
        hrefl).of_ok hwakeup
  | throttle src dest =>
      simp only [wakeup] at hwakeup
      split at hwakeup
      · exact (throttle_wakeup_ensures (J := CountersLe s) (F := fun _ => True)
          (fun _ _ h => h) (fun _ _ _ _ h => h) (fun _ h => h) (fun _ => trivial)
          (fun _ _ _ h _ _ => ensures_of_ok fun _ hr => htrans h (start_transfer_counters hr))
          hrefl).of_ok hwakeup
      · obtain rfl := Except.ok.inj hwakeup
        exact hrefl
  | controller node =>
      obtain rfl := Except.ok.inj hwakeup
      exact hrefl

end SimpleNetwork

namespace NetworkSystem

open SimpleNetwork

variable {M : Type} {N : SimpleNetwork} {rank : Nat → Nat → Nat} {hN : Wired N rank}
  {source : M → Nat} {v : Nat} {st st' : NetworkSystem M} {label : Label M} {net : Network Nat M}

/-- No step takes a message counter down. -/
theorem counters_le_of_step (hN : Wired N rank)
    (h : st.step N source label = .ok (some st')) : CountersLe st.state st'.state := by
  cases label with
  | send node vnet message delta =>
      obtain ⟨-, s', hsend, rfl⟩ := send_ok.mp h
      obtain ⟨hentered, hframe, -⟩ := enqueue_at_effect hsend
      intro q
      by_cases hq : q = .toNet node vnet
      · rw [hq, hentered.counter]
        exact Nat.le_succ _
      · rw [hframe q hq]
  | receive node vnet =>
      obtain ⟨-, message, -, s', hpop, rfl⟩ := receive_ok.mp h
      obtain ⟨hpopped, hframe, -⟩ := pop_at_effect hpop
      intro q
      by_cases hq : q = .fromNet node vnet
      · rw [hq, pop_counter hpopped]
      · rw [hframe q hq]
  | wakeup c =>
      obtain ⟨-, s', hprocess, rfl⟩ := wakeup_ok.mp h
      exact process_counters hN hprocess
  | tick =>
      obtain ⟨-, rfl⟩ := tick_ok.mp h
      exact fun _ => le_rfl

/-- A message that is sent goes on the channels of its destinations. -/
theorem carries_send {node vnet delta : Nat} {message : NetworkMessage M}
    (h : Carries hN source v net st.state)
    (hstep : st.step N source (.send node vnet message delta) = .ok (some st'))
    (hfit : CountersFit N v st'.state) :
    (vnet ≠ v → Carries hN source v net st'.state) ∧
      (vnet = v → ∀ dsts : List Nat, dsts.Nodup → dsts.toFinset = message.m_Destination →
        Carries hN source v (net.send (dsts.map fun d => ⟨node, d, message.body⟩)) st'.state) := by
  obtain ⟨⟨hnode, -, hinternal, hsource⟩, s', hsend, rfl⟩ := send_ok.mp hstep
  refine ⟨fun hne => ?_, fun heq dsts hnodup hdests => ?_⟩
  · obtain ⟨-, hframe, -⟩ := enqueue_at_effect hsend
    refine h.same fun q hq => hframe q fun hqn => hne ?_
    rw [← hq, hqn]
    rfl
  · subst heq
    exact h.send (fun _ _ hq hstep => hq.inject hstep hnodup hdests) hnode hinternal hsource hsend
      hfit

/-- A message that is received is the head of an input buffer. -/
theorem carries_receive {node vnet : Nat} (h : Carries hN source v net st.state)
    (hstep : st.step N source (.receive node vnet) = .ok (some st')) :
    (vnet ≠ v → Carries hN source v net st'.state) ∧
      (vnet = v → Carries hN source v (net.pop node) st'.state) := by
  obtain ⟨-, message, hpeek, s', hpop, rfl⟩ := receive_ok.mp hstep
  refine ⟨fun hne => ?_, fun heq => ?_⟩
  · obtain ⟨-, hframe, -⟩ := pop_at_effect hpop
    refine h.same fun q hq => hframe q fun hqn => hne ?_
    rw [← hq, hqn]
    rfl
  · subst heq
    exact h.receive (fun _ _ _ hq hstep => (hq.eject hstep).2) hpeek hpop

/-- What happens inside the network is deliveries. -/
theorem carries_inside (hordered : N.m_ordered v = true) (h : Carries hN source v net st.state)
    (hinside : label = .tick ∨ ∃ c, label = .wakeup c)
    (hstep : st.step N source label = .ok (some st')) (hfit : CountersFit N v st'.state) :
    ∃ net', Network.Delivers net net' ∧ Carries hN source v net' st'.state := by
  rcases hinside with rfl | ⟨c, rfl⟩
  · obtain ⟨-, rfl⟩ := tick_ok.mp hstep
    exact ⟨net, .none, h.same fun _ _ => rfl⟩
  · obtain ⟨-, s', hprocess, rfl⟩ := wakeup_ok.mp hstep
    have hsome : Ordered hN source v
        (fun q => ∃ net', Network.Delivers net net' ∧ Follows (hops hN v) q net') st.state :=
      ⟨⟨net, .none, h.history⟩, h.inOrder, h.split⟩
    have hafter := Ordered.process (Follows.stable net) (fun _ => hsome) hordered hprocess hfit
    obtain ⟨net', hdelivers, hfollows⟩ := hafter.history
    exact ⟨net', hdelivers, hfollows, hafter.inOrder, hafter.split⟩

end NetworkSystem

end Ece552.Ruby
