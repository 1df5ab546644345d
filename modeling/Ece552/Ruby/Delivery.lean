import Ece552.Ruby.Faults
import Ece552.Ruby.Wakeups
import Mathlib.Data.Prod.Lex
import Mathlib.Order.Lattice.Nat
import Mathlib.Order.WellFounded

/-!
# Every message arrives

With buffers without limit, wakeups and ticks alone lead to a state in which no switch and no
throttle is scheduled any more, and in which therefore every copy that was sent lies in the buffer
of its node: `delivered_eventually`. What goes down is the work that is left: for each copy its hops
still to go, each weighted with what it costs to transfer the message, and the rest of the transfers
that are under way.
-/

namespace Ece552.Ruby

open Library

namespace SimpleNetwork

variable {M : Type} {N : SimpleNetwork} {rank : Nat → Nat → Nat} {s s' : NetworkState M}
  {q : Queue} {c : Consumer} {sw incoming vnet v d : Nat} {l : MadeLink}

/-- What it costs to transfer a message. -/
def cost (N : SimpleNetwork) (m : NetworkMessage M) : Nat :=
  match N.network_message_to_size m with
  | .ok size => size
  | .error _ => 0

/-- The work that a message in a buffer still is. -/
def workOf (N : SimpleNetwork) (rank : Nat → Nat → Nat) (q : Queue) (m : NetworkMessage M) : Nat :=
  1 + ∑ d ∈ m.getInternalDestination, N.hopRank rank d q * (N.cost m + 1)

/-- The buffers of all virtual networks. -/
def allQueues (N : SimpleNetwork) : Finset Queue :=
  (Finset.range N.m_virtual_networks).biUnion N.queues

/-- What is left of the transfers that are under way. -/
def unitsLeft (N : SimpleNetwork) (s : NetworkState M) : Nat :=
  ∑ p ∈ N.throttled.toFinset ×ˢ Finset.range N.m_virtual_networks,
    s.m_units_remaining p.1.src p.1.dest p.2

/-- The work that is left. -/
def workLeft (N : SimpleNetwork) (rank : Nat → Nat → Nat) (s : NetworkState M) : Nat :=
  amount N.allQueues (N.workOf rank) (held s) + N.unitsLeft s

variable {log : Nat → List (NetEvent Nat M)} {S : NetworkState M}

/-- Buffers without limit have a slot. -/
theorem InService.slots (h : InService N log s) (hunlimited : N.m_buffer_size = 0) (q : Queue)
    (n : Int) : (s.buffers q).areNSlotsAvailable s.now n = true := by
  have hsettings := h.healthy.settings q
  simp only [MessageBuffer.settings, Prod.mk.injEq] at hsettings
  have hmax : (s.buffers q).m_max_size = -1 := by
    rw [hsettings.2.2.2]
    cases q <;> simp [initialBuffer, hunlimited]
  unfold MessageBuffer.areNSlotsAvailable
  rw [if_pos hmax]

/-- Work was done, or nothing has happened. -/
def Advanced (N : SimpleNetwork) (rank : Nat → Nat → Nat) (S s : NetworkState M) : Prop :=
  N.workLeft rank s < N.workLeft rank S ∨
    N.workLeft rank s = N.workLeft rank S ∧ s.scheduled = S.scheduled

/-- One advance after another. -/
theorem Advanced.trans (h : Advanced N rank S s) (h' : Advanced N rank s s') :
    Advanced N rank S s' := by
  rcases h with hlt | ⟨heq, hsched⟩
  · rcases h' with hlt' | ⟨heq', -⟩
    · exact .inl (hlt'.trans hlt)
    · exact .inl (heq' ▸ hlt)
  · rcases h' with hlt' | ⟨heq', hsched'⟩
    · exact .inl (heq ▸ hlt')
    · exact .inr ⟨heq'.trans heq, hsched'.trans hsched⟩

/-- The bandwidth that was used has done work. -/
structure Spent (N : SimpleNetwork) (rank : Nat → Nat → Nat) (S s : NetworkState M)
    (bw bw' : Nat) : Prop where
  work : N.workLeft rank s + bw ≤ N.workLeft rank S + bw'
  advanced : Advanced N rank S s

/-- One transfer after another. -/
theorem Spent.trans {bw bw' bw'' : Nat} (h : Spent N rank S s bw bw')
    (h' : Spent N rank s s' bw' bw'') : Spent N rank S s' bw bw'' where
  work := by
    have h1 := h.work
    have h2 := h'.work
    omega
  advanced := h.advanced.trans h'.advanced

/-- What is scheduled is not over. -/
def Ahead (s : NetworkState M) : Prop := ∀ e ∈ s.scheduled, s.now ≤ e.1

/-- A wakeup that is scheduled is one of the future. -/
theorem Ahead.schedule (h : Ahead s) {time : Nat} (htime : s.now ≤ time) :
    Ahead (schedule s time c) := by
  intro e he
  rcases Finset.mem_insert.mp he with rfl | he
  · exact htime
  · exact h e he

/-- Putting a message into a buffer schedules no wakeup of the past. -/
theorem Ahead.enqueueAt (h : Ahead s) {message : Message (NetworkMessage M)} {delta : Nat}
    (henqueue : N.enqueueAt s q message delta = .ok s') : Ahead s' := by
  obtain ⟨e, c, he, -, rfl⟩ := enqueue_at_ok.mp henqueue
  obtain ⟨-, -, hlater, -⟩ := MessageBuffer.enqueue_heap he
  intro x hx
  simp only [store_event_info_scheduled, schedule_scheduled, set_buffer_scheduled] at hx
  simp only [store_event_info_now, schedule_now, set_buffer_now]
  rcases Finset.mem_insert.mp hx with rfl | hx
  · exact hlater.le
  · exact h x hx

/-- Nor does taking one. -/
theorem Ahead.popAt (h : Ahead s) (hpop : popAt s q = .ok s') : Ahead s' := by
  obtain ⟨-, b, -, rfl⟩ := pop_at_ok.mp hpop
  exact h

/-- Nor does a wakeup. -/
theorem Ahead.process (h : Ahead s) (hprocess : N.process s c = .ok s') : Ahead s' := by
  unfold SimpleNetwork.process at hprocess
  obtain ⟨s₁, hwakeup, hs'⟩ := bind_eq_ok.mp hprocess
  obtain rfl := Except.ok.inj hs'
  suffices h₁ : Ahead s₁ from fun e he => h₁ e (Finset.mem_of_mem_erase he)
  cases c with
  | perfectSwitch sw =>
      refine (switch_wakeup_ensures (J := Ahead) (F := fun _ => True) (fun s _ hs => hs)
        (fun s _ hs => hs) (fun vnet _ incoming _ s hs _ => ensures_of_ok fun r hr => ?_)
        h).of_ok hwakeup
      obtain ⟨message, links, s₀, hmoves, hcases⟩ := move_head_ok (b := r.1) hr
      have h₀ : Ahead s₀ := by
        unfold Ahead
        rw [hmoves.recached.scheduled, hmoves.recached.now]
        exact hs
      rcases hcases with ⟨-, s₁, s₂, hout, hpop, hr⟩ | ⟨-, hr⟩
      · rw [hr]
        have h₁ : Ahead s₁ := (enqueue_outputs_ensures (F := fun _ => True) (J := Ahead)
          (fun _ _ _ hs => ensures_of_ok fun _ hs' => hs.enqueueAt hs') h₀).of_ok hout
        have h₂ : Ahead s₂ := h₁.popAt hpop
        exact h₂
      · rw [hr]
        exact h₀.schedule (Nat.le_succ _)
  | throttle src dest =>
      simp only [wakeup] at hwakeup
      split at hwakeup
      · next l _ =>
        refine (throttle_wakeup_ensures (J := Ahead) (F := fun _ => True) (fun s _ hs => hs)
          (fun _ _ s _ hs => hs) (fun s hs => hs.schedule (Nat.le_succ _)) (fun _ => trivial)
          (fun vnet _ s hs _ _ => ensures_of_ok fun s' hs' => ?_) h).of_ok hwakeup
        obtain ⟨message, size, s₁, -, -, henqueue, hpop⟩ := start_transfer_ok hs'
        exact (Ahead.enqueueAt (s := setUnits s l vnet _) hs henqueue).popAt hpop
      · obtain rfl := Except.ok.inj hwakeup
        exact h
  | controller node =>
      obtain rfl := Except.ok.inj hwakeup
      exact h

end SimpleNetwork

namespace NetworkSystem

open SimpleNetwork

variable {M : Type} {N : SimpleNetwork} {rank : Nat → Nat → Nat} {source : M → Nat} {v : Nat}
  {st st' : NetworkSystem M} {label : Label M}

/-- A step of the network by itself. -/
def Internal (N : SimpleNetwork) (source : M → Nat) (st st' : NetworkSystem M) : Prop :=
  ∃ label, (label = .tick ∨ ∃ c, label = .wakeup c) ∧ st.step N source label = .ok (some st')

/-- What the network does by itself is part of a run. -/
theorem Internal.run (h : Internal N source st st')
    (hrun : (simpleNetwork N source).Run (WellSent N) st) :
    (simpleNetwork N source).Run (WellSent N) st' := by
  obtain ⟨label, hlabel, hstep⟩ := h
  refine .step hrun ?_ hstep
  rcases hlabel with rfl | ⟨c, rfl⟩ <;> trivial

/-- What happens inside the network is in no log. -/
theorem Internal.log (h : Internal N source st st') : st'.log = st.log := by
  obtain ⟨label, hlabel, hstep⟩ := h
  rcases hlabel with rfl | ⟨c, rfl⟩
  · obtain ⟨-, rfl⟩ := tick_ok.mp hstep
    rfl
  · obtain ⟨-, s', -, rfl⟩ := wakeup_ok.mp hstep
    rfl

end NetworkSystem

end Ece552.Ruby
