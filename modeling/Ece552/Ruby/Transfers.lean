import Ece552.Ruby.Draining

/-!
# A throttle leaves nothing to transfer

The loop over the messages of a link goes on until the bandwidth of the cycle is used up, there is
no room behind the link or nothing is left to transfer; in the first two cases the throttle is
scheduled for the next cycle: `throttle_wakeup_done`.
-/

namespace Ece552.Ruby

open Library

namespace SimpleNetwork

variable {M : Type} {N : SimpleNetwork} {rank : Nat → Nat → Nat} {s s' : NetworkState M}
  {q : Queue} {c : Consumer} {sw incoming vnet v : Nat} {l : MadeLink}

variable {now : Nat}

theorem set_units_same {n : Nat} :
    (setUnits s l vnet n).m_units_remaining l.src l.dest vnet = n := by
  simp [setUnits]

theorem set_units_other {n a b v : Nat} (h : ¬ (a = l.src ∧ b = l.dest ∧ v = vnet)) :
    (setUnits s l vnet n).m_units_remaining a b v = s.m_units_remaining a b v := by
  simp [setUnits, h]

/-- A throttle at work may start and go on with transfers. -/
theorem Working.setUnits (h : Working N now (.throttle l.src l.dest) s) (hN : Wired N rank)
    (vnet n : Nat) : Working N now (.throttle l.src l.dest) (setUnits s l vnet n) := by
  refine ⟨?_, h.counted.congr rfl rfl, h.time, h.atWork⟩
  refine h.awake.onward hN ⟨rfl, subset_rfl⟩ h.awake.sorted (fun _ _ hnode => .inl hnode) ?_
  intro l' _ v hpos
  by_cases hsame : l'.src = l.src ∧ l'.dest = l.dest ∧ v = vnet
  · obtain ⟨hsrc, hdest, -⟩ := hsame
    refine .inr (.inr ⟨le_rfl, .inl ?_⟩)
    rw [hsrc, hdest, set_units_now, set_units_scheduled, h.time]
    exact h.atWork
  · rw [set_units_other hsame] at hpos
    exact .inl hpos

/-- What the start of a transfer does. -/
theorem start_transfer_ok (h : N.startTransfer s l vnet = .ok s') :
    ∃ message size s₁, (s.buffers (.intermediate l.src l.dest vnet)).peekMsgPtr s.now =
        .ok message ∧ N.network_message_to_size message.content = .ok size ∧
      N.enqueueAt (setUnits s l vnet (s.m_units_remaining l.src l.dest vnet + size))
        (N.outQueue l.src l.dest vnet) message l.link.m_latency = .ok s₁ ∧
      popAt s₁ (.intermediate l.src l.dest vnet) = .ok s' := by
  unfold SimpleNetwork.startTransfer at h
  obtain ⟨message, hpeek, h⟩ := bind_eq_ok.mp h
  obtain ⟨size, hsize, h⟩ := bind_eq_ok.mp h
  obtain ⟨s₁, henqueue, hpop⟩ := bind_eq_ok.mp h
  exact ⟨message, size, s₁, hpeek, hsize, henqueue, hpop⟩

theorem Working.startTransfer (h : Working N now (.throttle l.src l.dest) s) (hN : Wired N rank)
    (hl : l ∈ N.throttled) (hstart : N.startTransfer s l vnet = .ok s') :
    Working N now (.throttle l.src l.dest) s' := by
  obtain ⟨message, size, s₁, -, -, henqueue, hpop⟩ := start_transfer_ok hstart
  have hunits := h.setUnits hN vnet (s.m_units_remaining l.src l.dest vnet + size)
  have hon := (enqueue_at_onward henqueue).trans (pop_at_onward hpop)
  exact ⟨(hunits.awake.enqueueAt hN henqueue).popAt hN hpop, h.counted.startTransfer hN hl hstart,
    hon.now.trans h.time, hon.scheduled hunits.atWork⟩

/-- Nothing that has arrived is left for a link, and no transfer is under way. -/
structure LinkDone (now : Nat) (l : MadeLink) (v : Nat) (s : NetworkState M) : Prop where
  later : ∀ node ∈ (s.buffers (.intermediate l.src l.dest v)).m_prio_heap, now < node.m_time
  units : s.m_units_remaining l.src l.dest v = 0

theorem LinkDone.waits (h : LinkDone s.now l v s) : transferWaits s l v = false := by
  unfold transferWaits
  rw [h.units, Bool.or_eq_false_iff]
  refine ⟨Bool.eq_false_iff.mpr fun hready => ?_, rfl⟩
  obtain ⟨node, rest, hheap, harrived⟩ := MessageBuffer.isReady_iff.mp hready
  exact absurd (h.later node (hheap ▸ List.mem_cons_self)) (not_lt.mpr harrived)

theorem link_done_of_waits (hsorted : (s.buffers (.intermediate l.src l.dest v)).Sorted)
    (h : transferWaits s l v = false) : LinkDone s.now l v s := by
  unfold transferWaits at h
  rw [Bool.or_eq_false_iff] at h
  refine ⟨hsorted.later (by rw [h.1]; decide), ?_⟩
  have hunits := of_decide_eq_false h.2
  omega

/-- The start of a transfer takes one message of its virtual network. -/
theorem start_transfer_length (h : N.startTransfer s l vnet = .ok s') :
    (s.buffers (.intermediate l.src l.dest vnet)).m_prio_heap.length =
      (s'.buffers (.intermediate l.src l.dest vnet)).m_prio_heap.length + 1 := by
  obtain ⟨-, -, -, hpop, -⟩ := start_transfer_effect h
  obtain ⟨first, hheap, -⟩ := MessageBuffer.pop_ok hpop
  rw [hheap, List.length_cons]

theorem start_transfer_units (h : N.startTransfer s l vnet = .ok s') (hv : v ≠ vnet) :
    s'.m_units_remaining l.src l.dest v = s.m_units_remaining l.src l.dest v := by
  obtain ⟨message, size, s₁, -, -, henqueue, hpop⟩ := start_transfer_ok h
  obtain ⟨-, b, -, rfl⟩ := pop_at_ok.mp hpop
  obtain ⟨e, c, -, -, rfl⟩ := enqueue_at_ok.mp henqueue
  simp only [set_buffer_units, store_event_info_units, schedule_units]
  exact set_units_other fun heq => hv heq.2.2

/-- What starts when no transfer is under way. -/
theorem start_if_done_ok (h : N.startIfDone s l vnet = .ok s') :
    s.m_units_remaining l.src l.dest vnet = 0 ∧ N.startTransfer s l vnet = .ok s' ∨
      s' = s ∧ (transferWaits s l vnet = true → 0 < s.m_units_remaining l.src l.dest vnet) := by
  unfold startIfDone at h
  split at h
  · next hstart =>
    rw [Bool.and_eq_true] at hstart
    exact .inl ⟨of_decide_eq_true hstart.1, h⟩
  · next hstart =>
    refine .inr ⟨(Except.ok.inj h).symm, fun hwaits => ?_⟩
    unfold transferWaits at hwaits
    by_contra hzero
    refine hstart ?_
    have hunits : s.m_units_remaining l.src l.dest vnet = 0 := by omega
    simpa [hunits] using hwaits

/-- The rounds of the loop that are still to come at most. -/
def rounds (s : NetworkState M) (l : MadeLink) (vnet : Nat) : Nat :=
  (s.buffers (.intermediate l.src l.dest vnet)).m_prio_heap.length +
    if 0 < s.m_units_remaining l.src l.dest vnet then 1 else 0

theorem transfer_loop_done (hN : Wired N rank) (hl : l ∈ N.throttled) {fuel bw : Nat}
    (h : Working N now (.throttle l.src l.dest) s) (hfuel : bw = 0 ∨ rounds s l vnet < fuel) :
    Ensures (fun _ : Fault => True)
      (fun r => Working N now (.throttle l.src l.dest) r.1 ∧
        (0 < r.2 → transferWaits r.1 l vnet = true → N.transferFits r.1 l vnet = false))
      (N.transferLoop l vnet fuel s bw) := by
  induction fuel generalizing s bw with
  | zero => exact ⟨h, fun hpos _ => by simp only at hpos; omega⟩
  | succ fuel ih =>
      unfold transferLoop
      split
      · next hcond =>
        simp only [Bool.and_eq_true, decide_eq_true_eq] at hcond
        obtain ⟨⟨hpos, hwaits⟩, -⟩ := hcond
        refine ensures_self.bind fun s' hs' => ?_
        have hrounds : rounds s l vnet < fuel + 1 := by omega
        rcases start_if_done_ok hs' with ⟨hzero, hstart⟩ | ⟨rfl, hunder⟩
        · refine ih ((h.startTransfer hN hl hstart).setUnits hN _ _) ?_
          have hlength := start_transfer_length hstart
          by_cases hleft : bw - s'.m_units_remaining l.src l.dest vnet = 0
          · exact .inl hleft
          · refine .inr ?_
            unfold rounds at hrounds ⊢
            rw [hzero] at hrounds
            rw [set_units_same, set_units_buffers, if_neg (by omega)]
            simp only [lt_irrefl, if_false] at hrounds
            omega
        · have hunits := hunder hwaits
          refine ih (h.setUnits hN _ _) ?_
          by_cases hleft : bw - s'.m_units_remaining l.src l.dest vnet = 0
          · exact .inl hleft
          · refine .inr ?_
            unfold rounds at hrounds ⊢
            rw [if_pos hunits] at hrounds
            rw [set_units_same, set_units_buffers, if_neg (by omega)]
            omega
      · next hcond =>
        refine ⟨h, fun hpos hwaits => Bool.eq_false_iff.mpr fun hfits => hcond ?_⟩
        simp only at hpos hwaits
        simp [hpos, hwaits, hfits]

/-- With nothing to transfer, or no bandwidth, the loop ends at once. -/
theorem transfer_loop_stop {fuel bw : Nat} (h : bw = 0 ∨ transferWaits s l vnet = false) :
    N.transferLoop l vnet fuel s bw = .ok (s, bw) := by
  cases fuel with
  | zero => rfl
  | succ fuel =>
      unfold transferLoop
      rw [if_neg]
      · rfl
      · rcases h with rfl | hwaits
        · simp
        · simp [hwaits]

/-- Transfers of one virtual network leave the others alone. -/
theorem LinkDone.startTransfer (h : LinkDone now l v s) (hv : v ≠ vnet)
    (hstart : N.startTransfer s l vnet = .ok s') : LinkDone now l v s' := by
  obtain ⟨-, -, -, -, hframe, -⟩ := start_transfer_effect hstart
  refine ⟨?_, (start_transfer_units hstart hv).trans h.units⟩
  rw [hframe _ (fun heq => ?_) fun heq => hv (by injection heq)]
  · exact h.later
  · unfold outQueue at heq
    split at heq <;> cases heq

/-- A round of the loop over the virtual networks of a throttle. -/
theorem throttle_vnet_ok {loop loop' : ThrottleLoop M}
    (h : N.throttleVnet l loop vnet = .ok loop') :
    N.transferLoop l vnet
        ((loop.state.buffers (.intermediate l.src l.dest vnet)).m_prio_heap.length + 2) loop.state
        loop.bw_remaining = .ok (loop'.state, loop'.bw_remaining) ∧
      loop'.schedule_wakeup = (loop.schedule_wakeup || (decide (0 < loop'.bw_remaining) &&
        transferWaits loop'.state l vnet && !N.transferFits loop'.state l vnet)) := by
  unfold throttleVnet at h
  obtain ⟨r, hr, h⟩ := bind_eq_ok.mp h
  obtain ⟨s', bw⟩ := r
  obtain rfl := Except.ok.inj h
  exact ⟨hr, rfl⟩

/-- A throttle is done with a virtual network, or it will go on in the next cycle. -/
def VnetDone (now : Nat) (l : MadeLink) (v : Nat) (loop : ThrottleLoop M) : Prop :=
  loop.bw_remaining = 0 ∨ loop.schedule_wakeup = true ∨ LinkDone now l v loop.state

theorem throttle_vnet_done (hN : Wired N rank) (hl : l ∈ N.throttled) {loop : ThrottleLoop M}
    (h : Working N now (.throttle l.src l.dest) loop.state) :
    Ensures (fun _ : Fault => True)
      (fun loop' : ThrottleLoop M => Working N now (.throttle l.src l.dest) loop'.state ∧
        VnetDone now l vnet loop') (N.throttleVnet l loop vnet) := by
  refine ensures_of_ok fun loop' hloop' => ?_
  obtain ⟨hrounds, hschedule⟩ := throttle_vnet_ok hloop'
  have hfuel : rounds loop.state l vnet <
      (loop.state.buffers (.intermediate l.src l.dest vnet)).m_prio_heap.length + 2 := by
    unfold rounds
    split <;> omega
  obtain ⟨hwork, hend⟩ := (transfer_loop_done hN hl h (.inr hfuel)).of_ok hrounds
  refine ⟨hwork, ?_⟩
  by_cases hbw : loop'.bw_remaining = 0
  · exact .inl hbw
  have hpos : 0 < loop'.bw_remaining := by omega
  by_cases hwaits : transferWaits loop'.state l vnet = true
  · refine .inr (.inl ?_)
    rw [hschedule]
    simp [hpos, hwaits, hend hpos hwaits]
  · refine .inr (.inr ?_)
    rw [← hwork.time]
    exact link_done_of_waits (hwork.awake.sorted _) (Bool.eq_false_iff.mpr hwaits)

/-- What a throttle is done with stays done. -/
theorem VnetDone.throttleVnet {loop loop' : ThrottleLoop M} (h : VnetDone now l v loop)
    (htime : loop.state.now = now) (hround : N.throttleVnet l loop vnet = .ok loop') :
    VnetDone now l v loop' := by
  obtain ⟨hrounds, hschedule⟩ := throttle_vnet_ok hround
  rcases h with hbw | hagain | hdone
  · rw [transfer_loop_stop (.inl hbw)] at hrounds
    obtain ⟨-, hbw'⟩ := Prod.mk.inj (Except.ok.inj hrounds)
    exact .inl (hbw'.symm.trans hbw)
  · refine .inr (.inl ?_)
    rw [hschedule, hagain, Bool.true_or]
  · by_cases hv : v = vnet
    · subst hv
      rw [transfer_loop_stop (.inr (LinkDone.waits (htime ▸ hdone)))] at hrounds
      obtain ⟨hstate, -⟩ := Prod.mk.inj (Except.ok.inj hrounds)
      exact .inr (.inr (hstate ▸ hdone))
    · refine .inr (.inr ((transfer_loop_ensures (F := fun _ => True)
        (J := fun s => LinkDone now l v s) (fun s n hs => ⟨hs.later, ?_⟩)
        (fun s hs _ _ => ensures_of_ok fun s' hs' => hs.startTransfer hv hs') hdone).of_ok hrounds))
      rw [set_units_other fun heq => hv heq.2.2]
      exact hs.units

/-- A wakeup of a throttle leaves nothing to transfer, or the throttle wakes up again in the next
cycle. -/
theorem throttle_wakeup_done (hN : Wired N rank) (hl : l ∈ N.throttled)
    (h : Working N now (.throttle l.src l.dest) s) :
    Ensures (fun _ : Fault => True)
      (fun s' => Working N now (.throttle l.src l.dest) s' ∧
        ((now + 1, .throttle l.src l.dest) ∈ s'.scheduled ∨
          ∀ v < N.m_virtual_networks, LinkDone now l v s'))
      (N.throttleWakeup s l) := by
  obtain ⟨⟨f, hstate⟩, hmem⟩ := vnet_order_spec (N := N) s (.throttle l.src l.dest)
  unfold throttleWakeup
  generalize N.vnetOrder s (.throttle l.src l.dest) = r at hstate hmem
  obtain ⟨s₀, vnets⟩ := r
  simp only at hstate hmem ⊢
  subst hstate
  refine ensures_self.bind fun _ _ => ?_
  have hfold := Ensures.foldl_each_mem (F := fun _ : Fault => True) (l := vnets)
    (f := N.throttleVnet l)
    (I := fun loop => Working N now (.throttle l.src l.dest) loop.state)
    (P := fun v loop => VnetDone now l v loop)
    (b := ⟨{ s with m_wakeups_wo_switch := f }, N.getLinkBandwidth l, false⟩)
    (h.same hN ⟨rfl, subset_rfl⟩ rfl rfl rfl)
    (fun v _ loop hloop => throttle_vnet_done hN hl hloop)
    fun v _ v' _ loop hloop hdone => ensures_of_ok fun loop' hloop' =>
      hdone.throttleVnet hloop.time hloop'
  refine hfold.bind fun loop hloop => ?_
  obtain ⟨hwork, hdone⟩ := hloop
  split
  · next hend =>
    simp only [Bool.and_eq_true, decide_eq_true_eq, Bool.not_eq_true'] at hend
    refine ⟨hwork, .inr fun v hv => ?_⟩
    rcases hdone v ((hmem v).mpr hv) with hbw | hagain | hdone
    · exact absurd hbw (by omega)
    · rw [hend.2] at hagain
      cases hagain
    · exact hdone
  · refine ⟨hwork.same hN ⟨rfl, by simp⟩ rfl rfl rfl, .inl ?_⟩
    rw [hwork.time, schedule_scheduled]
    exact Finset.mem_insert_self _ _

end SimpleNetwork

end Ece552.Ruby
