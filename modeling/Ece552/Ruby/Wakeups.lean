import Ece552.Ruby.Transfers

/-!
# No wakeup is lost

A wakeup of a switch or a throttle leaves nothing behind that it will not be woken up for again
(`wakeup_done`), so whoever has something to do is scheduled in every reachable state. Once no
switch and no throttle is scheduled, every copy that was sent lies in the buffer of its node:
`no_wakeup_lost`.
-/

namespace Ece552.Ruby

open Library

namespace SimpleNetwork

variable {M : Type} {N : SimpleNetwork} {rank : Nat → Nat → Nat} {s s' : NetworkState M}
  {q : Queue} {c : Consumer} {sw incoming vnet v : Nat} {l : MadeLink}

variable {now : Nat}

/-- A consumer that is done may go back to sleep. -/
theorem Awake.erase (h : Awake N s)
    (hswitch : ∀ sw, c = .perfectSwitch sw → ∀ v < N.m_virtual_networks,
      ∀ incoming ∈ N.inPorts sw, PortDone N s.now sw incoming v s)
    (hthrottle : ∀ l ∈ N.throttled, c = .throttle l.src l.dest →
      (s.now + 1, .throttle l.src l.dest) ∈ s.scheduled ∨
        ∀ v < N.m_virtual_networks, LinkDone s.now l v s) :
    Awake N { s with scheduled := s.scheduled.erase (s.now, c) } := by
  have hkeep : ∀ c' time, (time, c') ≠ (s.now, c) → (time, c') ∈ s.scheduled →
      (time, c') ∈ s.scheduled.erase (s.now, c) := fun c' time hne hmem =>
    Finset.mem_erase.mpr ⟨hne, hmem⟩
  have hother : ∀ c' time, c' ≠ c → Due s c' time →
      Due { s with scheduled := s.scheduled.erase (s.now, c) } c' time := by
    intro c' time hc hdue
    have hne : ∀ time, (time, c') ≠ (s.now, c) := fun _ heq => hc (Prod.mk.inj heq).2
    exact hdue.imp (.imp_right (hkeep c' _ (hne _)))
      (.imp_right (.imp (hkeep c' _ (hne _)) (hkeep c' _ (hne _))))
  have hlater : ∀ time, s.now < time → Due s c time →
      Due { s with scheduled := s.scheduled.erase (s.now, c) } c time := by
    intro time htime hdue
    rcases hdue with ⟨-, hmem⟩ | ⟨hle, -⟩
    · exact .inl ⟨htime, hkeep c _ (fun heq => htime.ne' (Prod.mk.inj heq).1) hmem⟩
    · exact absurd htime (not_lt.mpr hle)
  have hagain : ∀ time, time ≤ s.now → (s.now + 1, c) ∈ s.scheduled →
      Due { s with scheduled := s.scheduled.erase (s.now, c) } c time := fun time htime hmem =>
    .inr ⟨htime, .inr (hkeep c _ (fun heq => Nat.succ_ne_self s.now (Prod.mk.inj heq).1) hmem)⟩
  refine ⟨h.sorted, fun v hv sw incoming hin node hnode => ?_, fun v hv l hl node hnode => ?_,
    fun v hv l hl hpos => ?_⟩
  · have hdue := h.switches v hv sw incoming hin node hnode
    by_cases hc : Consumer.perfectSwitch sw = c
    · subst hc
      by_cases htime : s.now < node.m_time
      · exact hlater _ htime hdue
      · rcases hswitch sw rfl v hv incoming hin with hnext | hnone
        · exact hagain _ (not_lt.mp htime) hnext
        · exact absurd (hnone node hnode) htime
    · exact hother _ _ hc hdue
  · have hdue := h.throttles v hv l hl node hnode
    by_cases hc : Consumer.throttle l.src l.dest = c
    · subst hc
      by_cases htime : s.now < node.m_time
      · exact hlater _ htime hdue
      · rcases hthrottle l hl rfl with hnext | hdone
        · exact hagain _ (not_lt.mp htime) hnext
        · exact absurd ((hdone v hv).later node hnode) htime
    · exact hother _ _ hc hdue
  · have hdue := h.transfers v hv l hl hpos
    by_cases hc : Consumer.throttle l.src l.dest = c
    · subst hc
      rcases hthrottle l hl rfl with hnext | hdone
      · exact hagain _ le_rfl hnext
      · exact absurd (hdone v hv).units hpos.ne'
    · exact hother _ _ hc hdue

/-- Whoever has something to do is scheduled, and the counts of the switches are right. -/
structure Attended (N : SimpleNetwork) (s : NetworkState M) : Prop where
  awake : Awake N s
  counted : Counted N s

/-- A wakeup leaves nothing behind that its consumer will not be woken up for. -/
theorem wakeup_done (hN : Wired N rank) (h : Working N now c s) (hwakeup : N.wakeup s c = .ok s') :
    Working N now c s' ∧
      (∀ sw, c = .perfectSwitch sw → ∀ v < N.m_virtual_networks,
        ∀ incoming ∈ N.inPorts sw, PortDone N now sw incoming v s') ∧
      (∀ l ∈ N.throttled, c = .throttle l.src l.dest →
        (now + 1, .throttle l.src l.dest) ∈ s'.scheduled ∨
          ∀ v < N.m_virtual_networks, LinkDone now l v s') := by
  cases c with
  | perfectSwitch sw =>
      obtain ⟨hwork, hdone⟩ := (switch_wakeup_done hN h).of_ok hwakeup
      refine ⟨hwork, ?_, ?_⟩
      · intro sw' heq
        injection heq with hsw
        exact hsw ▸ hdone
      · intro l _ heq
        cases heq
  | throttle src dest =>
      simp only [wakeup] at hwakeup
      split at hwakeup
      · next l hl =>
        have hmem := List.mem_of_find?_eq_some hl
        have hends : l.src = src ∧ l.dest = dest := by simpa using List.find?_some hl
        obtain ⟨rfl, rfl⟩ := hends
        obtain ⟨hwork, hdone⟩ := (throttle_wakeup_done hN hmem h).of_ok hwakeup
        refine ⟨hwork, ?_, ?_⟩
        · intro sw' heq
          cases heq
        · intro l' hl' heq
          injection heq with hsrc hdest
          obtain rfl := hN.unique (mem_throttled.mp hmem).1 (mem_throttled.mp hl').1 hsrc hdest
          exact hdone
      · next hnone =>
        obtain rfl := Except.ok.inj hwakeup
        refine ⟨h, ?_, ?_⟩
        · intro sw' heq
          cases heq
        · intro l hl heq
          injection heq with hsrc hdest
          have hnot : l.src = src → ¬ l.dest = dest := by
            simpa using List.find?_eq_none.mp hnone l hl
          exact absurd hdest.symm (hnot hsrc.symm)
  | controller node =>
      obtain rfl := Except.ok.inj hwakeup
      refine ⟨h, ?_, ?_⟩
      · intro sw' heq
        cases heq
      · intro l _ heq
        cases heq

/-- Nobody is forgotten by a wakeup. -/
theorem Attended.process (h : Attended N s) (hN : Wired N rank) (hc : (s.now, c) ∈ s.scheduled)
    (hprocess : N.process s c = .ok s') : Attended N s' := by
  unfold SimpleNetwork.process at hprocess
  obtain ⟨s₁, hwakeup, hs'⟩ := bind_eq_ok.mp hprocess
  obtain rfl := Except.ok.inj hs'
  obtain ⟨hwork, hswitch, hthrottle⟩ := wakeup_done hN ⟨h.awake, h.counted, rfl, hc⟩ hwakeup
  rw [← hwork.time] at hswitch hthrottle ⊢
  exact ⟨hwork.awake.erase hswitch hthrottle, hwork.counted.congr rfl rfl⟩

theorem attended_initial : Attended N (N.initial : NetworkState M) := by
  have hheap : ∀ q, ((N.initial : NetworkState M).buffers q).m_prio_heap = [] := by
    intro q
    cases q <;> rfl
  refine ⟨⟨fun q => ?_, fun v _ sw incoming _ node hnode => ?_, fun v _ l _ node hnode => ?_,
    fun v _ l _ hpos => absurd hpos (lt_irrefl 0)⟩, fun sw v => ?_⟩
  · unfold MessageBuffer.Sorted
    rw [hheap]
    exact .nil
  · rw [hheap] at hnode
    exact absurd hnode List.not_mem_nil
  · rw [hheap] at hnode
    exact absurd hnode List.not_mem_nil
  · exact (amount_eq_zero fun q _ => initial_held q).symm

/-- The next cycle begins when nobody has anything to do in this one. -/
theorem Attended.tick (h : Attended N s) (hnone : ∀ c, (s.now, c) ∉ s.scheduled) :
    Attended N { s with now := s.now + 1 } := by
  have hdue : ∀ c time, Due s c time → Due { s with now := s.now + 1 } c time := by
    intro c time hdue
    rcases hdue with ⟨hlt, hmem⟩ | ⟨hle, hmem | hmem⟩
    · by_cases hnext : time = s.now + 1
      · exact .inr ⟨hnext.le, .inl (hnext ▸ hmem)⟩
      · exact .inl ⟨lt_of_le_of_ne hlt (Ne.symm hnext), hmem⟩
    · exact absurd hmem (hnone c)
    · exact .inr ⟨Nat.le_succ_of_le hle, .inl hmem⟩
  refine ⟨⟨h.awake.sorted, fun v hv sw incoming hin node hnode => ?_,
    fun v hv l hl node hnode => ?_, fun v hv l hl hpos => ?_⟩, h.counted.congr rfl rfl⟩
  · exact hdue _ _ (h.awake.switches v hv sw incoming hin node hnode)
  · exact hdue _ _ (h.awake.throttles v hv l hl node hnode)
  · rcases hdue _ _ (h.awake.transfers v hv l hl hpos) with ⟨hlt, -⟩ | ⟨-, hmem⟩
    · exact absurd hlt (by simp)
    · exact .inr ⟨le_rfl, hmem⟩

end SimpleNetwork

namespace NetworkSystem

open SimpleNetwork

variable {M : Type} {N : SimpleNetwork} {rank : Nat → Nat → Nat} {source : M → Nat} {v : Nat}
  {st st' : NetworkSystem M} {label : Label M}

/-- Every step keeps everybody attended to. -/
theorem attended_step (hN : Wired N rank) (h : Attended N st.state)
    (hstep : st.step N source label = .ok (some st')) : Attended N st'.state := by
  cases label with
  | send node vnet message delta =>
      obtain ⟨⟨hnode, -⟩, s', hsend, rfl⟩ := send_ok.mp hstep
      obtain ⟨e, c, -, hconsumer, -⟩ := enqueue_at_ok.mp hsend
      exact ⟨h.awake.enqueueAt hN hsend,
        h.counted.enqueueAt (to_net_mem (v := vnet) hN hnode hconsumer) hsend⟩
  | receive node vnet =>
      obtain ⟨-, message, -, s', hpop, rfl⟩ := receive_ok.mp hstep
      refine ⟨h.awake.popAt hN hpop, fun sw v => ?_⟩
      obtain ⟨⟨m, hremove⟩, hframe⟩ := pop_at_held hpop
      rw [pop_at_pending hpop, h.counted sw v]
      by_cases hq : .fromNet node vnet ∈ N.queues v
      · have hweight : N.weightFor sw (.fromNet node vnet) m = 0 := if_neg consumer_from_net
        rw [amount_remove hq hremove hframe, hweight, add_zero]
      · exact (amount_congr fun q hqv => hframe q fun heq => hq (heq ▸ hqv)).symm
  | wakeup c =>
      obtain ⟨hc, s', hprocess, rfl⟩ := wakeup_ok.mp hstep
      exact h.process hN hc hprocess
  | tick =>
      obtain ⟨hnone, rfl⟩ := tick_ok.mp hstep
      exact h.tick hnone

/-- Whoever has something to do is scheduled. -/
theorem attended_run (hN : Wired N rank) (h : (simpleNetwork N source).Reachable st) :
    Attended N st.state :=
  h.invariant (I := fun st => Attended N st.state)
    (fun st hst => by
      obtain rfl := hst
      exact attended_initial)
    fun st label st' _ ih _ hnext => attended_step hN ih hnext

/-- No switch and no throttle will wake up. -/
def Idle (st : NetworkSystem M) : Prop :=
  ∀ time c, (time, c) ∈ st.state.scheduled → ∃ node, c = .controller node

theorem Idle.not_due (h : Idle st) {c : Consumer} {time : Nat} (hc : ∀ node, c ≠ .controller node) :
    ¬ Due st.state c time := by
  have hnone : ∀ t, (t, c) ∉ st.state.scheduled := fun t hmem => by
    obtain ⟨node, hnode⟩ := h t c hmem
    exact hc node hnode
  rintro (⟨-, hmem⟩ | ⟨-, hmem | hmem⟩)
  · exact hnone _ hmem
  · exact hnone _ hmem
  · exact hnone _ hmem

/-- Once no switch and no throttle will wake up, every copy that was sent to a node was received by
it or lies in its buffer. -/
theorem idle_delivered (hN : Wired N rank) (h : (simpleNetwork N source).Reachable st)
    (hidle : Idle st) (hv : v < N.m_virtual_networks) (d : Nat) :
    ((st.log v).filterMap (sentTo d) : Multiset M) =
      (st.log v).filterMap (receivedBy d) +
        ((held st.state (.fromNet d v)).map (·.body) : Multiset M) := by
  have hcopies := conserves_run (v := v) hN h
  obtain ⟨hawake, -⟩ := attended_run hN h
  have hempty : ∀ q, (∀ node ∈ (st.state.buffers q).m_prio_heap, False) → held st.state q = [] := by
    intro q hq
    unfold held MessageBuffer.contents
    rw [List.eq_nil_iff_forall_not_mem.mpr hq, List.map_nil]
  have hother : ∀ q ∈ N.queues v, q ≠ .fromNet d v →
      ((held st.state q).map (copyFor d)).sum = 0 := by
    intro q hq hne
    rcases mem_queues.mp hq with ⟨l, hl, rfl⟩ | ⟨l, hl, rfl⟩ | ⟨node, hnode, rfl⟩
    · rw [hempty _ fun node hnode => hidle.not_due (fun _ heq => by cases heq)
        (hawake.switches v hv l.dest l.src (mem_in_ports.mpr ⟨l, hl, rfl, rfl⟩) node hnode)]
      rfl
    · rw [hempty _ fun node hnode => hidle.not_due (fun _ heq => by cases heq)
        (hawake.throttles v hv l hl node hnode)]
      rfl
    · refine List.sum_eq_zero fun x hx => ?_
      obtain ⟨m, hm, rfl⟩ := List.mem_map.mp hx
      refine if_neg fun hd => hne ?_
      rw [hcopies.own node m hm, Finset.mem_singleton] at hd
      rw [hd]
  have hown : ((held st.state (.fromNet d v)).map (copyFor d)).sum =
      ((held st.state (.fromNet d v)).map (·.body) : Multiset M) := by
    have hall := hcopies.own d
    generalize held st.state (.fromNet d v) = ms at hall
    induction ms with
    | nil => rfl
    | cons m ms ih =>
        have hm := hall m List.mem_cons_self
        rw [List.map_cons, List.sum_cons, ih fun x hx => hall x (List.mem_cons_of_mem _ hx),
          copyFor, hm, if_pos (Finset.mem_singleton_self d)]
        rfl
  rw [hcopies.balance d, ← hown]
  refine congrArg _ ?_
  by_cases hd : .fromNet d v ∈ N.queues v
  · exact Finset.sum_eq_single_of_mem _ hd hother
  · rw [hcopies.outside _ rfl hd]
    exact Finset.sum_eq_zero fun q hq => hother q hq fun heq => hd (heq ▸ hq)

/-- Whoever has something to do is scheduled, for when it can be done. So once no switch and no
throttle will wake up, nothing is left on its way. -/
theorem no_wakeup_lost {t : Topology} (hN : Built N t) (h : (simpleNetwork N source).Reachable st) :
    Awake N st.state ∧ (st.Idle → ∀ v < N.m_virtual_networks, ∀ d,
      ((st.log v).filterMap (sentTo d) : Multiset M) =
        (st.log v).filterMap (receivedBy d) +
          ((held st.state (.fromNet d v)).map (·.body) : Multiset M)) := by
  obtain ⟨rank, hN⟩ := hN.wired
  exact ⟨(attended_run hN h).awake, fun hidle v hv d => idle_delivered hN h hidle hv d⟩

theorem crossbar_no_wakeup_lost :
    Awake crossbarNetwork (crossbarState 8).state ∧ ((crossbarState 8).Idle → ∀ v < 1, ∀ d,
      (((crossbarState 8).log v).filterMap (sentTo d) : Multiset (Nat × Nat)) =
        ((crossbarState 8).log v).filterMap (receivedBy d) +
          ((held (crossbarState 8).state (.fromNet d v)).map (·.body) : Multiset (Nat × Nat))) :=
  no_wakeup_lost crossbar_built (crossbar_state_run (fun _ _ _ => trivial) 8)

end NetworkSystem

end Ece552.Ruby
