import Ece552.Library.Holdings
import Ece552.Ruby.Effects

/-!
# Exactly one copy for each destination

Whatever the order in which the messages of a virtual network overtake each other, and whichever
links adaptive routing picks: the copies that were sent to a node are those it has received and
those on their way to it, each counted once, and nothing else ever gets to a node
(`copies_conserved`).
-/

namespace Ece552.Ruby

open Library

namespace SimpleNetwork

variable {M : Type} {N : SimpleNetwork} {rank : Nat → Nat → Nat} {s s' : NetworkState M}
  {q : Queue} {c : Consumer} {sw incoming vnet v d : Nat} {l : MadeLink}

/-! ## Counting copies -/

/-- The messages in each of the buffers. -/
def held (s : NetworkState M) (q : Queue) : List (NetworkMessage M) := (s.buffers q).contents

theorem enqueue_at_held {message : Message (NetworkMessage M)} {delta : Nat}
    (h : N.enqueueAt s q message delta = .ok s') :
    (held s' q).Perm (message.content :: held s q) ∧ ∀ q', q' ≠ q → held s' q' = held s q' := by
  obtain ⟨hentered, hframe, -⟩ := enqueue_at_effect h
  exact ⟨hentered.contents, fun q' hq' => congrArg MessageBuffer.contents (hframe q' hq')⟩

theorem pop_at_held (h : popAt s q = .ok s') :
    (∃ m, held s q = m :: held s' q) ∧ ∀ q', q' ≠ q → held s' q' = held s q' := by
  obtain ⟨hpopped, hframe, -⟩ := pop_at_effect h
  obtain ⟨node, hheap, -⟩ := MessageBuffer.pop_ok hpopped
  refine ⟨⟨node.m_msgptr.content, ?_⟩, fun q' hq' =>
    congrArg MessageBuffer.contents (hframe q' hq')⟩
  unfold held MessageBuffer.contents
  rw [hheap, List.map_cons]

theorem pop_at_pending (h : popAt s q = .ok s') :
    s'.m_pending_message_count = s.m_pending_message_count := by
  obtain ⟨-, b, -, rfl⟩ := pop_at_ok.mp h
  rfl

/-- What a message counts for a node. -/
def copyFor (d : Nat) (m : NetworkMessage M) : Multiset M :=
  if d ∈ m.getInternalDestination then {m.body} else 0

/-- The copies for a node that are on their way. -/
def onTheWay (N : SimpleNetwork) (v d : Nat) (s : NetworkState M) : Multiset M :=
  amount (N.queues v) (fun _ => copyFor d) (held s)

/-- The body of a message that was sent to a node. -/
def sentTo (d : Nat) : NetEvent Nat M → Option M
  | .sent _ dests body => if d ∈ dests then some body else none
  | .received _ _ _ => none

/-- The body of a message that a node has received. -/
def receivedBy (d : Nat) : NetEvent Nat M → Option M
  | .sent _ _ _ => none
  | .received dst _ body => if dst = d then some body else none

/-- One more event in a log. -/
theorem count_concat (f : NetEvent Nat M → Option M) (log : List (NetEvent Nat M))
    (e : NetEvent Nat M) : ((log ++ [e]).filterMap f : Multiset M) =
      (log.filterMap f : Multiset M) + ((f e).toList : Multiset M) := by
  rw [List.filterMap_append, ← Multiset.coe_add]
  cases h : f e with
  | none => simp [h]
  | some x => simp [h]

theorem Recached.held (h : Recached s s') : held s' = held s := funext h.contents

/-- The parts of a split message are for the destinations of the message. -/
theorem copy_of_split {links : List MadeLink} {outputs : List (MadeLink × NetDest)}
    {m : NetworkMessage M} (h : RouteSpec links m.getInternalDestination outputs ∅) (d : Nat) :
    copyFor d m =
      (outputs.map fun out => copyFor d { m with m_internal_dest := some out.2 }).sum := by
  have hcopy : ∀ dsts : NetDest,
      (if d ∈ dsts then {m.body} else 0 : Multiset M) = dsts.val.count d • {m.body} := by
    intro dsts
    rw [Multiset.count_eq_of_nodup dsts.nodup]
    by_cases hd : d ∈ dsts
    · rw [if_pos hd, if_pos (Finset.mem_val.mpr hd), one_nsmul]
    · rw [if_neg hd, if_neg (mt Finset.mem_val.mp hd), zero_nsmul]
  have hsum : ∀ outputs : List (MadeLink × NetDest),
      ((outputs.map fun out : MadeLink × NetDest => out.2.val).sum.count d • {m.body} :
        Multiset M) =
        (outputs.map fun out => if d ∈ out.2 then {m.body} else 0).sum := by
    intro outputs
    induction outputs with
    | nil => simp
    | cons out outputs ih =>
        simp only [List.map_cons, List.sum_cons, Multiset.count_add, add_nsmul, ih, hcopy]
  have hsplit := h.split
  rw [Finset.empty_val, zero_add] at hsplit
  calc copyFor d m = m.getInternalDestination.val.count d • {m.body} := hcopy _
    _ = (outputs.map fun out : MadeLink × NetDest => out.2.val).sum.count d • {m.body} := by
        rw [hsplit]
    _ = (outputs.map fun out => if d ∈ out.2 then {m.body} else 0).sum := hsum outputs

/-! ## The invariant -/

/-- The copies that were sent to a node are received or on their way. -/
structure Conserves (N : SimpleNetwork) (v : Nat) (log : List (NetEvent Nat M))
    (s : NetworkState M) : Prop where
  balance : ∀ d, (log.filterMap (sentTo d) : Multiset M) =
    log.filterMap (receivedBy d) + onTheWay N v d s
  split : ∀ l ∈ N.links, ∀ m ∈ held s (.intermediate l.src l.dest v),
    m.getInternalDestination ≠ ∅ ∧ m.getInternalDestination ⊆ l.routing_table_entry
  own : ∀ node, ∀ m ∈ held s (.fromNet node v), m.getInternalDestination = {node}
  outside : ∀ q, vnetOf q = v → q ∉ N.queues v → held s q = []

variable {log : List (NetEvent Nat M)}

/-- What leaves the messages of a virtual network where they are. -/
theorem Conserves.congr (h : Conserves N v log s)
    (hsame : ∀ q, vnetOf q = v → held s' q = held s q) : Conserves N v log s' := by
  refine ⟨fun d => ?_, fun l hl m hm => ?_, fun node m hm => ?_, fun q hq hqn => ?_⟩
  · have hway : onTheWay N v d s' = onTheWay N v d s :=
      amount_congr fun q hq => hsame q (vnet_of_mem hq)
    rw [hway]
    exact h.balance d
  · rw [hsame _ rfl] at hm
    exact h.split l hl m hm
  · rw [hsame _ rfl] at hm
    exact h.own node m hm
  · rw [hsame q hq]
    exact h.outside q hq hqn

/-- The message at the head of an in-port splits over the links of the switch. -/
theorem move_head_moved (hN : Wired N rank)
    (h : N.moveHead s incoming sw vnet = .ok (true, s')) :
    ∃ s₀ m links, Recached s s₀ ∧ (∀ l ∈ links, l ∈ N.links ∧ l.src = sw) ∧
      RouteSpec links m.getInternalDestination (route links m.getInternalDestination).1 ∅ ∧
      Moved (held s₀) (held s') (N.inQueue incoming sw vnet) m
        ((route links m.getInternalDestination).1.map fun out =>
          (.intermediate sw out.1.dest vnet, { m with m_internal_dest := some out.2 })) := by
  obtain ⟨message, links, ⟨node, rest, hheap, -, hmessage⟩, hperm, -, hall, s₀, hcached, hout,
    hpop, hframe, -⟩ := move_head_effect hN h
  have hroute := route_spec links message.content.getInternalDestination
  rw [hall] at hroute
  refine ⟨s₀, message.content, links, hcached, fun l hl => mem_out_links.mp (hperm.subset hl),
    hroute, ?_, fun out' hout' => ?_, fun q hq hqin => ?_, ?_, fun out' hout' heq => ?_⟩
  · exact head_contents (hcached.heap _ ▸ hheap) hmessage hpop
  · obtain ⟨out, hmem, rfl⟩ := List.mem_map.mp hout'
    exact (hout out hmem).contents
  · unfold held
    rw [hframe q (fun out hmem => hq _ (List.mem_map.mpr ⟨out, hmem, rfl⟩)) hqin]
  · have hnodup := (hN.out_nodup sw).perm (hperm.map MadeLink.dest).symm
    have hdests := hnodup.sublist (hroute.sublist.map MadeLink.dest)
    rw [List.map_map]
    refine List.Nodup.of_map (fun q => match q with | .intermediate _ dest _ => dest | _ => 0) ?_
    rwa [List.map_map] at hdests ⊢
  · obtain ⟨out, -, rfl⟩ := List.mem_map.mp hout'
    exact intermediate_ne_in_queue heq

/-- A transfer takes a message over a link. -/
theorem start_transfer_moved (h : N.startTransfer s l vnet = .ok s') :
    ∃ m, Moved (held s) (held s') (.intermediate l.src l.dest vnet) m
      [(N.outQueue l.src l.dest vnet, m)] := by
  obtain ⟨message, ⟨node, rest, hheap, -, hmessage⟩, hentered, hpop, hframe, -⟩ :=
    start_transfer_effect h
  refine ⟨message.content, head_contents hheap hmessage hpop, fun out hout => ?_,
    fun q hq hqin => ?_, List.nodup_singleton _, fun out hout => ?_⟩
  · obtain rfl := List.mem_singleton.mp hout
    exact hentered.contents
  · unfold held
    rw [hframe q (hq _ List.mem_cons_self) hqin]
  · obtain rfl := List.mem_singleton.mp hout
    exact out_queue_ne_intermediate

/-! ## What a wakeup does -/

/-- Moving the message at the head of an in-port keeps the copies. -/
theorem Conserves.moveHead (h : Conserves N v log s) (hN : Wired N rank)
    (hin : incoming ∈ N.inPorts sw) (hmove : N.moveHead s incoming sw vnet = .ok (true, s')) :
    Conserves N v log s' := by
  obtain ⟨s₀, m, links, hcached, hlinks, hroute, hmoved⟩ := move_head_moved hN hmove
  replace h : Conserves N v log s₀ := h.congr fun q _ => hcached.contents q
  have hout : ∀ out ∈ (route links m.getInternalDestination).1,
      out.1 ∈ N.links ∧ out.1.src = sw := fun out hmem =>
    hlinks _ (hroute.sublist.subset (List.mem_map.mpr ⟨out, hmem, rfl⟩))
  by_cases hv : vnet = v
  swap
  · refine h.congr fun q hq => hmoved.frame q (fun out' hout' heq => ?_) fun heq => ?_
    · obtain ⟨out, -, rfl⟩ := List.mem_map.mp hout'
      rw [heq] at hq
      exact hv hq
    · rw [heq, vnet_of_in_queue] at hq
      exact hv hq
  subst hv
  have hnot : ∀ node, ∀ out' ∈ (route links m.getInternalDestination).1.map (fun out =>
      (Queue.intermediate sw out.1.dest vnet, { m with m_internal_dest := some out.2 })),
      Queue.fromNet node vnet ≠ out'.1 := by
    intro node out' hout' heq
    obtain ⟨out, -, rfl⟩ := List.mem_map.mp hout'
    cases heq
  have houts : ∀ out' ∈ (route links m.getInternalDestination).1.map (fun out =>
      (Queue.intermediate sw out.1.dest vnet, { m with m_internal_dest := some out.2 })),
      out'.1 ∈ N.queues vnet := by
    intro out' hout'
    obtain ⟨out, hmem, rfl⟩ := List.mem_map.mp hout'
    obtain ⟨hl, hsrc⟩ := hout out hmem
    exact hsrc ▸ intermediate_mem (throttled_of_in_port hin hl hsrc)
  refine ⟨fun d => ?_, fun l hl x hx => ?_, fun node x hx => ?_, fun q hq hqn => ?_⟩
  · have hamount := hmoved.amount (w := fun _ => copyFor d) (in_queue_mem hin) houts
    rw [List.map_map, copy_of_split hroute d] at hamount
    rw [h.balance d]
    exact congrArg _ (add_right_cancel hamount).symm
  · by_cases hlout : ∃ out ∈ (route links m.getInternalDestination).1,
        Queue.intermediate l.src l.dest vnet = .intermediate sw out.1.dest vnet
    · obtain ⟨out, hmem, heq⟩ := hlout
      injection heq with hsrc hdest
      obtain rfl : l = out.1 :=
        hN.unique hl (hout out hmem).1 (hsrc.trans (hout out hmem).2.symm) hdest
      have hperm := hmoved.entered _ (List.mem_map.mpr ⟨out, hmem, rfl⟩)
      rw [hsrc] at hx
      rcases List.mem_cons.mp (hperm.subset hx) with rfl | hx
      · exact ⟨hroute.nonempty out hmem, (hroute.takes out hmem).2⟩
      · exact h.split out.1 hl x (hsrc ▸ hx)
    · refine h.split l hl x (hmoved.not_entered (fun out' hout' heq => hlout ?_) hx)
      obtain ⟨out, hmem, rfl⟩ := List.mem_map.mp hout'
      exact ⟨out, hmem, heq⟩
  · exact h.own node x (hmoved.not_entered (hnot node) hx)
  · exact hmoved.stays_empty (h.outside q hq hqn) fun out' hout' heq => hqn (heq ▸ houts out' hout')

/-- A transfer keeps the copies. -/
theorem Conserves.startTransfer (h : Conserves N v log s) (hN : Wired N rank) (hl : l ∈ N.throttled)
    (hstart : N.startTransfer s l vnet = .ok s') : Conserves N v log s' := by
  obtain ⟨m, hmoved⟩ := start_transfer_moved hstart
  by_cases hv : vnet = v
  swap
  · refine h.congr fun q hq => hmoved.frame q (fun out hout heq => ?_) fun heq => ?_
    · obtain rfl := List.mem_singleton.mp hout
      rw [heq, vnet_of_out_queue] at hq
      exact hv hq
    · rw [heq] at hq
      exact hv hq
  subst hv
  have hlink := (mem_throttled.mp hl).1
  obtain ⟨hnonempty, hentry⟩ := h.split l hlink m (hmoved.head ▸ List.mem_cons_self)
  refine ⟨fun d => ?_, fun l' hl' x hx => ?_, fun node x hx => ?_, fun q hq hqn => ?_⟩
  · have hamount := hmoved.amount (w := fun _ => copyFor d) (intermediate_mem hl) fun out hout => by
      obtain rfl := List.mem_singleton.mp hout
      exact out_queue_mem hN hl
    rw [List.map_singleton, List.sum_singleton] at hamount
    rw [h.balance d]
    exact congrArg _ (add_right_cancel hamount).symm
  · refine h.split l' hl' x (hmoved.not_entered (fun out hout => ?_) hx)
    obtain rfl := List.mem_singleton.mp hout
    unfold outQueue
    split <;> exact fun heq => by cases heq
  · by_cases hout : Queue.fromNet node vnet = N.outQueue l.src l.dest vnet
    · have hperm := hmoved.entered _ List.mem_cons_self
      simp only [← hout] at hperm
      rcases List.mem_cons.mp (hperm.subset hx) with rfl | hx
      · -- the link leads to this node only
        have hnode : ∀ d ∈ x.getInternalDestination, d = node := fun d hd => by
          have hhop : N.hop vnet (.intermediate l.src l.dest vnet) d =
              some (.fromNet node vnet) := by
            rw [hout, hop, if_pos ⟨rfl, l, hlink, rfl, rfl, hentry hd⟩]
          exact hN.exit_own hhop
        obtain ⟨d, hd⟩ := Finset.nonempty_iff_ne_empty.mpr hnonempty
        exact Finset.eq_singleton_iff_unique_mem.mpr ⟨hnode d hd ▸ hd, hnode⟩
      · exact h.own node x hx
    · refine h.own node x (hmoved.not_entered (fun out hmem => ?_) hx)
      rw [List.mem_singleton.mp hmem]
      exact hout
  · refine hmoved.stays_empty (h.outside q hq hqn) fun out hout heq => hqn ?_
    obtain rfl := List.mem_singleton.mp hout
    exact heq ▸ out_queue_mem hN hl

/-- A wakeup keeps the copies. -/
theorem Conserves.process {c : Consumer} (h : Conserves N v log s) (hN : Wired N rank)
    (hprocess : N.process s c = .ok s') : Conserves N v log s' := by
  unfold SimpleNetwork.process at hprocess
  obtain ⟨s₁, hwakeup, hs'⟩ := bind_eq_ok.mp hprocess
  obtain rfl := Except.ok.inj hs'
  have hsame : ∀ s s' : NetworkState M, s'.buffers = s.buffers → Conserves N v log s →
      Conserves N v log s' :=
    fun s s' hb hs => hs.congr fun q _ => congrArg MessageBuffer.contents (congrFun hb q)
  refine hsame s₁ _ rfl ?_
  have hmove : ∀ vnet sw, ∀ incoming ∈ N.inPorts sw, ∀ s, Conserves N v log s →
      Ensures (fun _ : Fault => True) (fun r => Conserves N v log r.2)
        (N.moveHead s incoming sw vnet) := by
    intro vnet sw incoming hin s hs
    refine ensures_of_ok fun r hr => ?_
    obtain ⟨moved, s'⟩ := r
    cases moved with
    | true => exact hs.moveHead hN hin hr
    | false =>
        obtain ⟨message, links, s₀, hmoves, hcases⟩ := move_head_ok hr
        rcases hcases with ⟨⟨htrue, -⟩, -⟩ | ⟨-, rfl⟩
        · cases htrue
        · exact hsame s₀ _ rfl (hs.congr fun q _ => hmoves.recached.contents q)
  cases c with
  | perfectSwitch sw =>
      exact (switch_wakeup_ensures (F := fun _ => True)
        (fun s _ => hsame s _ rfl) (fun s _ => hsame s _ rfl)
        (fun vnet _ incoming hin s hs _ => hmove vnet sw incoming hin s hs) h).of_ok hwakeup
  | throttle src dest =>
      simp only [wakeup] at hwakeup
      split at hwakeup
      · next l hl =>
        have hmem := List.mem_of_find?_eq_some hl
        exact (throttle_wakeup_ensures (F := fun _ => True)
          (fun s _ => hsame s _ rfl) (fun _ _ s _ => hsame s _ rfl) (fun s => hsame s _ rfl)
          (fun _ => trivial) (fun vnet _ s hs _ _ => ensures_of_ok fun s' hs' =>
            hs.startTransfer hN hmem hs') h).of_ok hwakeup
      · obtain rfl := Except.ok.inj hwakeup
        exact h
  | controller node =>
      obtain rfl := Except.ok.inj hwakeup
      exact h

/-! ## What the controllers do -/

theorem initial_held (q : Queue) : held (N.initial : NetworkState M) q = [] := by
  cases q <;> rfl

theorem conserves_initial : Conserves N v [] (N.initial : NetworkState M) := by
  refine ⟨fun d => ?_, fun l _ m hm => ?_, fun node m hm => ?_, fun q _ _ => initial_held q⟩
  · have hzero : onTheWay N v d (N.initial : NetworkState M) = 0 :=
      amount_eq_zero fun q _ => initial_held q
    rw [hzero]
    rfl
  · rw [initial_held] at hm
    exact absurd hm List.not_mem_nil
  · rw [initial_held] at hm
    exact absurd hm List.not_mem_nil

/-- A message that is sent is on its way to its destinations. -/
theorem Conserves.send (h : Conserves N v log s) (hN : Wired N rank) {node : Nat}
    {message : NetworkMessage M}
    {delta : Nat} (hnode : node < N.m_nodes) (hinternal : message.m_internal_dest = none)
    (hsend : N.enqueueAt s (.toNet node v) ⟨message, s.now, 0⟩ delta = .ok s') :
    Conserves N v (log ++ [.sent node message.m_Destination message.body]) s' := by
  obtain ⟨e, c, -, hconsumer, -⟩ := enqueue_at_ok.mp hsend
  have hqueue := to_net_mem hN hnode hconsumer
  obtain ⟨hentered, hframe, -⟩ := enqueue_at_effect hsend
  have hother : ∀ q', q' ≠ .toNet node v → held s' q' = held s q' :=
    fun q' hq' => congrArg MessageBuffer.contents (hframe q' hq')
  refine ⟨fun d => ?_, fun l hl m hm => ?_, fun n m hm => ?_, fun q hq hqn => ?_⟩
  · have hway : onTheWay N v d s' = onTheWay N v d s + copyFor d message :=
      amount_add hqueue hentered.contents hother
    rw [hway, count_concat, count_concat, h.balance d]
    by_cases hd : d ∈ message.m_Destination
    · simp [sentTo, receivedBy, copyFor, NetworkMessage.getInternalDestination, hinternal, hd,
        add_assoc]
    · simp [sentTo, receivedBy, copyFor, NetworkMessage.getInternalDestination, hinternal, hd]
  · rw [hother _ fun heq => by cases heq] at hm
    exact h.split l hl m hm
  · rw [hother _ fun heq => by cases heq] at hm
    exact h.own n m hm
  · rw [hother q fun heq => hqn (heq ▸ hqueue)]
    exact h.outside q hq hqn

/-- A message that is received is no longer on its way. -/
theorem Conserves.receive (h : Conserves N v log s) {node src : Nat}
    {message : Message (NetworkMessage M)}
    (hpeek : (s.buffers (.fromNet node v)).peekMsgPtr s.now = .ok message)
    (hpop : popAt s (.fromNet node v) = .ok s') :
    Conserves N v (log ++ [.received node src message.content.body]) s' := by
  obtain ⟨node', rest, hheap, -, hmessage⟩ := peek_ok.mp hpeek
  obtain ⟨hpopped, hframe, -⟩ := pop_at_effect hpop
  have hhead : held s (.fromNet node v) = message.content :: held s' (.fromNet node v) :=
    head_contents hheap hmessage hpopped
  have hother : ∀ q', q' ≠ .fromNet node v → held s' q' = held s q' :=
    fun q' hq' => congrArg MessageBuffer.contents (hframe q' hq')
  have hown := h.own node message.content (hhead ▸ List.mem_cons_self)
  have hqueue : .fromNet node v ∈ N.queues v := by
    by_contra hnot
    rw [h.outside _ rfl hnot] at hhead
    exact absurd hhead (List.cons_ne_nil _ _).symm
  refine ⟨fun d => ?_, fun l hl m hm => ?_, fun n m hm => ?_, fun q hq hqn => ?_⟩
  · have hway : onTheWay N v d s = onTheWay N v d s' + copyFor d message.content :=
      amount_remove hqueue hhead hother
    rw [count_concat, count_concat, h.balance d, hway]
    unfold copyFor
    rw [hown]
    by_cases hd : d = node
    · subst hd
      rw [receivedBy, if_pos rfl, if_pos (Finset.mem_singleton_self d), ← add_assoc, sentTo,
        Option.toList_none, Multiset.coe_nil, add_zero, add_right_comm]
      rfl
    · simp [sentTo, receivedBy, hd, Ne.symm hd]
  · rw [hother _ fun heq => by cases heq] at hm
    exact h.split l hl m hm
  · by_cases hn : n = node
    · subst hn
      exact h.own n m (hhead ▸ List.mem_cons_of_mem _ hm)
    · rw [hother _ fun heq => hn (by injection heq)] at hm
      exact h.own n m hm
  · rw [hother q fun heq => hqn (heq ▸ hqueue)]
    exact h.outside q hq hqn

end SimpleNetwork

namespace NetworkSystem

open SimpleNetwork

variable {M : Type} {N : SimpleNetwork} {rank : Nat → Nat → Nat} {source : M → Nat} {v : Nat}
  {st st' : NetworkSystem M} {label : Label M}

/-- Every step keeps the copies. -/
theorem conserves_step (hN : Wired N rank) (h : Conserves N v (st.log v) st.state)
    (hstep : st.step N source label = .ok (some st')) : Conserves N v (st'.log v) st'.state := by
  cases label with
  | send node vnet message delta =>
      obtain ⟨⟨hnode, -, hinternal, -⟩, s', hsend, rfl⟩ := send_ok.mp hstep
      by_cases hv : v = vnet
      · subst hv
        show Conserves N v (record st.log v _ v) s'
        rw [record_same]
        exact h.send hN hnode hinternal hsend
      · show Conserves N v (record st.log vnet _ v) s'
        rw [record_other _ _ hv]
        obtain ⟨-, hframe, -⟩ := enqueue_at_effect hsend
        exact h.congr fun q hq => congrArg MessageBuffer.contents
          (hframe q fun heq => hv (by rw [← hq, heq]; rfl))
  | receive node vnet =>
      obtain ⟨-, message, hpeek, s', hpop, rfl⟩ := receive_ok.mp hstep
      by_cases hv : v = vnet
      · subst hv
        show Conserves N v (record st.log v _ v) s'
        rw [record_same]
        exact h.receive hpeek hpop
      · show Conserves N v (record st.log vnet _ v) s'
        rw [record_other _ _ hv]
        obtain ⟨-, hframe, -⟩ := pop_at_effect hpop
        exact h.congr fun q hq => congrArg MessageBuffer.contents
          (hframe q fun heq => hv (by rw [← hq, heq]; rfl))
  | wakeup c =>
      obtain ⟨-, s', hprocess, rfl⟩ := wakeup_ok.mp hstep
      exact h.process hN hprocess
  | tick =>
      obtain ⟨-, rfl⟩ := tick_ok.mp hstep
      exact h.congr fun _ _ => rfl

theorem conserves_run (hN : Wired N rank) (h : (simpleNetwork N source).Reachable st) :
    Conserves N v (st.log v) st.state :=
  h.invariant (I := fun st => Conserves N v (st.log v) st.state)
    (fun st hst => by
      obtain rfl := hst
      exact conserves_initial)
    fun st label st' _ ih _ hnext => conserves_step hN ih hnext

/-- Every copy that was sent to a node was received by it or is on its way, exactly once, and every
message in the buffer of a node is for this node alone. -/
theorem copies_conserved {t : Topology} (hN : Built N t)
    (h : (simpleNetwork N source).Reachable st) :
    (∀ d, ((st.log v).filterMap (sentTo d) : Multiset M) =
      (st.log v).filterMap (receivedBy d) + onTheWay N v d st.state) ∧
    ∀ node, ∀ m ∈ held st.state (.fromNet node v), m.getInternalDestination = {node} := by
  obtain ⟨rank, hN⟩ := hN.wired
  exact ⟨(conserves_run hN h).balance, (conserves_run hN h).own⟩

theorem crossbar_copies_conserved :
    (∀ d, (((crossbarState 8).log 0).filterMap (sentTo d) : Multiset (Nat × Nat)) =
      ((crossbarState 8).log 0).filterMap (receivedBy d) +
        onTheWay crossbarNetwork 0 d (crossbarState 8).state) ∧
    ∀ node, ∀ m ∈ held (crossbarState 8).state (.fromNet node 0),
      m.getInternalDestination = {node} :=
  copies_conserved crossbar_built (crossbar_state_run (fun _ _ _ => trivial) 8)

end NetworkSystem

end Ece552.Ruby
