import Ece552.Library.RenamedNetwork
import Ece552.Msi.Coherence
import Ece552.Msi.Networked
import Ece552.Ruby.Channels

/-!
# The network is transparent to the machines

The messages of one kind travel on an ordered virtual network, so the network holds what channels
hold, under other names (`Interconnect.Holds`). What a machine exchanges with the network it can
exchange with the channels, and what the network does by itself is deliveries. So whatever the
machines do over the simple network they can do over channels (`network_is_transparent`), and the
caches are as coherent there as here (`coherent_over_network`).
-/

namespace Ece552.Msi

open Library Ruby
open Directory (Trigger)

variable {ι δ A D : Type} [DecidableEq ι] [DecidableEq δ]

/-! ## The channels behind the network -/

section Channels

variable {M : Type} {net : Interconnect ι δ} {rank : Nat → Nat → Nat}
  {hN : SimpleNetwork.Wired net.network rank} {v : Nat} {m : MachineID ι δ}
  {pick : ProtocolMsg (MachineID ι δ) A D → Option M}
  {wrap : M → ProtocolMsg (MachineID ι δ) A D}
  {st st' : NetworkSystem (Body (MachineID ι δ) A D)} {channels : Network (MachineID ι δ) M}

/-- The messages of a virtual network are those of one kind. -/
structure KindOf {N A D M : Type} (pick : ProtocolMsg N A D → Option M)
    (wrap : M → ProtocolMsg N A D) (v : Nat) : Prop where
  pick_iff : ∀ {msg m}, pick msg = some m ↔ msg = wrap m
  network_iff : ∀ {msg : ProtocolMsg N A D}, msg.virtual_network = v ↔ ∃ m, msg = wrap m
  wrap_inj : ∀ {m m'}, wrap m = wrap m' → m = m'

theorem kind_of_request {N A D : Type} :
    KindOf (N := N) (A := A) (D := D) ProtocolMsg.request? .request 2 := by
  constructor
  · intro msg m
    cases msg <;> simp [ProtocolMsg.request?]
  · intro msg
    cases msg <;> simp [ProtocolMsg.virtual_network]
  · intro m m' h
    injection h

theorem kind_of_forward {N A D : Type} :
    KindOf (N := N) (A := A) (D := D) ProtocolMsg.forward? .forward 3 := by
  constructor
  · intro msg m
    cases msg <;> simp [ProtocolMsg.forward?]
  · intro msg
    cases msg <;> simp [ProtocolMsg.virtual_network]
  · intro m m' h
    injection h

theorem kind_of_response {N A D : Type} :
    KindOf (N := N) (A := A) (D := D) ProtocolMsg.response? .response 4 := by
  constructor
  · intro msg m
    cases msg <;> simp [ProtocolMsg.response?]
  · intro msg
    cases msg <;> simp [ProtocolMsg.virtual_network]
  · intro m m' h
    injection h

/-- What the network calls the packets of a kind. -/
def Interconnect.renaming (net : Interconnect ι δ) (wrap : M → ProtocolMsg (MachineID ι δ) A D) :
    Renaming (MachineID ι δ) Nat M (Body (MachineID ι δ) A D) where
  node := net.node
  msg := fun src msg => ⟨src, wrap msg⟩
  inj := net.node_inj

/-- The virtual network holds the messages of a kind that the channels hold. -/
def Interconnect.Holds (net : Interconnect ι δ) (hN : SimpleNetwork.Wired net.network rank)
    (v : Nat) (wrap : M → ProtocolMsg (MachineID ι δ) A D) (channels : Network (MachineID ι δ) M)
    (st : NetworkSystem (Body (MachineID ι δ) A D)) : Prop :=
  SimpleNetwork.Carries hN net.source v ((net.renaming wrap).network channels) st.state

omit [DecidableEq ι] [DecidableEq δ] in
/-- The first of several steps and the others. -/
theorem steps_cons {label : NetworkSystem.Label (Body (MachineID ι δ) A D)}
    {labels : List (NetworkSystem.Label (Body (MachineID ι δ) A D))}
    (h : NetworkSystem.steps net.network net.source (label :: labels) st = some st') :
    ∃ st₁, st.step net.network net.source label = .ok (some st₁) ∧
      NetworkSystem.steps net.network net.source labels st₁ = some st' := by
  simp only [NetworkSystem.steps] at h
  split at h
  · next st₁ hstep => exact ⟨st₁, hstep, h⟩
  · cases h

omit [DecidableEq ι] [DecidableEq δ] in
theorem steps_append {labels more : List (NetworkSystem.Label (Body (MachineID ι δ) A D))}
    (h : NetworkSystem.steps net.network net.source (labels ++ more) st = some st') :
    ∃ st₁, NetworkSystem.steps net.network net.source labels st = some st₁ ∧
      NetworkSystem.steps net.network net.source more st₁ = some st' := by
  induction labels generalizing st with
  | nil => exact ⟨st, rfl, h⟩
  | cons label labels ih =>
      obtain ⟨st₁, hstep, hrest⟩ := steps_cons h
      obtain ⟨st₂, hsteps, hmore⟩ := ih hrest
      refine ⟨st₂, ?_, hmore⟩
      simp only [NetworkSystem.steps, hstep]
      exact hsteps

omit [DecidableEq ι] [DecidableEq δ] in
theorem counters_le_of_steps (hN : SimpleNetwork.Wired net.network rank)
    {labels : List (NetworkSystem.Label (Body (MachineID ι δ) A D))}
    (h : NetworkSystem.steps net.network net.source labels st = some st') :
    SimpleNetwork.CountersLe st.state st'.state := by
  induction labels generalizing st with
  | nil =>
      obtain rfl := Option.some.inj h
      exact fun _ => le_rfl
  | cons label labels ih =>
      obtain ⟨st₁, hstep, hrest⟩ := steps_cons h
      exact fun q => (NetworkSystem.counters_le_of_step hN hstep q).trans (ih hrest q)

/-- What is enqueued goes on the channels, message by message. -/
theorem KindOf.sends (hkind : KindOf pick wrap v) {sent : List (Enqueue (MachineID ι δ) A D)}
    (h : net.Holds hN v wrap channels st)
    (hsteps : NetworkSystem.steps net.network net.source (sent.map (Networked.sendLabel net m)) st =
      some st') (hfit : SimpleNetwork.CountersFit net.network v st'.state) :
    net.Holds hN v wrap (channels.send (packets pick m sent)) st' := by
  induction sent generalizing st channels with
  | nil =>
      obtain rfl := Option.some.inj hsteps
      have hsame : channels.send (packets pick m []) = channels := Network.send_nil
      rwa [hsame]
  | cons e sent ih =>
      obtain ⟨st₁, hstep, hrest⟩ := steps_cons hsteps
      have hfit₁ := (counters_le_of_steps hN hrest).fit hfit
      obtain ⟨hother, hthis⟩ := NetworkSystem.carries_send h hstep hfit₁
      by_cases hv : e.msg.virtual_network = v
      · obtain ⟨msg, hmsg⟩ := hkind.network_iff.mp hv
        have hnodup : (e.destination.elems.map net.node).Nodup :=
          e.destination.nodup.map net.node_inj
        have hsent : net.Holds hN v wrap
            (channels.send (e.destination.elems.map fun dst => ⟨m, dst, msg⟩)) st₁ := by
          unfold Interconnect.Holds
          rw [Renaming.network_send, List.map_map]
          have hcarries := hthis hv _ hnodup rfl
          rw [List.map_map] at hcarries
          convert hcarries using 3
          funext dst
          simp [Interconnect.renaming, Renaming.packet, hmsg]
        have hsplit : channels.send (packets pick m (e :: sent)) =
            (channels.send (e.destination.elems.map fun dst => ⟨m, dst, msg⟩)).send
              (packets pick m sent) := by
          refine Network.eq_of_lists ?_ rfl
          simp [packets, hkind.pick_iff.mpr hmsg]
        rw [hsplit]
        exact ih hsent hrest
      · have hnone : pick e.msg = none := by
          by_contra hsome
          obtain ⟨msg, hmsg⟩ := Option.ne_none_iff_exists'.mp hsome
          exact hv (hkind.network_iff.mpr ⟨msg, hkind.pick_iff.mp hmsg⟩)
        have hsame : packets pick m (e :: sent) = packets pick m sent := by
          simp [packets, hnone]
        rw [hsame]
        exact ih (hother hv) hrest

/-- A machine that dequeues takes the head of its input buffer. -/
theorem KindOf.receives {vs : List Nat} (hnodup : vs.Nodup) (h : net.Holds hN v wrap channels st)
    (hsteps : NetworkSystem.steps net.network net.source (vs.map (.receive (net.node m) ·)) st =
      some st') :
    (v ∈ vs → ∃ p, channels.head m = some p) ∧
      net.Holds hN v wrap (if v ∈ vs then channels.pop m else channels) st' := by
  induction vs generalizing st channels with
  | nil =>
      obtain rfl := Option.some.inj hsteps
      exact ⟨fun hv => absurd hv List.not_mem_nil, h⟩
  | cons w vs ih =>
      obtain ⟨hw, hnodup⟩ := List.nodup_cons.mp hnodup
      obtain ⟨st₁, hstep, hrest⟩ := steps_cons hsteps
      obtain ⟨hother, hthis⟩ := NetworkSystem.carries_receive h hstep
      by_cases hv : w = v
      · subst hv
        obtain ⟨-, message, hpeek, -⟩ := NetworkSystem.receive_ok.mp hstep
        obtain ⟨p, hp, -⟩ := Option.map_eq_some_iff.mp
          ((Renaming.head_network m).symm.trans (SimpleNetwork.Carries.head h hpeek))
        have hpopped : net.Holds hN w wrap (channels.pop m) st₁ := by
          unfold Interconnect.Holds
          rw [Renaming.network_pop hp]
          exact hthis rfl
        obtain ⟨-, hholds⟩ := ih hnodup hpopped hrest
        rw [if_neg hw] at hholds
        exact ⟨fun _ => ⟨p, hp⟩, by rwa [if_pos List.mem_cons_self]⟩
      · obtain ⟨hhead, hholds⟩ := ih hnodup (hother hv) hrest
        have hmem : v ∈ w :: vs ↔ v ∈ vs := by simp [Ne.symm hv]
        refine ⟨fun hvs => hhead (hmem.mp hvs), ?_⟩
        simpa only [hmem] using hholds

/-- An exchange with the network is one with the channels, which do not care about the order. -/
theorem KindOf.exchange (hkind : KindOf pick wrap v) {s : Networked ι δ A D}
    {sent : List (Enqueue (MachineID ι δ) A D)} {vs : List Nat} (hnodup : vs.Nodup)
    (h : net.Holds hN v wrap channels s.network) (hexchange : s.exchange net m sent vs = some st')
    (hfit : SimpleNetwork.CountersFit net.network v st'.state) :
    net.Holds hN v wrap
      ((if v ∈ vs then channels.pop m else channels).send (packets pick m sent)) st' := by
  obtain ⟨st₁, hsends, hreceives⟩ := steps_append hexchange
  have hsent := hkind.sends h hsends ((counters_le_of_steps hN hreceives).fit hfit)
  obtain ⟨hhead, hholds⟩ := KindOf.receives hnodup hsent hreceives
  by_cases hv : v ∈ vs
  · obtain ⟨p, hp⟩ := hhead hv
    have hp' : channels.head m = some p := hp
    rw [if_pos hv] at hholds ⊢
    rwa [← Network.send_pop hp']
  · rw [if_neg hv] at hholds ⊢
    exact hholds

/-- What a machine peeks at is the head of its channels. -/
theorem KindOf.head (hkind : KindOf pick wrap v) {s : Networked ι δ A D} {msg : M}
    (h : net.Holds hN v wrap channels s.network) (hpeek : (s.peek net m v).bind pick = some msg) :
    ∃ p, channels.head m = some p ∧ p.msg = msg := by
  obtain ⟨content, hcontent, hpick⟩ := Option.bind_eq_some_iff.mp hpeek
  unfold Networked.peek at hcontent
  split at hcontent
  · next message hmessage =>
    obtain rfl := Option.some.inj hcontent
    obtain ⟨p, hp, hpacket⟩ := Option.map_eq_some_iff.mp
      ((Renaming.head_network m).symm.trans (SimpleNetwork.Carries.head h hmessage))
    have hbody : wrap p.msg = message.content.body.msg :=
      congrArg (fun x : Packet Nat (Body (MachineID ι δ) A D) => x.msg.msg) hpacket
    exact ⟨p, hp, hkind.wrap_inj (hbody.trans (hkind.pick_iff.mp hpick))⟩
  · cases hcontent

end Channels

/-! ## The protocol over channels -/

variable [DecidableEq A] [DecidableEq D] [Inhabited D] {config : Config ι δ A D}
  {net : Interconnect ι δ} {rank : Nat → Nat → Nat}
  {hN : SimpleNetwork.Wired net.network rank} {s s' : Networked ι δ A D}
  {requestNet requestNet' forwardNet forwardNet' :
    Network (MachineID ι δ) (RequestMsg (MachineID ι δ) A D)}
  {responseNet responseNet' : Network (MachineID ι δ) (ResponseMsg (MachineID ι δ) A D)}
  {callbacks : List (A × L1Cache.Callback D)}

namespace Networked

/-- The network holds what the channels hold. -/
structure Over (hN : SimpleNetwork.Wired net.network rank) (s : Networked ι δ A D)
    (requestNet forwardNet : Network (MachineID ι δ) (RequestMsg (MachineID ι δ) A D))
    (responseNet : Network (MachineID ι δ) (ResponseMsg (MachineID ι δ) A D)) : Prop where
  request : net.Holds hN 2 .request requestNet s.network
  forward : net.Holds hN 3 .forward forwardNet s.network
  response : net.Holds hN 4 .response responseNet s.network

/-- No message counter of the virtual networks of the protocol has wrapped around. -/
def CountersFit (net : Interconnect ι δ) (s : Networked ι δ A D) : Prop :=
  ∀ v ∈ [2, 3, 4], SimpleNetwork.CountersFit net.network v s.network.state

/-- An event that an L1 triggers on the network it can trigger over channels. -/
theorem Over.l1Trigger (h : Over hN s requestNet forwardNet responseNet)
    {sent : List (Enqueue (MachineID ι δ) A D)} {i : ι} {address : A}
    {inMsg : L1Cache.InMsg (MachineID ι δ) A D} {write : D → D}
    {event : Except Fault L1Cache.Event}
    (hstep : s.l1Trigger config net sent i address inMsg write event = some (s', callbacks))
    (hfit : s'.CountersFit net) :
    ∃ requestNet' forwardNet' responseNet',
      Msi.l1Trigger config (s.via requestNet forwardNet responseNet) i address inMsg write event =
        .valid ⟨s'.via requestNet' forwardNet' responseNet', callbacks⟩ ∧
      Over hN s' requestNet' forwardNet' responseNet' := by
  unfold Networked.l1Trigger at hstep
  split at hstep
  · next ctx htrigger =>
    split at hstep
    · next hsent =>
      obtain ⟨network, hexchange, heq⟩ := Option.map_eq_some_iff.mp hstep
      obtain ⟨rfl, rfl⟩ := Prod.mk.inj heq
      obtain ⟨hrequest, hforward, hresponse⟩ := hsent
      have hnodup : ctx.virtual_networks.Nodup := by
        unfold L1Cache.Ctx.virtual_networks
        split <;> split <;> decide
      refine ⟨requestNet.send ctx.requestFromCache,
        if .forwardToCache ∈ ctx.dequeued then forwardNet.pop (.L1Cache i) else forwardNet,
        (if .responseToCache ∈ ctx.dequeued then responseNet.pop (.L1Cache i)
          else responseNet).send ctx.responseFromCache, ?_, ?_, ?_, ?_⟩
      · show (L1Cache.trigger (l1Env config s.machines i address inMsg write)
          (s.machines.line i address) event).map _ = _
        rw [htrigger]
        rfl
      · have hholds := kind_of_request.exchange hnodup h.request hexchange
          (hfit 2 (by decide))
        rw [hrequest, if_neg] at hholds
        · exact hholds
        · simp [L1Cache.Ctx.virtual_networks]
      · have hholds := kind_of_forward.exchange hnodup h.forward hexchange (hfit 3 (by decide))
        have hmem : 3 ∈ ctx.virtual_networks ↔ .forwardToCache ∈ ctx.dequeued := by
          simp [L1Cache.Ctx.virtual_networks]
        rw [hforward, Network.send_nil] at hholds
        simp only [hmem] at hholds
        exact hholds
      · have hholds := kind_of_response.exchange hnodup h.response hexchange (hfit 4 (by decide))
        rw [hresponse] at hholds
        have hmem : 4 ∈ ctx.virtual_networks ↔ .responseToCache ∈ ctx.dequeued := by
          simp [L1Cache.Ctx.virtual_networks]
        simp only [hmem] at hholds
        exact hholds
    · cases hstep
  · cases hstep

/-- An event that a directory triggers on the network it can trigger over channels. -/
theorem Over.dirTrigger (h : Over hN s requestNet forwardNet responseNet)
    {sent : List (Enqueue (MachineID ι δ) A D)} {d : δ} {index : Nat} {address : A}
    {inMsg : Directory.InMsg (MachineID ι δ) A D} {event : Except Fault Directory.Event}
    (hstep : s.dirTrigger config net sent d index address inMsg event = some (s', callbacks))
    (hfit : s'.CountersFit net) :
    ∃ requestNet' forwardNet' responseNet',
      Msi.dirTrigger config (s.via requestNet forwardNet responseNet) d index address inMsg event =
        .valid ⟨s'.via requestNet' forwardNet' responseNet', callbacks⟩ ∧
      Over hN s' requestNet' forwardNet' responseNet' := by
  unfold Networked.dirTrigger at hstep
  split at hstep
  · next hhome =>
    split at hstep
    · next ctx htrigger =>
      split at hstep
      · next hsent =>
        obtain ⟨network, hexchange, heq⟩ := Option.map_eq_some_iff.mp hstep
        obtain ⟨rfl, rfl⟩ := Prod.mk.inj heq
        obtain ⟨hrequest, hforward, hresponse⟩ := hsent
        have hnodup : ctx.virtual_networks.Nodup := by
          unfold Directory.Ctx.virtual_networks
          split <;> split <;> decide
        refine ⟨if .requestToDir ∈ ctx.dequeued then requestNet.pop (.Directory d) else requestNet,
          forwardNet.send ctx.forwardFromDir,
          (if .responseToDir ∈ ctx.dequeued then responseNet.pop (.Directory d)
            else responseNet).send ctx.responseFromDir, ?_, ?_, ?_, ?_⟩
        · unfold Msi.dirTrigger
          rw [if_pos hhome]
          show (Directory.trigger _ (s.dir address) event).map _ = _
          rw [htrigger]
          rfl
        · have hholds := kind_of_request.exchange hnodup h.request hexchange (hfit 2 (by decide))
          have hmem : 2 ∈ ctx.virtual_networks ↔ .requestToDir ∈ ctx.dequeued := by
            simp [Directory.Ctx.virtual_networks]
          rw [hrequest, Network.send_nil] at hholds
          simp only [hmem] at hholds
          exact hholds
        · have hholds := kind_of_forward.exchange hnodup h.forward hexchange (hfit 3 (by decide))
          rw [hforward, if_neg] at hholds
          · exact hholds
          · simp [Directory.Ctx.virtual_networks]
        · have hholds := kind_of_response.exchange hnodup h.response hexchange (hfit 4 (by decide))
          rw [hresponse] at hholds
          have hmem : 4 ∈ ctx.virtual_networks ↔ .responseToDir ∈ ctx.dequeued := by
            simp [Directory.Ctx.virtual_networks]
          simp only [hmem] at hholds
          exact hholds
      · cases hstep
    · cases hstep
  · cases hstep

/-- What a machine does on the network it can do over channels. -/
theorem Over.controller (h : Over hN s requestNet forwardNet responseNet)
    {sent : List (Enqueue (MachineID ι δ) A D)} {label : Msi.Label ι δ A D}
    (hstep : s.controller config net sent label = some (s', callbacks))
    (hfit : s'.CountersFit net) :
    Msi.dirEvent (s.via requestNet forwardNet responseNet) label = s.dirEvent net label ∧
      ∃ requestNet' forwardNet' responseNet',
        Msi.step config (s.via requestNet forwardNet responseNet) label =
          .valid ⟨s'.via requestNet' forwardNet' responseNet', callbacks⟩ ∧
        Over hN s' requestNet' forwardNet' responseNet' := by
  cases label with
  | mandatory i request victim write =>
      simp only [Networked.controller] at hstep
      split at hstep
      · cases hstep
      · next event address hevent =>
        refine ⟨rfl, ?_⟩
        have hsame : mandatoryQueue_in (config.l1 i)
            ((s.via requestNet forwardNet responseNet).l1 i) request victim =
              some (event, address) := hevent
        simp only [Msi.step, hsame]
        exact h.l1Trigger hstep hfit
  | forward i =>
      simp only [Networked.controller] at hstep
      split at hstep
      · cases hstep
      · next msg hmsg =>
        obtain ⟨p, hhead, rfl⟩ := kind_of_forward.head h.forward hmsg
        have hsame : (s.via requestNet forwardNet responseNet).forwardNet.head (.L1Cache i) =
          some p := hhead
        refine ⟨rfl, ?_⟩
        simp only [Msi.step, hsame]
        exact h.l1Trigger hstep hfit
  | response i write =>
      simp only [Networked.controller] at hstep
      split at hstep
      · cases hstep
      · next msg hmsg =>
        obtain ⟨p, hhead, rfl⟩ := kind_of_response.head h.response hmsg
        have hsame : (s.via requestNet forwardNet responseNet).responseNet.head (.L1Cache i) =
          some p := hhead
        refine ⟨rfl, ?_⟩
        simp only [Msi.step, hsame]
        exact h.l1Trigger hstep hfit
  | dirRequest d =>
      simp only [Networked.controller] at hstep
      split at hstep
      · cases hstep
      · next msg hmsg =>
        obtain ⟨p, hhead, rfl⟩ := kind_of_request.head h.request hmsg
        have hsame : (s.via requestNet forwardNet responseNet).requestNet.head (.Directory d) =
          some p := hhead
        simp only [Msi.dirEvent, Networked.dirEvent, Msi.step, hsame, hmsg]
        exact ⟨rfl, h.dirTrigger hstep hfit⟩
  | dirResponse d =>
      simp only [Networked.controller] at hstep
      split at hstep
      · cases hstep
      · next msg hmsg =>
        obtain ⟨p, hhead, rfl⟩ := kind_of_response.head h.response hmsg
        have hsame : (s.via requestNet forwardNet responseNet).responseNet.head (.Directory d) =
          some p := hhead
        simp only [Msi.dirEvent, Networked.dirEvent, Msi.step, hsame, hmsg]
        exact ⟨rfl, h.dirTrigger hstep hfit⟩
  | dirMemory d index =>
      simp only [Networked.controller] at hstep
      split at hstep
      · cases hstep
      · next msg hmsg =>
        have hsame : ((s.via requestNet forwardNet responseNet).memQueue d)[index]? = some msg :=
          hmsg
        simp only [Msi.dirEvent, Networked.dirEvent, Msi.step, hsame, hmsg]
        exact ⟨trivial, h.dirTrigger hstep hfit⟩
  | deliverRequest | deliverForward | deliverResponse => cases hstep

omit [DecidableEq A] [DecidableEq D] [Inhabited D] in
/-- What the network does by itself is deliveries, and the machines stay as they are. -/
theorem Over.inside (h : Over hN s requestNet forwardNet responseNet)
    {label : NetworkSystem.Label (Body (MachineID ι δ) A D)}
    (hlabel : label = .tick ∨ ∃ c, label = .wakeup c)
    (hstep : s.inside net label = some (s', callbacks)) (hfit : s'.CountersFit net) :
    s'.l1 = s.l1 ∧ s'.dir = s.dir ∧ s'.memQueue = s.memQueue ∧ callbacks = [] ∧
      ∃ requestNet' forwardNet' responseNet', Network.Delivers requestNet requestNet' ∧
        Network.Delivers forwardNet forwardNet' ∧ Network.Delivers responseNet responseNet' ∧
        Over hN s' requestNet' forwardNet' responseNet' := by
  unfold Networked.inside at hstep
  split at hstep
  · next network hnetwork =>
    obtain ⟨rfl, rfl⟩ := Prod.mk.inj (Option.some.inj hstep)
    have hone : ∀ {M : Type} {wrap : M → ProtocolMsg (MachineID ι δ) A D} {v : Nat}
        {channels : Network (MachineID ι δ) M}, v ∈ [2, 3, 4] →
        net.Holds hN v wrap channels s.network →
        ∃ channels', Network.Delivers channels channels' ∧
          net.Holds hN v wrap channels' network := by
      intro M wrap v channels hv hholds
      obtain ⟨net', hdelivers, hcarries⟩ := NetworkSystem.carries_inside (net.ordered v hv) hholds
        hlabel hnetwork (hfit v hv)
      obtain ⟨channels', hdelivers', rfl⟩ := Renaming.delivers_network hdelivers rfl
      exact ⟨channels', hdelivers', hcarries⟩
    obtain ⟨requestNet', hrequest, hrequest'⟩ := hone (by decide) h.request
    obtain ⟨forwardNet', hforward, hforward'⟩ := hone (by decide) h.forward
    obtain ⟨responseNet', hresponse, hresponse'⟩ := hone (by decide) h.response
    exact ⟨rfl, rfl, rfl, rfl, requestNet', forwardNet', responseNet', hrequest, hforward,
      hresponse, hrequest', hforward', hresponse'⟩
  · cases hstep

omit [DecidableEq D] in
/-- Deliveries make a run over channels longer. -/
theorem run_of_deliveries {bad : Trigger (MachineID ι δ) → Bool} {image : A → D}
    (hrequest : Network.Delivers requestNet requestNet')
    (hforward : Network.Delivers forwardNet forwardNet')
    (hresponse : Network.Delivers responseNet responseNet')
    (h : (observed config).Run (fun s l => s.1.Avoids bad l)
      (s.via requestNet forwardNet responseNet, image)) :
    (observed config).Run (fun s l => s.1.Avoids bad l)
      (s.via requestNet' forwardNet' responseNet', image) := by
  have hrequests : (observed config).Run (fun s l => s.1.Avoids bad l)
      (s.via requestNet' forwardNet responseNet, image) := by
    induction hrequest with
    | none => exact h
    | @more net₁ net₂ src dst _ hdeliver ih =>
        refine ih.step (l := .deliverRequest src dst) (fun _ _ _ h => by cases h)
          ⟨⟨s.via net₂ forwardNet responseNet, []⟩, ?_, rfl⟩
        have hsame : (s.via net₁ forwardNet responseNet).requestNet.deliver src dst = some net₂ :=
          hdeliver
        simp only [Msi.step, hsame]
        rfl
  have hforwards : (observed config).Run (fun s l => s.1.Avoids bad l)
      (s.via requestNet' forwardNet' responseNet, image) := by
    induction hforward with
    | none => exact hrequests
    | @more net₁ net₂ src dst _ hdeliver ih =>
        refine ih.step (l := .deliverForward src dst) (fun _ _ _ h => by cases h)
          ⟨⟨s.via requestNet' net₂ responseNet, []⟩, ?_, rfl⟩
        have hsame : (s.via requestNet' net₁ responseNet).forwardNet.deliver src dst = some net₂ :=
          hdeliver
        simp only [Msi.step, hsame]
        rfl
  induction hresponse with
  | none => exact hforwards
  | @more net₁ net₂ src dst _ hdeliver ih =>
      refine ih.step (l := .deliverResponse src dst) (fun _ _ _ h => by cases h)
        ⟨⟨s.via requestNet' forwardNet' net₂, []⟩, ?_, rfl⟩
      have hsame : (s.via requestNet' forwardNet' net₁).responseNet.deliver src dst = some net₂ :=
        hdeliver
      simp only [Msi.step, hsame]
      rfl

/-! ## Runs -/

variable {bad : Trigger (MachineID ι δ) → Bool} {S : Networked ι δ A D × (A → D)}

/-- Whatever a machine does, it exchanges messages with the network. -/
theorem exchange_of_controller {sent : List (Enqueue (MachineID ι δ) A D)}
    {label : Msi.Label ι δ A D}
    (hstep : s.controller config net sent label = some (s', callbacks)) :
    ∃ m vs, s.exchange net m sent vs = some s'.network := by
  have hl1 : ∀ i address inMsg write event,
      s.l1Trigger config net sent i address inMsg write event = some (s', callbacks) →
      ∃ m vs, s.exchange net m sent vs = some s'.network := by
    intro i address inMsg write event h
    unfold Networked.l1Trigger at h
    split at h
    · split at h
      · obtain ⟨network, hexchange, heq⟩ := Option.map_eq_some_iff.mp h
        obtain ⟨rfl, -⟩ := Prod.mk.inj heq
        exact ⟨_, _, hexchange⟩
      · cases h
    · cases h
  have hdir : ∀ d index address inMsg event,
      s.dirTrigger config net sent d index address inMsg event = some (s', callbacks) →
      ∃ m vs, s.exchange net m sent vs = some s'.network := by
    intro d index address inMsg event h
    unfold Networked.dirTrigger at h
    split at h
    · split at h
      · split at h
        · obtain ⟨network, hexchange, heq⟩ := Option.map_eq_some_iff.mp h
          obtain ⟨rfl, -⟩ := Prod.mk.inj heq
          exact ⟨_, _, hexchange⟩
        · cases h
      · cases h
    · cases h
  cases label with
  | mandatory | forward | response =>
      simp only [Networked.controller] at hstep
      split at hstep
      · cases hstep
      · exact hl1 _ _ _ _ _ hstep
  | dirRequest | dirResponse | dirMemory =>
      simp only [Networked.controller] at hstep
      split at hstep
      · cases hstep
      · exact hdir _ _ _ _ _ hstep
  | deliverRequest | deliverForward | deliverResponse => cases hstep

/-- The counters were no higher before a step. -/
theorem fit_of_step {label : Label ι δ A D} (hN : SimpleNetwork.Wired net.network rank)
    (hstep : s.step config net label = some (s', callbacks)) (hfit : s'.CountersFit net) :
    s.CountersFit net := by
  have hinside : ∀ l, s.inside net l = some (s', callbacks) →
      SimpleNetwork.CountersLe s.network.state s'.network.state := by
    intro l hl
    unfold Networked.inside at hl
    split at hl
    · next network hnetwork =>
      obtain ⟨rfl, -⟩ := Prod.mk.inj (Option.some.inj hl)
      exact NetworkSystem.counters_le_of_step hN hnetwork
    · cases hl
  have hle : SimpleNetwork.CountersLe s.network.state s'.network.state := by
    cases label with
    | wakeup c => exact hinside _ hstep
    | tick => exact hinside _ hstep
    | controller label sent =>
        obtain ⟨m, vs, hexchange⟩ := exchange_of_controller hstep
        exact counters_le_of_steps hN hexchange
  exact fun v hv => hle.fit (hfit v hv)

omit [DecidableEq A] [DecidableEq D] [Inhabited D] in
/-- Machines that stay as they are over other channels. -/
theorem over_congr (hl1 : s'.l1 = s.l1) (hdir : s'.dir = s.dir)
    (hmemQueue : s'.memQueue = s.memQueue) :
    s'.via requestNet forwardNet responseNet = s.via requestNet forwardNet responseNet := by
  unfold via
  rw [hl1, hdir, hmemQueue]

/-- Whatever the machines do over the network, they can do over channels. -/
theorem simulated_of_run (hN : SimpleNetwork.Wired net.network rank)
    (h : (networked config net).Run (fun s l => s.1.Avoids bad net l) S)
    (hfit : S.1.CountersFit net) :
    ∃ requestNet forwardNet responseNet,
      (observed config).Run (fun s l => s.1.Avoids bad l)
        (S.1.via requestNet forwardNet responseNet, S.2) ∧
      Over hN S.1 requestNet forwardNet responseNet := by
  refine h.invariant (I := fun S => S.1.CountersFit net → ∃ requestNet forwardNet responseNet,
    (observed config).Run (fun s l => s.1.Avoids bad l)
      (S.1.via requestNet forwardNet responseNet, S.2) ∧
    Over hN S.1 requestNet forwardNet responseNet) ?_ ?_ hfit
  · rintro _ rfl -
    refine ⟨.empty, .empty, .empty, .init rfl, ?_, ?_, ?_⟩
    · exact SimpleNetwork.carries_initial (net.ordered 2 (by decide))
    · exact SimpleNetwork.carries_initial (net.ordered 3 (by decide))
    · exact SimpleNetwork.carries_initial (net.ordered 4 (by decide))
  · rintro ⟨s, image⟩ label _ - ih havoids ⟨s', callbacks, hstep, rfl⟩ hfit'
    obtain ⟨requestNet, forwardNet, responseNet, hrun, hover⟩ := ih (fit_of_step hN hstep hfit')
    have hinside : ∀ l : NetworkSystem.Label (Body (MachineID ι δ) A D),
        l = .tick ∨ (∃ c, l = .wakeup c) → s.inside net l = some (s', callbacks) →
        ∃ requestNet forwardNet responseNet,
          (observed config).Run (fun s l => s.1.Avoids bad l)
            (s'.via requestNet forwardNet responseNet, observe image callbacks) ∧
          Over hN s' requestNet forwardNet responseNet := by
      intro l hl hinside
      obtain ⟨hl1, hdir, hmemQueue, rfl, requestNet', forwardNet', responseNet', hrequest, hforward,
        hresponse, hover'⟩ := hover.inside hl hinside hfit'
      refine ⟨requestNet', forwardNet', responseNet', ?_, hover'⟩
      rw [over_congr hl1 hdir hmemQueue]
      exact run_of_deliveries hrequest hforward hresponse hrun
    cases label with
    | wakeup c => exact hinside _ (.inr ⟨c, rfl⟩) hstep
    | tick => exact hinside _ (.inl rfl) hstep
    | controller label sent =>
        obtain ⟨hevent, requestNet', forwardNet', responseNet', hvalid, hover'⟩ :=
          hover.controller hstep hfit'
        refine ⟨requestNet', forwardNet', responseNet', hrun.step (l := label) ?_ ⟨_, hvalid, rfl⟩,
          hover'⟩
        intro address event r h
        exact havoids address event r (hevent ▸ h)

end Networked

/-! ## What follows for the machines -/

variable {bad : Trigger (MachineID ι δ) → Bool} {S : Networked ι δ A D × (A → D)}

/-- The network is transparent to the machines: as long as no message counter has wrapped around,
what the machines hold, and the values last stored, are those of a run over first-in first-out
channels, and a machine that peeks at one of its buffers finds the head of its channels there. -/
theorem network_is_transparent
    (h : (networked config net).Run (fun s l => s.1.Avoids bad net l) S)
    (hfit : S.1.CountersFit net) :
    ∃ system, (observed config).Run (fun s l => s.1.Avoids bad l) (system, S.2) ∧
      system.l1 = S.1.l1 ∧ system.dir = S.1.dir ∧ system.memQueue = S.1.memQueue ∧
      ∀ m msg,
        ((S.1.peek net m 2).bind ProtocolMsg.request? = some msg →
          ∃ p, system.requestNet.head m = some p ∧ p.msg = msg) ∧
        ((S.1.peek net m 3).bind ProtocolMsg.forward? = some msg →
          ∃ p, system.forwardNet.head m = some p ∧ p.msg = msg) ∧
        ∀ msg, (S.1.peek net m 4).bind ProtocolMsg.response? = some msg →
          ∃ p, system.responseNet.head m = some p ∧ p.msg = msg := by
  obtain ⟨rank, hN⟩ := net.built.wired
  obtain ⟨requestNet, forwardNet, responseNet, hrun, hover⟩ := Networked.simulated_of_run hN h hfit
  exact ⟨_, hrun, rfl, rfl, rfl, fun m msg => ⟨kind_of_request.head hover.request,
    kind_of_forward.head hover.forward, fun msg => kind_of_response.head hover.response⟩⟩

/-- One writer and no reader beside it, copies and directories with the value last stored, and loads
that return it. -/
structure Networked.Coherent (config : Config ι δ A D) (net : Interconnect ι δ)
    (s : Networked ι δ A D) (image : A → D) : Prop where
  writer : ∀ address, s.machines.SingleWriter address
  copy : ∀ i address, s.machines.stateOf i address ∈ [L1Cache.State.S, .M] →
    (s.machines.line i address).data = image address
  dir : ∀ address, s.machines.dirStateOf address ∈ [Directory.State.I, .S] →
    (s.dir address).entry.dataBlk = image address
  load : ∀ l s' callbacks address data, s.step config net l = some (s', callbacks) →
    s'.CountersFit net → (address, .readCallback data) ∈ callbacks → data = image address

/-- The protocol keeps the caches coherent over the simple network, in runs in which no PUTM is
taken in MS_D or replaces a newer writeback. -/
theorem coherent_over_network (hmap : config.useMap = false)
    (h : (networked config net).Run (fun s l => s.1.Avoids misplacesData net l) S)
    (hfit : S.1.CountersFit net) : S.1.Coherent config net S.2 := by
  obtain ⟨rank, hN⟩ := net.built.wired
  obtain ⟨requestNet, forwardNet, responseNet, hrun, hover⟩ := Networked.simulated_of_run hN h hfit
  have hup := up_to_date_of_observed hmap hrun
  refine ⟨fun address => ?_, fun i address hst => ?_, fun address hst => ?_,
    fun l s' callbacks address data hstep hfit' hmem => ?_⟩
  · have hblock := view_of_observed hrun address
    have hsingle := (Block.Coherent.of_run (fun _ _ h => h.of_or.1) hblock).one_writer
    exact ⟨hsingle.writer, hsingle.reader⟩
  · refine (hup address).copy (.L1Cache i) ?_
    simp only [List.mem_cons, List.not_mem_nil, or_false] at hst
    tauto
  · refine (hup address).dir ?_
    simp only [List.mem_cons, List.not_mem_nil, or_false] at hst
    tauto
  · cases l with
    | wakeup c | tick =>
        simp only [Networked.step, Networked.inside] at hstep
        split at hstep
        · obtain ⟨-, rfl⟩ := Prod.mk.inj (Option.some.inj hstep)
          exact absurd hmem List.not_mem_nil
        · cases hstep
    | controller label sent =>
        obtain ⟨-, requestNet', forwardNet', responseNet', hvalid, -⟩ :=
          hover.controller hstep hfit'
        have hwf := wellFormed_of_run (run_of_observed hrun)
        have hnone := dirEvent_of_callback hvalid (List.ne_nil_of_mem hmem)
        have hnext := hrun.step (l := label) (fun a event r hevent => by simp [hnone] at hevent)
          ⟨_, hvalid, rfl⟩
        obtain ⟨hkeeps, i, hdata, hst⟩ := (step_refines S.2 hwf hvalid).load address data hmem
        refine hdata.trans (((up_to_date_of_observed hmap hnext address).copy (.L1Cache i)
          ?_).trans hkeeps)
        simp only [List.mem_cons, List.not_mem_nil, or_false] at hst
        have hstate : (view config (s'.via requestNet' forwardNet' responseNet')
          (observe S.2 callbacks) address).state (.L1Cache i) =
            cacheState (s'.via requestNet' forwardNet' responseNet') address (.L1Cache i) := rfl
        rw [hstate]
        tauto

/-! ## A small network -/

namespace Sample

/-- An L1 and a directory at the two ends of a crossbar. -/
def interconnect : Interconnect Unit Unit where
  network := { SimpleNetwork.crossbarNetwork with m_virtual_networks := 5 }
  topology := crossbar
  built := ⟨crossbar_valid, rfl, _, _, crossbar_link_map, crossbar_made⟩
  node
    | .L1Cache _ => 0
    | .Directory _ => 1
  node_inj := by
    intro m m' h
    cases m <;> cases m' <;> simp_all
  ordered := fun _ _ => rfl

/-- The system of one L1. -/
def single : Config Unit Unit (Fin 2) Nat where
  l1 := fun _ => { addressToCacheSet := fun _ => 0, cacheAssoc := 1, sendEvictions := false }
  mapAddressToDirectory := fun _ => ()
  useMap := false
  memory := fun _ => 0

/-- A message goes through the switch and the throttle of a link to a node. -/
def transport (dest node : Nat) : List (Networked.Label Unit Unit (Fin 2) Nat) :=
  [.tick, .wakeup (.perfectSwitch 4), .tick, .wakeup (.throttle 4 dest), .tick,
    .wakeup (.controller node)]

/-- The L1 stores a value at address 0: its request, the data, and the messages' ways. -/
def storing : List (Networked.Label Unit Unit (Fin 2) Nat) :=
  [.controller (.mandatory () ⟨0, .ST⟩ 0 fun _ => 7)
    [⟨NetDest.empty.add (.Directory ()), .request ⟨0, .GETM, .L1Cache (), 0⟩, .Control, 1⟩]] ++
  transport 3 1 ++ [.controller (.dirRequest ()) []] ++
  [.controller (.dirMemory () 0)
    [⟨NetDest.empty.add (.L1Cache ()), .response ⟨0, .DATA_FROM_DIR, .Directory (), 0, 0⟩,
      .Response_Data, 1⟩]] ++
  transport 2 0 ++ [.controller (.response () fun _ => 7) []]

/-- The state after the first labels of the store. -/
def stored (n : Nat) : Networked Unit Unit (Fin 2) Nat × (Fin 2 → Nat) :=
  Networked.replay single interconnect misplacesData
    (.initial single interconnect, single.initialData) (storing.take n)

theorem run_stored (n : Nat) : (networked single interconnect).Run
    (fun s l => s.1.Avoids misplacesData interconnect l) (stored n) :=
  Networked.run_replay _ (.init rfl)

theorem stored_fits (n : Nat) (h : n = 15 ∨ n = 16) : (stored n).1.CountersFit interconnect := by
  unfold Networked.CountersFit SimpleNetwork.CountersFit
  rcases h with rfl | rfl <;> decide +kernel

/-- The L1 has stored the value. -/
theorem stored_is_coherent :
    (stored 16).1.machines.stateOf () 0 = .M ∧
      ((stored 16).1.machines.line () 0).data = (stored 16).2 0 := by
  have hstate : (stored 16).1.machines.stateOf () 0 = .M := by decide +kernel
  refine ⟨hstate, (coherent_over_network rfl (run_stored 16) (stored_fits 16 (.inr rfl))).copy () 0
    ?_⟩
  rw [hstate]
  exact List.mem_cons_of_mem _ List.mem_cons_self

/-- The data is at the head of the buffer of the L1. -/
theorem stored_is_transparent :
    ∃ system, (observed single).Run (fun s l => s.1.Avoids misplacesData l)
      (system, (stored 15).2) ∧ system.l1 = (stored 15).1.l1 := by
  obtain ⟨system, hrun, hl1, -⟩ :=
    network_is_transparent (run_stored 15) (stored_fits 15 (.inl rfl))
  exact ⟨system, hrun, hl1⟩

end Sample

end Ece552.Msi
