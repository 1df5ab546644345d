import Ece552.Msi.Accounting

/-!
# Downgrades and the lists of the directory for one address

A downgrade is outstanding while the forwarded GETS or the data it produced is in flight. Exactly
one is outstanding in MS_D and none in any other state, unless the directory takes a PUTM in MS_D
for the data it waits for. A line that is shared or downgraded has a sharer, unless the only sharer
gives it up in a state that stays shared.
-/

namespace Ece552.Msi.Block

open Library
open Directory (Trigger)

variable {N D : Type} [DecidableEq N] {s s' : Block N D} {useMap : Bool}

/-! ## Outstanding downgrades -/

/-- The forwarded GETS in flight and the data on its way to the directory. -/
def downgradesPending (s : Block N D) : Nat :=
  tallyAll Forward.isGETS s.forwards + s.downgrades.length

/-- A downgrade is outstanding exactly in MS_D. -/
def DowngradeBalanced (s : Block N D) : Prop :=
  s.downgradesPending = if s.dir = .MS_D then 1 else 0

/-- A forward that is taken leaves a downgrade where one is due. -/
theorem ForwardStep.downgrade_balanced [Inhabited D] (h : ForwardStep s s')
    (hs : s.DowngradeBalanced) :
    s'.DowngradeBalanced := by
  simp only [DowngradeBalanced, downgradesPending] at hs ⊢
  cases h with
  | invI hpop | invS hpop | invSM_AD hpop | invSI_A hpop | wbAckI hpop | wbAck hpop | fwdGetSM hpop
  | fwdGetSMI_A hpop | fwdGetMM hpop | fwdGetMMI_A hpop =>
      have hcount := hpop.removed.tallyAll Forward.isGETS
      grind

/-- A request that is taken keeps the balance, unless it is a PUTM in MS_D. -/
theorem RequestStep.downgrade_balanced [Inhabited D] {event : Directory.Event} {r : N}
    (h : RequestStep useMap s event r s') (hdir : s.DirShape)
    (hskips : Trigger.skipsDowngrade ⟨s.dir, s.sharers, event, r⟩ = false)
    (hs : s.DowngradeBalanced) :
    s'.DowngradeBalanced := by
  simp only [DowngradeBalanced, downgradesPending] at hs ⊢
  cases h with
  | getSM hpop hst =>
      simp only [DirShape, hst] at hdir
      obtain ⟨-, -, owner, howner⟩ := hdir
      have hcount : s.owner.count = 1 := by simp [NetDest.count, howner]
      grind
  | getSI | getMI | putSLastI | getSS | getMS | putSNotLast | putSLastS | putMS | getMM | putSM
  | putMOwner | putMNotOwner | putSLastMS | putMMS_D | putMMS_M => grind

omit [DecidableEq N] in
/-- Data that the directory takes leaves it in MS_D no longer. -/
theorem DataStep.downgrade_balanced {i : N} (h : DataStep s i s') (hs : s.DowngradeBalanced) :
    s'.DowngradeBalanced := by
  simp only [DowngradeBalanced, downgradesPending] at hs ⊢
  cases h with
  | dropped hremoved | dataMS_D hremoved | dataMS_M hremoved =>
      have hlength := hremoved.length
      grind

omit [DecidableEq N] in
/-- Memory is done in states in which no downgrade is due. -/
theorem MemoryStep.downgrade_balanced [Inhabited D] {event : Directory.Event} {r : N}
    (h : MemoryStep useMap s event r s') (hs : s.DowngradeBalanced) : s'.DowngradeBalanced := by
  simp only [DowngradeBalanced, downgradesPending] at hs ⊢
  cases h with
  | dataIS_M | dataIM_M | ackMS_M | ackMI_M => grind

/-- Step lemma. -/
theorem Step.downgrade_balanced [Inhabited D] {label : Option (Directory.Event × N)}
    (h : Step useMap s label s') (hdir : s.DirShape)
    (hskips : s.Avoids Trigger.skipsDowngrade label) (hs : s.DowngradeBalanced) :
    s'.DowngradeBalanced := by
  cases h with
  | cpu h => cases h <;> exact hs
  | forward h => exact h.downgrade_balanced hs
  | response h => cases h <;> exact hs
  | request h => exact h.downgrade_balanced hdir (hskips _ _ rfl) hs
  | data h => exact h.downgrade_balanced hs
  | memory h => exact h.downgrade_balanced hs

/-- Runs that never take a PUTM in MS_D keep the downgrades in step with the directory. -/
theorem DowngradeBalanced.of_run [Inhabited D] {allowed : Block N D → Option
    (Directory.Event × N) → Prop}
    (hallowed : ∀ s label, allowed s label → s.Avoids Trigger.skipsDowngrade label)
    (h : (system useMap).Run allowed s) : s.DowngradeBalanced := by
  refine h.invariant (fun s (hinit : Initial s) => ?_) ?_
  · simp [DowngradeBalanced, downgradesPending, hinit.forwards, hinit.downgrades, hinit.dir]
  · intro s label s' hrun hs hlabel hstep
    exact hstep.downgrade_balanced (Accounting.of_run hrun).dir_shape (hallowed s label hlabel) hs

/-! ## The sharers of a shared line -/

/-- A line that is shared, or is being downgraded, has a sharer. -/
def SharersListed (s : Block N D) : Prop :=
  s.dir = .S ∨ s.dir = .MS_D ∨ s.dir = .MS_M → 0 < s.sharers.count

/-- A request keeps the sharers listed, unless it empties the list. -/
theorem RequestStep.sharers_listed [Inhabited D] {event : Directory.Event} {r : N}
    (h : RequestStep useMap s event r s')
    (hempties : Trigger.emptiesSharers ⟨s.dir, s.sharers, event, r⟩ = false)
    (hs : s.SharersListed) : s'.SharersListed := by
  intro hdir'
  cases h with
  | getSS hpop hst => exact List.length_pos_of_mem (NetDest.mem_add.mpr (Or.inl rfl))
  | @getSM r rest hpop hst =>
      have hmem : r ∈ (s.sharers.add r).addNetDest s.owner := by simp
      exact List.length_pos_of_mem hmem
  | putSNotLast hpop hst hcount =>
      -- at most one of two or more sharers is removed
      by_cases hr : r ∈ s.sharers
      · have := NetDest.count_remove_of_mem hr
        grind
      · grind [NetDest.remove_of_not_mem hr]
  | putMS hpop hst | putSLastMS hpop hst => grind
  | putMMS_D hpop hst | putMMS_M hpop hst => exact hs (by simp [hst])
  | putSLastI hpop hst | putSM hpop hst | putMNotOwner hpop hst => exact hs hdir'
  | getSI | getMI | getMS | putSLastS | getMM | putMOwner => grind

omit [DecidableEq N] in
/-- Memory is done in states in which sharers are listed. -/
theorem MemoryStep.sharers_listed [Inhabited D] {event : Directory.Event} {r : N}
    (h : MemoryStep useMap s event r s') (hdir : s.DirShape) (hs : s.SharersListed) :
    s'.SharersListed := by
  intro hdir'
  cases h with
  | dataIS_M hremoved hst =>
      simp only [DirShape, hst] at hdir
      obtain ⟨r', value', -, hsharers, -⟩ := hdir
      simp [NetDest.count, hsharers]
  | ackMS_M hremoved hst => exact hs (by simp [hst])
  | dataIM_M | ackMI_M => grind

/-- Step lemma. -/
theorem Step.sharers_listed [Inhabited D] {label : Option (Directory.Event × N)}
    (h : Step useMap s label s')
    (hdir : s.DirShape) (hempties : s.Avoids Trigger.emptiesSharers label)
    (hs : s.SharersListed) : s'.SharersListed := by
  cases h with
  | cpu h => cases h <;> exact hs
  | forward h => cases h <;> exact hs
  | response h => cases h <;> exact hs
  | request h => exact h.sharers_listed (hempties _ _ rfl) hs
  | data h =>
      cases h with
      | dropped => exact hs
      | dataMS_D hremoved hst | dataMS_M hremoved hst => exact fun _ => hs (by simp [hst])
  | memory h => exact h.sharers_listed hdir hs

/-- Runs in which the only sharer never gives up a line that stays shared list a sharer in S. -/
theorem SharersListed.of_run [Inhabited D] {allowed : Block N D → Option
    (Directory.Event × N) → Prop}
    (hallowed : ∀ s label, allowed s label → s.Avoids Trigger.emptiesSharers label)
    (h : (system useMap).Run allowed s) : s.SharersListed := by
  refine h.invariant (fun s (hinit : Initial s) => ?_) ?_
  · simp [SharersListed, hinit.dir]
  · intro s label s' hrun hs hlabel hstep
    exact hstep.sharers_listed (Accounting.of_run hrun).dir_shape (hallowed s label hlabel) hs

end Ece552.Msi.Block
