import TcVoice.Server.Tokens

/-!
# Participant sets and the members' UDP addresses

A channel's participant set is keyed by UDP address, and each client's own UDP
address is kept with the client.  This file is about the two saying the same.

* `ParticipantsMatch` — a channel's participants are its members' UDP addresses.
* `ParticipantsOwned` — the half that no step breaks: each participant is some
  member's UDP address.
* `SoleOwner` — nobody else in the channel has registered this address.
* `KeepsAddresses` — the steps that take no address away from another member:
  whoever gives an address up is its only owner, and a hello finds its channel.
* `participantsMatch_iff` — **a run keeps the participant sets right exactly when
  each of its steps keeps addresses**, with `address_taken_from_member` for one
  that does not.
-/

namespace TcVoice
namespace Server

open Runs Table ServerState

variable {env : Env} {s s' : ServerState} {op : Op} {a : SocketAddr} {ch : ChannelId}

/-! ## What ought to hold, and what may break it -/

/-- A channel's participants are the UDP addresses of the clients in it. -/
def ParticipantsMatch (s : ServerState) : Prop :=
  ∀ ch u, u ∈ s.participants ch ↔ ∃ a, s.channelOf a = some ch ∧ s.udpOf a = some u

/-- Of the clients in the channel, only `a` may have registered `u`. -/
def SoleOwner (s : ServerState) (a : SocketAddr) (ch : ChannelId) (u : SocketAddr) : Prop :=
  ∀ b, s.channelOf b = some ch → s.udpOf b = some u → b = a

/-- A step keeps everybody else's address: a client that leaves or disconnects is the
sole owner of the one it had, and so is a client that moves to another one by a hello,
which finds the channel still there. -/
def KeepsAddresses (s : ServerState) (e : Call) : Prop :=
  (∀ a, e.2 = .leaveChannel a ∨ e.2 = .removeClient a →
    ∀ ch u, s.channelOf a = some ch → s.udpOf a = some u → SoleOwner s a ch u) ∧
  ∀ token udp, e.2 = .registerUdpByToken token udp →
    ∀ a ch, s.tokenFor token = some (a, ch) → a.ip.toCanonical = udp.ip.toCanonical →
      ch ∈ s.channels ∧ ∀ old, s.udpOf a = some old → old ≠ udp → SoleOwner s a ch old

/-- A client in no channel has no UDP address registered. -/
def OutsidersSilent (s : ServerState) : Prop := ∀ a, s.channelOf a = none → s.udpOf a = none

/-- What the argument needs of every state on the way. -/
structure AddressInv (s : ServerState) : Prop where
  tokens : TokensMatch s
  silent : OutsidersSilent s

/-! ## Clients without a channel -/

theorem OutsidersSilent.congr (hs : OutsidersSilent s)
    (hof : ∀ b, s'.channelOf b = s.channelOf b) (hudp : ∀ b, s'.udpOf b = s.udpOf b) :
    OutsidersSilent s' := by
  intro b hb
  rw [hudp]
  exact hs b (by rwa [← hof])

theorem OutsidersSilent.depart {s₁ : ServerState} (hs : OutsidersSilent s)
    (hd : Departed s a s₁) : OutsidersSilent s₁ := by
  intro b hb
  rw [hd.channelOf] at hb
  rw [hd.udpOf]
  split
  · rfl
  · rename_i hne
    exact hs b (by rwa [if_neg hne] at hb)

/-- A client that joins had no address from before. -/
theorem OutsidersSilent.enter (hs : OutsidersSilent s)
    (hof : ∀ b, s'.channelOf b = if b = a then some ch else s.channelOf b)
    (hudp : ∀ b, s'.udpOf b = s.udpOf b) : OutsidersSilent s' := by
  intro b hb
  rw [hof] at hb
  split at hb
  · exact absurd hb (by simp)
  · rw [hudp]
    exact hs b hb

theorem AddressInv.change (hi : AddressInv s) (hf : FreshAddress s (env, op))
    (hc : Change env s op s') : AddressInv s' := by
  refine ⟨hi.tokens.change hf hc, ?_⟩
  have hs := hi.silent
  cases hc with
  | refused => exact hs
  | registered =>
    intro b hb
    rw [channelOf_insert rfl] at hb
    rw [udpOf_insert rfl]
    split
    · rfl
    · rename_i hne
      exact hs b (by rwa [if_neg hne] at hb)
  | rekeyed hl => exact hs.congr (fun b => channelOf_rekeyed hl) fun b => udpOf_rekeyed hl
  | renamed hl => exact hs.congr (fun b => channelOf_renamed hl) fun b => udpOf_renamed hl
  | removed => exact hs.depart (departed_withoutClient _)
  | hungUp =>
    exact (hs.depart (departed_withoutClient _)).congr (fun b => channelOf_dropParticipant)
      fun b => udpOf_dropParticipant
  | left =>
    exact (hs.depart (departed_withoutMember _)).congr (fun b => channelOf_dropParticipant)
      fun b => udpOf_dropParticipant
  | created | established | renewed => exact hs.congr (fun b => rfl) fun b => rfl
  | joined hch ha => exact hs.enter (fun b => channelOf_joined ha) fun b => udpOf_joined ha
  | echoed hid ha => exact hs.enter (fun b => channelOf_echoed ha) fun b => udpOf_echoed ha
  | @greeted token udp tcp ch created c ht hip hl =>
    -- A token that is accepted is that of a member.
    have hin : s.channelOf tcp = some ch :=
      hi.tokens.honest token tcp ch (tokenFor_eq_some.2 ⟨created, ht⟩)
    intro b hb
    rw [channelOf_greeted hl] at hb
    rw [udpOf_greeted]
    split
    · rename_i hbt
      rw [hbt, hin] at hb
      exact absurd hb (by simp)
    · exact hs b hb
  | swept => exact hs.congr (fun b => channelOf_cleanupWith) fun b => udpOf_cleanupWith

/-! ## One step -/

theorem ParticipantsMatch.congr (hm : ParticipantsMatch s)
    (hps : ∀ ch, s'.participants ch = s.participants ch)
    (hof : ∀ b, s'.channelOf b = s.channelOf b) (hudp : ∀ b, s'.udpOf b = s.udpOf b) :
    ParticipantsMatch s' := by
  intro ch u
  simp only [hps, hof, hudp]
  exact hm ch u

/-- A client that enters a channel brings no address with it. -/
theorem ParticipantsMatch.enter (hm : ParticipantsMatch s) (hs : OutsidersSilent s)
    (hout : s.channelOf a = none) (hps : ∀ ch, s'.participants ch = s.participants ch)
    (hof : ∀ b, s'.channelOf b = if b = a then some ch else s.channelOf b)
    (hudp : ∀ b, s'.udpOf b = s.udpOf b) : ParticipantsMatch s' := by
  intro x u
  rw [hps, hm x u]
  refine exists_congr fun b => ?_
  rw [hof, hudp]
  split
  · rename_i hb
    rw [hb, hout, hs a hout]
    simp
  · rfl

theorem mem_removeAddr {udp : Option SocketAddr} {ps : Finset SocketAddr} {u : SocketAddr} :
    u ∈ removeAddr udp ps ↔ u ∈ ps ∧ udp ≠ some u := by
  cases udp with
  | none => simp [removeAddr]
  | some v => simp [removeAddr, and_comm, eq_comm]

/-- After a departure the sets are right exactly when the leaver was the sole owner of
the address it took out. -/
theorem participantsMatch_depart {s₁ : ServerState} (hm : ParticipantsMatch s)
    (hd : Departed s a s₁) (ha : s.channelOf a = some ch) :
    ParticipantsMatch (s₁.dropParticipant env ch (s.udpOf a)) ↔
      ∀ u, s.udpOf a = some u → SoleOwner s a ch u := by
  have hps : ∀ x, (s₁.dropParticipant env ch (s.udpOf a)).participants x =
      if x = ch then removeAddr (s.udpOf a) (s.participants ch) else s.participants x := by
    intro x
    rw [participants_dropParticipant, hd.participants, hd.participants]
  have hmembers : ∀ x u, (∃ b, (s₁.dropParticipant env ch (s.udpOf a)).channelOf b = some x ∧
      (s₁.dropParticipant env ch (s.udpOf a)).udpOf b = some u) ↔
      ∃ b, b ≠ a ∧ s.channelOf b = some x ∧ s.udpOf b = some u := by
    intro x u
    refine exists_congr fun b => ?_
    rw [channelOf_dropParticipant, udpOf_dropParticipant, hd.channelOf_eq_some, hd.udpOf]
    by_cases hb : b = a
    · simp [hb]
    · simp [hb]
  constructor
  · intro h u hu b hb hbu
    by_contra hba
    have hin := (h ch u).2 ((hmembers ch u).2 ⟨b, hba, hb, hbu⟩)
    rw [hps, if_pos rfl, mem_removeAddr] at hin
    exact hin.2 hu
  · intro hsole x u
    rw [hmembers, hps]
    by_cases hx : x = ch
    · rw [if_pos hx, mem_removeAddr, hm ch u, hx]
      constructor
      · rintro ⟨⟨b, hb, hbu⟩, hne⟩
        refine ⟨b, ?_, hb, hbu⟩
        rintro rfl
        exact hne hbu
      · rintro ⟨b, hba, hb, hbu⟩
        exact ⟨⟨b, hb, hbu⟩, fun hu => hba (hsole u hu b hb hbu)⟩
    · rw [if_neg hx, hm x u]
      refine exists_congr fun b => ⟨?_, fun h => h.2⟩
      rintro ⟨hb, hbu⟩
      refine ⟨?_, hb, hbu⟩
      rintro rfl
      exact hx (Option.some.inj (hb.symm.trans ha))

theorem mem_rebindAddr {prev : Option SocketAddr} {udp u : SocketAddr}
    {ps : Finset SocketAddr} :
    u ∈ rebindAddr prev udp ps ↔ u = udp ∨ u ∈ ps ∧ ¬ (prev = some u ∧ u ≠ udp) := by
  cases prev with
  | none => simp [rebindAddr]
  | some old =>
    by_cases ho : old = udp
    · subst ho
      simp only [rebindAddr, Finset.mem_insert, ne_eq, not_true_eq_false, if_false]
      constructor
      · rintro (h | h)
        · exact .inl h
        · by_cases hu : u = old
          · exact .inl hu
          · exact .inr ⟨h, fun he => hu (Option.some.inj he.1).symm⟩
      · rintro (h | h)
        · exact .inl h
        · exact .inr h.1
    · simp only [rebindAddr, ne_eq, ho, not_false_iff, if_true, Finset.mem_insert,
        Finset.mem_erase, Option.some.injEq]
      refine or_congr_right ⟨?_, ?_⟩
      · rintro ⟨hne, hin⟩
        exact ⟨hin, fun he => hne he.1.symm⟩
      · rintro ⟨hin, hne⟩
        refine ⟨?_, hin⟩
        rintro rfl
        exact hne ⟨rfl, ho⟩

/-- After a hello the sets are right exactly when the channel is still there and the
client was the sole owner of the address it moved away from. -/
theorem participantsMatch_greeted {token : UInt64} {udp : SocketAddr} {c : ClientInfo}
    (hm : ParticipantsMatch s) (hc : s.clients.lookup a = some c) (ha : s.channelOf a = some ch) :
    ParticipantsMatch (s.greeted env token a c ch udp) ↔
      ch ∈ s.channels ∧ ∀ old, s.udpOf a = some old → old ≠ udp → SoleOwner s a ch old := by
  have hudp : ∀ b, (s.greeted env token a c ch udp).udpOf b =
      if b = a then some udp else s.udpOf b := fun b => udpOf_greeted
  have hof : ∀ b, (s.greeted env token a c ch udp).channelOf b = s.channelOf b :=
    fun b => channelOf_greeted hc
  constructor
  · intro h
    have hnew : udp ∈ (s.greeted env token a c ch udp).participants ch :=
      (h ch udp).2 ⟨a, by rw [hof, ha], by rw [hudp, if_pos rfl]⟩
    have hch : ch ∈ s.channels := mem_channels_greeted.1 (mem_channels_of_mem_participants hnew)
    refine ⟨hch, fun old hold hne b hb hbu => ?_⟩
    by_contra hba
    have hin : old ∈ (s.greeted env token a c ch udp).participants ch :=
      (h ch old).2 ⟨b, by rw [hof, hb], by rw [hudp, if_neg hba, hbu]⟩
    rw [participants_greeted hch, if_pos rfl, ← udpOf_of_lookup hc, mem_rebindAddr] at hin
    rcases hin with h | h
    · exact hne h
    · exact h.2 ⟨hold, hne⟩
  · rintro ⟨hch, hsole⟩ x u
    rw [participants_greeted hch, ← udpOf_of_lookup hc]
    by_cases hx : x = ch
    · subst hx
      rw [if_pos rfl, mem_rebindAddr, hm x u]
      constructor
      · rintro (rfl | ⟨⟨b, hb, hbu⟩, hne⟩)
        · exact ⟨a, by rw [hof, ha], by rw [hudp, if_pos rfl]⟩
        · by_cases hba : b = a
          · subst hba
            have hu : u = udp := by
              by_contra hu
              exact hne ⟨hbu, hu⟩
            exact ⟨b, by rw [hof, hb], by rw [hudp, if_pos rfl, hu]⟩
          · exact ⟨b, by rw [hof, hb], by rw [hudp, if_neg hba, hbu]⟩
      · rintro ⟨b, hb, hbu⟩
        rw [hof] at hb
        rw [hudp] at hbu
        split at hbu
        · exact .inl (Option.some.inj hbu).symm
        · rename_i hba
          refine .inr ⟨⟨b, hb, hbu⟩, ?_⟩
          rintro ⟨hold, hne⟩
          exact hba (hsole u hold hne b hb hbu)
    · rw [if_neg hx, hm x u]
      refine exists_congr fun b => ?_
      rw [hof, hudp]
      split
      · rename_i hba
        rw [hba, ha]
        simp [Ne.symm hx]
      · rfl

/-- A departure keeps everybody else's address when the one who goes shares its own with
nobody. -/
theorem keepsAddresses_departing (hop : op = .leaveChannel a ∨ op = .removeClient a)
    (ha : s.channelOf a = some ch) :
    KeepsAddresses s (env, op) ↔ ∀ u, s.udpOf a = some u → SoleOwner s a ch u := by
  have hdep := forall_departing_iff
    (P := fun b x => ∀ u, s.udpOf b = some u → SoleOwner s b x u) hop ha
  constructor
  · intro h u
    exact h.1 a hop ch u ha
  · intro h
    refine ⟨fun b hb x u hx => hdep.2 h b hb x hx u, fun token udp he => ?_⟩
    rcases hop with rfl | rfl <;> cases he

/-- **One step.**  From a state with the sets right, a step leads to such a state exactly
when it keeps everybody else's address. -/
theorem participantsMatch_change (hi : AddressInv s) (hm : ParticipantsMatch s)
    (hf : FreshAddress s (env, op)) (hc : Change env s op s') :
    ParticipantsMatch s' ↔ KeepsAddresses s (env, op) := by
  cases hc with
  | refused h =>
    refine iff_of_true hm ⟨?_, ?_⟩
    · intro a hop ch u ha
      rw [channelOf_of_refused h hop] at ha
      cases ha
    · rintro token udp rfl a ch ht hip
      obtain ⟨created, hl⟩ := tokenFor_eq_some.1 ht
      exact absurd hip (h a ch created hl)
  | @registered a =>
    have hnone : s.clients.lookup a = none := (notMem_iff_lookup _ _).1 (hf a rfl)
    refine iff_of_true (hm.congr (fun _ => rfl) (fun b => ?_) fun b => ?_)
      (by simp [KeepsAddresses])
    · rw [channelOf_insert rfl]
      split
      · rename_i hb
        rw [hb, channelOf, hnone]; rfl
      · rfl
    · rw [udpOf_insert rfl]
      split
      · rename_i hb
        rw [hb, udpOf, hnone]; rfl
      · rfl
  | rekeyed hl =>
    exact iff_of_true (hm.congr (fun _ => rfl) (fun b => channelOf_rekeyed hl)
      fun b => udpOf_rekeyed hl) (by simp [KeepsAddresses])
  | renamed hl =>
    exact iff_of_true (hm.congr (fun _ => rfl) (fun b => channelOf_renamed hl)
      fun b => udpOf_renamed hl) (by simp [KeepsAddresses])
  | @removed a c hl hch =>
    have hout : s.channelOf a = none := (channelOf_of_lookup hl).trans hch
    have hd := departed_withoutClient (s := s) (a := a) c
    refine iff_of_true (hm.congr (fun _ => rfl) (fun b => ?_) fun b => ?_) ?_
    · rw [hd.channelOf]
      split <;> simp [*]
    · rw [hd.udpOf]
      split <;> simp [*, hi.silent a hout]
    · simp [KeepsAddresses, hout]
  | @hungUp a c ch hl hch =>
    have ha : s.channelOf a = some ch := (channelOf_of_lookup hl).trans hch
    rw [← udpOf_of_lookup hl, participantsMatch_depart hm (departed_withoutClient c) ha]
    exact (keepsAddresses_departing (.inr rfl) ha).symm
  | @left a c ch hl hch =>
    have ha : s.channelOf a = some ch := (channelOf_of_lookup hl).trans hch
    rw [← udpOf_of_lookup hl, participantsMatch_depart hm (departed_withoutMember c) ha]
    exact (keepsAddresses_departing (.inl rfl) ha).symm
  | created hid | established hid =>
    exact iff_of_true (hm.congr (fun _ => participants_addChannel env hid)
      (fun _ => rfl) fun _ => rfl) (by simp [KeepsAddresses])
  | joined hch ha hout =>
    refine iff_of_true (hm.enter hi.silent hout (fun x => ?_) (fun b => channelOf_joined ha)
      fun b => udpOf_joined ha) (by simp [KeepsAddresses])
    rw [participants, channels_joined, participants]
  | echoed hid ha hout =>
    exact iff_of_true (hm.enter hi.silent hout
      (fun x => participants_addChannel env hid) (fun b => channelOf_echoed ha)
      fun b => udpOf_echoed ha) (by simp [KeepsAddresses])
  | @renewed token udp tcp ch created ht htcp =>
    -- No token outlives its client, so a hello never gets this far.
    have hin : s.channelOf tcp = some ch :=
      hi.tokens.honest token tcp ch (tokenFor_eq_some.2 ⟨created, ht⟩)
    obtain ⟨c, hl, -⟩ := channelOf_eq_some.1 hin
    exact absurd (Finmap.mem_of_lookup_eq_some hl) htcp
  | @greeted token udp tcp ch created c ht hip hl =>
    have htok : s.tokenFor token = some (tcp, ch) := tokenFor_eq_some.2 ⟨created, ht⟩
    rw [participantsMatch_greeted hm hl (hi.tokens.honest token tcp ch htok)]
    simp [KeepsAddresses, htok, hip]
  | swept =>
    exact iff_of_true (hm.congr (fun _ => participants_cleanupWith)
      (fun _ => channelOf_cleanupWith) fun _ => udpOf_cleanupWith) (by simp [KeepsAddresses])

/-! ## No stranger's address -/

/-- Every participant of a channel is the UDP address of some client in it. -/
def ParticipantsOwned (s : ServerState) : Prop :=
  ∀ ch u, u ∈ s.participants ch → ∃ a, s.channelOf a = some ch ∧ s.udpOf a = some u

theorem ParticipantsOwned.congr (ho : ParticipantsOwned s)
    (hps : ∀ ch, s'.participants ch = s.participants ch)
    (hof : ∀ b ch, s.channelOf b = some ch → s'.channelOf b = some ch)
    (hudp : ∀ b ch, s.channelOf b = some ch → s'.udpOf b = s.udpOf b) : ParticipantsOwned s' := by
  intro ch u hu
  rw [hps] at hu
  obtain ⟨a, ha, hau⟩ := ho ch u hu
  exact ⟨a, hof a ch ha, (hudp a ch ha).trans hau⟩

/-- A leaver takes its own address out, so the ones left in are others'. -/
theorem ParticipantsOwned.depart {s₁ : ServerState} (ho : ParticipantsOwned s)
    (hd : Departed s a s₁) (ha : s.channelOf a = some ch) :
    ParticipantsOwned (s₁.dropParticipant env ch (s.udpOf a)) := by
  intro x u hu
  rw [participants_dropParticipant, hd.participants, hd.participants] at hu
  have hin : u ∈ s.participants x ∧ (x = ch → s.udpOf a ≠ some u) := by
    split at hu
    · rename_i hx
      rw [hx]
      exact ⟨(mem_removeAddr.1 hu).1, fun _ => (mem_removeAddr.1 hu).2⟩
    · rename_i hx
      exact ⟨hu, fun h => absurd h hx⟩
  obtain ⟨b, hb, hbu⟩ := ho x u hin.1
  have hba : b ≠ a := by
    rintro rfl
    exact hin.2 (Option.some.inj (hb.symm.trans ha)) hbu
  refine ⟨b, ?_, ?_⟩
  · rw [channelOf_dropParticipant]
    exact hd.channelOf_eq_some.2 ⟨hba, hb⟩
  · rw [udpOf_dropParticipant, hd.udpOf, if_neg hba, hbu]

/-- A hello swaps the client's own address in the set. -/
theorem ParticipantsOwned.greeted {token : UInt64} {udp : SocketAddr} {c : ClientInfo}
    (ho : ParticipantsOwned s) (hc : s.clients.lookup a = some c)
    (ha : s.channelOf a = some ch) : ParticipantsOwned (s.greeted env token a c ch udp) := by
  intro x u hu
  have hmember : u ∈ s.participants x ∧ (x = ch → u = udp ∨ s.udpOf a ≠ some u) ∨
      x = ch ∧ u = udp := by
    by_cases hch : ch ∈ s.channels
    · rw [participants_greeted hch, ← udpOf_of_lookup hc] at hu
      split at hu
      · rename_i hx
        rcases mem_rebindAddr.1 hu with h | ⟨h, hne⟩
        · exact .inr ⟨hx, h⟩
        · refine .inl ⟨hx ▸ h, fun _ => ?_⟩
          by_cases hu' : u = udp
          · exact .inl hu'
          · exact .inr fun he => hne ⟨he, hu'⟩
      · rename_i hx
        exact .inl ⟨hu, fun h => absurd h hx⟩
    · rw [participants_greeted_of_notMem hch] at hu
      refine .inl ⟨hu, fun hx => ?_⟩
      rw [hx, participants_of_notMem hch] at hu
      exact absurd hu (Finset.notMem_empty u)
  have hself : x = ch → u = udp → ∃ b, (s.greeted env token a c ch udp).channelOf b = some x ∧
      (s.greeted env token a c ch udp).udpOf b = some u := by
    rintro rfl rfl
    exact ⟨a, (channelOf_greeted hc).trans ha, by rw [udpOf_greeted, if_pos rfl]⟩
  rcases hmember with ⟨hin, hown⟩ | ⟨hx, hu⟩
  · obtain ⟨b, hb, hbu⟩ := ho x u hin
    by_cases hba : b = a
    · have hx : x = ch := Option.some.inj (hb.symm.trans (hba ▸ ha))
      rcases hown hx with h | h
      · exact hself hx h
      · exact absurd (hba ▸ hbu) h
    · exact ⟨b, (channelOf_greeted hc).trans hb, by rw [udpOf_greeted, if_neg hba, hbu]⟩
  · exact hself hx hu

theorem ParticipantsOwned.change (ho : ParticipantsOwned s) (ht : TokensMatch s)
    (hf : FreshAddress s (env, op)) (hc : Change env s op s') : ParticipantsOwned s' := by
  cases hc with
  | refused => exact ho
  | @registered a =>
    have hne : ∀ b ch, s.channelOf b = some ch → b ≠ a := by
      rintro b ch hb rfl
      obtain ⟨c, hl, -⟩ := channelOf_eq_some.1 hb
      exact hf b rfl (Finmap.mem_of_lookup_eq_some hl)
    refine ho.congr (fun _ => rfl) (fun b ch hb => ?_) fun b ch hb => ?_
    · rw [channelOf_insert rfl, if_neg (hne b ch hb), hb]
    · rw [udpOf_insert rfl, if_neg (hne b ch hb)]
  | rekeyed hl =>
    exact ho.congr (fun _ => rfl) (fun b ch hb => (channelOf_rekeyed hl).trans hb)
      fun b ch _ => udpOf_rekeyed hl
  | renamed hl =>
    exact ho.congr (fun _ => rfl) (fun b ch hb => (channelOf_renamed hl).trans hb)
      fun b ch _ => udpOf_renamed hl
  | @removed a c hl hch =>
    have hd := departed_withoutClient (s := s) (a := a) c
    have hne : ∀ b ch, s.channelOf b = some ch → b ≠ a := by
      rintro b ch hb rfl
      rw [channelOf_of_lookup hl, hch] at hb
      exact absurd hb (by simp)
    refine ho.congr (fun _ => rfl) (fun b ch hb => ?_) fun b ch hb => ?_
    · exact hd.channelOf_eq_some.2 ⟨hne b ch hb, hb⟩
    · rw [hd.udpOf, if_neg (hne b ch hb)]
  | @hungUp a c ch hl hch =>
    rw [← udpOf_of_lookup hl]
    exact ho.depart (departed_withoutClient c) ((channelOf_of_lookup hl).trans hch)
  | @left a c ch hl hch =>
    rw [← udpOf_of_lookup hl]
    exact ho.depart (departed_withoutMember c) ((channelOf_of_lookup hl).trans hch)
  | created hid | established hid =>
    exact ho.congr (fun _ => participants_addChannel env hid) (fun _ _ hb => hb)
      fun _ _ _ => rfl
  | @joined a ch token hch ha hout =>
    refine ho.congr (fun x => ?_) (fun b x hb => ?_) fun b x hb => udpOf_joined ha
    · rw [participants, channels_joined, participants]
    · have hba : b ≠ a := by
        rintro rfl
        rw [hout] at hb
        exact absurd hb (by simp)
      rw [channelOf_joined ha, if_neg hba, hb]
  | @echoed a id token hid ha hout =>
    refine ho.congr (fun x => participants_addChannel env hid) (fun b x hb => ?_)
      fun b x hb => udpOf_echoed ha
    have hba : b ≠ a := by
      rintro rfl
      rw [hout] at hb
      exact absurd hb (by simp)
    rw [channelOf_echoed ha, if_neg hba, hb]
  | renewed => exact ho.congr (fun _ => rfl) (fun _ _ hb => hb) fun _ _ _ => rfl
  | @greeted token udp tcp ch created c htok hip hl =>
    exact ho.greeted hl (ht.honest token tcp ch (tokenFor_eq_some.2 ⟨created, htok⟩))
  | swept =>
    exact ho.congr (fun _ => participants_cleanupWith)
      (fun _ _ hb => channelOf_cleanupWith.trans hb) fun _ _ _ => udpOf_cleanupWith

/-- When the last member of a channel goes, nothing is left to keep the channel. -/
theorem ParticipantsOwned.destroys_of_last (ho : ParticipantsOwned s)
    (hlast : ∀ b, s.channelOf b = some ch → b = a) (hch : ch ∈ s.channels)
    (hper : ch ∉ s.persistent) : s.destroys ch (s.udpOf a) := by
  refine ⟨hch, Finset.eq_empty_of_forall_notMem fun u hu => ?_, hper⟩
  obtain ⟨hin, hne⟩ := mem_removeAddr.1 hu
  obtain ⟨b, hb, hbu⟩ := ho ch u hin
  rw [hlast b hb] at hbu
  exact hne hbu

/-! ## Runs -/

theorem participantsMatch_new (limits : Limits) : ParticipantsMatch (.new limits) := by
  intro ch u
  simp [participants, channelOf, ServerState.new]

theorem participantsOwned_new (limits : Limits) : ParticipantsOwned (.new limits) :=
  fun _ u hu => absurd hu (Finset.notMem_empty u)

theorem addressInv_new (limits : Limits) : AddressInv (.new limits) where
  tokens := tokensMatch_new limits
  silent _ _ := rfl

/-- **When the participant sets are right.**  In every run of the server, each channel's
participants are its members' UDP addresses throughout if and only if at each step of the
run a client that gives up an address (by leaving, by disconnecting, or by a hello from
another one) is the only member of its channel with that address, and an accepted hello
finds its channel still existing. -/
theorem participantsMatch_iff (limits : Limits) (es : List Call)
    (hf : EachStep step FreshAddress (.new limits) es) :
    Throughout step ParticipantsMatch (.new limits) es ↔
      EachStep step KeepsAddresses (.new limits) es :=
  throughout_iff_eachStep AddressInv
    (fun _ _ _ hi hf h => hi.change hf (exec_change h))
    (fun _ _ _ hi hm hf h => participantsMatch_change hi hm hf (exec_change h))
    (addressInv_new limits) (participantsMatch_new limits) hf

/-- Two clients behind one NAT join `pub-x` and say hello from port 50, one after the
other; the first says hello again from port 60. -/
def takenAddressRun : List Call :=
  [(.sample 7 1, .registerClient (.v4 1 1)), (.sample 7 1, .registerClient (.v4 1 2)),
    (.sample 7 1, .createChannel (some "x")), (.sample 7 1, .joinChannel (.v4 1 1) "pub-x"),
    (.sample 7 2, .joinChannel (.v4 1 2) "pub-x"),
    (.sample 7 1, .registerUdpByToken 1 (.v4 1 50)),
    (.sample 7 1, .registerUdpByToken 2 (.v4 1 50)),
    (.sample 7 1, .registerUdpByToken 1 (.v4 1 60))]

/-- The listener was never asked for the address of an open connection in that run. -/
theorem participantsMatch_iff_takenAddressRun :
    Throughout step ParticipantsMatch (.new ⟨0, 0⟩) takenAddressRun ↔
      EachStep step KeepsAddresses (.new ⟨0, 0⟩) takenAddressRun :=
  participantsMatch_iff ⟨0, 0⟩ takenAddressRun (by decide)

/-- The second client is a member registered at port 50, and port 50 is no participant. -/
theorem address_taken_from_member :
    ∃ s, runFrom step (.new ⟨0, 0⟩) takenAddressRun = some s ∧ ¬ ParticipantsMatch s := by
  refine ⟨_, rfl, fun h => ?_⟩
  exact absurd ((h "pub-x" (.v4 1 50)).2 ⟨.v4 1 2, by decide, by decide⟩) (by decide)

end Server
end TcVoice
