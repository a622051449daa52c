import TcVoice.Client.Alike
import Mathlib.Data.Char
import Mathlib.Data.List.Lex

/-!
# Senders apart

The streams of a playout engine share its scratch buffers, its prune counter and a table that
is visited in hash order, and no sender can tell.

* `lookup_onPacket_of_ne`, `mix_of_lookup` — what a packet of another sender and a frame
  do to the stream of a sender.
* `sees`, `shows` — what a sender sees of a run, and what it is shown after that.
* `Undisturbed` — no more senders than streams, none of the sender's packets too old, and its
  numbers in the first half of the counter.
* `shown_eq_alone` — **an undisturbed sender is shown what its stream does alone**.
* `senders_apart` — so **two runs in which it sees the same show it the same**, up to the bytes
  in slots that are marked empty; `leftover_bytes` is a run that leaves another sender's there.
-/

namespace TcVoice
namespace Client

open Machines

/-! ## One sender among others -/

section Senders

variable {F D : Type} {e : Engine F D} {a name : String} {s : SenderStream F D} {seq : UInt32}
  {packet : Bytes} {now pull : ℕ}

/-- A stream that is not too old stays. -/
theorem lookup_prune (hfresh : ∀ s ∈ e.streams.lookup a, now - s.lastPacket < senderStreamTtl) :
    (e.prune now).streams.lookup a = e.streams.lookup a := by
  unfold Engine.prune
  rw [Table.lookup_retain]
  cases hl : e.streams.lookup a with
  | none => rfl
  | some s =>
    have hkeep := hfresh s hl
    simp only [Option.filter_some, hkeep, decide_true, if_true]

theorem lookup_prunePeriodically
    (hfresh : ∀ s ∈ e.streams.lookup a, now - s.lastPacket < senderStreamTtl) :
    (e.prunePeriodically now).streams.lookup a = e.streams.lookup a := by
  unfold Engine.prunePeriodically
  split
  · exact lookup_prune hfresh
  · rfl

theorem keys_prune : (e.prune now).streams.keys ⊆ e.streams.keys := by
  intro x hx
  rw [Finmap.mem_keys, Table.mem_iff_lookup] at hx ⊢
  obtain ⟨s, hs⟩ := hx
  exact ⟨s, ((Table.lookup_retain_eq_some _ _ _ _).1 hs).1⟩

theorem keys_prunePeriodically : (e.prunePeriodically now).streams.keys ⊆ e.streams.keys := by
  unfold Engine.prunePeriodically
  split
  · exact keys_prune
  · exact Finset.Subset.refl _

variable [F32 F] (opus : OpusDecoder F D)

/-- What is found or made for a sender leaves the streams of others alone. -/
theorem lookup_ensure (name : String)
    (hfresh : ∀ s ∈ e.streams.lookup a, now - s.lastPacket < senderStreamTtl) :
    (e.ensure opus name now).1.streams.lookup a = e.streams.lookup a := by
  unfold Engine.ensure
  split
  · rfl
  · dsimp only
    split
    · split <;> exact lookup_prune hfresh
    · rfl

theorem keys_ensure : (e.ensure opus name now).1.streams.keys ⊆ e.streams.keys := by
  unfold Engine.ensure
  split
  · exact Finset.Subset.refl _
  · dsimp only
    split
    · split <;> exact keys_prune
    · exact Finset.Subset.refl _

/-- A packet of another sender. -/
theorem lookup_onPacket_of_ne (hne : name ≠ a)
    (hfresh : ∀ s ∈ e.streams.lookup a, now - s.lastPacket < senderStreamTtl) :
    (e.onPacket opus name seq packet now).1.streams.lookup a = e.streams.lookup a := by
  have hperiodic := lookup_prunePeriodically hfresh
  have hensure := lookup_ensure opus name (hperiodic ▸ hfresh)
  unfold Engine.onPacket
  split <;> rename_i heq <;> rw [heq, hperiodic] at hensure
  · exact hensure
  · rw [Table.lookup_insert_if, if_neg (Ne.symm hne)]
    exact hensure

/-- The senders with a stream are those that have sent. -/
theorem keys_onPacket :
    (e.onPacket opus name seq packet now).1.streams.keys ⊆ insert name e.streams.keys := by
  have hensure : ((e.prunePeriodically now).ensure opus name now).1.streams.keys ⊆
      e.streams.keys := (keys_ensure opus).trans keys_prunePeriodically
  unfold Engine.onPacket
  split <;> rename_i heq <;> rw [heq] at hensure
  · exact hensure.trans (Finset.subset_insert _ _)
  · intro x hx
    rw [Finmap.mem_keys, Finmap.mem_insert] at hx
    exact Finset.mem_insert.2 (hx.imp_right fun hx => hensure (Finmap.mem_keys.2 hx))

/-- A packet of a sender that has a stream. -/
theorem onPacket_of_lookup (seq : UInt32) (packet : Bytes)
    (hs : e.streams.lookup a = some s)
    (hfresh : now - s.lastPacket < senderStreamTtl) :
    (e.onPacket opus a seq packet now).1.streams.lookup a =
        some (s.receive seq packet now).1 ∧
      (e.onPacket opus a seq packet now).2 = (s.receive seq packet now).2 := by
  have hperiodic : (e.prunePeriodically now).streams.lookup a = e.streams.lookup a := by
    apply lookup_prunePeriodically
    intro s' hs'
    rw [hs] at hs'
    cases hs'
    exact hfresh
  have hensure : (e.prunePeriodically now).ensure opus a now =
      (e.prunePeriodically now, some s) := by
    unfold Engine.ensure
    rw [hperiodic, hs]
  unfold Engine.onPacket
  rw [hensure]
  exact ⟨Finmap.lookup_insert _, rfl⟩

/-- The first packet of a sender that there is room for. -/
theorem onPacket_of_room (seq : UInt32) (packet : Bytes) (now : ℕ) (hs : e.streams.lookup a = none)
    (hroom : e.streams.keys.card < Config.maxSenderStreams) :
    (e.onPacket opus a seq packet now).1.streams.lookup a =
        opus.new.map (fun decoder =>
          ((SenderStream.new decoder now : SenderStream F D).receive seq packet now).1) ∧
      (e.onPacket opus a seq packet now).2 = (opus.new.map fun decoder =>
        ((SenderStream.new decoder now : SenderStream F D).receive seq packet now).2).getD
          false := by
  have hperiodic : (e.prunePeriodically now).streams.lookup a = none := by
    rw [lookup_prunePeriodically (by simp only [hs, Option.mem_def, reduceCtorEq,
      false_implies, implies_true])]
    exact hs
  have hlen : ¬ Config.maxSenderStreams ≤ (e.prunePeriodically now).streams.len := by
    rw [Table.len_eq_card_keys, not_le]
    exact (Finset.card_le_card keys_prunePeriodically).trans_lt hroom
  have hensure : (e.prunePeriodically now).ensure opus a now =
      (e.prunePeriodically now, opus.new.map fun decoder => .new decoder now) := by
    unfold Engine.ensure
    rw [hperiodic]
    dsimp only
    rw [if_neg hlen, if_neg hlen]
  unfold Engine.onPacket
  rw [hensure]
  cases opus.new with
  | none => exact ⟨hperiodic, rfl⟩
  | some decoder => exact ⟨Finmap.lookup_insert _, rfl⟩

/-! ## A frame -/

variable (now pull n : ℕ) (gains : String → F) {m : Mixing F D}

/-- What a turn of the loop does to the streams. -/
theorem renderOne_of_lookup (hs : m.streams.lookup name = some s) :
    ∃ frameRms, (m.renderOne opus now pull n gains name).streams = m.streams.insert name
        { (s.render opus now pull m.scratch).stream with frameRms } ∧
      (m.renderOne opus now pull n gains name).done =
        m.done ++ [(name, (s.render opus now pull m.scratch).done)] ∧
      (m.renderOne opus now pull n gains name).scratch =
        (s.render opus now pull m.scratch).scratch := by
  unfold Mixing.renderOne
  rw [hs]
  dsimp only
  split
  · exact ⟨_, rfl, rfl, rfl⟩
  · split
    · exact ⟨_, rfl, rfl, rfl⟩
    · exact ⟨(s.render opus now pull m.scratch).stream.frameRms, rfl, rfl, rfl⟩

theorem renderOne_of_none (hs : m.streams.lookup name = none) :
    m.renderOne opus now pull n gains name = m := by
  unfold Mixing.renderOne
  rw [hs]

theorem lookup_append_of_ne {l : List (String × Done)} {done : Done} (hne : name ≠ a) :
    (l ++ [(name, done)]).lookup a = l.lookup a := by
  rw [List.lookup_append]
  have hbeq : (a == name) = false := beq_eq_false_iff_ne.2 (Ne.symm hne)
  simp only [List.lookup_cons, hbeq, List.lookup_nil, Option.or_none]

/-- The turn of another stream. -/
theorem renderOne_of_ne (hne : name ≠ a) :
    (m.renderOne opus now pull n gains name).streams.lookup a = m.streams.lookup a ∧
      (m.renderOne opus now pull n gains name).done.lookup a = m.done.lookup a := by
  cases hs : m.streams.lookup name with
  | none =>
    rw [renderOne_of_none opus now pull n gains hs]
    exact ⟨rfl, rfl⟩
  | some s =>
    obtain ⟨frameRms, hstreams, hdone, -⟩ := renderOne_of_lookup opus now pull n gains hs
    rw [hstreams, hdone, Table.lookup_insert_if, if_neg (Ne.symm hne)]
    exact ⟨rfl, lookup_append_of_ne hne⟩

theorem keys_renderOne :
    (m.renderOne opus now pull n gains name).streams.keys = m.streams.keys := by
  ext x
  simp only [Finmap.mem_keys]
  cases hs : m.streams.lookup name with
  | none => rw [renderOne_of_none opus now pull n gains hs]
  | some s =>
    obtain ⟨frameRms, hstreams, -⟩ := renderOne_of_lookup opus now pull n gains hs
    rw [hstreams, Finmap.mem_insert]
    refine or_iff_right_of_imp ?_
    rintro rfl
    exact (Table.mem_iff_lookup _ _).2 ⟨s, hs⟩

/-- The loop over streams that are not the sender's. -/
theorem renderAll_of_notMem {names : List String} (ha : a ∉ names) (m : Mixing F D) :
    (names.foldl (Mixing.renderOne opus now pull n gains) m).streams.lookup a =
        m.streams.lookup a ∧
      (names.foldl (Mixing.renderOne opus now pull n gains) m).done.lookup a =
        m.done.lookup a := by
  induction names generalizing m with
  | nil => exact ⟨rfl, rfl⟩
  | cons name names ih =>
    rw [List.mem_cons, not_or] at ha
    obtain ⟨hstreams, hdone⟩ := renderOne_of_ne opus now pull n gains (m := m)
      (Ne.symm ha.1)
    rw [List.foldl_cons, (ih ha.2 _).1, (ih ha.2 _).2]
    exact ⟨hstreams, hdone⟩

/-- The loop over all streams comes by the sender's once, with some scratch buffers. -/
theorem renderAll_of_mem {names : List String} (ha : a ∈ names) (hnodup : names.Nodup)
    (m : Mixing F D) (hs : m.streams.lookup a = some s) (hdone : m.done.lookup a = none) :
    ∃ scratch frameRms,
      (names.foldl (Mixing.renderOne opus now pull n gains) m).streams.lookup a =
          some { (s.render opus now pull scratch).stream with frameRms } ∧
        (names.foldl (Mixing.renderOne opus now pull n gains) m).done.lookup a =
          some (s.render opus now pull scratch).done := by
  induction names generalizing m with
  | nil => cases ha
  | cons name names ih =>
    rw [List.nodup_cons] at hnodup
    rw [List.foldl_cons]
    by_cases hname : name = a
    · subst hname
      obtain ⟨frameRms, hstreams, hdone', -⟩ := renderOne_of_lookup opus now pull n gains hs
      obtain ⟨hrest, hrest'⟩ := renderAll_of_notMem opus now pull n gains
        hnodup.1 (m.renderOne opus now pull n gains name)
      refine ⟨m.scratch, frameRms, ?_, ?_⟩
      · rw [hrest, hstreams, Finmap.lookup_insert]
      · rw [hrest', hdone', List.lookup_append, hdone]
        simp only [List.lookup_cons, beq_self_eq_true, Option.none_or]
    · obtain ⟨hstreams, hdone'⟩ := renderOne_of_ne opus now pull n gains (m := m)
        hname
      refine ih ((List.mem_cons.1 ha).resolve_left (Ne.symm hname)) hnodup.2 _ ?_ ?_
      · rw [hstreams, hs]
      · rw [hdone', hdone]

theorem keys_renderAll (names : List String) (m : Mixing F D) :
    (names.foldl (Mixing.renderOne opus now pull n gains) m).streams.keys = m.streams.keys := by
  induction names generalizing m with
  | nil => rfl
  | cons name names ih =>
    rw [List.foldl_cons, ih, keys_renderOne]

/-- The frame of a sender that has a stream. -/
theorem mix_of_lookup (hs : e.streams.lookup a = some s) (order : HashOrder String)
    (out : List F) :
    ∃ scratch frameRms,
      (e.mix opus now pull order gains out).streams.lookup a =
          some { (s.render opus now pull scratch).stream with frameRms } ∧
        (e.mix opus now pull order gains out).done.lookup a =
          some (s.render opus now pull scratch).done := by
  have hmem : a ∈ order.toList e.streams.keys.val :=
    (order.mem_toList _ a).2 (Finmap.mem_keys.2 ((Table.mem_iff_lookup _ _).2 ⟨s, hs⟩))
  exact renderAll_of_mem opus now pull _ gains hmem (order.nodup_toList.2 e.streams.keys.nodup) _
    hs rfl

/-- The frame of one that has none. -/
theorem mix_of_none (hs : e.streams.lookup a = none) (order : HashOrder String) (out : List F) :
    (e.mix opus now pull order gains out).streams.lookup a = none ∧
      (e.mix opus now pull order gains out).done.lookup a = none := by
  have hmem : a ∉ order.toList e.streams.keys.val := by
    rw [order.mem_toList]
    exact fun ha => (Table.notMem_iff_lookup _ _).2 hs (Finmap.mem_keys.1 ha)
  obtain ⟨hstreams, hdone⟩ := renderAll_of_notMem opus now pull
    (min Config.frameSize out.length) gains hmem
    ⟨e.streams, e.scratch, out, 0, false, []⟩
  exact ⟨hstreams.trans hs, hdone⟩

end Senders

/-! ## What a sender sees -/

/-- An event as a sender sees it: its own packets, and that frames are asked for. -/
inductive Seen where
  | packet (seq : UInt32) (packet : Bytes) (now : ℕ)
  | frame (now pull : ℕ)
  deriving DecidableEq, Repr

/-- An answer as a sender sees it: whether its packet was late, and what was done for its
stream in a frame. -/
inductive Notice where
  | late (late : Bool)
  | frame (done : Option Done)
  deriving DecidableEq, Repr

section Seen

variable {F D : Type}

def sees (a : String) : EngineEvent F → Option Seen
  | .packet name seq packet now => if name = a then some (.packet seq packet now) else none
  | .frame now pull _ _ _ => some (.frame now pull)

def EngineAnswer.notice (a : String) : EngineAnswer F → Notice
  | .late wasLate => .late wasLate
  | .frame _ _ done => .frame (done.lookup a)

variable [F32 F]

/-- What a sender is shown after an event: its stream, and its part of the answer. -/
def shows (a : String) (after : Engine F D × EngineAnswer F) : Option (SenderStream F D) × Notice :=
  ((after.1.streams.lookup a).map .live, after.2.notice a)

/-- The stream of a sender, with no engine about it. -/
def alone (opus : OpusDecoder F D) (stream : Option (SenderStream F D)) :
    Seen → Option (SenderStream F D) × Notice
  | .packet seq packet now =>
    match stream <|> opus.new.map fun decoder => .new decoder now with
    | none => (none, .late false)
    | some s =>
      let (s, late) := s.receive seq packet now
      (some s, .late late)
  | .frame now pull =>
    match stream with
    | none => (none, .frame none)
    | some s =>
      let r := s.render opus now pull .new
      (some r.stream, .frame (some r.done))

end Seen

/-! ## What is promised of a run -/

section Runs

variable {F D : Type} {a name : String} {seq : UInt32} {packet : Bytes} {now pull : ℕ}
  {gains : String → F} {run : List (EngineEvent F)} {event : EngineEvent F} {e : Engine F D}
  {stream : Option (SenderStream F D)} 

/-- The sender of a packet. -/
def EngineEvent.sender : EngineEvent F → Option String
  | .packet name _ _ _ => some name
  | .frame _ _ _ _ _ => none

def EngineEvent.time : EngineEvent F → ℕ
  | .packet _ _ _ now => now
  | .frame now _ _ _ _ => now

/-- The senders of a run. -/
def senders (run : List (EngineEvent F)) : Finset String :=
  (run.filterMap EngineEvent.sender).toFinset

/-- From the first packet of a sender on, the latest is never too old; `last` is the time of the
latest one so far. -/
def Current (a : String) : Option ℕ → List (EngineEvent F) → Prop
  | _, [] => True
  | last, event :: run => (∀ before ∈ last, event.time - before < senderStreamTtl) ∧
      Current a (if event.sender = some a then some event.time else last) run

/-- The runs in which a sender is undisturbed. -/
structure Undisturbed (a : String) (run : List (EngineEvent F)) : Prop where
  numbers : ∀ seq packet now, EngineEvent.packet a seq packet now ∈ run →
    seq ≠ 0 ∧ seq.toNat < 2 ^ 31
  senders : (senders run).card ≤ Config.maxSenderStreams
  current : Current a none run

/-- The same of an engine and of what is still to come. -/
structure Promised (a : String) (e : Engine F D) (run : List (EngineEvent F)) : Prop where
  numbers : ∀ seq packet now, EngineEvent.packet a seq packet now ∈ run →
    seq ≠ 0 ∧ seq.toNat < 2 ^ 31
  senders : (e.streams.keys ∪ Client.senders run).card ≤ Config.maxSenderStreams
  current : Current a ((e.streams.lookup a).map (·.lastPacket)) run

/-- The stream that a sender has in the engine is alike to one on its own. -/
def Tracks (a : String) (e : Engine F D) (stream : Option (SenderStream F D)) : Prop :=
  Option.Rel (fun s s' => s.Alike s' ∧ s.jitter.Low) (e.streams.lookup a) stream

theorem current_none {last : Option ℕ} {run : List (EngineEvent F)} (h : Current a last run) :
    Current a none run := by
  induction run generalizing last with
  | nil => trivial
  | cons event run ih =>
    refine ⟨nofun, ?_⟩
    have hrest := h.2
    split at hrest
    · rw [if_pos (by assumption)]
      exact hrest
    · rw [if_neg (by assumption)]
      exact ih hrest

theorem promised_new [F32 F] {run : List (EngineEvent F)} (h : Undisturbed a run) :
    Promised a (Engine.new : Engine F D) run where
  numbers := h.numbers
  senders := by
    have hkeys : (Engine.new : Engine F D).streams.keys = ∅ := rfl
    rw [hkeys, Finset.empty_union]
    exact h.senders
  current := h.current

/-! ## Steps -/

theorem Promised.lookup_current (h : Promised a e (event :: run)) :
    ∀ s ∈ e.streams.lookup a, event.time - s.lastPacket < senderStreamTtl := by
  intro s hs
  apply h.current.1
  rw [Option.mem_def.1 hs]
  rfl

theorem Promised.tail (h : Promised a e (event :: run)) {e' : Engine F D}
    (hkeys : ∀ x ∈ e'.streams.keys, x ∈ e.streams.keys ∨ event.sender = some x)
    (hlast : (e'.streams.lookup a).map (·.lastPacket) = none ∨
      (e'.streams.lookup a).map (·.lastPacket) =
        if event.sender = some a then some event.time
        else (e.streams.lookup a).map (·.lastPacket)) : Promised a e' run where
  numbers seq packet now hmem := h.numbers seq packet now (List.mem_cons_of_mem _ hmem)
  senders := by
    refine (Finset.card_le_card ?_).trans h.senders
    intro x hx
    have hsenders : ∀ x, x ∈ Client.senders (event :: run) ↔
        event.sender = some x ∨ x ∈ Client.senders run := by
      intro x
      unfold Client.senders
      cases event <;> simp [EngineEvent.sender, eq_comm]
    rw [Finset.mem_union] at hx ⊢
    rw [hsenders]
    rcases hx with hx | hx
    · exact (hkeys x hx).imp_right .inl
    · exact .inr (.inr hx)
  current := by
    rcases hlast with hnone | hsome
    · rw [hnone]
      exact current_none h.current.2
    · rw [hsome]
      exact h.current.2

/-- There is room for a sender that has no stream yet. -/
theorem Promised.room (h : Promised a e (.packet a seq packet now :: run))
    (hs : e.streams.lookup a = none) : e.streams.keys.card < Config.maxSenderStreams := by
  refine (Finset.card_lt_card ?_).trans_le h.senders
  refine ⟨Finset.subset_union_left, fun hall => ?_⟩
  have hmem : a ∈ e.streams.keys := by
    apply hall
    apply Finset.mem_union_right
    unfold Client.senders
    rw [List.mem_toFinset, List.mem_filterMap]
    exact ⟨_, List.mem_cons_self, rfl⟩
  exact (Table.notMem_iff_lookup _ _).2 hs (Finmap.mem_keys.1 hmem)

variable [F32 F] (opus : OpusDecoder F D)

/-- A packet of the sender. -/
theorem own_packet (h : Promised a e (.packet a seq packet now :: run))
    (ht : Tracks a e stream) :
    Tracks a (e.onPacket opus a seq packet now).1
        (alone opus stream (.packet seq packet now)).1 ∧
      (alone opus stream (.packet seq packet now)).2 =
        .late (e.onPacket opus a seq packet now).2 ∧
      (((e.onPacket opus a seq packet now).1.streams.lookup a).map (·.lastPacket) = none ∨
        ((e.onPacket opus a seq packet now).1.streams.lookup a).map (·.lastPacket) =
          some now) := by
  obtain ⟨hpos, hlow⟩ := h.numbers seq packet now List.mem_cons_self
  unfold Tracks at ht ⊢
  cases hs : e.streams.lookup a with
  | none =>
    rw [hs] at ht
    cases ht
    obtain ⟨hlookup, hlate⟩ := onPacket_of_room opus seq packet now hs (h.room hs)
    rw [hlookup, hlate]
    unfold alone
    cases opus.new with
    | none => exact ⟨.none, rfl, .inl rfl⟩
    | some decoder =>
      exact ⟨.some ⟨.refl _, JitterBuffer.Low.new.push hpos hlow⟩, rfl, .inr rfl⟩
  | some s =>
    rw [hs] at ht
    cases ht with
    | some hst =>
      have hfresh : now - s.lastPacket < senderStreamTtl := h.lookup_current s hs
      obtain ⟨hlookup, hlate⟩ := onPacket_of_lookup opus seq packet hs hfresh
      obtain ⟨halike, hanswer⟩ := hst.1.receive seq packet now
      rw [hlookup, hlate]
      refine ⟨.some ⟨halike, hst.2.push hpos hlow⟩, ?_, .inr rfl⟩
      rw [← hanswer]
      rfl

/-- A frame. -/
theorem own_frame (ht : Tracks a e stream) (order : HashOrder String) (out : List F) :
    Tracks a (e.renderFrame opus now pull order gains out).1
        (alone opus stream (.frame now pull)).1 ∧
      (alone opus stream (.frame now pull)).2 =
        .frame ((e.renderFrame opus now pull order gains out).2.2.2.lookup a) ∧
      ((e.renderFrame opus now pull order gains out).1.streams.lookup a).map (·.lastPacket) =
        (e.streams.lookup a).map (·.lastPacket) := by
  unfold Engine.renderFrame Tracks
  dsimp only
  unfold Tracks at ht
  cases hs : e.streams.lookup a with
  | none =>
    obtain ⟨hlookup, hdone⟩ := mix_of_none opus now pull gains hs order out
    rw [hs] at ht
    cases ht
    rw [hlookup, hdone]
    exact ⟨.none, rfl, rfl⟩
  | some s =>
    obtain ⟨scratch, frameRms, hlookup, hdone⟩ := mix_of_lookup opus now pull gains hs
      order out
    rw [hs] at ht
    cases ht with
    | some hst =>
      have hrender : (s.render opus now pull scratch).Alike _ :=
        hst.1.render hst.2 now pull scratch .new
      rw [hlookup, hdone]
      refine ⟨.some ⟨hrender.stream.withLevel frameRms, hst.2.render now pull scratch⟩, ?_, ?_⟩
      · rw [← hrender.done]
        rfl
      · rw [Option.map_some, Option.map_some, render_lastPacket]

theorem Promised.step (h : Promised a e (event :: run))
    (ht : Tracks a e stream) : Promised a (e.step opus event).1 run := by
  cases event with
  | packet name seq packet now =>
    refine h.tail (fun x hx => ?_) ?_
    · exact (Finset.mem_insert.1 (keys_onPacket opus hx)).symm.imp_right fun hx => by rw [hx]; rfl
    · by_cases hname : name = a
      · subst hname
        refine (own_packet opus h ht).2.2.imp_right fun hlast => ?_
        exact hlast.trans (if_pos rfl).symm
      · right
        have hsender : (EngineEvent.packet name seq packet now : EngineEvent F).sender ≠ some a :=
          fun heq => hname (Option.some.inj heq)
        rw [if_neg hsender]
        exact congrArg _ (lookup_onPacket_of_ne opus hname h.lookup_current)
  | frame now pull order gains out =>
    refine h.tail (fun x hx => .inl ?_) (.inr ?_)
    · have hkeys : (e.mix opus now pull order gains out).streams.keys = e.streams.keys :=
        keys_renderAll opus now pull _ gains _ _
      exact hkeys ▸ hx
    · exact (own_frame opus ht order out).2.2

/-- What a sender does not see. -/
theorem Promised.hidden (h : Promised a e (event :: run)) (ht : Tracks a e stream)
    (hsees : sees a event = none) : Tracks a (e.step opus event).1 stream := by
  cases event with
  | packet name seq packet now =>
    have hname : name ≠ a := by
      rintro rfl
      rw [sees, if_pos rfl] at hsees
      cases hsees
    have hlookup : (e.step opus (.packet name seq packet now)).1.streams.lookup a =
        e.streams.lookup a := lookup_onPacket_of_ne opus hname h.lookup_current
    unfold Tracks at ht ⊢
    rw [hlookup]
    exact ht
  | frame now pull order gains out => cases hsees

/-- A sender is shown the same of a stream that its own is alike to. -/
theorem Tracks.shows {answer : EngineAnswer F} {notice : Notice} (ht : Tracks a e stream)
    (hnotice : notice = answer.notice a) :
    shows a (e, answer) = (stream.map .live, notice) := by
  unfold Tracks at ht
  show ((e.streams.lookup a).map SenderStream.live, answer.notice a) = _
  rw [hnotice]
  generalize e.streams.lookup a = shown at ht ⊢
  cases ht with
  | none => rfl
  | some hst => rw [Option.map_some, Option.map_some, hst.1.live_eq]

/-- What a sender sees. -/
theorem Promised.seen (h : Promised a e (event :: run)) (ht : Tracks a e stream) {k : Seen}
    (hsees : sees a event = some k) :
    Tracks a (e.step opus event).1 (alone opus stream k).1 ∧
      shows a (e.step opus event) =
        ((alone opus stream k).1.map .live, (alone opus stream k).2) := by
  cases event with
  | packet name seq packet now =>
    have hname : name = a := by
      by_contra hname
      rw [sees, if_neg hname] at hsees
      cases hsees
    subst hname
    rw [sees, if_pos rfl] at hsees
    cases hsees
    obtain ⟨htracks, hnotice, -⟩ := own_packet opus h ht
    exact ⟨htracks, htracks.shows hnotice⟩
  | frame now pull order gains out =>
    cases hsees
    obtain ⟨htracks, hnotice, -⟩ := own_frame opus ht order out
    exact ⟨htracks, htracks.shows hnotice⟩

/-- **In every run in which it is undisturbed, a sender sees what its stream does alone.** -/
theorem shown_eq_alone (h : Undisturbed a run) :
    (seen (Engine.step opus) (sees a) .new run).map (shows a) =
      (seen (alone opus) some none (run.filterMap (sees a))).map fun after =>
        (after.1.map .live, after.2) :=
  seen_project (R := Tracks a) (fun _ _ _ _ ht hp => hp.step opus ht)
    (fun _ _ _ _ ht hp hsees => hp.hidden opus ht hsees)
    (fun _ _ _ _ _ ht hp hsees => hp.seen opus ht hsees) (promised_new h) .none

/-- **No sender can tell which others there are.**  In two runs with the same packets of a sender
and the same calls for frames, and other packets of others and other orders of the hash table,
the sender's frame operations, the packets that its decoder is handed, its stream up to the
bytes in slots that are marked empty, and its late answers are the same, one by one. -/
theorem senders_apart {run' : List (EngineEvent F)} (h : Undisturbed a run)
    (h' : Undisturbed a run') (hsame : run.filterMap (sees a) = run'.filterMap (sees a)) :
    (seen (Engine.step opus) (sees a) .new run).map (shows a) =
      (seen (Engine.step opus) (sees a) .new run').map (shows a) := by
  rw [shown_eq_alone opus h, shown_eq_alone opus h', hsame]

end Runs

/-! ## Two senders -/

def byName : HashOrder String := .byKey String.toList fun _ _ => String.toList_injective

/-- A packet of ann, one of bob, and a second later a frame. -/
def sampleRun (packet : Bytes) : List (EngineEvent Whole) :=
  [.packet "ann" 1 packet 0, .packet "bob" 1 [0xF8, 0xFF, 0xFE] 0,
    .frame (10 ^ 9) 0 byName (fun _ => 1) []]

theorem sampleRun_undisturbed (packet : Bytes) : Undisturbed "bob" (sampleRun packet) where
  numbers seq packet' now hmem := by
    obtain ⟨rfl, -⟩ : seq = 1 ∧ packet' = [0xF8, 0xFF, 0xFE] ∧ now = 0 := by
      simpa [sampleRun] using hmem
    decide
  senders := by
    show (["ann", "bob"] : List String).toFinset.card ≤ _
    decide +kernel
  current := by
    refine ⟨nofun, nofun, ?_, trivial⟩
    intro before hbefore
    cases hbefore
    decide +kernel

theorem senders_apart_sample :
    (seen (Engine.step silent) (sees "bob") .new (sampleRun [7])).map (shows "bob") =
      (seen (Engine.step silent) (sees "bob") .new (sampleRun [8])).map (shows "bob") :=
  senders_apart silent (sampleRun_undisturbed [7]) (sampleRun_undisturbed [8]) rfl

/-- A stream with the first packet in it. -/
def sampleStream (packet : Bytes) : SenderStream Whole Unit :=
  ((SenderStream.new () 0).receive 1 packet 0).1

/-- A second later it plays that packet, and swaps what is in the scratch buffer into the slot. -/
theorem sampleStream_render (packet : Bytes) (scratch : Scratch Whole) :
    (((sampleStream packet).render silent (10 ^ 9) 0 scratch).stream.jitter.slots (slotOf 1)).data =
        scratch.opus ∧
      ((sampleStream packet).render silent (10 ^ 9) 0 scratch).scratch.opus = packet := by
  have hbuf : (sampleStream packet).jitter.buffered (sampleStream packet).jitter.nextSeq = true :=
    rfl
  have hwake : (sampleStream packet).wake (10 ^ 9) 0 =
      ({ sampleStream packet with state := .playing, firstIdleArrival := none }, some []) := by
    have htarget : (sampleStream packet).target ≤ 10 := targetFrames_le _
    have hwait : frameDuration * (((sampleStream packet).target + 0) % 2 ^ 32) ≤ 10 ^ 9 - 0 := by
      have hframe : frameDuration = 20000000 := rfl
      rw [hframe]
      omega
    unfold SenderStream.wake
    show (if _ then _ else _) = _
    rw [if_neg (countBuffered_ne_zero hbuf)]
    dsimp only
    rw [skipToOldest_of_buffered hbuf, if_neg]
    · rfl
    · rw [Bool.and_eq_true, Bool.not_eq_true', decide_eq_false_iff_not, not_and_not_right]
      exact fun _ => hwait
  unfold SenderStream.render
  rw [hwake]
  exact ⟨rfl, rfl⟩

/-- In the slot that bob's packet was in, there is ann's. -/
theorem sampleRun_slot (packet : Bytes) :
    ((after (Engine.step silent) .new (sampleRun packet)).streams.lookup "bob").map
      (fun s => (s.jitter.slots (slotOf 1)).data) = some packet := by
  let e := after (Engine.step silent) .new ((sampleRun packet).take 2)
  let m : Mixing Whole Unit := ⟨e.streams, .new, [], 0, false, []⟩
  let m' := m.renderOne silent (10 ^ 9) 0 0 (fun _ => 1) "ann"
  have hnames : byName.toList e.streams.keys.val = ["ann", "bob"] := by
    have hkeys : e.streams.keys = {"bob", "ann"} := rfl
    rw [hkeys]
    decide +kernel
  have hann : m.streams.lookup "ann" = some (sampleStream packet) := rfl
  have hbob : m'.streams.lookup "bob" = some (sampleStream [0xF8, 0xFF, 0xFE]) :=
    (renderOne_of_ne silent (10 ^ 9) 0 0 (fun _ => 1) (by decide)).1.trans rfl
  obtain ⟨-, -, -, hscratch⟩ := renderOne_of_lookup silent (10 ^ 9) 0 0 (fun _ => 1) hann
  obtain ⟨frameRms, hstreams, -, -⟩ := renderOne_of_lookup silent (10 ^ 9) 0 0 (fun _ => 1) hbob
  have hslot := (sampleStream_render [0xF8, 0xFF, 0xFE] m'.scratch).1
  have hopus : m'.scratch.opus = packet :=
    (congrArg Scratch.opus hscratch).trans (sampleStream_render packet _).2
  have hmix : (after (Engine.step silent) .new (sampleRun packet)).streams =
      ((byName.toList e.streams.keys.val).foldl
        (Mixing.renderOne silent (10 ^ 9) 0 0 fun _ => 1) m).streams := rfl
  rw [hmix, hnames, List.foldl_cons, List.foldl_cons, List.foldl_nil]
  show ((m'.renderOne silent (10 ^ 9) 0 0 (fun _ => 1) "bob").streams.lookup "bob").map _ = _
  rw [hstreams, Finmap.lookup_insert, Option.map_some]
  exact congrArg some (hslot.trans hopus)

/-- The jitter buffers themselves are not the same: the slot that bob's packet was in has the
bytes of ann's packet in it, marked empty. -/
theorem leftover_bytes : ¬ ∀ run run' : List (EngineEvent Whole), Undisturbed "bob" run →
    Undisturbed "bob" run' → run.filterMap (sees "bob") = run'.filterMap (sees "bob") →
    (seen (Engine.step silent) (sees "bob") .new run).map
        (fun shown => (shown.1.streams.lookup "bob").map (·.jitter)) =
      (seen (Engine.step silent) (sees "bob") .new run').map
        fun shown => (shown.1.streams.lookup "bob").map (·.jitter) := by
  intro hall
  have hsame := hall (sampleRun [7]) (sampleRun [8]) (sampleRun_undisturbed [7])
    (sampleRun_undisturbed [8]) rfl
  have hjitter : ((after (Engine.step silent) .new (sampleRun [7])).streams.lookup "bob").map
        (·.jitter) =
      ((after (Engine.step silent) .new (sampleRun [8])).streams.lookup "bob").map (·.jitter) :=
    (List.cons.inj (List.cons.inj hsame).2).1
  have hslot := congrArg (Option.map fun b => (b.slots (slotOf 1)).data) hjitter
  rw [Option.map_map, Option.map_map] at hslot
  have hbytes := (sampleRun_slot [7]).symm.trans (hslot.trans (sampleRun_slot [8]))
  exact absurd hbytes (by decide)

end Client
end TcVoice
