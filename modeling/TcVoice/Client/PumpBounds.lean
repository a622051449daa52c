import TcVoice.Client.Frames
import TcVoice.Client.Isolation
import TcVoice.Client.Latency

/-!
# What ends a pump

When the loops of `pump` render a frame, and how they end.

* `playing_of_none` — where no frame is rendered, nobody plays.
* `Pump.turns` — where the loop with a device stands each time it renders a frame.
* `Pump.TopsUp`, `pumpDevice_topsUp` — frames are rendered below the mark only, and what is
  rendered is in the ring or counted.
* `pumpVirtual_ends` — the virtual output is covered, or nobody plays, after so many frames.
* `pump_ends` — **every pump comes to an end**, with one of these.
-/

namespace TcVoice
namespace Client

variable {F D : Type} [F32 F]

/-! ## Nothing to play -/

/-- A stream that renders no frame is idle after that. -/
theorem Renders.idle_of_none {s s' : SenderStream F D} {done : Done} (h : Renders s done s')
    (hop : done.op = none) : s'.state = .idle := by
  cases h with
  | waits hstate => exact hstate
  | plays hwake hplay =>
    cases hplay with
    | ended hpop hhold => rfl
    | packet => cases hop
    | accelerated => cases hop
    | concealed => cases hop
    | expanded => cases hop

section Silence

variable (opus : OpusDecoder F D) (now pull n : ℕ) (gains : String → F)

/-- If there is nothing in a mix so far, those who are through do not play. -/
def Mixing.Silent (through : List String) (m : Mixing F D) : Prop :=
  m.contributors = 0 → ∀ name ∈ through, ∀ s, m.streams.lookup name = some s → s.state = .idle

variable {through : List String} {m : Mixing F D} {name : String}

/-- One turn of the loop over the streams. -/
theorem Mixing.Silent.renderOne (h : m.Silent through) (hname : name ∉ through) :
    (m.renderOne opus now pull n gains name).Silent (through ++ [name]) := by
  cases hs : m.streams.lookup name with
  | none =>
    rw [renderOne_of_none opus now pull n gains hs]
    intro hzero a ha s hlookup
    rw [List.mem_append, List.mem_singleton] at ha
    rcases ha with ha | rfl
    · exact h hzero a ha s hlookup
    · rw [hs] at hlookup
      cases hlookup
  | some s =>
    obtain ⟨frameRms, hstreams, -, -⟩ := renderOne_of_lookup opus now pull n gains hs
    have hcount : (m.renderOne opus now pull n gains name).contributors = 0 →
        m.contributors = 0 ∧ (s.render opus now pull m.scratch).done.op = none := by
      unfold Mixing.renderOne
      rw [hs]
      dsimp only
      split
      · exact fun hzero => absurd hzero (Nat.succ_ne_zero _)
      · rename_i hop
        split <;> exact fun hzero => ⟨hzero, Option.not_isSome_iff_eq_none.1 hop⟩
    intro hzero a ha t hlookup
    obtain ⟨hbefore, hop⟩ := hcount hzero
    rw [hstreams, Table.lookup_insert_if] at hlookup
    rw [List.mem_append, List.mem_singleton] at ha
    rcases ha with ha | rfl
    · have hne : a ≠ name := ne_of_mem_of_not_mem ha hname
      rw [if_neg hne] at hlookup
      exact h hbefore a ha t hlookup
    · rw [if_pos rfl] at hlookup
      cases hlookup
      exact (render_renders opus s now pull m.scratch).idle_of_none hop

/-- All turns. -/
theorem Mixing.Silent.renderAll {names : List String} (hnodup : (through ++ names).Nodup)
    (h : m.Silent through) :
    (names.foldl (Mixing.renderOne opus now pull n gains) m).Silent (through ++ names) := by
  induction names generalizing through m with
  | nil => rwa [List.append_nil]
  | cons name names ih =>
    have hsplit : through ++ name :: names = (through ++ [name]) ++ names := by
      rw [List.append_assoc, List.singleton_append]
    have hname : name ∉ through := fun hmem =>
      (List.disjoint_of_nodup_append hnodup) hmem List.mem_cons_self
    rw [hsplit] at hnodup ⊢
    exact ih hnodup (h.renderOne opus now pull n gains hname)

/-- **Where no frame is rendered, nobody plays.** -/
theorem playing_of_none {e : Engine F D} {order : HashOrder String} {out : List F}
    (h : (e.renderFrame opus now pull order gains out).2.1 = none) :
    (e.renderFrame opus now pull order gains out).1.playing = 0 := by
  have hnodup : ([] ++ order.toList e.streams.keys.val).Nodup :=
    (order.nodup_toList).2 e.streams.keys.nodup
  have hsilent : (e.mix opus now pull order gains out).Silent
      (order.toList e.streams.keys.val) :=
    Mixing.Silent.renderAll opus now pull _ gains hnodup fun _ _ ha => nomatch ha
  have hkeys : (e.mix opus now pull order gains out).streams.keys = e.streams.keys :=
    keys_renderAll opus now pull _ gains _ _
  have hzero : (e.mix opus now pull order gains out).contributors = 0 := by
    by_contra hne
    have hsome : (e.renderFrame opus now pull order gains out).2.1 =
        some (min Config.frameSize out.length) := if_neg hne
    rw [h] at hsome
    cases hsome
  show (((e.mix opus now pull order gains out).streams.entries.filter _).card) = 0
  rw [Multiset.card_eq_zero, Multiset.filter_eq_nil]
  rintro ⟨name, s⟩ hentry
  have hlookup := (Table.mem_entries _ _ _).1 hentry
  have hmem : name ∈ e.streams.keys := by
    rw [← hkeys, Finmap.mem_keys, Table.mem_iff_lookup]
    exact ⟨s, hlookup⟩
  have hidle := hsilent hzero name ((order.mem_toList _ _).2 hmem) s hlookup
  rw [hidle]
  exact nofun

end Silence

/-! ## With a device -/

namespace AudioRing

variable (ring : AudioRing F) (samples : List F)

omit [F32 F] in
/-- What is pushed is in the ring, but for what it has no room for. -/
theorem pushSlice_drop :
    (ring.pushSlice samples).1.samples ++ samples.drop ring.vacantLen = ring.samples ++ samples ∧
      (samples.drop ring.vacantLen).length = samples.length - (ring.pushSlice samples).2 := by
  unfold pushSlice
  constructor
  · rw [List.append_assoc, List.take_append_drop]
  · rw [List.length_drop]
    omega

variable {samples}

omit [F32 F] in
theorem pushSlice_of_le (h : samples.length ≤ ring.vacantLen) :
    (ring.pushSlice samples).1.samples = ring.samples ++ samples ∧
      (ring.pushSlice samples).2 = samples.length := by
  refine ⟨?_, Nat.min_eq_left h⟩
  show ring.samples ++ samples.take ring.vacantLen = _
  rw [List.take_of_length_le h]

end AudioRing

/-- Where the loop with a device stands when it renders a frame. -/
structure Turn (F D : Type) where
  k : ℕ
  pump : Pump F D
  ring : AudioRing F

variable (opus : OpusDecoder F D) (call : PumpCall F) (queued request : ℕ)

namespace Turn

variable (turn : Turn F D)

/-- What the output holds then. -/
def level : ℕ := turn.ring.occupiedLen + queued

/-- What is rendered. -/
def rendered : Pump F D × Option ℕ × List (String × Done) :=
  turn.pump.render opus call.now (Output.new (turn.level queued) request).pull call.order
    (call.gains turn.k)

/-- The samples of that. -/
def samples : List F :=
  match (turn.rendered opus call queued request).2.1 with
  | none => []
  | some n => (turn.rendered opus call queued request).1.mix.take n

end Turn

namespace Pump

/-- The turns of the loop in which it renders a frame. -/
def turns (k : ℕ) (p : Pump F D) (ring : AudioRing F) : List (Turn F D) :=
  let output := Output.new (ring.occupiedLen + queued) request
  if output.wantsFrame then
    let rendered := p.render opus call.now output.pull call.order (call.gains k)
    match h : rendered.2.1 with
    | none => [⟨k, p, ring⟩]
    | some n =>
      let room := ring.vacantLen
      let pushed := ring.pushSlice (rendered.1.mix.take n)
      if room < n then [⟨k, p, ring⟩]
      else ⟨k, p, ring⟩ :: turns (k + 1) rendered.1 pushed.1
  else []
termination_by Config.playoutOutputLowWater + request + Config.frameSize - ring.occupiedLen
decreasing_by
  rename_i hwants hroom
  have hn : n = Config.frameSize := length_frame opus h
  have hpos : 0 < Config.frameSize := by decide
  have hlevel := Output.wantsFrame_new hwants
  rw [length_pushed hn]
  omega

/-- What is asked of the loop with a device. -/
structure TopsUp (ring : AudioRing F) (turns : List (Turn F D)) (done : Pumped F D) : Prop where
  /-- Every frame that is rendered is that of a turn, and the output is below the mark then. -/
  frames : done.frames = turns.map fun turn => (turn.rendered opus call queued request).2.2
  below : ∀ turn ∈ turns, turn.level queued < mark request
  /-- What is rendered is put into the ring in its order, but for what is counted, at the end. -/
  samples : ∃ lost, lost.length = done.overflow ∧
    done.ring.samples ++ lost =
      ring.samples ++ turns.flatMap fun turn => turn.samples opus call queued request
  level : ring.occupiedLen + queued < mark request + Config.frameSize →
    done.ring.occupiedLen + queued < mark request + Config.frameSize
  /-- At the end the output holds the mark, or nobody plays, or there was no room for a frame. -/
  ends : mark request ≤ done.ring.occupiedLen + queued ∨
    (∃ turn ∈ turns.getLast?, (turn.rendered opus call queued request).2.1 = none ∧
      done.pump.engine.playing = 0) ∨
    ∃ turn ∈ turns.getLast?, turn.ring.vacantLen < Config.frameSize

variable {opus} {call} {queued request} {k n : ℕ} {p : Pump F D} {ring : AudioRing F}

theorem turns_of_full (hfull : ¬ (Output.new (ring.occupiedLen + queued) request).wantsFrame) :
    p.turns opus call queued request k ring = [] := by
  unfold turns
  dsimp only
  rw [if_neg hfull]

theorem turns_of_none (hwants : (Output.new (ring.occupiedLen + queued) request).wantsFrame)
    (hnone : ((⟨k, p, ring⟩ : Turn F D).rendered opus call queued request).2.1 = none) :
    p.turns opus call queued request k ring = [⟨k, p, ring⟩] := by
  unfold turns
  dsimp only
  rw [if_pos hwants]
  split
  · rfl
  · rename_i hsome
    have hsome' := hnone.symm.trans hsome
    cases hsome'

theorem turns_of_some (hwants : (Output.new (ring.occupiedLen + queued) request).wantsFrame)
    (hsome : ((⟨k, p, ring⟩ : Turn F D).rendered opus call queued request).2.1 = some n) :
    p.turns opus call queued request k ring = if ring.vacantLen < n then [⟨k, p, ring⟩] else
      ⟨k, p, ring⟩ :: turns opus call queued request (k + 1)
        ((⟨k, p, ring⟩ : Turn F D).rendered opus call queued request).1
        (ring.pushSlice (((⟨k, p, ring⟩ : Turn F D).rendered opus call queued request).1.mix.take
          n)).1 := by
  conv_lhs => unfold turns
  dsimp only
  rw [if_pos hwants]
  split
  · rename_i hnone
    have hnone' := hsome.symm.trans hnone
    cases hnone'
  · rename_i n' hsome'
    have hn : n = n' := Option.some.inj (hsome.symm.trans hsome')
    subst hn
    unfold Turn.rendered Turn.level
    rfl

/-- A turn that renders a frame. -/
theorem samples_of_some {turn : Turn F D}
    (hsome : (turn.rendered opus call queued request).2.1 = some n) :
    turn.samples opus call queued request =
        (turn.rendered opus call queued request).1.mix.take n ∧
      ((turn.rendered opus call queued request).1.mix.take n).length = Config.frameSize ∧
      n = Config.frameSize := by
  have hn : n = Config.frameSize := length_frame opus hsome
  have hsamples : turn.samples opus call queued request =
      (turn.rendered opus call queued request).1.mix.take n := by
    unfold Turn.samples
    rw [hsome]
  refine ⟨hsamples, ?_, hn⟩
  rw [List.length_take, mix_len, hn, Nat.min_self]

/-- A turn that ends the loop: nothing is rendered, or the ring is full. -/
theorem TopsUp.last (turn : Turn F D) {done : Pumped F D} (lost : List F)
    (hbelow : turn.level queued < mark request)
    (hframes : done.frames = [(turn.rendered opus call queued request).2.2])
    (hlost : lost.length = done.overflow)
    (hsamples : done.ring.samples ++ lost =
      turn.ring.samples ++ turn.samples opus call queued request)
    (hlen : (turn.samples opus call queued request).length ≤ Config.frameSize)
    (hends : (turn.rendered opus call queued request).2.1 = none ∧ done.pump.engine.playing = 0 ∨
      turn.ring.vacantLen < Config.frameSize) :
    TopsUp opus call queued request turn.ring [turn] done where
  frames := hframes
  below := by
    intro other hother
    rw [List.mem_singleton.1 hother]
    exact hbelow
  samples := ⟨lost, hlost, by rw [List.flatMap_singleton, hsamples]⟩
  level := by
    intro _
    have htotal := congrArg List.length hsamples
    rw [List.length_append, List.length_append] at htotal
    unfold Turn.level AudioRing.occupiedLen at *
    omega
  ends := .inr (hends.imp (fun h => ⟨turn, rfl, h⟩) fun h => ⟨turn, rfl, h⟩)

/-- A turn that the loop goes on after: the whole frame is in the ring. -/
theorem TopsUp.cons (turn : Turn F D) {rest : List (Turn F D)} {done : Pumped F D}
    {next : AudioRing F} (hbelow : turn.level queued < mark request)
    (hnext : next.samples = turn.ring.samples ++ turn.samples opus call queued request)
    (hlen : (turn.samples opus call queued request).length = Config.frameSize)
    (h : TopsUp opus call queued request next rest done) :
    TopsUp opus call queued request turn.ring (turn :: rest)
      { done with frames := (turn.rendered opus call queued request).2.2 :: done.frames } where
  frames := by rw [List.map_cons, ← h.frames]
  below := by
    intro other hother
    rcases List.mem_cons.1 hother with rfl | hother
    · exact hbelow
    · exact h.below other hother
  samples := by
    obtain ⟨lost, hlost, hsamples⟩ := h.samples
    refine ⟨lost, hlost, ?_⟩
    rw [List.flatMap_cons, ← List.append_assoc, ← hnext]
    exact hsamples
  level := by
    intro _
    apply h.level
    unfold AudioRing.occupiedLen
    rw [hnext, List.length_append, hlen]
    unfold Turn.level AudioRing.occupiedLen at hbelow
    omega
  ends := by
    refine h.ends.imp_right (Or.imp ?_ ?_)
    · rintro ⟨last, hlast, hquiet⟩
      exact ⟨last, List.mem_getLast?_cons hlast, hquiet⟩
    · rintro ⟨last, hlast, hroom⟩
      exact ⟨last, List.mem_getLast?_cons hlast, hroom⟩

/-- **The loop with a device** renders below the mark only, loses nothing that is not counted, and
stops at the mark, when nobody plays, or when there is no room for a frame. -/
theorem pumpDevice_topsUp (call : PumpCall F) (queued request k : ℕ) (p : Pump F D)
    (ring : AudioRing F) :
    TopsUp opus call queued request ring (p.turns opus call queued request k ring)
      (pumpDevice opus call queued request k p ring) := by
  fun_induction pumpDevice opus call queued request k p ring with
  | case1 k p ring output hwants rendered hnone =>
    have hsamples : (⟨k, p, ring⟩ : Turn F D).samples opus call queued request = [] := by
      unfold Turn.samples
      split
      · rfl
      · rename_i hsome
        cases hnone.symm.trans hsome
    rw [turns_of_none hwants hnone]
    refine .last ⟨k, p, ring⟩ [] (Output.wantsFrame_new hwants) rfl rfl ?_ ?_
      (.inl ⟨hnone, playing_of_none opus _ _ _ hnone⟩)
    · rw [hsamples]
    · rw [hsamples]
      exact Nat.zero_le _
  | case2 k p ring output hwants rendered n h room pushed overflow hroom =>
    have hsome : ((⟨k, p, ring⟩ : Turn F D).rendered opus call queued request).2.1 = some n := h
    obtain ⟨hsamples, hlen, hn⟩ :
      (⟨k, p, ring⟩ : Turn F D).samples opus call queued request = rendered.1.mix.take n ∧
        (rendered.1.mix.take n).length = Config.frameSize ∧ n = Config.frameSize :=
      samples_of_some hsome
    obtain ⟨hkept, hlost⟩ := ring.pushSlice_drop (rendered.1.mix.take n)
    rw [turns_of_some hwants hsome, if_pos hroom]
    refine .last ⟨k, p, ring⟩ ((rendered.1.mix.take n).drop room) (Output.wantsFrame_new hwants)
      rfl ?_ ?_ (hsamples ▸ hlen.le) (.inr (hroom.trans_eq hn))
    · rw [hlost, hlen, ← hn]
    · rw [hsamples]
      exact hkept
  | case3 k p ring output hwants rendered n h room pushed overflow hroom rest ih =>
    have hsome : ((⟨k, p, ring⟩ : Turn F D).rendered opus call queued request).2.1 = some n := h
    obtain ⟨hsamples, hlen, hn⟩ :
      (⟨k, p, ring⟩ : Turn F D).samples opus call queued request = rendered.1.mix.take n ∧
        (rendered.1.mix.take n).length = Config.frameSize ∧ n = Config.frameSize :=
      samples_of_some hsome
    have hfits : (rendered.1.mix.take n).length ≤ ring.vacantLen := by
      rw [hlen, ← hn]
      exact not_lt.1 hroom
    obtain ⟨hkept, hall⟩ := ring.pushSlice_of_le hfits
    have hnone : overflow = 0 := by
      show n - pushed.2 = 0
      rw [hall, hlen, ← hn, Nat.sub_self]
    rw [turns_of_some hwants hsome, if_neg hroom, hnone, Nat.zero_add]
    refine .cons ⟨k, p, ring⟩ (Output.wantsFrame_new hwants) ?_ (hsamples ▸ hlen) ih
    rw [hkept, hsamples]
  | case4 k p ring output hfull =>
    rw [turns_of_full hfull]
    refine ⟨rfl, fun _ hturn => absurd hturn List.not_mem_nil, ⟨[], rfl, rfl⟩, id, .inl ?_⟩
    exact not_lt.1 fun hlt => hfull (decide_eq_true hlt)

/-! ## Without a device -/

/-- Where the loop without a device starts: what is further behind than the jitter buffer is long
is skipped. -/
def caughtUp (p : Pump F D) (now : ℕ) : Pump F D :=
  if frameDuration * Config.jitterBufMax < now - p.virtualUntil then
    { p with virtualUntil := now }
  else p

variable (opus) in
/-- **The loop without a device** stops when the virtual output is covered or nobody plays, and
renders no more frames than it is behind. -/
theorem pumpVirtual_ends (call : PumpCall F) (k : ℕ) (p : Pump F D) :
    let done := pumpVirtual opus call k p
    (Config.playoutOutputLowWater ≤ virtualLevel done.1.virtualUntil call.now ∨
        done.1.engine.playing = 0 ∧ done.1.virtualUntil = call.now) ∧
      done.2.length * frameDuration < p.lag call.now + frameDuration := by
  have hpos : 0 < frameDuration := by decide
  fun_induction pumpVirtual opus call k p with
  | case1 k p output hwants rendered hsome rest ih =>
    obtain ⟨hends, hcount⟩ := ih
    refine ⟨hends, ?_⟩
    have hahead := lt_of_virtualLevel (Output.wantsFrame_idle hwants)
    have hleft : rest.2.length * frameDuration <
        call.now + 2 * frameDuration - (p.virtualUntil + frameDuration) + frameDuration := hcount
    show (rest.2.length + 1) * frameDuration < call.now + 2 * frameDuration - p.virtualUntil + _
    rw [Nat.succ_mul]
    -- One frame less to go, or this was the last one.
    rcases Nat.eq_zero_or_pos rest.2.length with hlast | hmore
    · rw [hlast, Nat.zero_mul]
      omega
    · have hone : frameDuration ≤ rest.2.length * frameDuration :=
        Nat.le_mul_of_pos_left _ hmore
      omega
  | case2 k p output hwants rendered hnone =>
    have hahead := lt_of_virtualLevel (Output.wantsFrame_idle hwants)
    have hquiet : rendered.1.engine.playing = 0 :=
      playing_of_none opus _ _ _ (Option.not_isSome_iff_eq_none.1 hnone)
    refine ⟨.inr ⟨hquiet, rfl⟩, ?_⟩
    show 1 * frameDuration < call.now + 2 * frameDuration - p.virtualUntil + frameDuration
    omega
  | case3 k p output hfull =>
    refine ⟨.inl ?_, ?_⟩
    · have hlevel : ¬ virtualLevel p.virtualUntil call.now < max Config.playoutOutputLowWater
          (0 + Config.frameSize) := fun hlt => hfull (decide_eq_true hlt)
      exact (le_max_left _ _).trans (not_lt.1 hlevel)
    · show 0 * frameDuration < _
      omega

/-! ## A pump -/

omit [F32 F] in
/-- What the virtual output is not covered for when the loop starts. -/
theorem lag_caughtUp (p : Pump F D) (now : ℕ) :
    (p.caughtUp now).lag now ≤ (Config.jitterBufMax + 2) * frameDuration := by
  have hduration : frameDuration = 20000000 := by decide
  unfold caughtUp lag Config.jitterBufMax
  rw [hduration]
  split
  · show now + 2 * 20000000 - now ≤ _
    omega
  · omega

/-- **Every pump comes to an end.**  With a device, it renders frames only while the output is
below its mark and puts every sample of them into the ring, in order, or counts it; it stops when
the output holds the mark, when nothing was rendered as nobody plays, or when the ring had no room
for a frame.  Without one, after what is too far behind has been skipped, it stops when the
virtual output is covered or nobody plays, after no more frames than fit into the jitter buffer
and three. -/
theorem pump_ends (p : Pump F D) (call : PumpCall F) (signals : PlayoutSignals)
    (diag : OutputDiagnostics) :
    (∀ ring,
      let start := { p with virtualUntil := call.now }
      let done := pumpDevice opus call signals.queued signals.request 0 start ring
      p.pump opus (some ring) call signals diag = (done.pump, some done.ring,
          { signals with playing := asU32 done.pump.engine.playing },
          { diag with playbackRingOverflow := diag.playbackRingOverflow + done.overflow }) ∧
        TopsUp opus call signals.queued signals.request ring
          (start.turns opus call signals.queued signals.request 0 ring) done) ∧
    let done := pumpVirtual opus call 0 (p.caughtUp call.now)
    p.pump opus none call signals diag =
        (done.1, none, { signals with playing := asU32 done.1.engine.playing }, diag) ∧
      (Config.playoutOutputLowWater ≤ virtualLevel done.1.virtualUntil call.now ∨
        done.1.engine.playing = 0 ∧ done.1.virtualUntil = call.now) ∧
      done.2.length ≤ Config.jitterBufMax + 3 := by
  constructor
  · exact fun ring => ⟨rfl, pumpDevice_topsUp call _ _ 0 _ ring⟩
  · obtain ⟨hends, hcount⟩ := pumpVirtual_ends opus call 0 (p.caughtUp call.now)
    refine ⟨rfl, hends, ?_⟩
    have hlag := p.lag_caughtUp call.now
    have hduration : frameDuration = 20000000 := by decide
    rw [hduration] at hcount hlag
    unfold Config.jitterBufMax at *
    omega

end Pump

end Client
end TcVoice
