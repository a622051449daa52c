import Mathlib.Algebra.BigOperators.Group.Finset.Basic
import Mathlib.Tactic.Linarith
import Mathlib.Tactic.NormNum
import TcVoice.Client.Isolation
import TcVoice.Client.Percents
import TcVoice.Client.PlayoutPump

/-!
# The mix of a frame

What `render_frame` writes, in exact numbers and with gains that are percents.

* `SenderStream.contribution` — what a stream adds to a frame, rendered on its own.
* `render_contribution` — it adds the same whatever the others have left in the buffers.
* `Mixing.Sums` — a mix that is what its streams have added up to so far.
* `renderFrame_eq_sum` — **a frame is the sum of what the streams contribute**, each times its
  gain, and there is none if no stream does.
-/

namespace TcVoice
namespace Client

open JitterBuffer

/-! ## What a stream contributes -/

section Contribution

variable {F D : Type} [F32 F] (opus : OpusDecoder F D)

/-- What a stream adds to a frame: nothing, or the samples that it leaves in buffers of its
own. -/
def SenderStream.contribution (s : SenderStream F D) (now pull : ℕ) : Option (Frame F) :=
  let r := s.render opus now pull .new
  if r.done.op.isSome then some r.scratch.frame else none

/-- Two renders that do the same and sound the same. -/
def Rendered.SoundsLike (r r' : Rendered F D) : Prop :=
  r'.done = r.done ∧ (r.done.op.isSome → r'.scratch.frame = r.scratch.frame)

/-- A pop answers the same whatever is in the buffer that the data is swapped into. -/
theorem pop_swapped (b : JitterBuffer) (out out' : Bytes) :
    (b.pop out).1.Alike (b.pop out').1 ∧ (b.pop out').2.2 = (b.pop out).2.2 ∧
      ((b.pop out).2.2 = .packet → (b.pop out').2.1 = (b.pop out).2.1) := by
  rcases Bool.eq_false_or_eq_true b.started with hstarted | hstarted
  · rw [pop_of_started hstarted, pop_of_started hstarted]
    dsimp only
    split
    · have hslots : Alike
          { b with slots := Function.update b.slots (slotOf b.nextSeq) ⟨0, out⟩ }
          { b with slots := Function.update b.slots (slotOf b.nextSeq) ⟨0, out'⟩ } :=
        (Alike.refl b).update _ rfl fun hne => absurd rfl hne
      exact ⟨⟨rfl, hslots.seq, hslots.full⟩, rfl, fun _ => rfl⟩
    · split
      · exact ⟨.refl _, rfl, nofun⟩
      · exact ⟨.refl _, rfl, nofun⟩
  · rw [pop_of_not_started hstarted, pop_of_not_started hstarted]
    exact ⟨.refl _, rfl, nofun⟩

variable {s s' : SenderStream F D}

theorem playPacket_soundsLike (h : s.Alike s') (target : ℕ) (seq : UInt32)
    {scratch scratch' : Scratch F} (hopus : scratch'.opus = scratch.opus)
    (reports : List Report) :
    (s.playPacket opus target seq scratch reports).SoundsLike
      (s'.playPacket opus target seq scratch' reports) := by
  obtain ⟨jitter, frameRms, rfl, hj⟩ := h.exists_jitter
  unfold SenderStream.playPacket
  rw [hopus]
  dsimp only
  rw [hj.nextSeq, hj.peek]
  split <;> rename_i haccelerate <;> split <;> rename_i haccelerate'
  · -- The next packet is there, so its number is not the one of an empty slot.
    have hpeek : (s.jitter.peek s.jitter.nextSeq).isSome := (Bool.and_eq_true_iff.1 haccelerate).2
    have hnext : s.jitter.started = true → s.jitter.nextSeq ≠ 0 := by
      intro _
      unfold peek at hpeek
      split at hpeek
      · rename_i hbuf
        exact (buffered_iff.1 hbuf).2
      · cases hpeek
    obtain ⟨-, -, hpacket⟩ := hj.pop hnext scratch.opus scratch.opus
    rw [hpacket (.inr rfl)]
    exact ⟨rfl, fun _ => rfl⟩
  · exact absurd haccelerate haccelerate'
  · exact absurd haccelerate' haccelerate
  · exact ⟨rfl, fun _ => rfl⟩

theorem playMissing_soundsLike (h : s.Alike s') (scratch scratch' : Scratch F)
    (reports : List Report) :
    (s.playMissing opus scratch reports).SoundsLike (s'.playMissing opus scratch' reports) := by
  obtain ⟨jitter, frameRms, rfl, hj⟩ := h.exists_jitter
  unfold SenderStream.playMissing
  dsimp only
  rw [hj.nextSeq, hj.peek]
  split
  · exact ⟨rfl, fun _ => rfl⟩
  · split
    · exact ⟨rfl, fun _ => rfl⟩
    · exact ⟨rfl, fun _ => rfl⟩

theorem playEmpty_soundsLike (h : s.Alike s') (scratch scratch' : Scratch F)
    (reports : List Report) :
    (s.playEmpty opus scratch reports).SoundsLike (s'.playEmpty opus scratch' reports) := by
  obtain ⟨jitter, frameRms, rfl, hj⟩ := h.exists_jitter
  unfold SenderStream.playEmpty
  dsimp only
  split
  · exact ⟨rfl, nofun⟩
  · exact ⟨rfl, fun _ => rfl⟩

/-- A render does and sounds the same with any buffers to render through. -/
theorem render_soundsLike (s : SenderStream F D) (now pull : ℕ) (scratch scratch' : Scratch F) :
    (s.render opus now pull scratch).SoundsLike (s.render opus now pull scratch') := by
  unfold SenderStream.render
  split
  · exact ⟨rfl, nofun⟩
  · rename_i woken reports _
    obtain ⟨hpop, hanswer, hpacket⟩ := pop_swapped woken.jitter scratch.opus scratch'.opus
    unfold SenderStream.play
    dsimp only
    rcases hs : woken.jitter.pop scratch.opus with ⟨popped, packet, answer⟩
    rcases hs' : woken.jitter.pop scratch'.opus with ⟨popped', packet', answer'⟩
    rw [hs, hs'] at hpop hanswer hpacket
    dsimp only at hpop hanswer hpacket
    subst hanswer
    cases answer' with
    | packet => exact playPacket_soundsLike opus ⟨rfl, hpop⟩ s.target _ (hpacket rfl) reports
    | missing => exact playMissing_soundsLike opus ⟨rfl, hpop⟩ _ _ reports
    | empty => exact playEmpty_soundsLike opus ⟨rfl, hpop⟩ _ _ reports

/-- **A stream contributes what it would on its own**, whatever is in the buffers that it is
rendered through. -/
theorem render_contribution (s : SenderStream F D) (now pull : ℕ) (scratch : Scratch F) :
    s.contribution opus now pull =
      if (s.render opus now pull scratch).done.op.isSome then
        some (s.render opus now pull scratch).scratch.frame
      else none := by
  obtain ⟨hdone, hframe⟩ := render_soundsLike opus s now pull scratch .new
  unfold SenderStream.contribution
  dsimp only
  rw [hdone]
  split
  · rename_i hsome
    rw [hframe hsome]
  · rfl

/-- What a turn of the loop does to the mix. -/
theorem renderOne_mix {name : String} {m : Mixing F D} (now pull n : ℕ) (gains : String → F)
    (hs : m.streams.lookup name = some s) :
    match s.contribution opus now pull with
    | none => (m.renderOne opus now pull n gains name).out = m.out ∧
        (m.renderOne opus now pull n gains name).contributors = m.contributors
    | some frame => (m.renderOne opus now pull n gains name).out =
          mixIn (m.contributors == 0) (gains name) (frame.toList.take n) (m.out.take n) ++
            m.out.drop n ∧
        (m.renderOne opus now pull n gains name).contributors = m.contributors + 1 := by
  rw [render_contribution opus s now pull m.scratch]
  unfold Mixing.renderOne
  rw [hs]
  dsimp only
  by_cases hop : (s.render opus now pull m.scratch).done.op.isSome
  · rw [if_pos hop, if_pos hop]
    exact ⟨rfl, rfl⟩
  · rw [if_neg hop, if_neg hop]
    by_cases hplaying : s.state = .playing
    · rw [if_pos hplaying]
      exact ⟨rfl, rfl⟩
    · rw [if_neg hplaying]
      exact ⟨rfl, rfl⟩

end Contribution

/-! ## Gains that are percents -/

/-- Volumes for some percents, which may be any. -/
def PeerGains.ofPcts (pcts : Table String ℕ) : PeerGains :=
  ⟨pcts.filterMap fun pct => some (pct / 100)⟩

namespace PeerGains

theorem get_ofPcts (pcts : Table String ℕ) (name : String) :
    (ofPcts pcts).get name = ((pcts.lookup name).getD 100 : ℕ) / 100 := by
  unfold get ofPcts
  dsimp only
  rw [Table.lookup_filterMap]
  cases pcts.lookup name with
  | none => norm_num
  | some pct => rfl

/-- The volumes that there can be are of this kind. -/
theorem FromPct.eq_ofPcts {gains : PeerGains} (h : gains.FromPct) (name : String) :
    gains.get name = (ofPcts gains.pctMap).get name := by
  rw [get_ofPcts, pctMap, Table.lookup_filterMap]
  unfold get
  cases hl : gains.map.lookup name with
  | none => norm_num
  | some gain =>
    obtain ⟨-, pct, rfl⟩ := h name gain hl
    show pctToGain pct = (gainToPct (pctToGain pct) : ℚ) / 100
    rw [gainToPct_pctToGain, pctToGain_eq]

end PeerGains

/-- The only percent that is skipped as unity is a hundred. -/
theorem abs_percent_sub_one_lt_iff (pct : ℕ) :
    |(pct : ℚ) / 100 - 1| < 1.1920929e-7 ↔ pct = 100 := by
  constructor
  · intro h
    rw [abs_lt] at h
    have hlow : (99 : ℚ) < pct := by
      have := h.1
      norm_num at this
      linarith
    have hhigh : (pct : ℚ) < 101 := by
      have := h.2
      norm_num at this
      linarith
    have hlow' : 99 < pct := by exact_mod_cast hlow
    have hhigh' : pct < 101 := by exact_mod_cast hhigh
    omega
  · rintro rfl
    norm_num

/-! ## The sum -/

theorem sum_append_singleton (f : String → ℚ) (through : List String) (name : String) :
    ((through ++ [name]).map f).sum = (through.map f).sum + f name := by
  rw [List.map_append, List.sum_append, List.map_singleton, List.sum_singleton]

section Sum

variable [Curves] {D : Type} (opus : OpusDecoder ℚ D) (e : Engine ℚ D) (now pull : ℕ)

/-- What a sender contributes to the next frame. -/
def Engine.contribution (name : String) : Option (Frame ℚ) :=
  (e.streams.lookup name).bind fun s => s.contribution opus now pull

/-- A sample of that, which is nothing where it contributes nothing. -/
def Engine.sample (name : String) (i : ℕ) : ℚ :=
  match e.contribution opus now pull name with
  | none => 0
  | some frame => frame.toList.getD i 0

theorem length_mixIn (first : Bool) (gain : ℚ) {frame out : List ℚ}
    (hlen : frame.length = out.length) : (mixIn first gain frame out).length = out.length := by
  unfold mixIn
  dsimp only
  split <;> simp only [hlen, List.length_map, List.length_zipWith, min_self]

/-- All four ways into the mix add the stream's sample, times its gain, to what is there of this
frame. -/
theorem getElem?_mixIn (first : Bool) (pct : ℕ) {frame out : List ℚ} {i : ℕ}
    (hlen : frame.length = out.length) (hi : i < out.length) :
    (mixIn first (pct / 100 : ℚ) frame out)[i]? =
      some ((if first then 0 else out.getD i 0) + pct / 100 * frame.getD i 0) := by
  have hframe : frame[i]? = some (frame.getD i 0) := by
    rw [List.getD_eq_getElem?_getD, List.getElem?_eq_getElem (hlen ▸ hi), Option.getD_some]
  have hout : out[i]? = some (out.getD i 0) := by
    rw [List.getD_eq_getElem?_getD, List.getElem?_eq_getElem hi, Option.getD_some]
  have hunity : decide (F32.abs ((pct / 100 : ℚ) - 1) < 1.1920929e-7) = decide (pct = 100) :=
    decide_eq_decide.2 (abs_percent_sub_one_lt_iff pct)
  unfold mixIn
  rw [hunity]
  by_cases hpct : pct = 100
  · have hone : ((pct : ℕ) : ℚ) / 100 = 1 := by
      rw [hpct]
      norm_num
    rw [hone, one_mul, decide_eq_true hpct]
    cases first with
    | true => simp only [hframe, if_true, zero_add]
    | false => simp only [List.getElem?_zipWith, hframe, hout, Bool.false_eq_true, if_false]
  · rw [decide_eq_false hpct]
    cases first with
    | true => simp only [List.getElem?_map, hframe, Option.map_some, if_true, zero_add, mul_comm]
    | false =>
      simp only [List.getElem?_zipWith, hframe, hout, Bool.false_eq_true, if_false, mul_comm]

/-- A mix of a frame of `n` samples that is what the senders that are through have added up to, over
the buffer that there was. -/
structure Mixing.Sums (pcts : Table String ℕ) (out : List ℚ) (n : ℕ) (through : List String)
    (m : Mixing ℚ D) : Prop where
  waiting : ∀ name ∉ through, m.streams.lookup name = e.streams.lookup name
  length : m.out.length = out.length
  rest : m.out.drop n = out.drop n
  quiet : m.contributors = 0 ↔ ∀ name ∈ through, e.contribution opus now pull name = none
  kept : m.contributors = 0 → m.out = out
  sum : m.contributors ≠ 0 → ∀ i < n, m.out[i]? = some (through.map fun name =>
    (PeerGains.ofPcts pcts).get name * e.sample opus now pull name i).sum

variable {pcts : Table String ℕ} {out : List ℚ} {n : ℕ} {through : List String} {m : Mixing ℚ D}
  {name : String}

/-- A sender that contributes nothing adds nothing. -/
theorem Mixing.Sums.pass (h : m.Sums opus e now pull pcts out n through)
    (hnone : e.contribution opus now pull name = none) {m' : Mixing ℚ D}
    (hwaiting : ∀ a ≠ name, m'.streams.lookup a = m.streams.lookup a)
    (hout : m'.out = m.out) (hcount : m'.contributors = m.contributors) :
    m'.Sums opus e now pull pcts out n (through ++ [name]) where
  waiting := by
    intro a ha
    rw [List.mem_append, not_or, List.mem_singleton] at ha
    rw [hwaiting a ha.2]
    exact h.waiting a ha.1
  length := hout ▸ h.length
  rest := hout ▸ h.rest
  quiet := by
    rw [hcount, h.quiet]
    simp only [List.mem_append, List.mem_singleton, or_imp, forall_and, forall_eq, hnone, and_true]
  kept := by
    rw [hcount, hout]
    exact h.kept
  sum := by
    intro hne i hi
    rw [hcount] at hne
    have hzero : e.sample opus now pull name i = 0 := by
      unfold Engine.sample
      rw [hnone]
    rw [hout, sum_append_singleton, hzero, mul_zero, add_zero]
    exact h.sum hne i hi

/-- What there is of this frame already is the sum so far, and nothing before the first stream. -/
theorem Mixing.Sums.soFar (h : m.Sums opus e now pull pcts out n through) {i : ℕ} (hi : i < n) :
    (if m.contributors == 0 then 0 else (m.out.take n).getD i 0) = (through.map fun name =>
      (PeerGains.ofPcts pcts).get name * e.sample opus now pull name i).sum := by
  by_cases hzero : m.contributors = 0
  · rw [if_pos (beq_iff_eq.2 hzero)]
    symm
    apply List.sum_eq_zero
    intro x hx
    obtain ⟨name', hname', rfl⟩ := List.mem_map.1 hx
    unfold Engine.sample
    rw [h.quiet.1 hzero name' hname', mul_zero]
  · rw [if_neg (by simpa using hzero), List.getD_eq_getElem?_getD, List.getElem?_take_of_lt hi,
      h.sum hzero i hi, Option.getD_some]

/-- A sender that contributes a frame adds it. -/
theorem Mixing.Sums.add (h : m.Sums opus e now pull pcts out n through)
    (hn : n ≤ Config.frameSize) (hlen : n ≤ out.length) {frame : Frame ℚ}
    (hframe : e.contribution opus now pull name = some frame) {m' : Mixing ℚ D}
    (hwaiting : ∀ a ≠ name, m'.streams.lookup a = m.streams.lookup a)
    (hout : m'.out = mixIn (m.contributors == 0) ((PeerGains.ofPcts pcts).get name)
      (frame.toList.take n) (m.out.take n) ++ m.out.drop n)
    (hcount : m'.contributors = m.contributors + 1) :
    m'.Sums opus e now pull pcts out n (through ++ [name]) := by
  have htake : (m.out.take n).length = n := by
    rw [List.length_take, h.length, Nat.min_eq_left hlen]
  have hframeLen : (frame.toList.take n).length = (m.out.take n).length := by
    rw [htake, List.length_take, Vector.length_toList, Nat.min_eq_left hn]
  have hmixed := (length_mixIn (m.contributors == 0) ((PeerGains.ofPcts pcts).get name)
    hframeLen).trans htake
  refine ⟨fun a ha => ?_, ?_, ?_, ?_, ?_, fun _ i hi => ?_⟩
  · rw [List.mem_append, not_or, List.mem_singleton] at ha
    rw [hwaiting a ha.2]
    exact h.waiting a ha.1
  · rw [hout, List.length_append, hmixed, List.length_drop, h.length]
    omega
  · rw [hout, ← h.rest]
    exact List.drop_left' hmixed
  · refine iff_of_false (by omega) fun hall => ?_
    have hnone := hall name (List.mem_append_right _ (List.mem_singleton_self name))
    rw [hframe] at hnone
    cases hnone
  · intro hzero
    omega
  · have hi' : i < (m.out.take n).length := htake.symm ▸ hi
    have hsample : e.sample opus now pull name i = frame.toList.getD i 0 := by
      unfold Engine.sample
      rw [hframe]
    rw [hout, List.getElem?_append_left (hmixed.symm ▸ hi), PeerGains.get_ofPcts,
      getElem?_mixIn _ _ hframeLen hi', h.soFar opus e now pull hi, sum_append_singleton, hsample,
      PeerGains.get_ofPcts]
    simp only [List.getD_eq_getElem?_getD, List.getElem?_take_of_lt hi]

/-- One turn of the loop. -/
theorem Mixing.Sums.renderOne (h : m.Sums opus e now pull pcts out n through)
    (hn : n ≤ Config.frameSize) (hlen : n ≤ out.length) (hname : name ∉ through) :
    (m.renderOne opus now pull n (PeerGains.ofPcts pcts).get name).Sums opus e now pull pcts out n
      (through ++ [name]) := by
  have hothers : ∀ a ≠ name,
      (m.renderOne opus now pull n (PeerGains.ofPcts pcts).get name).streams.lookup a =
        m.streams.lookup a :=
    fun a ha => (renderOne_of_ne opus now pull n _ ha.symm).1
  cases hs : m.streams.lookup name with
  | none =>
    have hnone : e.contribution opus now pull name = none := by
      unfold Engine.contribution
      rw [← h.waiting name hname, hs]
      rfl
    rw [renderOne_of_none opus now pull n _ hs]
    exact h.pass opus e now pull hnone (fun _ _ => rfl) rfl rfl
  | some s =>
    have hcontribution : e.contribution opus now pull name = s.contribution opus now pull := by
      unfold Engine.contribution
      rw [← h.waiting name hname, hs]
      rfl
    have hmix := renderOne_mix opus now pull n (PeerGains.ofPcts pcts).get hs
    rw [← hcontribution] at hmix
    cases hframe : e.contribution opus now pull name with
    | none =>
      rw [hframe] at hmix
      exact h.pass opus e now pull hframe hothers hmix.1 hmix.2
    | some frame =>
      rw [hframe] at hmix
      exact h.add opus e now pull hn hlen hframe hothers hmix.1 hmix.2

/-- All turns of the loop. -/
theorem Mixing.Sums.renderAll (hn : n ≤ Config.frameSize) (hlen : n ≤ out.length)
    {names : List String} (hnodup : (through ++ names).Nodup)
    (h : m.Sums opus e now pull pcts out n through) :
    (names.foldl (Mixing.renderOne opus now pull n (PeerGains.ofPcts pcts).get) m).Sums
      opus e now pull pcts out n (through ++ names) := by
  induction names generalizing through m with
  | nil => rwa [List.append_nil]
  | cons name names ih =>
    have hsplit : through ++ name :: names = (through ++ [name]) ++ names := by
      rw [List.append_assoc, List.singleton_append]
    have hname : name ∉ through := fun hmem =>
      (List.disjoint_of_nodup_append hnodup) hmem List.mem_cons_self
    rw [hsplit] at hnodup ⊢
    exact ih hnodup (h.renderOne opus e now pull hn hlen hname)

/-- **A frame is the sum of what the streams contribute**: for any streams, order of the table,
percents and contents of the buffer, there is no frame exactly if no stream contributes, and
then the buffer is as it was; otherwise every sample of the frame is the sum of those of the
streams, each times its gain, and what is behind the frame is as it was. -/
theorem renderFrame_eq_sum (order : HashOrder String) (pcts : Table String ℕ) (out : List ℚ) :
    let answer := e.renderFrame opus now pull order (PeerGains.ofPcts pcts).get out
    let n := min Config.frameSize out.length
    (answer.2.1 = none ↔ ∀ name, e.contribution opus now pull name = none) ∧
      (answer.2.1 = none → answer.2.2.1 = out) ∧
      (answer.2.1 ≠ none → answer.2.1 = some n ∧ answer.2.2.1.drop n = out.drop n ∧
        ∀ i < n, answer.2.2.1[i]? = some (∑ name ∈ e.streams.keys,
          (PeerGains.ofPcts pcts).get name * e.sample opus now pull name i)) := by
  intro answer n
  have hstart : (⟨e.streams, e.scratch, out, 0, false, []⟩ : Mixing ℚ D).Sums
      opus e now pull pcts out n [] :=
    ⟨fun _ _ => rfl, rfl, rfl, iff_of_true rfl nofun, fun _ => rfl, fun h => absurd rfl h⟩
  have hnodup : ([] ++ order.toList e.streams.keys.val).Nodup :=
    (order.nodup_toList).2 e.streams.keys.nodup
  have hmix : (e.mix opus now pull order (PeerGains.ofPcts pcts).get out).Sums
      opus e now pull pcts out n (order.toList e.streams.keys.val) :=
    hstart.renderAll opus e now pull (min_le_left _ _) (min_le_right _ _) hnodup
  have hanswer : answer.2.1 = if (e.mix opus now pull order (PeerGains.ofPcts pcts).get
      out).contributors = 0 then none else some n := rfl
  have hnone : answer.2.1 = none ↔
      (e.mix opus now pull order (PeerGains.ofPcts pcts).get out).contributors = 0 := by
    rw [hanswer]
    split <;> rename_i hzero
    · exact iff_of_true rfl hzero
    · exact iff_of_false nofun hzero
  refine ⟨hnone.trans (hmix.quiet.trans ?_), fun h => hmix.kept (hnone.1 h), fun h => ?_⟩
  · refine ⟨fun hall name => ?_, fun hall name _ => hall name⟩
    by_cases hname : name ∈ e.streams.keys
    · exact hall name ((order.mem_toList _ _).2 hname)
    · unfold Engine.contribution
      rw [Finmap.lookup_eq_none.2 fun hmem => hname (Finmap.mem_keys.2 hmem)]
      rfl
  · have hne := mt hnone.2 h
    refine ⟨hanswer.trans (if_neg hne), hmix.rest, fun i hi => ?_⟩
    have hsum : ((order.toList e.streams.keys.val).map fun name =>
        (PeerGains.ofPcts pcts).get name * e.sample opus now pull name i).sum =
        ∑ name ∈ e.streams.keys,
          (PeerGains.ofPcts pcts).get name * e.sample opus now pull name i := by
      rw [← Multiset.sum_coe, ← Multiset.map_coe, order.coe_toList]
      rfl
    rw [← hsum]
    exact hmix.sum hne i hi

end Sum

end Client
end TcVoice
