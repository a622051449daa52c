import Mathlib.Tactic.Linarith
import Mathlib.Algebra.Order.Field.Basic
import Mathlib.Algebra.Order.Floor.Ring
import Mathlib.Data.Rat.Floor
import TcVoice.Client.Settings

/-!
# Volumes as percents

What is saved of the volumes of the others, and shown of them: `pct_map` of
`crates/client/src/peer_gain.rs`.

* `PeerGains.pctMap` — a percent for every gain.
* `PeerGains.FromPct` — every gain came from a percent, as it does after any calls.
* `PeerGains.lookup_setAllFromPct_pctMap` — **nothing is lost that came from percents**.
* `PeerGains.gainToPct32_pctToGain32` — nor would it be if gains were not exact.
-/

namespace TcVoice
namespace Client
namespace PeerGains

open Table

/-- `gain_to_pct`. -/
def gainToPct (gain : ℚ) : ℕ := ⌊gain * 100 + 1 / 2⌋.toNat

/-- `pct_map`. -/
def pctMap (gains : PeerGains) : Table String ℕ :=
  gains.map.filterMap fun gain => some (gainToPct gain)

theorem pctToGain_eq (pct : ℕ) : pctToGain pct = (min pct Config.peerVolMaxPct : ℕ) / 100 := by
  have hle : ((min pct Config.peerVolMaxPct : ℕ) : ℚ) ≤ (Config.peerVolMaxPct : ℕ) :=
    Nat.cast_le.2 (min_le_right _ _)
  have hnonneg : (0 : ℚ) ≤ (min pct Config.peerVolMaxPct : ℕ) := Nat.cast_nonneg _
  unfold pctToGain maxGain
  rw [min_eq_left (by linarith), max_eq_right (by linarith)]

theorem gainToPct_pctToGain (pct : ℕ) :
    gainToPct (pctToGain pct) = min pct Config.peerVolMaxPct := by
  have hround (n : ℕ) : ⌊(n : ℚ) / 100 * 100 + 1 / 2⌋ = n := by
    rw [div_mul_cancel₀ _ (by norm_num), Int.floor_eq_iff]
    constructor
    · push_cast
      linarith
    · push_cast
      linarith
  rw [gainToPct, pctToGain_eq, hround, Int.toNat_natCast]

/-- Every volume came from a percent, and is not the one that is left out. -/
def FromPct (gains : PeerGains) : Prop :=
  ∀ name gain, gains.map.lookup name = some gain →
    isUnity gain = false ∧ ∃ pct, gain = pctToGain pct

theorem lookup_setAllFromPct (pcts : Table String ℕ) (name : String) :
    (setAllFromPct pcts).map.lookup name = (pcts.lookup name).bind fun pct =>
      if isUnity (pctToGain pct) then none else some (pctToGain pct) :=
  lookup_filterMap _ _ _

theorem fromPct_setAllFromPct (pcts : Table String ℕ) : (setAllFromPct pcts).FromPct := by
  intro name gain hl
  rw [lookup_setAllFromPct] at hl
  obtain ⟨pct, -, hgain⟩ := Option.bind_eq_some_iff.1 hl
  split at hgain
  · cases hgain
  · rename_i hunity
    cases hgain
    exact ⟨by simpa using hunity, pct, rfl⟩

variable {gains : PeerGains}

theorem FromPct.setPct (h : gains.FromPct) (name : String) (pct : ℕ) :
    (gains.setPct name pct).FromPct := by
  intro other gain hl
  unfold PeerGains.setPct at hl
  dsimp only at hl
  split at hl
  · rw [lookup_erase_if] at hl
    split at hl
    · cases hl
    · exact h other gain hl
  · rename_i hunity
    rw [lookup_insert_if] at hl
    split at hl
    · cases hl
      exact ⟨by simpa using hunity, pct, rfl⟩
    · exact h other gain hl

theorem FromPct.rename (h : gains.FromPct) (old new : String) : (gains.rename old new).FromPct := by
  unfold PeerGains.rename
  cases hold : gains.map.lookup old with
  | none => exact h
  | some moved =>
    intro other gain hl
    dsimp only at hl
    rw [lookup_insert_if, lookup_erase_if] at hl
    split at hl
    · cases hl
      exact h old moved hold
    · split at hl
      · cases hl
      · exact h other gain hl

/-- **Volumes that came from percents** are found again in what is saved of them. -/
theorem lookup_setAllFromPct_pctMap (h : gains.FromPct) (name : String) :
    (setAllFromPct gains.pctMap).map.lookup name = gains.map.lookup name := by
  rw [lookup_setAllFromPct, pctMap, lookup_filterMap]
  cases hl : gains.map.lookup name with
  | none => rfl
  | some gain =>
    obtain ⟨hunity, pct, rfl⟩ := h name gain hl
    have hback : pctToGain (gainToPct (pctToGain pct)) = pctToGain pct := by
      rw [gainToPct_pctToGain, pctToGain_eq, pctToGain_eq, min_assoc, min_self]
    simp [hback, hunity]

/-- So the percents are those that were saved. -/
theorem FromPct.pctMap_setAllFromPct (h : gains.FromPct) :
    (setAllFromPct gains.pctMap).pctMap = gains.pctMap := by
  refine Finmap.ext_lookup fun name => ?_
  unfold pctMap
  rw [lookup_filterMap, lookup_filterMap]
  exact congrArg (Option.bind · _) (lookup_setAllFromPct_pctMap h name)

theorem get_setAllFromPct_pctMap (h : gains.FromPct) (name : String) :
    (setAllFromPct gains.pctMap).get name = gains.get name := by
  unfold get
  rw [lookup_setAllFromPct_pctMap h]

/-! ## In the numbers of the code -/

/-- `pct_to_gain` in `f32`. -/
def pctToGain32 (pct : ℕ) : Float32 := .ofNat (min pct Config.peerVolMaxPct) / 100.0

/-- `gain_to_pct` in `f32`, with `round` by the whole part. -/
def gainToPct32 (gain : Float32) : ℕ :=
  let n := (gain * 100.0).toUInt32
  if 0.5 ≤ gain * 100.0 - n.toFloat32 then n.toNat + 1 else n.toNat

/-- `f32` gives the percents back that exact gains do. -/
theorem gainToPct32_pctToGain32 :
    ∀ pct ≤ Config.peerVolMaxPct, gainToPct32 (pctToGain32 pct) = gainToPct (pctToGain pct) := by
  have hback : ∀ pct < Config.peerVolMaxPct + 1, gainToPct32 (pctToGain32 pct) = pct := by
    decide +kernel
  intro pct hpct
  rw [hback pct (Nat.lt_succ_of_le hpct), gainToPct_pctToGain, min_eq_left hpct]

end PeerGains
end Client
end TcVoice
