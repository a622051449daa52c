import TcVoice.Desktop.Commands

/-!
# Muted stays muted

Who writes the `muted` flag that the capture thread reads: the join handler, the mute and
push-to-talk commands, the hotkeys, the tray, and whatever sets the voice mode.

* `CoreEvent.flag` — what an event makes of the flag, and `muted_apply` that it does.
* `MutedUntil` — once muted, the flag stays up until an event that may release it.
* `muted_until` — **muted stays muted until the user unmutes or picks another voice mode than
  push-to-talk**, whatever else happens in between; `mode_opens` is a change of mode, and an
  account imported, that open the microphone in a call.
-/

namespace TcVoice
namespace Desktop

open Client

/-! ## What happens to the flag -/

/-- The voice mode that an event sets, if it sets one. -/
def CoreEvent.setsMode : CoreEvent → Option VoiceMode
  | .command (.setVoiceMode mode) => VoiceMode.parse mode
  | .command (.importSettings (.ok s)) => s.voiceMode.bind VoiceMode.parse
  | _ => none

/-- The events that mute: a channel is joined, or the user asks for it. -/
def CoreEvent.Mutes : CoreEvent → Prop
  | .message (.joinedChannel _ _ _ _) _ => True
  | .command (.setMute muted) => muted = true
  | .command .pttRelease => True
  | .hotkey .ptt .released => True
  | _ => False

/-- The events in which the user unmutes. -/
def CoreEvent.Unmutes : CoreEvent → Prop
  | .command (.setMute muted) => muted = false
  | .command .pttPress => True
  | .hotkey .mute .pressed => True
  | .hotkey .ptt .pressed => True
  | .trayMute => True
  | _ => False

/-- The events that set a voice mode in which the microphone is open. -/
def CoreEvent.OpensMode (e : CoreEvent) : Prop := ∃ mode, e.setsMode = some mode ∧ mode ≠ .ptt

/-- What an event makes of the flag. -/
def CoreEvent.flag (muted : Bool) : CoreEvent → Bool
  | .message (.joinedChannel _ _ _ _) _ => true
  | .command (.setMute muted) => muted
  | .command .pttPress | .hotkey .ptt .pressed => false
  | .command .pttRelease | .hotkey .ptt .released => true
  | .hotkey .mute .pressed | .trayMute => !muted
  | e =>
    match e.setsMode with
    | some mode => decide (mode = .ptt)
    | none => muted

section Flag

variable {c : AppCore}

theorem muted_importLevels (s : UserSettings) : (c.importLevels s).muted =
    match s.voiceMode.bind VoiceMode.parse with
    | some mode => decide (mode = .ptt)
    | none => c.muted := by
  have hlevel : ((s.vadLevel.map c.applyVadLevel).getD c).muted = c.muted := by
    cases s.vadLevel <;> rfl
  unfold AppCore.importLevels
  cases s.voiceMode.bind VoiceMode.parse with
  | some mode => rfl
  | none =>
    simp only [Option.map_none, Option.getD_none]
    cases s.inputGain <;> cases s.outputVol <;> exact hlevel

theorem muted_setVoiceMode (mode : String) : (c.setVoiceMode mode).1.muted =
    match VoiceMode.parse mode with
    | some mode => decide (mode = .ptt)
    | none => c.muted := by
  unfold AppCore.setVoiceMode
  cases VoiceMode.parse mode <;> rfl

/-- **What a command does to the flag.** -/
theorem muted_command (cmd : Command) :
    (c.command cmd).1.muted = CoreEvent.flag c.muted (.command cmd) := by
  cases cmd with
  | setVoiceMode mode => exact muted_setVoiceMode mode
  | importSettings json =>
    cases json with
    | error e => rfl
    | ok s => exact muted_importLevels s
  | setHotkey action accel registered =>
    simp only [AppCore.command, AppCore.setHotkey]
    split
    · rfl
    · split <;> rfl
  | unsetHotkey action parsed =>
    simp only [AppCore.command, AppCore.unsetHotkey]
    split
    · rfl
    · split <;> rfl
  | setAutostart enabled done => cases done <;> rfl
  | setLanguage lang =>
    simp only [AppCore.command]
    split <;> rfl
  | setOverlayPosition position =>
    simp only [AppCore.command]
    split <;> rfl
  | setOverlayVisibility visibility =>
    simp only [AppCore.command]
    split <;> rfl
  | _ => rfl

/-- **What any event does to the flag.** -/
theorem muted_apply (e : CoreEvent) : (c.apply e).muted = e.flag c.muted := by
  cases e with
  | command cmd => exact muted_command cmd
  | hotkey action state => cases action <;> cases state <;> rfl
  | message msg now =>
    cases msg with
    | nameChanged oldName newName =>
      simp only [AppCore.apply, AppCore.handle]
      split <;> rfl
    | _ => rfl
  | _ => rfl

/-- A flag that is up stays up unless the event unmutes or opens the voice mode. -/
theorem flag_true {e : CoreEvent} (hno : ¬ (e.Unmutes ∨ e.OpensMode)) : e.flag true = true := by
  unfold CoreEvent.flag
  split
  · rfl
  · rename_i muted
    cases muted with
    | true => rfl
    | false => exact absurd (.inl rfl) hno
  · exact absurd (.inl trivial) hno
  · exact absurd (.inl trivial) hno
  · rfl
  · rfl
  · exact absurd (.inl trivial) hno
  · exact absurd (.inl trivial) hno
  · cases hmode : e.setsMode with
    | none => rfl
    | some mode =>
      refine decide_eq_true ?_
      by_contra hopen
      exact hno (.inr ⟨mode, hmode, hopen⟩)

theorem flag_of_mutes {e : CoreEvent} (h : e.Mutes) (muted : Bool) : e.flag muted = true := by
  unfold CoreEvent.Mutes at h
  split at h
  · rfl
  · exact h
  · rfl
  · rfl
  · exact h.elim

/-- Muted stays muted, by induction on what happens. -/
theorem muted_run {es : List CoreEvent} (hmuted : c.muted = true)
    (hno : ∀ e ∈ es, ¬ (e.Unmutes ∨ e.OpensMode)) : (c.run es).muted = true := by
  induction es generalizing c with
  | nil => exact hmuted
  | cons e es ih =>
    have hnext : (c.apply e).muted = true := by
      rw [muted_apply, hmuted]
      exact flag_true (hno e List.mem_cons_self)
    exact ih hnext fun e' he' => hno e' (List.mem_cons_of_mem _ he')

end Flag

/-! ## Muted stays muted -/

/-- After any event that mutes, the flag is up until an event that may release it. -/
def MutedUntil (releases : CoreEvent → Prop) (c : AppCore) : Prop :=
  ∀ before e since, e.Mutes → (∀ e' ∈ since, ¬ releases e') →
    (c.run (before ++ e :: since)).muted = true

/-- **Muted stays muted.**  Whatever the settings the application starts from, and whatever
commands, hotkeys and messages come in whatever order: after a channel has been joined, after
`set_mute(true)` and after push-to-talk has been released, the microphone stays muted until the
user unmutes, or a command or a backup sets a voice mode in which the microphone is open. -/
theorem muted_until (saved : UserSettings) (macos : Bool) :
    MutedUntil (fun e => e.Unmutes ∨ e.OpensMode) (.new saved macos) := by
  intro before e since hmutes hno
  have hmuted : (((AppCore.new saved macos).run before).apply e).muted = true := by
    rw [muted_apply]
    exact flag_of_mutes hmutes _
  have hrun : (AppCore.new saved macos).run (before ++ e :: since) =
      (((AppCore.new saved macos).run before).apply e).run since := by
    rw [AppCore.run, List.foldl_append]
    rfl
  rw [hrun]
  exact muted_run hmuted hno

/-- A room is joined. -/
def joined : CoreEvent :=
  .message (.joinedChannel "room" ["user"] 7 (List.replicate Config.voiceKeyLen 0)) 0

/-- A backup of an application in which voice activity opens the microphone. -/
def vadBackup : UserSettings := { UserSettings.default with voiceMode := some "vad" }

/-- **A mode opens the microphone**: a user who has joined a room, and has not unmuted, is heard
after a change of the voice mode, and after an import with the voice mode that was in force. -/
theorem mode_opens :
    ¬ MutedUntil CoreEvent.Unmutes (.new .default false) ∧
      ((AppCore.new .default false).run [joined]).muted = true ∧
      ((AppCore.new .default false).run
        [joined, .command (.setVoiceMode "open")]).muted = false ∧
      ((AppCore.new .default false).run
        [joined, .command (.importSettings (.ok vadBackup))]).muted = false := by
  refine ⟨fun hmuted => ?_, rfl, rfl, rfl⟩
  have hstays := hmuted [] joined [.command (.setVoiceMode "open")] trivial (by
    intro e he hunmutes
    rw [List.mem_singleton.1 he] at hunmutes
    exact hunmutes)
  cases hstays

end Desktop
end TcVoice
