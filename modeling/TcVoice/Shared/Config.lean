import Mathlib.Data.Nat.Notation

/-!
# Tunable parameters

The constants of `crates/shared/src/config.rs` that the modelled functions read.
-/

namespace TcVoice
namespace Config

/-- Protocol version. -/
def protocolVersion : ℕ := 3

/-- The version in `Cargo.toml`. -/
def packageVersion : String := "1.20.0"

/-- Default TCP port for the control channel. -/
def tcpPort : ℕ := 7100

/-- Max TCP frame payload in bytes; larger frames are rejected. -/
def maxFrameSize : ℕ := 65536

/-- Size of one read from a TCP connection. -/
def tcpReadBuf : ℕ := 8192

/-- Max bytes pending in a reader's buffer before it disconnects. -/
def maxPendingBuf : ℕ := 2 * maxFrameSize

/-- Interval between TCP heartbeat pings, in seconds. -/
def heartbeatIntervalSecs : ℕ := 10

/-- Max UDP packet size in bytes. -/
def maxUdpPacket : ℕ := 1500

/-- UDP hellos of the handshake before it gives up. -/
def udpHelloRetries : ℕ := 3

/-- Wait for the answer to one of them, in milliseconds. -/
def udpHelloIntervalMs : ℕ := 200

/-- Delays between the hellos after the handshake, in milliseconds. -/
def udpRehelloBaseMs : ℕ := 1000
def udpRehelloMaxMs : ℕ := 5000

/-- Idle time after which the send task says hello again, in seconds. -/
def udpKeepaliveIntervalSecs : ℕ := 20

/-- Max chat message length in bytes. -/
def maxChatLen : ℕ := 2048

/-- Messages kept in the history of the terminal client. -/
def maxMessageHistory : ℕ := 500

/-- Max display name length in bytes. -/
def maxNameLen : ℕ := 32

/-- Length of generated channel ids. -/
def channelIdLen : ℕ := 5

/-- Prefix of public (named) channels. -/
def publicChannelPrefix : String := "pub-"

/-- Max length of a public channel name, without the prefix. -/
def maxChannelNameLen : ℕ := 20

/-- Prefix of ephemeral echo-test channels. -/
def echoChannelPrefix : String := "echo-"

/-- Interval between maintenance sweeps, in seconds. -/
def maintenanceIntervalSecs : ℕ := 30

/-- Time to live of orphaned UDP hello tokens, in seconds. -/
def udpTokenTtlSecs : ℕ := 30

/-- Length of a channel's voice key in bytes. -/
def voiceKeyLen : ℕ := 32

/-- Duration of a sound check in seconds. -/
def echoTestDurationSecs : ℕ := 5

/-- Commands per second of one client, and at once. -/
def rateLimitCmdPerSec {N : Type} [OfScientific N] : N := 10.0
def rateLimitCmdBurst {N : Type} [OfScientific N] : N := 20.0

/-- Channel creations per second of one client, and at once. -/
def rateLimitCreatePerSec {N : Type} [OfScientific N] : N := 0.1
def rateLimitCreateBurst {N : Type} [OfScientific N] : N := 3.0

/-- Commands per second from one IP address, and at once. -/
def rateLimitIpCmdPerSec {N : Type} [OfScientific N] : N := 30.0
def rateLimitIpCmdBurst {N : Type} [OfScientific N] : N := 60.0

/-- Opus frame size: 20 ms at 48 kHz mono. -/
def frameSize : ℕ := 960

/-- Jitter ring capacity per sender, in packets. -/
def jitterBufMax : ℕ := 15

/-- Consecutive packets beyond the ring that make the jitter buffer resync. -/
def jitterResyncAfter : ℕ := 3

/-- Sample rate in hertz. -/
def sampleRate : ℕ := 48000

/-- Length of a crossfade in milliseconds. -/
def playbackFadeMs : ℕ := 5

/-- Cap of the output callback's queue, in samples. -/
def playbackSafetyCap : ℕ := frameSize * 15

/-- What playout keeps the output above, in samples. -/
def playoutOutputLowWater : ℕ := 2 * frameSize

/-- Buffered depth that playout aims at, in frames. -/
def playoutTargetMinFrames : ℕ := 2
def playoutTargetMaxFrames : ℕ := 10

/-- Concealed frames in an underrun before a sender goes idle. -/
def playoutHoldFrames : ℕ := 3

/-- Window over which the smallest depth is taken, in frames, and how many must be in it. -/
def playoutAccelWindowFrames : ℕ := 50
def playoutAccelMinObserved : ℕ := 10

/-- Excess over the target that forces an acceleration, in frames. -/
def playoutAccelForceExcess : ℕ := 3

/-- Receive streams at a time, one per sender. -/
def maxSenderStreams : ℕ := 16

/-- Time after which a receive stream without a packet is dropped, in seconds. -/
def senderStreamTtlSecs : ℕ := 10

/-- Frames to keep sending after the last loud one. -/
def vadHangoverFrames : ℕ := 10

/-- Frames of gated audio kept and flushed when the gate opens. -/
def vadPrerollFrames : ℕ := 5

theorem vadPrerollFrames_pos : 0 < vadPrerollFrames := by decide

/-- Measurement window size in packets. -/
def statsWindowPackets : ℕ := 150

/-- Measured loss from which a quality tier is used, in percent. -/
def lossThreshMedium : ℕ := 5
def lossThreshLow : ℕ := 15
def lossThreshMinimum : ℕ := 30

/-- Bitrates per quality tier, in bits per second. -/
def bitrateHigh : ℕ := 64000
def bitrateMedium : ℕ := 40000
def bitrateLow : ℕ := 24000
def bitrateMinimum : ℕ := 12000

/-- Encoder complexity per quality tier. -/
def complexityHigh : ℕ := 10
def complexityMedium : ℕ := 7
def complexityLow : ℕ := 5
def complexityMinimum : ℕ := 3

/-- Floor for the packet-loss hint, in percent. -/
def fecMinLossPerc : ℕ := 5

/-- Max playback volume of one peer, in percent. -/
def peerVolMaxPct : ℕ := 200

/-- Minimum interval between automatic restarts of the voice pipeline, in milliseconds. -/
def voiceRestartMinIntervalMs : ℕ := 2000

/-- How often the supervisor polls the audio devices, in milliseconds. -/
def devicePollIntervalMs : ℕ := 2000

/-- How long everything is silent before the fast level lane goes quiet, in milliseconds. -/
def fastLevelSilenceMs : ℕ := 300

/-- Size of an XChaCha20 nonce in bytes. -/
def xchacha20NonceSize : ℕ := 24

/-- Size of a Poly1305 tag in bytes. -/
def poly1305TagSize : ℕ := 16

end Config
end TcVoice
