import TcVoice.Lib.Table
import TcVoice.Lib.Runs
import TcVoice.Lib.Presence
import TcVoice.Lib.Ledger
import TcVoice.Shared.Config
import TcVoice.Shared.Protocol
import TcVoice.Shared.Framing
import TcVoice.Shared.Reading
import TcVoice.Shared.ChannelName
import TcVoice.Shared.VoicePacket
import TcVoice.Shared.Bincode
import TcVoice.Shared.Invite
import TcVoice.Server.State
import TcVoice.Server.Laws
import TcVoice.Server.Registry
import TcVoice.Server.Membership
import TcVoice.Server.Tokens
import TcVoice.Server.PeerCache
import TcVoice.Server.Participants
import TcVoice.Server.History
import TcVoice.Server.VoiceKeys
import TcVoice.Server.PubkeyIndex
import TcVoice.Server.Coherence
import TcVoice.Server.CacheEntries
import TcVoice.Server.Hello
import TcVoice.Server.Tcp
import TcVoice.Server.Interleaving
import TcVoice.Server.PublicList
import TcVoice.Server.Bounds
import TcVoice.Server.BatchSender
import TcVoice.Server.Relay
import TcVoice.Server.PublicIds
import TcVoice.Server.EchoTest
import TcVoice.Server.FrameSizes
import TcVoice.Client.Roster
import TcVoice.Client.Tofu
import TcVoice.Server.Announcements
import TcVoice.Server.Rosters
import TcVoice.Client.Packet
import TcVoice.Lib.Machines
import TcVoice.Lib.Ring
import TcVoice.Client.Capture
import TcVoice.Client.Privacy
import TcVoice.Client.Talkspurt
import TcVoice.Client.Preroll
import TcVoice.Client.Downmix
import TcVoice.Client.Jitter
import TcVoice.Client.JitterOrder
import TcVoice.Client.JitterPush
import TcVoice.Client.Frames
import TcVoice.Client.Accounting
import TcVoice.Client.Underrun
import TcVoice.Client.Acceleration
import TcVoice.Client.Onset
import TcVoice.Client.PeerVolume
import TcVoice.Client.Playout
import TcVoice.Client.Alike
import TcVoice.Client.Isolation
import TcVoice.Server.AfterLeaving
import TcVoice.Client.Numbering
import TcVoice.Client.Latency
import TcVoice.Client.LiveVoice
import TcVoice.Client.Conservation
import TcVoice.Client.Mixing
import TcVoice.Client.PumpBounds
import TcVoice.Client.Ramps
import TcVoice.Lib.BoundedQueue
import TcVoice.Client.Disconnect
import TcVoice.Client.Backpressure
import TcVoice.Client.Settings
import TcVoice.Client.Percents
import TcVoice.Desktop.State
import TcVoice.Desktop.Commands
import TcVoice.Desktop.Mute
import TcVoice.Desktop.Hotkeys
import TcVoice.Desktop.VoiceActor
import TcVoice.Desktop.Devices
import TcVoice.Desktop.HotPlug
import TcVoice.Desktop.HangUp
import TcVoice.Desktop.Lifetime
import TcVoice.Desktop.History
import TcVoice.Desktop.Backup
import TcVoice.Client.LiveLevels
import TcVoice.Desktop.FastLevels
import TcVoice.Lib.Newest
import TcVoice.Desktop.Score
import TcVoice.Desktop.ScoreWindow
import TcVoice.Desktop.ScoreRename
import TcVoice.Desktop.Lyrics
import TcVoice.Server.RateLimit
import TcVoice.Server.Admission
import TcVoice.Server.CommandBudget
import TcVoice.Server.IdleSweep
import TcVoice.Terminal.State
import TcVoice.Terminal.SettingsFile
import TcVoice.Server.Reach
import TcVoice.Server.OwnRoom
import TcVoice.Server.Metrics
import TcVoice.Link.Registration
import TcVoice.Lib.Mirror
import TcVoice.Desktop.Window
import TcVoice.Desktop.WindowSync
import TcVoice.Client.FullScale
import TcVoice.Client.EncoderMode
import TcVoice.Client.Speakers
import TcVoice.Desktop.Invites
import TcVoice.Desktop.SingleLine
import TcVoice.Terminal.InputLine
import TcVoice.Link.VoicePath
import TcVoice.Desktop.Threads
import TcVoice.Client.Rejoin
import TcVoice.Lib.Blocks
import TcVoice.Client.Microphone
import TcVoice.Desktop.LevelPump
