import Elocution.Text.Blank
import Elocution.Text.Alphanumeric
import Elocution.Text.Punctuation
import Elocution.Text.Numeral
import Elocution.Single.Basic
import Elocution.Single.PowerOfTwo
import Elocution.Pause
import Elocution.Clause
import Elocution.Command
import Elocution.Block
import Elocution.Error
import Elocution.Prosody
import Elocution.Frame.Basic
import Elocution.Frame.Shaper
import Elocution.Frame.Queue
import Elocution.Voice.Table
import Elocution.Voice.Letters
import Elocution.Settings.Basic
import Elocution.Settings.Registry
import Elocution.Output.FadeIn
import Elocution.Output.Wave
import Elocution.Output.Capture
import Elocution.Output.Slot
import Elocution.Output.Resampler
import Elocution.Output.Playout
import Elocution.Speech.Jobs
import Elocution.Speech.Rig
import Elocution.Speech.Session.Basic
import Elocution.Speech.Session.Host
import Elocution.Speech.Session.Synthesis
import Elocution.Speech.Session.Playback
import Elocution.Frame.Remaining
import Elocution.Speech.Session.Advance
import Elocution.Speech.Session.Rehearsal
import Elocution.Output.Card
import Elocution.Output.Stream
import Elocution.Output.Filter
import Elocution.Output.OpenCard
import Elocution.Config.Toml.Table
import Elocution.Config.Toml.Text
import Elocution.Config.Toml.Number
import Elocution.Config.Toml.Document
import Elocution.Config.File
import Elocution.Config.Basic
import Elocution.Text.Places
import Elocution.Text.Visible
import Elocution.CommandLine.Argument
import Elocution.CommandLine.Usage
import Elocution.CommandLine.Invocation
import Elocution.CommandLine.Recital
import Elocution.CommandLine.Run
import Elocution.Main
import Elocution.Speech.Session.Run
import Elocution.Proofs.Frame.Rendering
import Elocution.Proofs.Session.Cancellation
import Elocution.Proofs.Frame.Shaping
import Elocution.Proofs.Session.Accounts
import Elocution.Proofs.Session.Aftermath
import Elocution.Proofs.Session.Completion
import Elocution.Proofs.Session.Delivery
import Elocution.Proofs.Session.Notification
import Elocution.Proofs.Frame.Likeness
import Elocution.Proofs.Session.Following
import Elocution.Proofs.Session.Renewal
import Elocution.Proofs.Voice.Spelling
import Elocution.Proofs.Session.Spelling
import Elocution.Proofs.Session.Patience
import Elocution.Proofs.Session.Intrusion
import Elocution.Proofs.Block.Placement
import Elocution.Proofs.Clause.Cuts
import Elocution.Proofs.Frame.Yield
import Elocution.Proofs.Frame.Schedule
import Elocution.Proofs.Frame.Retouching
import Elocution.Proofs.Frame.Leading
import Elocution.Proofs.Output.Succession
import Elocution.Proofs.Output.Retrial
import Elocution.Proofs.Session.Onset
import Elocution.Proofs.Session.Fading
import Elocution.Proofs.Frame.Utterance
import Elocution.Proofs.Frame.Accounting
import Elocution.Proofs.Session.Utterance
import Elocution.Proofs.Session.Grain
import Elocution.Proofs.Output.Conversion
import Elocution.Proofs.Output.Flushing
import Elocution.Proofs.Output.Release
import Elocution.Proofs.Output.Playing
import Elocution.Proofs.Output.Running
import Elocution.Proofs.Output.Filtering
import Elocution.Proofs.Output.Reopening
import Elocution.Proofs.Settings.Editing
import Elocution.Proofs.Clause.Endings
import Elocution.Proofs.Clause.Joining
import Elocution.Proofs.Block.Idempotence
import Elocution.Proofs.Block.Coalescence
import Elocution.Proofs.Config.Layers
import Elocution.Proofs.Settings.Typing
import Elocution.Proofs.Output.Listening
import Elocution.Proofs.Frame.Lasting
import Elocution.Proofs.Session.Frames
import Elocution.Proofs.Clause.Lengths
import Elocution.Proofs.Voice.Pace
import Elocution.Proofs.Session.Duration
import Elocution.Proofs.CommandLine.Waiting
import Elocution.Proofs.Jobs.Fates
import Elocution.Proofs.Clause.Squeezing
