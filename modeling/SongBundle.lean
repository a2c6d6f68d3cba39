import SongBundle.Animation
import SongBundle.Assets.EntryName
import SongBundle.Assets.Store
import SongBundle.Battle.Basic
import SongBundle.Battle.Timeline
import SongBundle.Build.Bundle
import SongBundle.Build.CompiledSong
import SongBundle.Build.Plan
import SongBundle.Command.Arguments
import SongBundle.Command.Run
import SongBundle.Decimal.Binary
import SongBundle.Decimal.Shortest
import SongBundle.Decimal.Style
import SongBundle.Difficulty
import SongBundle.Error
import SongBundle.Event
import SongBundle.Files.Disk
import SongBundle.Files.Path
import SongBundle.Files.Tree
import SongBundle.Graph
import SongBundle.Json.Basic
import SongBundle.Json.Canonical
import SongBundle.Json.Decode
import SongBundle.Json.Fault
import SongBundle.Json.Number
import SongBundle.Json.Reader
import SongBundle.Json.Text
import SongBundle.Json.Token
import SongBundle.Json.Writer
import SongBundle.Library.Basic
import SongBundle.Library.Session
import SongBundle.Main
import SongBundle.MoveName
import SongBundle.Named
import SongBundle.PartyJump
import SongBundle.Pose
import SongBundle.Practice
import SongBundle.Practice.Sequences
import SongBundle.Request
import SongBundle.Song
import SongBundle.Table
import SongBundle.Text.Printable
import SongBundle.Text.Quoted
import SongBundle.Timing.Basic
import SongBundle.Timing.MidiFile
import SongBundle.Timing.Score
import SongBundle.Track
import SongBundle.Word
import SongBundle.Proofs.Sorting
import SongBundle.Proofs.Battle.Nesting
import SongBundle.Proofs.Battle.Tiling
import SongBundle.Proofs.Battle.Playing
import SongBundle.Proofs.Battle.Emission
import SongBundle.Proofs.MoveName
import SongBundle.Proofs.PartyJump
import SongBundle.Proofs.PartyJump.Balance
import SongBundle.Proofs.Table
import SongBundle.Proofs.Library.Session
import SongBundle.Proofs.Practice.Sequences
import SongBundle.Proofs.Practice.Plan
import SongBundle.Proofs.Practice.Chaining
import SongBundle.Proofs.Practice.Namesakes
import SongBundle.Proofs.Practice.Reviews
import SongBundle.Proofs.Practice.Expanding
import SongBundle.Proofs.Practice.Ending
import SongBundle.Proofs.Timing.MidiReader
import SongBundle.Proofs.Timing.Score
import SongBundle.Proofs.Timing.RoundTrip
import SongBundle.Proofs.Timing.Arrangement
import SongBundle.Proofs.Timing.Drums
import SongBundle.Proofs.Track
import SongBundle.Proofs.Track.Filling
import SongBundle.Proofs.Graph
import SongBundle.Proofs.Graph.Adjacency
import SongBundle.Proofs.Graph.Aggregation
import SongBundle.Proofs.Animation
import SongBundle.Proofs.Build.Importing
import SongBundle.Proofs.Library.Calls
import SongBundle.Proofs.Build.Consistency
import SongBundle.Proofs.Build.Rearranging
import SongBundle.Proofs.Files.Path
import SongBundle.Proofs.Files.Tree
import SongBundle.Proofs.Files.Below
import SongBundle.Proofs.Files.Clear
import SongBundle.Proofs.Files.Making
import SongBundle.Proofs.Build.Packaging
import SongBundle.Proofs.Build.Committing
import SongBundle.Proofs.Build.Containment
import SongBundle.Proofs.Json.Lexemes
import SongBundle.Proofs.Json.ReadPretty
import SongBundle.Proofs.Json.RoundTrip
import SongBundle.Proofs.Build.Decoding
import SongBundle.Proofs.Assets.Saving
import SongBundle.Proofs.Assets.RoundTrip
import SongBundle.Proofs.Files.Reading
import SongBundle.Proofs.Library.Asking
import SongBundle.Proofs.Track.Choreography
import SongBundle.Proofs.Build.Rebuilding
import SongBundle.Proofs.Decimal.Rounding
import SongBundle.Proofs.Decimal.Product
import SongBundle.Proofs.Timing.Advancing
import SongBundle.Proofs.Build.Naming
import SongBundle.Proofs.Build.Bundling
import SongBundle.Proofs.Graph.Commuting
import SongBundle.Proofs.Decimal.Quotient
import SongBundle.Proofs.Timing.Tempo
import SongBundle.Proofs.Text.ByteOrder
import SongBundle.Proofs.Assets.Refinement
import SongBundle.Proofs.Word
import SongBundle.Proofs.Track.Refilling
import SongBundle.Proofs.Battle.Arithmetic
import SongBundle.Proofs.Graph.Merging
