import Framewise.Main
import Framewise.Proofs.Text.Pieces
import Framewise.Proofs.Log.Loading
import Framewise.Proofs.Log.Segments
import Framewise.Proofs.Log.Faults
import Framewise.Proofs.Log.Sessions
import Framewise.Proofs.Log.Cameras
import Framewise.Proofs.Log.Keys
import Framewise.Proofs.Log.Files
import Framewise.Proofs.Service.History
import Framewise.Proofs.Command.Spelling
import Framewise.Proofs.Command.Loading
import Framewise.Proofs.Command.Agreement
import Framewise.Proofs.Command.Listing
import Framewise.Proofs.Frames.Keys
import Framewise.Proofs.Frames.Alignment
import Framewise.Proofs.Frames.Document
import Framewise.Proofs.Series
import Framewise.Proofs.Statistics.Bins
import Framewise.Proofs.Number.Overflow
import Framewise.Proofs.Statistics.Edges
import Framewise.Proofs.View.Needs
import Framewise.Proofs.View.Reading
import Framewise.Proofs.View.Histograms
import Framewise.Proofs.Store.Runs
import Framewise.Proofs.View.Lines
import Framewise.Proofs.View.Totals
import Framewise.Proofs.View.Points
import Framewise.Proofs.Table
import Framewise.Proofs.Statistics.Ranks
import Framewise.Proofs.Text.Stopping
import Framewise.Proofs.Log.Metrics
import Framewise.Proofs.Log.LineEndings
import Framewise.Proofs.Log.Values
import Framewise.Proofs.Check.Data
import Framewise.Proofs.Service.Logging
import Framewise.Proofs.Statistics.Unordered
import Framewise.Proofs.Statistics.Inside
import Framewise.Proofs.Frames.Union
import Framewise.Proofs.Log.Printed
import Framewise.Proofs.Log.Sections
import Framewise.Proofs.Command.Serving
