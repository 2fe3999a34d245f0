import Railroad.Main
import Railroad.Command.Run
import Railroad.Exchange.Reader
import Railroad.Layout.Session
import Railroad.Proofs.Pattern.Canonical
import Railroad.Proofs.Pattern.Members
import Railroad.Proofs.Pattern.Spelling
import Railroad.Proofs.Pattern.Exactness
import Railroad.Proofs.Pattern.RoundTrip
import Railroad.Proofs.Pattern.Scanner
import Railroad.Proofs.Pattern.Simulation
import Railroad.Proofs.Pattern.Viability
import Railroad.Proofs.Pattern.Preorder
import Railroad.Proofs.Pattern.Tally
import Railroad.Proofs.Layout.Draws
import Railroad.Proofs.Layout.Reaches
import Railroad.Proofs.Drawing.Exact
import Railroad.Proofs.Drawing.Hull
import Railroad.Proofs.Layout.Frames
import Railroad.Proofs.Layout.Pieces
import Railroad.Proofs.Layout.Track
import Railroad.Proofs.Layout.Overhang
import Railroad.Proofs.Layout.Overlap
import Railroad.Proofs.Layout.Inventory
import Railroad.Proofs.Pattern.FirstStray
import Railroad.Proofs.Layout.Canvas
import Railroad.Proofs.Layout.Unfinished
import Railroad.Proofs.Layout.Colours
import Railroad.Proofs.Drawing.Curve
import Railroad.Proofs.Layout.Cover
import Railroad.Proofs.Layout.Stopped
import Railroad.Proofs.Drawing.Similarity
import Railroad.Proofs.Layout.Scaling
import Railroad.Proofs.Number.Nearest
import Railroad.Proofs.Number.ReadsBack
import Railroad.Proofs.Number.Spelling
import Railroad.Proofs.Json.Scalars
import Railroad.Proofs.Json.RoundTrip
import Railroad.Proofs.Json.Controls
import Railroad.Proofs.Exchange.RoundTrip
import Railroad.Proofs.Command.Target
import Railroad.Proofs.Command.Typed
import Railroad.Proofs.Command.AllOrNothing
import Railroad.Proofs.Command.ReadBack
import Railroad.Proofs.Pattern.Nesting
import Railroad.Proofs.Pattern.Composition
import Railroad.Proofs.Text.Quoted
import Railroad.Proofs.Pattern.Titles
import Railroad.Proofs.Pattern.Outline
import Railroad.Proofs.Drawing.Stretch
import Railroad.Proofs.Layout.Connections
import Railroad.Proofs.Layout.Stretch
import Railroad.Proofs.Layout.LeftEdge
import Railroad.Proofs.Layout.FontSize
import Railroad.Proofs.Pattern.Visits
import Railroad.Proofs.Pattern.Flattening
import Railroad.Proofs.Pattern.Size
import Railroad.Proofs.Layout.Flattening
import Railroad.Proofs.Layout.Size
import Railroad.Proofs.Pattern.Lines
import Railroad.Proofs.Drawing.Join
import Railroad.Proofs.Pattern.Cursor
import Railroad.Proofs.Pattern.Walks
import Railroad.Proofs.Pattern.CursorSafety
