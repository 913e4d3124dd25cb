import Embsys.Math.Rounding
import Embsys.Math.Cut
import Embsys.Math.Digits
import Embsys.Math.Transition
import Embsys.Math.Fairness
import Embsys.Math.Token
import Embsys.Math.Relay
import Embsys.Math.Board
import Embsys.Math.Exchange
import Embsys.Math.Cell
import Embsys.Math.Mask
import Embsys.Math.Region
import Embsys.Math.Rewrite
import Embsys.C.Memory
import Embsys.C.Buffer
import Embsys.C.Getopt
import Embsys.C.Stdio
import Embsys.Gps.Nmea
import Embsys.Gps.Coordinate
import Embsys.Gps.Sentence
import Embsys.Gps.Simulator
import Embsys.Gps.Wire
import Embsys.Gps.Layout
import Embsys.Gps.Ptmx
import Embsys.ShmWriter.Decoder
import Embsys.ShmWriter.Acceptance
import Embsys.ShmWriter.Soundness
import Embsys.GpsReader.Time
import Embsys.Os.Page
import Embsys.Os.Kernel
import Embsys.Os.Rounds
import Embsys.ShmWriter.Handler
import Embsys.Forwarder.Handler
import Embsys.Converter.Handler
import Embsys.ShmReader.Handler
import Embsys.Forwarder.Convert
import Embsys.Pipeline.Accuracy
import Embsys.Pipeline.Hemisphere
import Embsys.Pipeline.Conversion
import Embsys.Pipeline.Message
import Embsys.Pipeline.Scanner
import Embsys.GpsReader.Lines
import Embsys.Pipeline.Attach
import Embsys.Naming.Start
import Embsys.Naming.Coherence
import Embsys.Naming.Current
import Embsys.Naming.Residue
import Embsys.Pipeline.Rounds
import Embsys.Pipeline.Arguments
import Embsys.NetReader.Socket
import Embsys.NetReader.Receive
import Embsys.Pipeline.Port
import Embsys.Echo.Parties
import Embsys.Echo.Sessions
import Embsys.Glass.Sharing
import Embsys.Daytime.Stream
import Embsys.Autotools.Miniserver
import Embsys.Autotools.Delivery
import Embsys.Autotools.Bounds
import Embsys.Tools.Text
import Embsys.Tools.WithContent
import Embsys.Tools.Outputs
import Embsys.Tools.Rewriting
import Embsys.Concurrent.Process
import Embsys.Concurrent.Moves
import Embsys.Concurrent.Interrupt
import Embsys.Concurrent.Semaphore
import Embsys.Concurrent.Snapshot
import Embsys.Concurrent.Occupants
import Embsys.Concurrent.Linearization
import Embsys.Concurrent.Freshness
import Embsys.Concurrent.Liveness
import Embsys.Pipeline.Journey
import Embsys.Pipeline.Fault
import Embsys.Pipeline.Overrun
import Embsys.Concurrent.Handles
