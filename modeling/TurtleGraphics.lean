import TurtleGraphics.Main
import TurtleGraphics.Proofs.Block
import TurtleGraphics.Proofs.LetterCase
import TurtleGraphics.Proofs.Grammar
import TurtleGraphics.Proofs.Reading
import TurtleGraphics.Proofs.FaultyTexts
import TurtleGraphics.Proofs.Looping
import TurtleGraphics.Proofs.Passes
import TurtleGraphics.Proofs.Relocation
import TurtleGraphics.Proofs.Succession
import TurtleGraphics.Proofs.Repetition
import TurtleGraphics.Proofs.Layout
import TurtleGraphics.Proofs.Records
import TurtleGraphics.Proofs.Tracing
import TurtleGraphics.Proofs.Clearing
import TurtleGraphics.Proofs.PenIndependence
import TurtleGraphics.Proofs.Continuation
import TurtleGraphics.Proofs.Partition
import TurtleGraphics.Proofs.Drafts
import TurtleGraphics.Proofs.Pointing
import TurtleGraphics.Proofs.DoubleOrder
import TurtleGraphics.Proofs.DoubleRounding
import TurtleGraphics.Proofs.Angles
import TurtleGraphics.Proofs.Validity
import TurtleGraphics.Proofs.PenStrokes
import TurtleGraphics.Proofs.PlotArea
import TurtleGraphics.Proofs.SessionLog
import TurtleGraphics.Proofs.SvgReading
import TurtleGraphics.Proofs.Endings
import TurtleGraphics.Proofs.FrontEnds
import TurtleGraphics.Proofs.ColorReading
import TurtleGraphics.Proofs.Dispatch
import TurtleGraphics.Proofs.Counting
import TurtleGraphics.Proofs.ColorNames
import TurtleGraphics.Proofs.Rationals
import TurtleGraphics.Proofs.Bearings
import TurtleGraphics.Proofs.Fitting
import TurtleGraphics.Proofs.PlainDecimals
import TurtleGraphics.Proofs.HeadingText
import TurtleGraphics.Proofs.ReportReading
import TurtleGraphics.Proofs.Writing
