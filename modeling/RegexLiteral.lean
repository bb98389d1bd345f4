import RegexLiteral.Balance
import RegexLiteral.Drawing.Layout
import RegexLiteral.Dump.Typed
import RegexLiteral.Json.Decode
import RegexLiteral.Json.Encode
import RegexLiteral.Parse.Literal
import RegexLiteral.Proofs.Item
import RegexLiteral.Proofs.Kind
import RegexLiteral.Proofs.Yields
import RegexLiteral.Proofs.Step
import RegexLiteral.Proofs.Written
import RegexLiteral.Proofs.Tiling
import RegexLiteral.Proofs.Reading.Atom
import RegexLiteral.Proofs.Reading.Class
import RegexLiteral.Proofs.BracesAhead
import RegexLiteral.Proofs.Reading.Repetition
import RegexLiteral.Proofs.Reading.Alternative
import RegexLiteral.Proofs.Reading.Literal
import RegexLiteral.Proofs.Derivation
import RegexLiteral.Proofs.Lossless
import RegexLiteral.Proofs.Faultless
import RegexLiteral.Proofs.Grammar
import RegexLiteral.Proofs.Balance
import RegexLiteral.Proofs.BalanceKept
import RegexLiteral.Proofs.Fuel
import RegexLiteral.Proofs.Sound
import RegexLiteral.Proofs.Json.Restore
import RegexLiteral.Proofs.SoundKept
import RegexLiteral.Proofs.Json.RoundTrip
import RegexLiteral.Proofs.Json.Decoded
import RegexLiteral.Proofs.Beginning
import RegexLiteral.Proofs.Failing.Stop
import RegexLiteral.Proofs.Failing.Class
import RegexLiteral.Proofs.Failing.Element
import RegexLiteral.Proofs.Failing.Literal
import RegexLiteral.Proofs.FirstFault
import RegexLiteral.Proofs.Nesting
import RegexLiteral.Proofs.BalanceReport
import RegexLiteral.Proofs.Alike
import RegexLiteral.Proofs.Agrees
import RegexLiteral.Proofs.NodeTypes
import RegexLiteral.Proofs.Site
import RegexLiteral.Proofs.ClassBody
import RegexLiteral.Proofs.Carving
import RegexLiteral.Proofs.Transparent
import RegexLiteral.Proofs.Genuine
import RegexLiteral.Proofs.Legible
import RegexLiteral.Proofs.Reread
import RegexLiteral.Proofs.Location.Boundary
import RegexLiteral.Proofs.Location.Scan
import RegexLiteral.Proofs.Location.Quiet
import RegexLiteral.Proofs.Location.Standing
import RegexLiteral.Proofs.Location.Remark
import RegexLiteral.Proofs.Location.Located
import RegexLiteral.Proofs.Location.Drawn
import RegexLiteral.Proofs.Outline.Forest
import RegexLiteral.Proofs.Outline.Place
import RegexLiteral.Proofs.Outline.Agreement
import RegexLiteral.Proofs.Dump.Quoted
import RegexLiteral.Proofs.Dump.Token
import RegexLiteral.Proofs.Dump.Line
import RegexLiteral.Proofs.Dump.Shape
import RegexLiteral.Proofs.Dump.Injective
import RegexLiteral.Proofs.Decimal
import RegexLiteral.Proofs.Braces
import RegexLiteral.Proofs.Canonical
import RegexLiteral.Proofs.RangeEnd
import RegexLiteral.Proofs.ClassScan
import RegexLiteral.Proofs.Shift.Run
import RegexLiteral.Proofs.Shift.Parser
import RegexLiteral.Proofs.Shift.Between
import RegexLiteral.Proofs.Shift.Advance
import RegexLiteral.Proofs.Shift.Alternative
import RegexLiteral.Proofs.Shift.Left
import RegexLiteral.Proofs.Stepwise
import RegexLiteral.Proofs.Lexing
import RegexLiteral.Proofs.FlagReadings
import RegexLiteral.Proofs.Pairing
import RegexLiteral.Proofs.Surplus
import RegexLiteral.Proofs.Building
import RegexLiteral.Proofs.Terminator.Behind
import RegexLiteral.Proofs.Terminator.Heeding
import RegexLiteral.Proofs.Terminator.Reported
