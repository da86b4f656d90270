import TermStructure.Binary64
import TermStructure.Bootstrap.Pillar
import TermStructure.Bootstrap.Plan
import TermStructure.Bootstrap.Run
import TermStructure.Calendar.Data
import TermStructure.Calendar.Date
import TermStructure.Calendar.Error
import TermStructure.Calendar.Text
import TermStructure.Config.Basic
import TermStructure.Config.Setting
import TermStructure.Config.Text
import TermStructure.Curve.Inspected
import TermStructure.Curve.Kind
import TermStructure.Curve.NodeCurve
import TermStructure.Curve.Nodes
import TermStructure.Curve.NodesText
import TermStructure.Curve.Reading
import TermStructure.Curve.Repricing
import TermStructure.Curve.RepricingText
import TermStructure.DayCount
import TermStructure.Decimal.Binary
import TermStructure.Decimal.Digits
import TermStructure.Decimal.Layout
import TermStructure.Decimal.Numeral
import TermStructure.Decimal.Powers
import TermStructure.Decimal.Quotient
import TermStructure.Decimal.Rounded
import TermStructure.Decimal.Scaled
import TermStructure.Decimal.Shortest
import TermStructure.Error
import TermStructure.Error.Message
import TermStructure.Instrument.Basic
import TermStructure.Instrument.Deposit
import TermStructure.Instrument.Product
import TermStructure.Instrument.Swap
import TermStructure.Instrument.ZeroRate
import TermStructure.Interpolation.BackwardFlat
import TermStructure.Interpolation.CubicSpline
import TermStructure.Interpolation.Interpolant
import TermStructure.Interpolation.Knots
import TermStructure.Interpolation.Linear
import TermStructure.Interpolation.LogLinear
import TermStructure.Interpolation.Scheme
import TermStructure.Interpolation.Simpson
import TermStructure.Json.Basic
import TermStructure.Json.Reader
import TermStructure.Market.Basic
import TermStructure.Market.Controller
import TermStructure.Market.Curves
import TermStructure.Market.Inspected
import TermStructure.Market.Notification
import TermStructure.Market.Observer
import TermStructure.Market.PiecewiseCurve
import TermStructure.Market.Quote
import TermStructure.Market.Slots
import TermStructure.Market.TurnOfYear
import TermStructure.Proofs.Bootstrap.Alignment
import TermStructure.Proofs.Bootstrap.Causality
import TermStructure.Proofs.Bootstrap.Classification
import TermStructure.Proofs.Bootstrap.Determination
import TermStructure.Proofs.Bootstrap.Domain
import TermStructure.Proofs.Bootstrap.Failures
import TermStructure.Proofs.Bootstrap.GlobalCheck
import TermStructure.Proofs.Bootstrap.Logged
import TermStructure.Proofs.Bootstrap.LookAhead
import TermStructure.Proofs.Bootstrap.Passes
import TermStructure.Proofs.Bootstrap.Reordering
import TermStructure.Proofs.Bootstrap.Reports
import TermStructure.Proofs.Bootstrap.Repricing
import TermStructure.Proofs.Bootstrap.Residuals
import TermStructure.Proofs.Bootstrap.Retries
import TermStructure.Proofs.Bootstrap.Seeding
import TermStructure.Proofs.Bootstrap.Stages
import TermStructure.Proofs.Bootstrap.Survival
import TermStructure.Proofs.Bootstrap.TrialCurve
import TermStructure.Proofs.Bootstrap.Validation
import TermStructure.Proofs.Calendar.Months
import TermStructure.Proofs.Calendar.Order
import TermStructure.Proofs.Calendar.Spellings
import TermStructure.Proofs.Config.RoundTrip
import TermStructure.Proofs.Curve.Range
import TermStructure.Proofs.Curve.SearchInterval
import TermStructure.Proofs.Curve.Stores
import TermStructure.Proofs.Curve.Survival
import TermStructure.Proofs.Decimal.Digits
import TermStructure.Proofs.Decimal.Reading
import TermStructure.Proofs.Instrument.Readings
import TermStructure.Proofs.Instrument.Response
import TermStructure.Proofs.Instrument.Rolls
import TermStructure.Proofs.Instrument.Schedule
import TermStructure.Proofs.Interpolation.Area
import TermStructure.Proofs.Interpolation.Building
import TermStructure.Proofs.Interpolation.Curvature
import TermStructure.Proofs.Interpolation.Forwards
import TermStructure.Proofs.Interpolation.Integrals
import TermStructure.Proofs.Interpolation.LastNode
import TermStructure.Proofs.Interpolation.Nodes
import TermStructure.Proofs.Interpolation.Prefix
import TermStructure.Proofs.Interpolation.Segments
import TermStructure.Proofs.Interpolation.Shape
import TermStructure.Proofs.Json.Texts
import TermStructure.Proofs.Market.Attempts
import TermStructure.Proofs.Market.Audience
import TermStructure.Proofs.Market.Controllers
import TermStructure.Proofs.Market.Course
import TermStructure.Proofs.Market.Delivery
import TermStructure.Proofs.Market.Diagnosis
import TermStructure.Proofs.Market.Enrolment
import TermStructure.Proofs.Market.Following
import TermStructure.Proofs.Market.ForwardRates
import TermStructure.Proofs.Market.Freezing
import TermStructure.Proofs.Market.Freshness
import TermStructure.Proofs.Market.Jump
import TermStructure.Proofs.Market.JumpDate
import TermStructure.Proofs.Market.Memoization
import TermStructure.Proofs.Market.Moves
import TermStructure.Proofs.Market.News
import TermStructure.Proofs.Market.Operation
import TermStructure.Proofs.Market.Queries
import TermStructure.Proofs.Market.ReadBack
import TermStructure.Proofs.Market.Registration
import TermStructure.Proofs.Market.Snapshots
import TermStructure.Proofs.Market.Twins
import TermStructure.Proofs.Market.Versions
import TermStructure.Proofs.Market.ZeroRates
import TermStructure.Proofs.RootFinding.Expansion
import TermStructure.Proofs.RootFinding.Finders
import TermStructure.Proofs.RootFinding.Halving
import TermStructure.Proofs.RootFinding.Narrowing
import TermStructure.Proofs.RootFinding.Outward
import TermStructure.Proofs.RootFinding.Problem
import TermStructure.Proofs.Scalar.Comparisons
import TermStructure.Proofs.Scalar.Differences
import TermStructure.Proofs.Scalar.Exact
import TermStructure.Proofs.Scalar.Exponential
import TermStructure.Proofs.Scalar.Infinities
import TermStructure.Proofs.Scalar.Laws
import TermStructure.Proofs.Scalar.Sizes
import TermStructure.Proofs.Text.Blanks
import TermStructure.Proofs.Toml.Lines
import TermStructure.Proofs.Toml.Numbers
import TermStructure.RootFinding.Bisection
import TermStructure.RootFinding.Bracket
import TermStructure.RootFinding.Brent
import TermStructure.RootFinding.Search
import TermStructure.Scalar
import TermStructure.Session
import TermStructure.Text.Blank
import TermStructure.Text.Inspected
import TermStructure.Text.Quoted
import TermStructure.Text.Upper
import TermStructure.Toml.Basic
import TermStructure.Toml.Number
import TermStructure.Toml.Reader
import TermStructure.Toml.Text
