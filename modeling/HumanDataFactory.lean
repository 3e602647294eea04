import HumanDataFactory.Transact.Program
import HumanDataFactory.Transact.ReadCommitted
import HumanDataFactory.Transact.Serial
import HumanDataFactory.Transact.Simulate
import HumanDataFactory.KeyedTable
import HumanDataFactory.HashChain
import HumanDataFactory.Api
import HumanDataFactory.Api.Effects
import HumanDataFactory.Development
import HumanDataFactory.Concurrency.AuditChain
import HumanDataFactory.Metering
import HumanDataFactory.Concurrency.HumanReview
import HumanDataFactory.Ledger
import HumanDataFactory.Concurrency.Invoicing
import HumanDataFactory.Evidence
import HumanDataFactory.Replay
import HumanDataFactory.Settlement
import HumanDataFactory.Billing.Redelivery
import HumanDataFactory.PaymentEvidence
import HumanDataFactory.Python.Schema
import HumanDataFactory.Qc.Response
import HumanDataFactory.Qc.AutoPass
import HumanDataFactory.Qc.Routing
import HumanDataFactory.Qc.Newcomers
import HumanDataFactory.Tampering
import HumanDataFactory.Transact.Moments
import HumanDataFactory.Release.Disk
import HumanDataFactory.Release.Upload
import HumanDataFactory.Release.Versions
import HumanDataFactory.Release.Certified
import HumanDataFactory.Transact.Turns
import HumanDataFactory.Billing.StripeAccount
import HumanDataFactory.Billing.Retries
import HumanDataFactory.Concurrency.Deliveries
import HumanDataFactory.Regex
import HumanDataFactory.Python.Text
import HumanDataFactory.Validators.Checks
import HumanDataFactory.Validators.Findings
import HumanDataFactory.Qc.Gate1
import HumanDataFactory.Qc.Degraded
import HumanDataFactory.Release.Screened
import HumanDataFactory.Qc.Duplicates
import HumanDataFactory.Qc.Resubmitted
import HumanDataFactory.Qc.Suspension
import HumanDataFactory.Transact.Upholds
import HumanDataFactory.Qc.Scale
import HumanDataFactory.Transact.Answers
import HumanDataFactory.Billing.Reports
import HumanDataFactory.Rollup
import HumanDataFactory.TieOut
import HumanDataFactory.CleanVerdict
import HumanDataFactory.Api.Reads
import HumanDataFactory.Isolation
import HumanDataFactory.Blindness
import HumanDataFactory.Release.Selection
import HumanDataFactory.Release.Vouched
import HumanDataFactory.Qc.Qualification
import HumanDataFactory.Validators.Shapes
import HumanDataFactory.Validators.Financials
import HumanDataFactory.Qc.Completion
import HumanDataFactory.Billing.Pricing
import HumanDataFactory.Quota
import HumanDataFactory.RateLimit
import HumanDataFactory.Regex.Scan
import HumanDataFactory.Validators.Citations
import HumanDataFactory.CheckDigit
import HumanDataFactory.Validators.Cards
import HumanDataFactory.RateLimit.History
import HumanDataFactory.Python.Rounding
import HumanDataFactory.WeightedMean
import HumanDataFactory.Qc.Mean
import HumanDataFactory.Qc.Calibration
import HumanDataFactory.Qc.Counters
import HumanDataFactory.Qc.Recommendation
import HumanDataFactory.Regex.Longest
import HumanDataFactory.Transact.Rely
import HumanDataFactory.Provenance.Growth
import HumanDataFactory.Provenance.Grounds
import HumanDataFactory.Provenance.Terms
import HumanDataFactory.Provenance.Statements
import HumanDataFactory.Provenance.Workflow
import HumanDataFactory.Provenance.Billing
import HumanDataFactory.Provenance.Endpoints
import HumanDataFactory.Provenance.Runs
import HumanDataFactory.Provenance.Charges
import HumanDataFactory.Provenance.Trail
import HumanDataFactory.RateLimit.Sliding
import HumanDataFactory.Api.Metrics
import HumanDataFactory.Provenance.Dashboard
import HumanDataFactory.Credentials
import HumanDataFactory.Python.Loads
import HumanDataFactory.Python.Layouts
import HumanDataFactory.Release.Readable
import HumanDataFactory.Transact.Possible
import HumanDataFactory.Provenance.Progress
import HumanDataFactory.Provenance.Footprint
import HumanDataFactory.Provenance.Numbering
import HumanDataFactory.Provenance.Computed
import HumanDataFactory.Release.Served
