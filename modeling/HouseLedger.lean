import HouseLedger.Main
import HouseLedger.Proofs.Decimal.Cents
import HouseLedger.Proofs.Balance.Store
import HouseLedger.Proofs.Balance.Netting
import HouseLedger.Proofs.Calendar.Advance
import HouseLedger.Proofs.Ledger.Run
import HouseLedger.Proofs.Registry
import HouseLedger.Proofs.Recurrence
import HouseLedger.Proofs.Ledger.ReferenceDate
import HouseLedger.Proofs.Text.Lines
import HouseLedger.Proofs.Ledger.Files
import HouseLedger.Proofs.Ledger.WellFormed
import HouseLedger.Proofs.Statement.Debts
import HouseLedger.Proofs.Statement.Sections
import HouseLedger.Proofs.Statement.Settlement
import HouseLedger.Proofs.Balance.Order
import HouseLedger.Proofs.Balance.History
import HouseLedger.Proofs.Ledger.Grammar
import HouseLedger.Proofs.Calendar.Written
import HouseLedger.Proofs.Calendar.Spelling
import HouseLedger.Proofs.Ledger.Acceptance
import HouseLedger.Proofs.Ledger.RecurringInvoices
import HouseLedger.Proofs.Ledger.Merging
import HouseLedger.Proofs.Ledger.Provenance
import HouseLedger.Proofs.Amount
import HouseLedger.Proofs.Report.Overview
import HouseLedger.Proofs.Ledger.Contents
import HouseLedger.Proofs.Ledger.Rearranging
import HouseLedger.Proofs.Decimal.Congruence
import HouseLedger.Proofs.Related
import HouseLedger.Proofs.Balance.Matching
import HouseLedger.Proofs.Ledger.Matching
import HouseLedger.Proofs.Report.Matching
import HouseLedger.Proofs.Ledger.Respelling
import HouseLedger.Proofs.Ledger.AccountOrder
import HouseLedger.Proofs.Files.Path
import HouseLedger.Proofs.Files.Tree
import HouseLedger.Proofs.Command.StatementFiles
import HouseLedger.Proofs.Decimal.Error
import HouseLedger.Proofs.Balance.Rounding
import HouseLedger.Proofs.Ledger.Conservation
import HouseLedger.Proofs.Report.Faults
import HouseLedger.Proofs.Command.Faults
import HouseLedger.Proofs.Command.Endings
import HouseLedger.Proofs.Ledger.Duplicates
import HouseLedger.Proofs.Ledger.InvoiceReadings
import HouseLedger.Proofs.Balance.Mirrored
import HouseLedger.Proofs.Balance.ZeroAmounts
import HouseLedger.Proofs.Report.Lines
import HouseLedger.Proofs.Report.DebtLines
import HouseLedger.Roster
import HouseLedger.Proofs.Roster
import HouseLedger.Proofs.Text.Layout
import HouseLedger.Proofs.Ledger.Layout
import HouseLedger.Proofs.Ledger.LegacyYears
import HouseLedger.Proofs.Command.Confinement
import HouseLedger.Proofs.Ledger.Precision
