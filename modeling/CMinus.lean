import CMinus.Main
import CMinus.Numeric.ReadBack
import CMinus.Proofs.Aligned
import CMinus.Proofs.Counted
import CMinus.Proofs.Masking
import CMinus.Proofs.OutlineReading
import CMinus.Proofs.Parentheses
import CMinus.Proofs.Report
import CMinus.Proofs.Respelled
import CMinus.Proofs.Separators
import CMinus.Proofs.SourceOrder
import CMinus.Proofs.Tallest
import CMinus.Proofs.Balanced
