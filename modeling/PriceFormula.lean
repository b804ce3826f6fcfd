import PriceFormula.Formula.Steps
import PriceFormula.Formula.Text
import PriceFormula.Main
import PriceFormula.Proofs.Calculator
import PriceFormula.Proofs.Cycles
import PriceFormula.Proofs.Expansion
import PriceFormula.Proofs.Nesting
import PriceFormula.Proofs.Scanning
import PriceFormula.Proofs.Spacing
import PriceFormula.Text.Description
import PriceFormula.Proofs.Unbound
import PriceFormula.Proofs.Equality
import PriceFormula.Proofs.Conversation
import PriceFormula.Proofs.Locality
import PriceFormula.Proofs.Writing
import PriceFormula.Proofs.Pricing
import PriceFormula.Proofs.Trimming
import PriceFormula.Proofs.Plans
import PriceFormula.Proofs.Positions
import PriceFormula.Proofs.Spelling
import PriceFormula.Proofs.Printing
import PriceFormula.Proofs.Readability
import PriceFormula.Proofs.Reporting
import PriceFormula.Proofs.Histories
import PriceFormula.Proofs.Totals
import PriceFormula.Proofs.Cuts
import PriceFormula.Proofs.Readers
import PriceFormula.Proofs.Reduction
import PriceFormula.Proofs.Resolving
