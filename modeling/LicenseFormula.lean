import LicenseFormula.Balance
import LicenseFormula.Formula.Canonical
import LicenseFormula.Formula.Json
import LicenseFormula.Formula.Substitution
import LicenseFormula.Meaning
import LicenseFormula.Proofs.Alike
import LicenseFormula.Proofs.Covers
import LicenseFormula.Proofs.Cuts
import LicenseFormula.Proofs.Dropping
import LicenseFormula.Proofs.Enclosing
import LicenseFormula.Proofs.Faults
import LicenseFormula.Proofs.FixedLines
import LicenseFormula.Proofs.Joins
import LicenseFormula.Proofs.JsonTexts
import LicenseFormula.Proofs.Renaming
import LicenseFormula.Proofs.Reparsing
import LicenseFormula.Proofs.Seams
import LicenseFormula.Proofs.Sessions
import LicenseFormula.Proofs.Slices
import LicenseFormula.Proofs.Spacing
import LicenseFormula.Proofs.Transcripts
import LicenseFormula.Session
import LicenseFormula.Tidy
