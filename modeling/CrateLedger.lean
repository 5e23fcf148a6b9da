import CrateLedger.Analysis
import CrateLedger.Comparison
import CrateLedger.Proofs.Analysis
import CrateLedger.Proofs.Image.Msf
import CrateLedger.Proofs.Mangled.Legacy
import CrateLedger.Proofs.Mangled.V0.Name
import CrateLedger.Proofs.Mangled.V0.Punycode
import CrateLedger.Report.Record
import CrateLedger.Proofs.Grouping
import CrateLedger.Proofs.Mangled.V0.Progress
import CrateLedger.Proofs.Mangled.Legacy.Crate
import CrateLedger.Proofs.Mangled.Suffix
import CrateLedger.Proofs.Image.Table
import CrateLedger.Proofs.Text.Utf8
import CrateLedger.Proofs.Image.MachO.Reading
import CrateLedger.Proofs.Image.CodeView.Walk
import CrateLedger.Proofs.Image.Pdb.Contents
import CrateLedger.Proofs.Image.Pdb.Reading
import CrateLedger.Proofs.Decoding
import CrateLedger.Proofs.Image.Container
import CrateLedger.Proofs.Image.Pdb.Errors
import CrateLedger.Proofs.Image.Pdb.Truncation
import CrateLedger.Proofs.Comparison
import CrateLedger.Proofs.Record
import CrateLedger.Proofs.Image.Coff.Reading
import CrateLedger.Proofs.Image.Elf.Reading
import CrateLedger.Proofs.Image.Tiling
import CrateLedger.Proofs.Attribution.Precedence
import CrateLedger.Proofs.Report.Crates
import CrateLedger.Proofs.Comparison.Reversal
import CrateLedger.Proofs.Build.Errors
import CrateLedger.Proofs.Report.Reading
