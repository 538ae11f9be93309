import SourcePress.Lexis.Cursor
import SourcePress.Lexis.Mask
import SourcePress.Measure.Size
import SourcePress.Proofs.Document
import SourcePress.Proofs.Lexis.Reading
import SourcePress.Proofs.Repair.Script
import SourcePress.Proofs.Script.Compact
import SourcePress.Proofs.Script.Layout
import SourcePress.Repair.Significant
import SourcePress.Service.Dispatch
import SourcePress.Proofs.Script.BracketWords
import SourcePress.Proofs.Service.Dispatch
import SourcePress.Proofs.Service.AutomaticDispatch
import SourcePress.Proofs.Script.CompactLayout
import SourcePress.Proofs.Script.Relayout
import SourcePress.Proofs.Repair.Commuting
import SourcePress.Proofs.Script.Diagnosis
import SourcePress.Proofs.Script.StrictDocuments
import SourcePress.Proofs.Repair.CommentFree
import SourcePress.Proofs.Repair.BareWords
import SourcePress.Proofs.Script.Indentation
import SourcePress.Proofs.Compression
import SourcePress.Proofs.Script.Conservation
import SourcePress.Proofs.Measure.Units
import SourcePress.Proofs.Service.DetectedContainers
import SourcePress.Proofs.Lexis.Composition
import SourcePress.Proofs.Lexis.Masking
import SourcePress.Proofs.Repair.Edited
import SourcePress.Proofs.Repair.Requoting
