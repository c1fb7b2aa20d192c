import Lineage.Document.Snapshot
import Lineage.Document.Storage
import Lineage.Document.Typed
import Lineage.Value.Enumeration
import Lineage.Value.Integer
import Lineage.Document.FamilyTree
import Lineage.Proofs.PreservedRoundTrip
import Lineage.Proofs.Inheritance
import Lineage.Proofs.FlattenedRoundTrip
import Lineage.Proofs.ReadingMeaning
import Lineage.Proofs.LookupAgreement
import Lineage.Proofs.WriteVisibility
import Lineage.Proofs.Recovery
import Lineage.Proofs.StableText
import Lineage.Proofs.StoredNames
import Lineage.Proofs.BuiltDocuments
import Lineage.Proofs.SilentWriting
import Lineage.Proofs.SnapshotRoundTrip
import Lineage.Proofs.AncestorShape
import Lineage.Proofs.Removal
import Lineage.Proofs.Saving
import Lineage.Proofs.TellingLines
import Lineage.Proofs.WordEnds
import Lineage.Proofs.HeaderNames
import Lineage.Proofs.ExactConditions
import Lineage.Proofs.LineAccounts
import Lineage.Proofs.FirstSpelling
import Lineage.Proofs.SectionEdits
import Lineage.Proofs.SectionsOfTexts
import Lineage.Proofs.DecimalDigits
import Lineage.Proofs.IntegerTexts
import Lineage.Proofs.Specifiers
import Lineage.Proofs.Arrays
import Lineage.Proofs.WalkReports
import Lineage.Proofs.Assignments
import Lineage.Proofs.VariantTexts
