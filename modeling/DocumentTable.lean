import DocumentTable.Proofs.Closure
import DocumentTable.Proofs.Leaves
import DocumentTable.Proofs.Meaning
import DocumentTable.Proofs.Renaming
import DocumentTable.Proofs.UpdateGrammar
import DocumentTable.Script
import DocumentTable.Service.Http
import DocumentTable.Store.Operations
import DocumentTable.Table.Calls
import DocumentTable.Wire.Catalogue
import DocumentTable.Proofs.UpdateReading
import DocumentTable.Proofs.Targets
import DocumentTable.Proofs.Utf8
import DocumentTable.Proofs.Base64
import DocumentTable.Proofs.Attribute
import DocumentTable.Proofs.Reader
import DocumentTable.Proofs.Parser
import DocumentTable.Proofs.AttributeText
import DocumentTable.Proofs.JsonText
import DocumentTable.Proofs.Decimal
import DocumentTable.Proofs.Rounding
import DocumentTable.Proofs.Shortest
import DocumentTable.Proofs.Marshaller
import DocumentTable.Proofs.Transaction
import DocumentTable.Proofs.Respelling
import DocumentTable.Proofs.Paging
import DocumentTable.Proofs.Resume
import DocumentTable.Proofs.StoreOrder
import DocumentTable.Proofs.StoreMap
import DocumentTable.Proofs.InTurn
import DocumentTable.Proofs.FanOut
import DocumentTable.Proofs.BatchInTurn
import DocumentTable.Proofs.FailedCalls
import DocumentTable.Proofs.CursorToken
import DocumentTable.Proofs.IndexStart
import DocumentTable.Proofs.Faults
import DocumentTable.Proofs.Implied
import DocumentTable.Proofs.Renumbering
import DocumentTable.Proofs.NumberText
import DocumentTable.Proofs.Skipping
import DocumentTable.Proofs.Fields
import DocumentTable.Proofs.CodecText
import DocumentTable.Proofs.Spelling
import DocumentTable.Proofs.WireTypes
import DocumentTable.Proofs.UpdatedItem
import DocumentTable.Proofs.DocumentUpdate
import DocumentTable.Proofs.NormalForm
import DocumentTable.Proofs.ErrorReply
import DocumentTable.Proofs.PathScan
import DocumentTable.Proofs.EscapedPath
import DocumentTable.Proofs.CreatedKeys
import DocumentTable.Proofs.UpdateSteps
