import StructuredExtractor.Extraction.Tokens
import StructuredExtractor.Extraction.OnePage
import StructuredExtractor.Extraction.Processor
import StructuredExtractor.Extraction.Raised
import StructuredExtractor.Extraction.UniqueItems
import StructuredExtractor.Extraction.PageAccounts
import StructuredExtractor.Extraction.RetryLoop
import StructuredExtractor.Extraction.ToolContract
import StructuredExtractor.Extraction.SchemaMeaning
import StructuredExtractor.Extraction.SmartPages
import StructuredExtractor.Schema.Accounts
import StructuredExtractor.Schema.Amounts
import StructuredExtractor.Schema.CentChecks
import StructuredExtractor.Schema.Scores
import StructuredExtractor.Service.FinalStatus
import StructuredExtractor.Service.Files
import StructuredExtractor.Service.Atomicity
import StructuredExtractor.Service.Ledger
import StructuredExtractor.Service.HandOff
import StructuredExtractor.Service.Response
import StructuredExtractor.Service.Routes
import StructuredExtractor.Service.LastResult
import StructuredExtractor.Service.Batch
import StructuredExtractor.Service.ClassifierUsage
import StructuredExtractor.Service.Information
import StructuredExtractor.Service.CostWindow
import StructuredExtractor.Service.LosslessDiff
import StructuredExtractor.Storage.FailedSave
import StructuredExtractor.Storage.ServiceFiles
import StructuredExtractor.Api.Validation
import StructuredExtractor.Service.CorrectionRuns
import StructuredExtractor.Service.BillingRuns
import StructuredExtractor.Service.StoredUploads
import StructuredExtractor.Service.AuditTrail
import StructuredExtractor.Service.BatchRuns
