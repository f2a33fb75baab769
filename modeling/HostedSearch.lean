import HostedSearch.Main
import HostedSearch.Proofs.Client.Refusal
import HostedSearch.Proofs.Filter.Exclusion
import HostedSearch.Proofs.Filter.Injection
import HostedSearch.Proofs.Filter.Unambiguity
import HostedSearch.Proofs.Search.QueryString
import HostedSearch.Proofs.Client.Errand
import HostedSearch.Proofs.Client.Requests
import HostedSearch.Proofs.Client.Marks
import HostedSearch.Proofs.Client.Failure
import HostedSearch.Proofs.Document.Fields
import HostedSearch.Proofs.Filter.RangeText
import HostedSearch.Proofs.Number.Rounding
import HostedSearch.Proofs.Number.Significant
import HostedSearch.Proofs.Json.NumberText
import HostedSearch.Proofs.Document.Batch
import HostedSearch.Proofs.Document.NormalForm
import HostedSearch.Proofs.Filter.JsonForm
import HostedSearch.Proofs.Search.Paging
import HostedSearch.Proofs.Search.Response
import HostedSearch.Proofs.Client.Walk
import HostedSearch.Proofs.Client.Sandbox
import HostedSearch.Proofs.Command.Resolution
import HostedSearch.Proofs.Command.PrintedUrl
import HostedSearch.Proofs.Search.Limits
import HostedSearch.Proofs.Filter.Nesting
import HostedSearch.Proofs.Filter.Contribution
import HostedSearch.Proofs.Number.IntegerText
import HostedSearch.Proofs.Filter.RangeReading
import HostedSearch.Proofs.Filter.ListText
import HostedSearch.Proofs.Filter.ChoiceText
import HostedSearch.Proofs.Filter.Decoding
import HostedSearch.Proofs.Search.Structured
import HostedSearch.Proofs.Json.Readable
import HostedSearch.Proofs.Command.Addition
import HostedSearch.Proofs.Ranking.Notation
import HostedSearch.Proofs.Document.Moments
import HostedSearch.Proofs.Search.Rendering
