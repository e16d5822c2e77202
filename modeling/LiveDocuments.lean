import LiveDocuments.Events.Bridge
import LiveDocuments.Proofs.Binding.Listed
import LiveDocuments.Session
import LiveDocuments.Synchronizer.Script
import LiveDocuments.Proofs.Path.RoundTrip
import LiveDocuments.Proofs.Query.Filters
import LiveDocuments.Proofs.Query.Meaning
import LiveDocuments.Proofs.Path.Chains
import LiveDocuments.Proofs.Model.Lookups
import LiveDocuments.Proofs.Path.Stability
import LiveDocuments.Proofs.Store.Replacement
import LiveDocuments.Proofs.Session.Closing
import LiveDocuments.Proofs.Session.Contexts
import LiveDocuments.Proofs.Session.Echoes
import LiveDocuments.Proofs.Session.Making
import LiveDocuments.Proofs.Events.Dispatch
import LiveDocuments.Proofs.Session.Limits
import LiveDocuments.Proofs.Store.Isolation
import LiveDocuments.Proofs.Store.Sharing
import LiveDocuments.Proofs.Binding.Requeries
import LiveDocuments.Proofs.Binding.Following
import LiveDocuments.Proofs.Store.Differences
import LiveDocuments.Proofs.Store.Finding
import LiveDocuments.Proofs.Query.PatternFilters
import LiveDocuments.Proofs.Query.Descriptors
import LiveDocuments.Proofs.Session.Refreshes
import LiveDocuments.Proofs.Store.Integers
import LiveDocuments.Proofs.Session.Elements
import LiveDocuments.Proofs.Model.Nesting
import LiveDocuments.Proofs.Query.Priorities
import LiveDocuments.Proofs.Query.SingleDocument
import LiveDocuments.Proofs.Store.Silence
import LiveDocuments.Proofs.Store.Commuting
import LiveDocuments.Proofs.Session.Paging
import LiveDocuments.Proofs.Synchronizer.Entries
