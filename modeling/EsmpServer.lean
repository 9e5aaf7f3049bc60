import EsmpServer.Codec.Leb128
import EsmpServer.Query.Filter
import EsmpServer.Query.FilterTree
import EsmpServer.Write.Log
import EsmpServer.Query.Log
import EsmpServer.Query.Sort
import EsmpServer.Lib.Fallible
import EsmpServer.Jmap.Changes
import EsmpServer.Jmap.QueryChanges
import EsmpServer.Imap.Mailbox
import EsmpServer.Smtp.Queue
import EsmpServer.Smtp.Quota
import EsmpServer.Lib.Decimal
import EsmpServer.Expr.Syntax
import EsmpServer.Expr.Variable
import EsmpServer.Expr.Tokenizer
import EsmpServer.Expr.Parser
import EsmpServer.Expr.Eval
import EsmpServer.Expr.Compile
import EsmpServer.Lib.Components
import EsmpServer.Lib.KeyRange
import EsmpServer.Email.Thread
import EsmpServer.Email.ThreadLookup
import EsmpServer.Email.ThreadComponents
import EsmpServer.Lib.Batch
import EsmpServer.Directory.Principal
import EsmpServer.Directory.Manage
import EsmpServer.Directory.Invariant
import EsmpServer.Storage.Index
import EsmpServer.Storage.IndexInvariant
import EsmpServer.Storage.IndexQuota
import EsmpServer.Storage.Objects
import EsmpServer.Imap.SequenceSet
import EsmpServer.Imap.SequenceSetParse
import EsmpServer.Imap.SequenceSetRoundTrip
import EsmpServer.Lib.ErasePositions
import EsmpServer.Imap.Expunge
import EsmpServer.Jmap.Json
import EsmpServer.Jmap.JsonString
import EsmpServer.Jmap.JsonPointer
import EsmpServer.Query.Pagination
import EsmpServer.Query.IndexRange
import EsmpServer.Directory.Roles
import EsmpServer.Utils.Topological
import EsmpServer.Utils.TopologicalKahn
import EsmpServer.Email.MailboxTree
import EsmpServer.Imap.CopyMove
import EsmpServer.Query.StoreSort
import EsmpServer.Jmap.MailboxSet
import EsmpServer.Dav.Header
import EsmpServer.Dav.Lock
import EsmpServer.Imap.SequenceExpand
import EsmpServer.Lib.Iterator
import EsmpServer.Codec.Base32
import EsmpServer.Jmap.Id
import EsmpServer.Jmap.State
import EsmpServer.Jmap.Blob
import EsmpServer.Common.Limiter
import EsmpServer.Nlp.Osb
import EsmpServer.Utils.Cron
import EsmpServer.Common.Blocked
import EsmpServer.Utils.Glob
import EsmpServer.Imap.Utf7
import EsmpServer.Lib.StackPotential
import EsmpServer.Jmap.References
import EsmpServer.Jmap.ResolveReferences
import EsmpServer.Imap.MailboxInvariant
