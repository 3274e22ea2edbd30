import Pafs.Resumption.Prog
import Pafs.Resumption.Routine
import Pafs.Resumption.Pool
import Pafs.Resumption.Annals
import Pafs.Resumption.Watch
import Pafs.Resumption.Product
import Pafs.Resumption.Hiding
import Pafs.Resumption.Tokens
import Pafs.Resumption.Resting
import Pafs.Resumption.Effort
import Pafs.Status
import Pafs.Calls
import Pafs.Syscalls
import Pafs.FuseRequest
import Pafs.InodeCache
import Pafs.PageAlignFS
import Pafs.FuseOps
import Pafs.Dispatch
import Pafs.Answers
import Pafs.Linux
import Pafs.Messages
import Pafs.Ownership
import Pafs.Handles
import Pafs.Replies
import Pafs.Checks
import Pafs.XAttrs
import Pafs.Attributes
import Pafs.OneReply
import Pafs.World
import Pafs.Ledger
import Pafs.Handlers
import Pafs.Invariant
import Pafs.References
import Pafs.Dirs
import Pafs.Identity
import Pafs.Devices
import Pafs.Lifetime
import Pafs.Polls
import Pafs.Fds
import Pafs.Generations
import Pafs.Timeouts
import Pafs.Growth
import Pafs.Pager
import Pafs.Portraits
import Pafs.NodeIds
import Pafs.Alone
import Pafs.Entries
import Pafs.Listing
import Pafs.Paging
import Pafs.Agreement
import Pafs.Creation
import Pafs.Forgets
import Pafs.Service
import Pafs.Filing
import Pafs.Files
import Pafs.Relay
import Pafs.Anatomy
import Pafs.Pollers
import Pafs.Settling
import Pafs.Notices
import Pafs.Lifecycle
