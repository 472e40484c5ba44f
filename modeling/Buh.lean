import Buh.Library.PrefixCode
import Buh.Library.Leb128
import Buh.Library.BigEndian
import Buh.Library.Hex
import Buh.Library.Fallible
import Buh.Wire.Codec
import Buh.Wire.V1
import Buh.Wire.Canonical
import Buh.Wire.Truncation
import Buh.Wire.Safety
import Buh.Crypto.Primitives
import Buh.Crypto.Media
import Buh.Ratchet.Message
import Buh.Ratchet.Chain
import Buh.Ratchet.State
import Buh.Ratchet.Placement
import Buh.Ratchet.Session
import Buh.Crypto.PostQuantum
import Buh.Crypto.Symbolic
import Buh.Library.Deduction
import Buh.Library.Overlay
import Buh.Ratchet.Secrecy
import Buh.Ratchet.Persist
import Buh.Ratchet.Restore
import Buh.Ratchet.Evolution
import Buh.Ratchet.Authenticity
import Buh.Ratchet.Flags
import Buh.Ratchet.Failure
import Buh.Ratchet.Skipping
import Buh.Ratchet.Receiving
import Buh.Ratchet.Panics
import Buh.Ratchet.Counters
import Buh.Ratchet.Coverage
import Buh.Ratchet.Stamps
import Buh.Ratchet.Reordering
import Buh.Ratchet.Epochs
import Buh.Ratchet.Alignment
import Buh.Ratchet.Lockstep
import Buh.Ratchet.Delivery
import Buh.Ratchet.Healing
import Buh.Ratchet.Losses
import Buh.Ratchet.Backlog
import Buh.Handshake.Prekey
import Buh.Handshake.Pqxdh
import Buh.Handshake.Invitation
import Buh.Handshake.Signing
import Buh.Handshake.Reserved
import Buh.Handshake.Reencoding
import Buh.Handshake.Hybrid
import Buh.Library.Base64
import Buh.Library.PaddedBase64
import Buh.Handshake.Uri
import Buh.Library.Simulation
import Buh.Client.Ffi
import Buh.Client.Exchange
import Buh.Client.Invites
import Buh.Client.Truncation
import Buh.Client.FirstContact
import Buh.Library.RowTable
import Buh.Library.Runs
import Buh.Relay.Mailbox
import Buh.Relay.Refinement
import Buh.Client.Relayed
import Buh.Client.Browser
import Buh.Relay.Sweeping
import Buh.Relay.Retention
import Buh.Relay.Http
import Buh.Relay.Acknowledgement
import Buh.Relay.Faults
import Buh.Relay.LongPoll
import Buh.Relay.Poisoning
import Buh.Library.Trimming
import Buh.Node.Trust
import Buh.Node.Spelling
import Buh.Node.Console
import Buh.Node.Authority
import Buh.Node.Interruption
import Buh.Node.Rotation
import Buh.Node.Migrate
import Buh.Library.UnixPath
import Buh.Library.FileTree
import Buh.Blob.Resolve
import Buh.Blob.Store
import Buh.Blob.Overlap
import Buh.Blob.Api
import Buh.Client.Attachments
import Buh.Client.Leakage
import Buh.Client.KeyStore
