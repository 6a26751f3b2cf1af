import Nvnmchain.Lib.GoBytes
import Nvnmchain.Lib.Hash
import Nvnmchain.Lib.OrderedMap
import Nvnmchain.Lib.Transition
import Nvnmchain.Lib.Utf8
import Nvnmchain.Lib.Word
import Nvnmchain.Lib.SolidityStorage
import Nvnmchain.Lib.SolidityRows
import Nvnmchain.Lib.Runs
import Nvnmchain.Anchoring.Types
import Nvnmchain.Anchoring.Rbac
import Nvnmchain.Anchoring.Messages
import Nvnmchain.Anchoring.Keeper
import Nvnmchain.Anchoring.MsgServer
import Nvnmchain.Anchoring.Delivery
import Nvnmchain.Anchoring.Genesis
import Nvnmchain.Anchoring.Run
import Nvnmchain.Anchoring.Stored
import Nvnmchain.Anchoring.StoreInv
import Nvnmchain.Anchoring.History
import Nvnmchain.Anchoring.RoleScope
import Nvnmchain.Anchoring.Isolation
import Nvnmchain.Anchoring.GenesisImport
import Nvnmchain.Anchoring.GenesisRoundTrip
import Nvnmchain.Anchoring.GenesisJson
import Nvnmchain.Evmlayout.Layout
import Nvnmchain.Evmlayout.Migrate
import Nvnmchain.Evmlayout.Rows
import Nvnmchain.Evmlayout.Collected
import Nvnmchain.Evmlayout.Contents
import Nvnmchain.Evmlayout.Reader
import Nvnmchain.Evmlayout.Faithful
import Nvnmchain.Evmlayout.WriteOnce
import Nvnmchain.Evmlayout.Dump
import Nvnmchain.Anchoring.GenesisValidate
import Nvnmchain.Anchoring.GenesisRoles
import Nvnmchain.Anchoring.GenesisRebuilt
import Nvnmchain.Anchoring.Numbering
import Nvnmchain.Lib.Lockstep
import Nvnmchain.Anchoring.Commute
import Nvnmchain.Lib.Coins
import Nvnmchain.Tax.Keeper
import Nvnmchain.Tax.Allocation
import Nvnmchain.Tax.Run
import Nvnmchain.Nameindex.Store
import Nvnmchain.Nameindex.Converge
import Nvnmchain.Anchoring.Query
import Nvnmchain.Precompile.Execute
import Nvnmchain.Precompile.Consensus
import Nvnmchain.Evmlayout.Trace
import Nvnmchain.Evmlayout.Groups
import Nvnmchain.Lib.RawStore
import Nvnmchain.Anchoring.StoreMigration
import Nvnmchain.Lib.Effects
import Nvnmchain.Precompile.Gates
import Nvnmchain.Precompile.Refine
import Nvnmchain.Anchoring.Paging
import Nvnmchain.Anchoring.Listing
import Nvnmchain.Anchoring.Filters
import Nvnmchain.Lib.SqlText
import Nvnmchain.Lib.Cursor
import Nvnmchain.Nameindex.Literal
import Nvnmchain.Nameindex.Pages
import Nvnmchain.Evmlayout.RoundTrip
import Nvnmchain.Anchoring.NextKey
import Nvnmchain.Anchoring.Ledger
import Nvnmchain.Anchoring.Represents
import Nvnmchain.Anchoring.LedgerRefines
import Nvnmchain.Anchoring.Anchorings
import Nvnmchain.Precompile.Called
import Nvnmchain.Lib.AbiCodec
import Nvnmchain.Precompile.Generated
import Nvnmchain.Lib.AbiBasic
import Nvnmchain.Precompile.Client
import Nvnmchain.Precompile.Native
import Nvnmchain.Precompile.Chain
import Nvnmchain.Precompile.Replay
import Nvnmchain.Evmlayout.Pipeline
import Nvnmchain.Evmlayout.Views
import Nvnmchain.Anchoring.Coalition
import Nvnmchain.Lib.Trigram
import Nvnmchain.Nameindex.Fulltext
import Nvnmchain.Nameindex.EndToEnd
import Nvnmchain.Anchoring.Enabled
import Nvnmchain.Anchoring.RoleAdmins
