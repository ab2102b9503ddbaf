import Nouns.Lib.Base64
import Nouns.Lib.CallMachine
import Nouns.Lib.DelegatedVotes
import Nouns.Lib.EventLog
import Nouns.Lib.FlagTrace
import Nouns.Lib.Inbox
import Nouns.Lib.IndexedArray
import Nouns.Lib.Interning
import Nouns.Lib.Json
import Nouns.Lib.JsMap
import Nouns.Lib.JsText
import Nouns.Lib.KeyedLog
import Nouns.Lib.Painting
import Nouns.Lib.PartialMap
import Nouns.Lib.RunLength
import Nouns.Lib.StampedArray
import Nouns.Lib.Traces
import Nouns.Token.NounsToken
import Nouns.Token.NounsSeeder
import Nouns.Auction.House
import Nouns.Auction.System
import Nouns.Governance.Executor
import Nouns.Governance.NounsDAO
import Nouns.Governance.System
import Nouns.Assets.Utils
import Nouns.Descriptor.MultiPartRLEToSVG
import Nouns.Descriptor.NounsDescriptor
import Nouns.Descriptor.System
import Nouns.Sdk.Image
import Nouns.Sdk.SvgBuilder
import Nouns.Sdk.PngCollectionEncoder
import Nouns.Assets.Encode
import Nouns.Descriptor.PopulateDescriptor
import Nouns.Subgraph.Store
import Nouns.Subgraph.TokenHandlers
import Nouns.Subgraph.DAOHandlers
import Nouns.Subgraph.AuctionHandlers
import Nouns.Subgraph.Handlers
import Nouns.Subgraph.GovernanceFeed
import Nouns.Webapp.OnDisplayAuction
import Nouns.Webapp.AuctionSlice
import Nouns.Webapp.LogParsing
import Nouns.Webapp.Logs
import Nouns.Webapp.NounsDao
import Nouns.Proof.TokenEffects
import Nouns.Proof.TokenCalls
import Nouns.Proof.TokenInvariant
import Nouns.Proof.TokenCustody
import Nouns.Proof.IdAllocation
import Nouns.Proof.Enumeration
import Nouns.Proof.VoteHistory
import Nouns.Proof.VoteSupply
import Nouns.Proof.VotesBacked
import Nouns.Proof.VotingPower
import Nouns.Proof.Timelock
import Nouns.Proof.GovernanceShapes
import Nouns.Proof.GovernanceEffects
import Nouns.Proof.Lifecycle
import Nouns.Proof.TreasuryAuthority
import Nouns.Proof.StaysExecutable
import Nouns.Proof.Queueing
import Nouns.Proof.VoteSnapshot
import Nouns.Proof.Tallies
import Nouns.Proof.LiveProposal
import Nouns.Proof.UnmadeProposals
import Nouns.Proof.TransferAuthority
import Nouns.Proof.SignedDelegations
import Nouns.Proof.DAOSettings
import Nouns.Proof.VetoPower
import Nouns.Proof.Provenance
import Nouns.Proof.MajorityGoverns
import Nouns.Proof.AuctionActs
import Nouns.Proof.AuctionBooks
import Nouns.Proof.HouseInvariant
import Nouns.Proof.AntiSniping
import Nouns.Proof.AuctionAccounting
import Nouns.Proof.BidIncrements
import Nouns.Proof.Custody
import Nouns.Proof.Settling
import Nouns.Proof.Minting
import Nouns.Proof.FailingMint
import Nouns.Proof.NounderNouns
import Nouns.Proof.SeedRange
import Nouns.Proof.LastingDrawings
import Nouns.Api.Metadata
import Nouns.Proof.MetadataServer
import Nouns.Proof.TokenLog
import Nouns.Proof.HandlerEffects
import Nouns.Proof.VoteMirror
import Nouns.Proof.HolderMirror
import Nouns.Proof.DelegationMirror
import Nouns.Proof.StatusMirror
import Nouns.Proof.SourceHandlers
import Nouns.Proof.DelegateCount
import Nouns.Proof.VoteNouns
import Nouns.Proof.ProposalMirror
import Nouns.Proof.ProposalPages
import Nouns.Proof.HouseHandlers
import Nouns.Proof.HouseMirror
import Nouns.Proof.AuctionMirror
import Nouns.Proof.SeedPrediction
import Nouns.Proof.DecodeImage
import Nouns.Proof.RendererAgreement
import Nouns.Proof.ImageRows
import Nouns.Proof.ImageRoundTrip
import Nouns.Proof.PartDrawing
import Nouns.Proof.EncodedParts
import Nouns.Proof.BoundingBox
import Nouns.Proof.PrintedPixels
import Nouns.Proof.PaletteIndices
import Nouns.Proof.BidDelivery
import Nouns.Proof.FilterKeys
import Nouns.Proof.LogCache
import Nouns.Proof.FolderedExport
import Nouns.Proof.EncodedFolders
import Nouns.Proof.Populating
import Nouns.Proof.DrawnAsPainted
import Nouns.Proof.BotAuctions
import Nouns.Proof.BotProposals
