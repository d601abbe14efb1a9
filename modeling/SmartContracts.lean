import SmartContracts.Semantics.Runs
import SmartContracts.Semantics.Failure
import SmartContracts.Data.Lists
import SmartContracts.Data.OrderedMap
import SmartContracts.Chain.Types
import SmartContracts.Chain.Host
import SmartContracts.Chain.Payments
import SmartContracts.Auction.Contract
import SmartContracts.Auction.Bidding
import SmartContracts.Auction.Settlement
import SmartContracts.Algebra.PrimeGroup
import SmartContracts.Crypto.Curve
import SmartContracts.RsMerkle.Indices
import SmartContracts.RsMerkle.Proof
import SmartContracts.Crypto.Util
import SmartContracts.Voting.Crypto
import SmartContracts.Voting.Contract
import SmartContracts.Voting.Calls
import SmartContracts.Voting.Machine
import SmartContracts.Voting.Phases
import SmartContracts.Crypto.Residues
import SmartContracts.OffChain.Keys
import SmartContracts.Voting.Tally
import SmartContracts.OffChain.Proofs
import SmartContracts.Voting.Escrow
import SmartContracts.Voting.Deadline
import SmartContracts.Voting.Settlement
import SmartContracts.Voting.Messages
import SmartContracts.Voting.Binding
import SmartContracts.Voting.OneInTwo
import SmartContracts.Voting.Result
import SmartContracts.Commerce.Contract
import SmartContracts.Commerce.Calls
import SmartContracts.Commerce.Machine
import SmartContracts.Commerce.Protocol
import SmartContracts.Commerce.Solvency
import SmartContracts.Voting.Finality
import SmartContracts.Voting.Turnout
import SmartContracts.Voting.Replay
import SmartContracts.Commerce.Dispute
import SmartContracts.Commerce.Transfers
import SmartContracts.Commerce.Timeouts
import SmartContracts.Commerce.Failing
import SmartContracts.Commerce.Stranding
import SmartContracts.Data.HashTree
import SmartContracts.RsMerkle.Climb
import SmartContracts.RsMerkle.Tree
import SmartContracts.OffChain.Membership
import SmartContracts.Voting.Authorization
import SmartContracts.Commerce.Listings
import SmartContracts.Data.Words
import SmartContracts.Commerce.Requests
import SmartContracts.Commerce.Payouts
import SmartContracts.Commerce.Arithmetic
import SmartContracts.Auction.Once
import SmartContracts.Fibonacci.Contract
import SmartContracts.Fibonacci.Accumulation
import SmartContracts.Voting.Completeness
import SmartContracts.Voting.Participants
import SmartContracts.Voting.Election
import SmartContracts.Voting.Rounds
import SmartContracts.Data.Positions
import SmartContracts.RsMerkle.Partial
import SmartContracts.RsMerkle.Multiproof
import SmartContracts.RsMerkle.Binding
import SmartContracts.RsMerkle.Growing
import SmartContracts.RsMerkle.History
import SmartContracts.Commerce.Isolation
import SmartContracts.Commerce.Closing
import SmartContracts.Data.Codec
import SmartContracts.Chain.Serial
import SmartContracts.Commerce.Encoding
import SmartContracts.Chain.Export
import SmartContracts.Commerce.Persistence
import SmartContracts.Chain.StateEntry
import SmartContracts.Chain.StateMap
import SmartContracts.Chain.Maps
import SmartContracts.Semantics.Simulation
import SmartContracts.Chain.Views
import SmartContracts.Auction.Persistence
