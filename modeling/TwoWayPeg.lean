import TwoWayPeg.Bridge
import TwoWayPeg.Constants.Json
import TwoWayPeg.Proofs.Application
import TwoWayPeg.Proofs.Commitment
import TwoWayPeg.Proofs.Corruption
import TwoWayPeg.Proofs.CreationHeight
import TwoWayPeg.Proofs.Drain
import TwoWayPeg.Proofs.DryRun
import TwoWayPeg.Proofs.Federators
import TwoWayPeg.Proofs.FeeEstimate
import TwoWayPeg.Proofs.FeeRate
import TwoWayPeg.Proofs.Loading
import TwoWayPeg.Proofs.PegoutIndex
import TwoWayPeg.Proofs.Rejection
import TwoWayPeg.Proofs.Release
import TwoWayPeg.Proofs.Watch
import TwoWayPeg.Proofs.WatchWallet
import TwoWayPeg.Proofs.Number
import TwoWayPeg.Proofs.Branch
import TwoWayPeg.Proofs.ScriptIdentity
import TwoWayPeg.Proofs.Bounds
import TwoWayPeg.Proofs.FederationIdentity
import TwoWayPeg.Proofs.Base58
import TwoWayPeg.Proofs.AddressText
import TwoWayPeg.Proofs.Quorum
import TwoWayPeg.Proofs.VoteHistory
import TwoWayPeg.Proofs.ConstantsText
