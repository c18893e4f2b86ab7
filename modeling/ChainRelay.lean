import ChainRelay.Chain.Json
import ChainRelay.Connection.GoldenVector
import ChainRelay.Network.Run
import ChainRelay.Proofs.BlockFetch.Client
import ChainRelay.Proofs.BlockFetch.Range
import ChainRelay.Proofs.Cbor.FixedPoint
import ChainRelay.Proofs.Cbor.Identity
import ChainRelay.Proofs.Chain.Fixture
import ChainRelay.Proofs.Chain.Upkeep
import ChainRelay.Proofs.ChainSync.Dialogue
import ChainRelay.Proofs.ChainSync.Outage
import ChainRelay.Proofs.ChainSync.Position
import ChainRelay.Proofs.ChainSync.Reposition
import ChainRelay.Proofs.ChainSync.Return
import ChainRelay.Proofs.ChainSync.Stall
import ChainRelay.Proofs.ChainSync.Synchrony
import ChainRelay.Proofs.ChainSync.Wakeup
import ChainRelay.Proofs.ChainSync.Window
import ChainRelay.Proofs.Handshake.Query
import ChainRelay.Proofs.KeepAlive.Echo
import ChainRelay.Proofs.Protocol.Exact
import ChainRelay.Proofs.Protocol.Pairings
import ChainRelay.Proofs.Server.Gate
import ChainRelay.Proofs.Session.Endings
import ChainRelay.Proofs.Session.Query
import ChainRelay.Proofs.Wire.Fragment
import ChainRelay.Proofs.Wire.Isolation
import ChainRelay.Proofs.Wire.Remainder
import ChainRelay.Report.Node
import ChainRelay.Telemetry
