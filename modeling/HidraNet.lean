import HidraNet.Core.Import
import HidraNet.Issuer.Conservation
import HidraNet.Issuer.Index
import HidraNet.Issuer.ClaimPath
import HidraNet.Node.SpentFiles
import HidraNet.Node.SessionWindow
import HidraNet.Dht.Quota
import HidraNet.Dht.Lookup
import HidraNet.Dht.Pingbacks
import HidraNet.Dht.Publishing
import HidraNet.Onion.Piped
import HidraNet.Relay.IntroRegistry
import HidraNet.Relay.Circuits
import HidraNet.Relay.Bridge
import HidraNet.Relay.Sessions
import HidraNet.Crypto.Agreement
import HidraNet.Hidrarelay.Room
import HidraNet.Hidrarelay.Store
import HidraNet.Hidrarelay.Subscribers
import HidraNet.Vpn.TwoHops
import HidraNet.Node.Forward
import HidraNet.Vpn.Disconnect
import HidraNet.Vpn.KillSwitch
import HidraNet.Node.Tunnel
import HidraNet.Node.Standing
import HidraNet.Core.NetcfgCrash
import HidraNet.Node.Routes
import HidraNet.Hidramail.Visitors
import HidraNet.Hidramail.Signed
import HidraNet.Hidramail.Sent
import HidraNet.Hidrachat.ClientFrames
import HidraNet.Hidrachat.Delivery
import HidraNet.Sevennine.OneKey
import HidraNet.Crypto.Crashes
import HidraNet.Crypto.ServiceSessions
import HidraNet.Browser.OpenLock
import HidraNet.Core.KnownNodes
import HidraNet.Hidrachat.Envelope
import HidraNet.Browser.UpdateNotice
import HidraNet.Forum.RegistrarRuns
import HidraNet.Browser.VpnInstaller
import HidraNet.Browser.Tabs
import HidraNet.Forum.Reader
import HidraNet.Issuer.Dates
import HidraNet.Core.Base58
import HidraNet.Issuer.Amounts
import HidraNet.Issuer.Quorum
import HidraNet.Core.RequestCuts
import HidraNet.Client.Redeems
import HidraNet.Dht.Deliveries
import HidraNet.Dht.Tracking
import HidraNet.Issuer.Rate
import HidraNet.Client.Rotation
import HidraNet.Vpn.KillInput
import HidraNet.Hidrarelay.Mqtt
import HidraNet.Network.Frames
import HidraNet.Onion.Streams
import HidraNet.Hidrarelay.Index
import HidraNet.Relay.ExitPolicy
import HidraNet.MailPage.Notice
import HidraNet.MailPage.Arrivals
import HidraNet.Hidrareview.Payments
import HidraNet.Proxy.StreamHandler
import HidraNet.Proxy.CircuitPool
