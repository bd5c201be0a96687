import XrayRs.AppConfig
import XrayRs.ByteConservation
import XrayRs.CidrBlocks
import XrayRs.DatagramCodecs
import XrayRs.DomainLabels
import XrayRs.EgressCompile
import XrayRs.FramedBilling
import XrayRs.FramedRelay
import XrayRs.FramedUdp
import XrayRs.GrpcEnds
import XrayRs.GrpcFields
import XrayRs.GrpcPaths
import XrayRs.GrpcSend
import XrayRs.GrpcSplit
import XrayRs.HalfClose
import XrayRs.HttpOrigin
import XrayRs.HttpUpgrade
import XrayRs.IdleTimer
import XrayRs.InboundAccess
import XrayRs.InboundHeaders
import XrayRs.KeyedTree
import XrayRs.ListenerFlows
import XrayRs.MuxDatagrams
import XrayRs.MuxIdle
import XrayRs.MuxUdpUplinks
import XrayRs.NestedSwap
import XrayRs.PanelNodeString
import XrayRs.PanelPolling
import XrayRs.PanelUpdates
import XrayRs.PanelVersions
import XrayRs.RouteFlows
import XrayRs.SessionBilling
import XrayRs.Shadowsocks
import XrayRs.SniffNames
import XrayRs.Socks
import XrayRs.SocksAddr
import XrayRs.SsHop
import XrayRs.SsUdp
import XrayRs.SsUdpSessions
import XrayRs.TrafficPolls
import XrayRs.TrojanUdp
import XrayRs.TunnelFlows
import XrayRs.UserChanges
import XrayRs.UserTags
import XrayRs.UuidText
import XrayRs.VmessBody
import XrayRs.VmessHandshake
import XrayRs.VmessHeader
import XrayRs.VmessHotset
import XrayRs.VmessReplay
import XrayRs.WsTunnel
import XrayRs.Dialing
import XrayRs.PanelAccess
import XrayRs.ReportDelivery
