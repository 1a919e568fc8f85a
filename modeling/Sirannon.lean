import Sirannon.AACHeader
import Sirannon.AC3Packetizer
import Sirannon.AMFNumber
import Sirannon.AMFReading
import Sirannon.AMFRoundTrip
import Sirannon.AMFValue
import Sirannon.AMFWriting
import Sirannon.AMRPacketizer
import Sirannon.AMRReceiving
import Sirannon.AMRRoundTrip
import Sirannon.AMRSending
import Sirannon.AMRTiming
import Sirannon.AMRWBPPacketizer
import Sirannon.AMRWBPReader
import Sirannon.AVCPacketizer
import Sirannon.AVCReader
import Sirannon.AVCReading
import Sirannon.AVCReceiving
import Sirannon.AVCRoundTrip
import Sirannon.AVCSending
import Sirannon.AnnexB
import Sirannon.AudioReframing
import Sirannon.Base64
import Sirannon.BitBuffer
import Sirannon.BitMemory
import Sirannon.BitString
import Sirannon.Bits
import Sirannon.BlockHash
import Sirannon.BlockRouting
import Sirannon.BoundedBuffer
import Sirannon.BoundedReading
import Sirannon.ByteMemory
import Sirannon.ChunkEmulation
import Sirannon.CommandLine
import Sirannon.Connection
import Sirannon.ConnectionInterface
import Sirannon.ESVideo
import Sirannon.EmulationPrevention
import Sirannon.ExpGolomb
import Sirannon.FFmpegDecoder
import Sirannon.FFmpegDemultiplexer
import Sirannon.FFmpegMultiplexer
import Sirannon.FFmpegReader
import Sirannon.FFmpegReaderEnd
import Sirannon.FFmpegReaderRun
import Sirannon.FixedClassifier
import Sirannon.FrameDelay
import Sirannon.FrameStamps
import Sirannon.FrameTranscoding
import Sirannon.GOPSplitter
import Sirannon.H264Parsing
import Sirannon.H264PictureOrder
import Sirannon.H264SliceHeader
import Sirannon.HTTPConnection
import Sirannon.HTTPFraming
import Sirannon.HTTPHeader
import Sirannon.HTTPReading
import Sirannon.HTTPReceiving
import Sirannon.HTTPRoundTrip
import Sirannon.HTTPSafety
import Sirannon.HTTPSending
import Sirannon.HmacSha256
import Sirannon.Link
import Sirannon.LiveReader
import Sirannon.LossyDelivery
import Sirannon.MP2Packetizer
import Sirannon.MP2RoundTrip
import Sirannon.MP2Unpacketizer
import Sirannon.MP4Packetizer
import Sirannon.MP4Receiving
import Sirannon.MP4RoundTrip
import Sirannon.MP4Sending
import Sirannon.MP4Video
import Sirannon.MachineInt
import Sirannon.MarkerAccounting
import Sirannon.MediaFolder
import Sirannon.MediaPacket
import Sirannon.Multiplexer
import Sirannon.NALUDrop
import Sirannon.OrderedMerge
import Sirannon.PESAudio
import Sirannon.PESHeader
import Sirannon.PESPacketizer
import Sirannon.PESRoundTrip
import Sirannon.PESSending
import Sirannon.PacketBuffer
import Sirannon.PacketHeap
import Sirannon.Packetizer
import Sirannon.PathResolution
import Sirannon.PortManager
import Sirannon.ProcessorManager
import Sirannon.RTMPChunkFormat
import Sirannon.RTMPChunkReceive
import Sirannon.RTMPChunkSend
import Sirannon.RTMPChunkSize
import Sirannon.RTMPChunkStream
import Sirannon.RTMPClient
import Sirannon.RTMPFraming
import Sirannon.RTMPHandshake
import Sirannon.RTMPInterleaving
import Sirannon.RTMPMetadata
import Sirannon.RTMPPacketizer
import Sirannon.RTMPPlay
import Sirannon.RTMPReassembly
import Sirannon.RTMPReceiveSteps
import Sirannon.RTMPRefinement
import Sirannon.RTMPTClient
import Sirannon.RTMPTConnection
import Sirannon.RTMPTOwnership
import Sirannon.RTMPTServer
import Sirannon.RTMPTTunnel
import Sirannon.RTMPTagRoundTrip
import Sirannon.RTMPTagSending
import Sirannon.RTMPVideoTime
import Sirannon.RTPTiming
import Sirannon.RTSPAnswers
import Sirannon.RTSPSession
import Sirannon.RateClock
import Sirannon.Recurrence
import Sirannon.Rescale
import Sirannon.Restamp
import Sirannon.Routing
import Sirannon.SDP
import Sirannon.Scheduler
import Sirannon.SchedulerClock
import Sirannon.SchedulerRelease
import Sirannon.SchedulerSpread
import Sirannon.SeekableFile
import Sirannon.Sha256
import Sirannon.SirannonPacketizer
import Sirannon.SortedPrefixes
import Sirannon.StableMerge
import Sirannon.StartCodes
import Sirannon.StateError
import Sirannon.TCPTransport
import Sirannon.TSClock
import Sirannon.TSDemultiplexer
import Sirannon.TSLossDetection
import Sirannon.TSMemorySafety
import Sirannon.TSMultiplexer
import Sirannon.TSMultiplexing
import Sirannon.TSOutputOrder
import Sirannon.TSPacketShape
import Sirannon.TSPassEnds
import Sirannon.TSPassRules
import Sirannon.TSPassTiming
import Sirannon.TSQueueDepth
import Sirannon.TSQueueTiming
import Sirannon.TSTableRepetition
import Sirannon.TSTables
import Sirannon.TSTruncation
import Sirannon.TSTurns
import Sirannon.Thinning
import Sirannon.TimeSplitter
import Sirannon.TranscoderAudio
import Sirannon.TranscoderVideo
import Sirannon.UDPReceiver
import Sirannon.UnpackControl
import Sirannon.Url
import Sirannon.UrlRoundTrip
import Sirannon.VideoExtraAgreement
import Sirannon.VideoExtraData
import Sirannon.VideoExtraRecord
import Sirannon.VideoExtraRoundTrip
import Sirannon.VideoExtraTermination
import Sirannon.Zip
