import AisPipeline.Lib.BitString
import AisPipeline.Lib.Numeral
import AisPipeline.Lib.Keyed
import AisPipeline.Lib.Transition
import AisPipeline.Lib.Refinement
import AisPipeline.Lib.Newest
import AisPipeline.Lib.OrderBy
import AisPipeline.Lib.KeyedTable
import AisPipeline.Lib.Register
import AisPipeline.Lib.Monitor
import AisPipeline.Lib.Lines
import AisPipeline.Lib.Counting
import AisPipeline.Lib.Polyline
import AisPipeline.Lib.Loop
import AisPipeline.Lib.Grouping
import AisPipeline.Lib.Pairs
import AisPipeline.Lib.Gaps
import AisPipeline.Lib.Delimited
import AisPipeline.Lib.PollingEffect
import AisPipeline.Lib.PolledSource
import AisPipeline.Lib.PromiseCache
import AisPipeline.Lib.Snapshots
import AisPipeline.Lib.Memo
import AisPipeline.Cpp.Text
import AisPipeline.Cpp.Number
import AisPipeline.Js.Text
import AisPipeline.Js.Number
import AisPipeline.Decoder.Payload
import AisPipeline.Decoder.StoredPayload
import AisPipeline.Decoder.AisMessage
import AisPipeline.Decoder.Sentence
import AisPipeline.Decoder.SentenceAssembler
import AisPipeline.Decoder.SentenceText
import AisPipeline.Decoder.Armour
import AisPipeline.Decoder.Decoder
import AisPipeline.Pipeline.TagBlock
import AisPipeline.Pipeline.DecoderStage
import AisPipeline.Pipeline.TaggedLine
import AisPipeline.Pipeline.LineFramer
import AisPipeline.Pipeline.TcpClient
import AisPipeline.Pipeline.ReconnectBackoff
import AisPipeline.Pipeline.ConcurrentQueue
import AisPipeline.Pipeline.Database
import AisPipeline.Pipeline.SqliteWriter
import AisPipeline.Pipeline.WriterRun
import AisPipeline.Pipeline.Disk
import AisPipeline.Api.PositionReader
import AisPipeline.Api.Server
import AisPipeline.Web.Radar
import AisPipeline.Web.Coastline
import AisPipeline.Web.Simplify
import AisPipeline.Web.GmlReader
import AisPipeline.Web.Hooks
import AisPipeline.Web.BuildCoastline
import AisPipeline.Web.UseCoastline
import AisPipeline.Web.UseRadarView
import AisPipeline.App.Main
import AisPipeline.App.ClientThread
import AisPipeline.App.Process
import AisPipeline.App.Display
import AisPipeline.Properties.Reassembly
import AisPipeline.Properties.BrokenSequences
import AisPipeline.Properties.Transparency
import AisPipeline.Properties.PositionRoundTrip
import AisPipeline.Properties.StaticRoundTrip
import AisPipeline.Properties.QueueFifo
import AisPipeline.Properties.QueueWakeups
import AisPipeline.Properties.PipelineDelivery
import AisPipeline.Properties.LatestPositions
import AisPipeline.Properties.History
import AisPipeline.Properties.Routes
import AisPipeline.Properties.RadarArea
import AisPipeline.Properties.CoastlineGaps
import AisPipeline.Properties.CrashRecovery
import AisPipeline.Properties.Pruning
import AisPipeline.Properties.NavigationRanges
import AisPipeline.Properties.BatchAtomicity
import AisPipeline.Properties.Retention
import AisPipeline.Properties.ShipStatic
import AisPipeline.Properties.Checksum
import AisPipeline.Properties.Framing
import AisPipeline.Properties.Reconnecting
import AisPipeline.Properties.LineGrammar
import AisPipeline.Properties.SentencePaths
import AisPipeline.Properties.Simplification
import AisPipeline.Properties.GmlChunks
import AisPipeline.Properties.Polling
import AisPipeline.Properties.TagBlockGrammar
import AisPipeline.Properties.BitFields
import AisPipeline.Properties.ClientLoop
import AisPipeline.Properties.ChunkRun
import AisPipeline.Properties.ProcessDelivery
import AisPipeline.Properties.Shutdown
import AisPipeline.Properties.ServedState
import AisPipeline.Properties.Broadcasts
import AisPipeline.Properties.RadarDisplay
import AisPipeline.Properties.CoastlineLoading
import AisPipeline.Properties.CoastlineDelivery
import AisPipeline.Properties.RadarViewUrl
import AisPipeline.Properties.FeedStatus
import AisPipeline.Properties.PlaceSearch
import AisPipeline.Properties.TrackDisplay
import AisPipeline.Properties.BlipIcons
