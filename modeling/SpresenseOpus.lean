import SpresenseOpus.Library.Machine
import SpresenseOpus.Library.Words
import SpresenseOpus.Library.Records
import SpresenseOpus.Library.Blocks
import SpresenseOpus.Library.Reads
import SpresenseOpus.Library.Slot
import SpresenseOpus.Library.Mailbox
import SpresenseOpus.Library.Service
import SpresenseOpus.Library.Lockstep
import SpresenseOpus.Library.Polling
import SpresenseOpus.Codec.Libopus
import SpresenseOpus.Codec.FrameSize
import SpresenseOpus.Codec.Calls
import SpresenseOpus.Codec.OggHeaders
import SpresenseOpus.Codec.OggWriter
import SpresenseOpus.Codec.OggStream
import SpresenseOpus.Codec.Sample
import SpresenseOpus.Codec.OggDrain
import SpresenseOpus.Codec.OggPages
import SpresenseOpus.Worker.Command
import SpresenseOpus.Worker.Loop
import SpresenseOpus.Worker.Turn
import SpresenseOpus.Worker.Peer
import SpresenseOpus.Worker.Receive
import SpresenseOpus.Worker.Length
import SpresenseOpus.Worker.Readiness
import SpresenseOpus.Worker.Opening
import SpresenseOpus.Worker.Sessions
import SpresenseOpus.Worker.Stream
import SpresenseOpus.Worker.Conservation
import SpresenseOpus.Worker.Redundant
import SpresenseOpus.Worker.Grammar
import SpresenseOpus.Worker.Failure
import SpresenseOpus.Worker.Capacity
import SpresenseOpus.Worker.Positions
import SpresenseOpus.Worker.FrameLength
import SpresenseOpus.Worker.Progress
import SpresenseOpus.Host.Encoder
import SpresenseOpus.Host.OpusDemo
import SpresenseOpus.Host.DemoErrors
import SpresenseOpus.Host.OggFile
import SpresenseOpus.Host.Agreement
import SpresenseOpus.Host.Positions
import SpresenseOpus.Host.FrameLength
import SpresenseOpus.Host.Opusenc
import SpresenseOpus.Worker.HostSimulation
import SpresenseOpus.MainCore.Recorder
import SpresenseOpus.MainCore.Positions
import SpresenseOpus.MainCore.FrameLength
import SpresenseOpus.MainCore.HostSimulation
import SpresenseOpus.Subcore.Pipeline
import SpresenseOpus.Subcore.Encoder
import SpresenseOpus.Subcore.System
import SpresenseOpus.Subcore.Stream
import SpresenseOpus.Driver.DspDrv
import SpresenseOpus.Driver.System
import SpresenseOpus.Driver.Buffers
import SpresenseOpus.Driver.Ownership
import SpresenseOpus.Driver.Session
import SpresenseOpus.Driver.Load
