import Snzip.Lib.Prog
import Snzip.Lib.ByteOrder
import Snzip.Lib.Stdio
import Snzip.Lib.Script
import Snzip.Lib.Blocks
import Snzip.Snappy
import Snzip.Lib.Crc
import Snzip.Crc32.Checksum
import Snzip.Crc32.Paths
import Snzip.Io
import Snzip.Codec
import Snzip.Format.Chunk
import Snzip.Format.ChunkStream
import Snzip.Format.Framing
import Snzip.Format.Iwa
import Snzip.Format.EmptyContent
import Snzip.Format.Snz
import Snzip.Format.HadoopSnappy
import Snzip.Format.SnappyJava
import Snzip.Format.SnappyInJava
import Snzip.Format.Comment43
import Snzip.Format.Raw
import Snzip.StreamFormat
import Snzip.Header
import Snzip.SkipMagic
import Snzip.RoundTrip.Framing
import Snzip.RoundTrip.Iwa
import Snzip.RoundTrip.Snz
import Snzip.RoundTrip.Hadoop
import Snzip.HadoopDetection
import Snzip.Steps
import Snzip.RoundTrip.Comment43
import Snzip.RoundTrip.Java
import Snzip.Truncation
import Snzip.Grammar
import Snzip.Comment43Streams
import Snzip.ReadError
import Snzip.Verified
import Snzip.Corruption
import Snzip.Main
import Snzip.Debris
import Snzip.Survival
import Snzip.RoundTrip.Files
import Snzip.Lib.Limited
import Snzip.FullDisk
import Snzip.Skippable
import Snzip.Interchange
import Snzip.Expansion
import Snzip.HadoopStreams
import Snzip.Lib.Logged
import Snzip.Capacity
import Snzip.LengthField
import Snzip.StandardOutput
import Snzip.RawSource
import Snzip.RawClient
import Snzip.RawStream
import Snzip.ShortWrites
import Snzip.SourceRun
import Snzip.Format.Varint
import Snzip.Overlong
import Snzip.Lib.Words
import Snzip.FixedWidth
import Snzip.Lib.Moves
import Snzip.FileRuns
import Snzip.Lib.Sent
import Snzip.Streaming
import Snzip.Tuning
import Snzip.Language
import Snzip.ComesBack
import Snzip.Footprint
import Snzip.Termination
import Snzip.Lib.ShortOptions
import Snzip.Getopt
import Snzip.CommandLine
import Snzip.Distance
import Snzip.Pipe
import Snzip.RawDecoding
import Snzip.Lib.Coupled
import Snzip.Lockstep
import Snzip.Restart
import Snzip.Named
import Snzip.ThereAndBack
import Snzip.Killed
