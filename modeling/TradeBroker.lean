import TradeBroker.Lib.Program
import TradeBroker.Lib.Interleave
import TradeBroker.Lib.Refinement
import TradeBroker.Lib.Python
import TradeBroker.Lib.Utf8
import TradeBroker.Lib.JsonText
import TradeBroker.Lib.JsonDump
import TradeBroker.Lib.Bytes
import TradeBroker.Lib.Digest
import TradeBroker.Lib.Scan
import TradeBroker.Lib.Confluence
import TradeBroker.Lib.Crc
import TradeBroker.Lib.Remainder
import TradeBroker.Lib.Words
import TradeBroker.Lib.Storage
import TradeBroker.Domain
import TradeBroker.Pokemon
import TradeBroker.Journal.Record
import TradeBroker.Broker.Effects
import TradeBroker.Journal.Store
import TradeBroker.Broker.Transaction
import TradeBroker.Broker.Escrow
import TradeBroker.Broker.Invariant
import TradeBroker.Broker.Walk
import TradeBroker.Broker.Script
import TradeBroker.Broker.Restart
import TradeBroker.Broker.Safety
import TradeBroker.Broker.Ownership
import TradeBroker.Broker.Evidence
import TradeBroker.Broker.Errand
import TradeBroker.Broker.Main
import TradeBroker.Broker.LastError
import TradeBroker.Broker.Mock
import TradeBroker.Journal.Atomicity
import TradeBroker.Journal.History
import TradeBroker.Journal.Reload
import TradeBroker.Journal.Content
import TradeBroker.Journal.Bytes
import TradeBroker.Journal.Concurrency
import TradeBroker.Journal.Exclusion
import TradeBroker.Journal.Drive
import TradeBroker.Broker.PowerLoss
import TradeBroker.Broker.Outage
import TradeBroker.Broker.Staging
import TradeBroker.Broker.Refinement
import TradeBroker.Broker.Status
import TradeBroker.Gba.Protocol
import TradeBroker.Gba.RoundTrip
import TradeBroker.Gba.Decoding
import TradeBroker.Gba.Progress
import TradeBroker.Gba.Corruption
import TradeBroker.Gba.Serial
import TradeBroker.Gba.Fifo
import TradeBroker.Gba.GbLink
import TradeBroker.Gba.Exchange
import TradeBroker.Gba.Cutting
import TradeBroker.Gba.Hearing
import TradeBroker.Gba.Testimony
import TradeBroker.Gba.Outer
import TradeBroker.Broker.Lifecycle
import TradeBroker.Firmware.Codec
import TradeBroker.Firmware.Buffer
import TradeBroker.Firmware.Stream
import TradeBroker.Firmware.TradeBridge
import TradeBroker.Firmware.Delivery
import TradeBroker.Firmware.Parsing
import TradeBroker.Firmware.Uplink
import TradeBroker.Firmware.Handshake
import TradeBroker.Firmware.Session
import TradeBroker.Firmware.Commit
import TradeBroker.Firmware.Agreement
import TradeBroker.Broker.Wire
