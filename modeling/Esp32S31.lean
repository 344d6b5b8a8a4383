import Esp32S31.Lib.Machine
import Esp32S31.Lib.Circular
import Esp32S31.Lib.Word
import Esp32S31.Lib.Field
import Esp32S31.Lib.Division
import Esp32S31.Lib.Protobuf
import Esp32S31.Lib.Doorbell
import Esp32S31.Lib.Buffer
import Esp32S31.Lib.Dialogue
import Esp32S31.Lib.Monitor
import Esp32S31.Lib.Notice
import Esp32S31.Lib.Nor
import Esp32S31.Lib.Scan
import Esp32S31.Shm.Ring
import Esp32S31.Shm.Record
import Esp32S31.Shm.Write
import Esp32S31.Shm.Delivery
import Esp32S31.Shm.InOrder
import Esp32S31.Shm.HostTx
import Esp32S31.Shm.TxQueue
import Esp32S31.Flash.Mailbox
import Esp32S31.Flash.ExactlyOnce
import Esp32S31.Flash.Read
import Esp32S31.Flash.Wake
import Esp32S31.Flash.Service
import Esp32S31.Flash.Write
import Esp32S31.Flash.Erase
import Esp32S31.Flash.Store
import Esp32S31.Flash.Partition
import Esp32S31.Shm.System
import Esp32S31.Shm.Sides
import Esp32S31.Shm.Hostile
import Esp32S31.Shm.HostSide
import Esp32S31.Shm.Wakeups
import Esp32S31.Shm.Doorbell
import Esp32S31.Shm.Requests
import Esp32S31.I2c.Controller
import Esp32S31.I2c.Driver
import Esp32S31.I2c.Reference
import Esp32S31.I2c.Performs
import Esp32S31.I2c.Fill
import Esp32S31.I2c.Transfer
import Esp32S31.I2c.Concurrent
import Esp32S31.I2c.Remainder
import Esp32S31.I2c.Turns
import Esp32S31.I2c.Stages
import Esp32S31.I2c.Phases
import Esp32S31.I2c.Lockstep
import Esp32S31.I2c.Isolation
import Esp32S31.I2c.Timing
import Esp32S31.I2c.Lists
import Esp32S31.Serial.Baud
import Esp32S31.Serial.Transmit
import Esp32S31.Clk.Sdio
import Esp32S31.Lib.Rmw
import Esp32S31.Clk.Shared
import Esp32S31.Timer.Event
import Esp32S31.Timer.Value
import Esp32S31.Led.Ws2812
import Esp32S31.Efuse.Mac
import Esp32S31.Irq.Clic
import Esp32S31.Irq.Work
import Esp32S31.BleHa.Hci
import Esp32S31.BleHa.Improv
import Esp32S31.Boot.Loader
import Esp32S31.Lib.Pmp
import Esp32S31.Boot.Protection
import Esp32S31.Boot.Display
import Esp32S31.BleHa.Gatt
import Esp32S31.BleHa.Api
import Esp32S31.BleHa.State
import Esp32S31.BleHa.Wpa
import Esp32S31.BleHa.Daemon
import Esp32S31.BleHa.Frames
import Esp32S31.BleHa.Recovery
import Esp32S31.BleHa.Rounds
import Esp32S31.BleHa.Session
import Esp32S31.BleHa.Provisioning
import Esp32S31.BleHa.Credits
import Esp32S31.BleHa.Sizes
import Esp32S31.BleHa.Join
import Esp32S31.BleHa.Control
import Esp32S31.BleHa.Advertising
import Esp32S31.BleHa.Scanning
import Esp32S31.BleHa.Reassembly
import Esp32S31.BleHa.Discovery
import Esp32S31.Cache.Sbi
import Esp32S31.Cache.Driver
import Esp32S31.Lib.Framing
import Esp32S31.BleHa.Stream
import Esp32S31.BleHa.Codec
import Esp32S31.Lib.Slice
import Esp32S31.Lib.Counted
import Esp32S31.BleHa.Grammar
import Esp32S31.BleHa.Result
import Esp32S31.BleHa.Prepared
import Esp32S31.BleHa.Pieces
import Esp32S31.BleHa.LongRead
import Esp32S31.BleHa.Batches
import Esp32S31.BleHa.BatchSize
import Esp32S31.BleHa.Reports
import Esp32S31.BleHa.BatchDecode
import Esp32S31.Lib.SpinLock
import Esp32S31.Cache.Lock
import Esp32S31.Cache.Exclusion
import Esp32S31.Lib.Text
import Esp32S31.Pinctrl.Registers
import Esp32S31.Pinctrl.Board
import Esp32S31.Pinctrl.Snapshot
import Esp32S31.Pinctrl.Set
import Esp32S31.Pinctrl.Readback
import Esp32S31.Pinctrl.Driver
import Esp32S31.Pinctrl.Owners
import Esp32S31.Pinctrl.Agreement
import Esp32S31.Pinctrl.Items
import Esp32S31.Pinctrl.Pins
import Esp32S31.Pinctrl.Command
import Esp32S31.ThreadRelay.Relay
import Esp32S31.ThreadRelay.Streams
