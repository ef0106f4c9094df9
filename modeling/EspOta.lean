import EspOta.Lib.Run
import EspOta.Lib.Transfer
import EspOta.Zigbee.Server
import EspOta.Zigbee.Client
import EspOta.Zigbee.ServerRuns
import EspOta.Zigbee.ClientRuns
import EspOta.Zigbee.EndToEnd
import EspOta.Zigbee.Handles
import EspOta.Zigbee.Stack
import EspOta.Ble.Sender
import EspOta.Ble.Receiver
import EspOta.Ble.SenderFormat
import EspOta.Ble.Delivery
import EspOta.Ble.OtaTask
import EspOta.Ble.DeviceRuns
import EspOta.Ble.Restarts
import EspOta.Lib.CString
import EspOta.Wifi.Ota
import EspOta.Wifi.Bounds
import EspOta.Ble.Stuck
import EspOta.Ble.BootChoice
import EspOta.Ble.ByteStream
import EspOta.PartitionTable
import EspOta.Ble.TargetPartition
import EspOta.Ble.SectorCheck
import EspOta.Ble.PacketSize
import EspOta.Ble.NoisyLink
import EspOta.Lib.Progress
import EspOta.Ble.Update
import EspOta.Ble.UpdateEnds
import EspOta.Ble.Protocomm
import EspOta.Zigbee.Notify
import EspOta.Zigbee.Alone
import EspOta.Zigbee.Commissioning
import EspOta.Wifi.Exits
import EspOta.Wifi.Reboots
import EspOta.Wifi.Connect
import EspOta.Wifi.ConnectRuns
import EspOta.Wifi.SemaphoreLife
import EspOta.Wifi.Reconnect
import EspOta.Nvs
import EspOta.Wifi.App
import EspOta.Ble.Board
import EspOta.Zigbee.Boots
import EspOta.Wifi.Sha256
import EspOta.Ble.Boots
