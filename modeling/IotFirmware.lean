import IotFirmware.Links.EspNowReceive
import IotFirmware.Links.EspNowSend
import IotFirmware.Links.EspNowUplink
import IotFirmware.Links.LoRaVerdict
import IotFirmware.Protocols.DlmsAddressing
import IotFirmware.Buses.UartTiming
import IotFirmware.Config.SetCommand
import IotFirmware.Bringup.MeterGateHistory
import IotFirmware.Buffering.ReadingBufferRefinement
import IotFirmware.Buffering.RelayRotation
import IotFirmware.Buffering.SeqCounter
import IotFirmware.Links.LoRaSend
import IotFirmware.Nodes.FreshReadings
import IotFirmware.Nodes.SubstationRelay
import IotFirmware.Nodes.SubstationBackoff
import IotFirmware.Nodes.SubstationBeacon
import IotFirmware.Nodes.SubstationCapacity
import IotFirmware.Nodes.GatewayDelivery
import IotFirmware.Network.DeliverySoundness
import IotFirmware.Network.DuplicateSuppression
import IotFirmware.Network.FieldRecovery
import IotFirmware.Network.FleetDelivery
import IotFirmware.Network.FieldOrder
import IotFirmware.Network.JoinAgreement
import IotFirmware.Protocols.AareExact
import IotFirmware.Protocols.CamHttpGood
import IotFirmware.Protocols.DlmsBounds
import IotFirmware.Protocols.DlmsNumbering
import IotFirmware.Protocols.HdlcDetection
import IotFirmware.Protocols.IecClock
import IotFirmware.Protocols.IecDamage
import IotFirmware.Protocols.NoiseResync
import IotFirmware.Protocols.ObisRequested
import IotFirmware.Protocols.ModbusAcceptance
import IotFirmware.Protocols.ModbusAttribution
import IotFirmware.Nodes.IrMeterNode
import IotFirmware.Network.FleetMessages
