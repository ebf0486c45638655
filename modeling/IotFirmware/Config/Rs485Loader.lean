import IotFirmware.Config.Nvs
import IotFirmware.Interfaces.SharedPayload
import IotFirmware.Protocols.DlmsCosem
import IotFirmware.Protocols.ModbusRtu

/-! The config of the RS485 node, read from NVS with its defaults. Numbers are
cut to the width of their field. -/
namespace IotFirmware

abbrev SerialConfig := UInt32

def serial8N1 : SerialConfig := 0x800001C

structure Rs485Config where
  rx : UInt8
  tx : UInt8
  dere : UInt8
  baudRate : UInt32
  format : SerialConfig

inductive ReaderType where
  | modbusRtu
  | iec62056
  | iems
  | modbusTcp
  | camHttp
  | dlmsCosem
  | dlmsTcp
  | unknown (code : UInt8)

def ReaderType.ofByte (code : UInt8) : ReaderType :=
  if code = 0 then .modbusRtu else if code = 1 then .iec62056 else if code = 2 then .iems
  else if code = 3 then .modbusTcp else if code = 4 then .camHttp else if code = 5 then .dlmsCosem
  else if code = 6 then .dlmsTcp else .unknown code

inductive MeterModel where
  | simulatedSerial
  | simulatedTcp
  | unknown (code : UInt8)
  deriving DecidableEq

def MeterModel.ofByte (code : UInt8) : MeterModel :=
  if code = 0 then .simulatedSerial else if code = 1 then .simulatedTcp else .unknown code

structure SoftApConfig where
  ssid : List UInt8
  password : List UInt8
  dhcpStart : UInt8

structure EspNowConfig where
  channel : UInt8
  sendTimeoutMs : UInt32

structure TcpBusConfig where
  host : List UInt8
  port : UInt16
  connectTimeoutMs : UInt32

/-- Everything the RS485 node needs. The Modbus and the DLMS settings have one
bus, so it stands here beside both. -/
structure Rs485NodeConfig where
  uid : Uid
  communityId : UInt8
  unitId : UInt8
  readerType : ReaderType
  ap : SoftApConfig
  espNow : EspNowConfig
  meterModel : MeterModel
  pollIntervalMs : UInt32
  bus : Rs485Config
  modbus : ModbusRtuConfig
  tcp : TcpBusConfig
  dlms : DlmsCosemConfig

def rs485RxPin : UInt8 := 1
def rs485TxPin : UInt8 := 9
def rs485DerePin : UInt8 := 10

def dlmsImportObis : Vector UInt8 6 := #v[1, 0, 1, 8, 0, 255]
def dlmsExportObis : Vector UInt8 6 := #v[1, 0, 2, 8, 0, 255]
def dlmsVoltageObis : Vector UInt8 6 := #v[1, 0, 32, 7, 0, 255]

def secretApSsid : List UInt8 := ascii "kaizen-rs485"
def secretApPass : List UInt8 := ascii "kaizen123"
def secretModbusSimHost : List UInt8 := ascii "192.168.4.2"
def secretModbusSimPort : UInt32 := 5020

structure MeterModelEntry where
  model : MeterModel
  voltage : UInt16
  importEnergy : UInt16
  exportEnergy : UInt16

def meterModels : List MeterModelEntry := [⟨.simulatedSerial, 0, 4, 2⟩, ⟨.simulatedTcp, 0, 4, 2⟩]

/-- The register map of a model, or the first one when the model is unknown. -/
def lookupMeterModel (model : MeterModel) : MeterModelEntry :=
  (meterModels.find? (·.model = model)).getD ⟨.simulatedSerial, 0, 4, 2⟩

def loadRs485Config (nvs : Nvs) : Rs485Config where
  rx := rs485RxPin
  tx := rs485TxPin
  dere := rs485DerePin
  baudRate := nvs.readU32 (ascii "baud") 9600
  format := serial8N1

def loadModbusRtuConfig (nvs : Nvs) (entry : MeterModelEntry) : ModbusRtuConfig where
  registerFormat := .ieee754Float
  slaveAddress := (nvs.readU32 (ascii "slave_addr") 1).toUInt8
  functionCode := 0x03
  voltageAddress := entry.voltage
  importAddress := entry.importEnergy
  exportAddress := entry.exportEnergy

/-- The DLMS settings, each number cut to its field. -/
def loadDlmsCosemConfig (nvs : Nvs) : DlmsCosemConfig where
  clientSap := (nvs.readU32 (ascii "dlms_client") 16).toUInt8
  serverLogical := (nvs.readU32 (ascii "dlms_logical") 1).toUInt16
  serverPhysical := (nvs.readU32 (ascii "dlms_physical") 0).toUInt16
  serverAddrLen := (nvs.readU32 (ascii "dlms_addr_len") 1).toUInt8
  importObis := dlmsImportObis
  exportObis := dlmsExportObis
  voltageObis := dlmsVoltageObis

/-- Loads the config, once the namespace is open. The UID comes from eFuse. -/
def loadRs485NodeConfig (opened : Bool) (efuseUid : Uid) (nvs : Nvs) : Option Rs485NodeConfig :=
  if !opened then none
  else
    let model := MeterModel.ofByte (nvs.readU32 (ascii "meter_model") 1).toUInt8
    let entry := lookupMeterModel model
    some {
      uid := efuseUid
      communityId := (nvs.readU32 (ascii "comm_id") 0).toUInt8
      unitId := (nvs.readU32 (ascii "unit_id") 0).toUInt8
      readerType := .ofByte (nvs.readU32 (ascii "reader") 0).toUInt8
      ap := {
        ssid := nvs.readStr (ascii "ap_ssid") secretApSsid 33
        password := nvs.readStr (ascii "ap_pass") secretApPass 65
        dhcpStart := 0 }
      espNow := {
        channel := (nvs.readU32 (ascii "espnow_chan") 6).toUInt8
        sendTimeoutMs := nvs.readU32 (ascii "espnow_to_ms") 100 }
      meterModel := model
      pollIntervalMs := nvs.readU32 (ascii "poll_ms") 1000
      bus := loadRs485Config nvs
      modbus := loadModbusRtuConfig nvs entry
      tcp := {
        host := nvs.readStr (ascii "tcp_host") secretModbusSimHost 64
        port := (nvs.readU32 (ascii "tcp_port") secretModbusSimPort).toUInt16
        connectTimeoutMs := 3000 }
      dlms := loadDlmsCosemConfig nvs }

theorem loadRs485NodeConfig_eq_some {opened : Bool} {efuseUid : Uid} {nvs : Nvs} {cfg : Rs485NodeConfig}
    (h : loadRs485NodeConfig opened efuseUid nvs = some cfg) :
    cfg.bus = loadRs485Config nvs ∧ cfg.dlms = loadDlmsCosemConfig nvs := by
  unfold loadRs485NodeConfig at h
  split at h
  · cases h
  · obtain rfl := Option.some.inj h
    exact ⟨rfl, rfl⟩

end IotFirmware
